import Agorabus.Library.Duration
import Agorabus.Library.Word

namespace Agorabus.Backoff

def window (baseMs capMs : UInt64) (attempt : UInt32) : Option UInt64 := do
  let shift := min attempt 62
  return min capMs (Word.saturatingMul baseMs (← Word.checkedShl 1 shift))

/-- The attempt mixed with the nanoseconds of the clock, which has none before the epoch. -/
def mixed (attempt : UInt32) (clock : Option Duration) : UInt64 :=
  let seed := UInt64.ofNat ((clock.map Duration.nanos).getD 0)
  (seed ^^^ (attempt.toUInt64 * 0x9e3779b97f4a7c15)) + 0x6c62272e07bb0142

def jitterMs (baseMs capMs : UInt64) (attempt : UInt32) (clock : Option Duration) :
    Option UInt64 := do
  let window ← window baseMs capMs attempt
  if window = 0 then return 0 else Word.checkedRem (mixed attempt clock) window

/-- `none` stands for an overflow or a division by zero. -/
def backoffDelay (baseMs capMs : UInt64) (attempt : UInt32) (clock : Option Duration) :
    Option Duration :=
  (jitterMs baseMs capMs attempt clock).map (fun ms => .ofMillis ms.toNat ms.toNat_lt)

variable (baseMs capMs : UInt64) (attempt : UInt32)

theorem window_eq : ∃ w, window baseMs capMs attempt = some w ∧
    w.toNat = min capMs.toNat (baseMs.toNat * 2 ^ min attempt.toNat 62) := by
  have h62 : (min attempt 62).toNat = min attempt.toNat 62 := Word.toNat_min32 attempt 62
  have hshift : (min attempt 62).toNat < 64 := by omega
  obtain ⟨p, hp, hpow⟩ := Word.checkedShl_one hshift
  refine ⟨min capMs (Word.saturatingMul baseMs p), ?_, ?_⟩
  · rw [window, hp]
    rfl
  · have := capMs.toNat_lt
    rw [Word.toNat_min, Word.toNat_saturatingMul, hpow, h62]
    omega

theorem window_mono {attempt later : UInt32} (h : attempt ≤ later) {w w' : UInt64}
    (hw : window baseMs capMs attempt = some w) (hw' : window baseMs capMs later = some w') :
    w ≤ w' := by
  obtain ⟨v, hv, he⟩ := window_eq baseMs capMs attempt
  obtain ⟨v', hv', he'⟩ := window_eq baseMs capMs later
  obtain rfl : w = v := Option.some.inj (hw.symm.trans hv)
  obtain rfl : w' = v' := Option.some.inj (hw'.symm.trans hv')
  have hpow : 2 ^ min attempt.toNat 62 ≤ 2 ^ min later.toNat 62 := by
    have := UInt32.le_iff_toNat_le.mp h
    exact Nat.pow_le_pow_right (by decide) (by omega)
  have hmul := Nat.mul_le_mul_left baseMs.toNat hpow
  rw [UInt64.le_iff_toNat_le, he, he']
  omega

theorem jitterMs_eq (clock : Option Duration) {w : UInt64}
    (hw : window baseMs capMs attempt = some w) :
    ∃ ms, jitterMs baseMs capMs attempt clock = some ms ∧
      if w = 0 then ms = 0 else ms < w := by
  rw [jitterMs, hw, Option.bind_eq_bind, Option.bind_some]
  by_cases h0 : w = 0
  · rw [if_pos h0]
    exact ⟨0, rfl, by rw [if_pos h0]⟩
  · rw [if_neg h0]
    obtain ⟨ms, hms, hlt⟩ := Word.checkedRem_lt (mixed attempt clock) h0
    exact ⟨ms, hms, by rw [if_neg h0]; exact hlt⟩

theorem window_le_cap {w : UInt64} (hw : window baseMs capMs attempt = some w) : w ≤ capMs := by
  obtain ⟨v, hv, he⟩ := window_eq baseMs capMs attempt
  obtain rfl : w = v := Option.some.inj (hw.symm.trans hv)
  rw [UInt64.le_iff_toNat_le, he]
  exact Nat.min_le_left _ _

theorem backoffDelay_eq (clock : Option Duration) :
    ∃ ms : UInt64, backoffDelay baseMs capMs attempt clock =
        some (.ofMillis ms.toNat ms.toNat_lt) ∧
      if baseMs = 0 ∨ capMs = 0 then ms = 0
      else ms.toNat < min capMs.toNat (baseMs.toNat * 2 ^ attempt.toNat) := by
  obtain ⟨w, hw, hwindow⟩ := window_eq baseMs capMs attempt
  have hzero : w = 0 ↔ baseMs = 0 ∨ capMs = 0 := by
    have hpos := Nat.two_pow_pos (min attempt.toNat 62)
    rw [← UInt64.toNat_inj, ← UInt64.toNat_inj, ← UInt64.toNat_inj, hwindow, UInt64.toNat_zero,
      Nat.min_eq_zero_iff, Nat.mul_eq_zero]
    omega
  obtain ⟨ms, hms, hlt⟩ := jitterMs_eq baseMs capMs attempt clock hw
  refine ⟨ms, by rw [backoffDelay, hms]; rfl, ?_⟩
  simp only [hzero] at hlt
  split at hlt
  · rename_i h0
    rw [if_pos h0]
    exact hlt
  · rename_i h0
    have hpow : 2 ^ min attempt.toNat 62 ≤ 2 ^ attempt.toNat :=
      Nat.pow_le_pow_right (by decide) (Nat.min_le_left _ _)
    have hmul := Nat.mul_le_mul_left baseMs.toNat hpow
    rw [UInt64.lt_iff_toNat_lt, hwindow] at hlt
    rw [if_neg h0]
    omega

/-- The delay is nothing if the base or the cap is nothing, and else less than the cap and less
than the base doubled at each attempt. The window that it is drawn from grows with the attempts up
to the cap. -/
theorem backoffDelay_bounded (baseMs capMs : UInt64) (attempt : UInt32)
    (clock : Option Duration) :
    (∃ ms : UInt64, backoffDelay baseMs capMs attempt clock =
        some (.ofMillis ms.toNat ms.toNat_lt) ∧
      if baseMs = 0 ∨ capMs = 0 then ms = 0
      else ms.toNat < min capMs.toNat (baseMs.toNat * 2 ^ attempt.toNat)) ∧
    ∃ w, window baseMs capMs attempt = some w ∧ w ≤ capMs ∧
      (attempt ≤ 62 → w.toNat = min capMs.toNat (baseMs.toNat * 2 ^ attempt.toNat)) ∧
      ∀ later, attempt ≤ later → ∃ w', window baseMs capMs later = some w' ∧ w ≤ w' := by
  obtain ⟨w, hw, hwindow⟩ := window_eq baseMs capMs attempt
  refine ⟨backoffDelay_eq baseMs capMs attempt clock, w, hw, window_le_cap _ _ _ hw, ?_, ?_⟩
  · intro h
    have hle : attempt.toNat ≤ 62 := UInt32.le_iff_toNat_le.mp h
    rw [hwindow, Nat.min_eq_left hle]
  · intro later h
    obtain ⟨w', hw', _⟩ := window_eq baseMs capMs later
    exact ⟨w', hw', window_mono _ _ h hw hw'⟩

end Agorabus.Backoff
