import Mathlib.Data.Int.GCD

namespace PeriodicLease

variable (tick period start lease : Nat)

def renewedAt (k : Nat) : Nat := start + k * period

/-- The lease ends a number of ticks after the tick in which it was written, and a clock that shows
whole ticks never gets there before the next renewal. -/
def Covers : Prop :=
  ∀ k t, renewedAt period start k ≤ t → t < renewedAt period start (k + 1) →
    t / tick < renewedAt period start k / tick + lease

variable {tick period start lease}

theorem renewedAt_succ (k : Nat) :
    renewedAt period start (k + 1) = renewedAt period start k + period := by
  rw [renewedAt, renewedAt, Nat.succ_mul, Nat.add_assoc]

theorem outlasts_period_iff (ht : 0 < tick) (hp : 0 < period) (s : Nat) :
    (∀ t, s ≤ t → t < s + period → t / tick < s / tick + lease) ↔
      s % tick + period ≤ lease * tick := by
  have hs : s / tick * tick + s % tick = s := Nat.div_add_mod' s tick
  have hlt (t : Nat) : t / tick < s / tick + lease ↔ t < s / tick * tick + lease * tick := by
    rw [Nat.div_lt_iff_lt_mul ht, Nat.add_mul]
  constructor
  · intro h
    have hlast := (hlt _).mp (h (s + period - 1) (by omega) (by omega))
    omega
  · intro h t _ ht
    rw [hlt]
    omega

theorem covers_iff_forall (ht : 0 < tick) (hp : 0 < period) :
    Covers tick period start lease ↔
      ∀ k, renewedAt period start k % tick + period ≤ lease * tick := by
  refine forall_congr' (fun k => ?_)
  rw [renewedAt_succ]
  exact outlasts_period_iff ht hp _

theorem mod_renewedAt {d n i : Nat} (hd : 0 < d) (hp : period = i * d) (k : Nat) :
    renewedAt period start k % (d * n) = start % d + d * ((start / d + k * i) % n) := by
  have hk : renewedAt period start k = start + d * (k * i) := by
    rw [renewedAt, hp, ← Nat.mul_assoc, Nat.mul_comm d]
  rw [Nat.mod_mul, hk, Nat.add_mul_mod_self_left, Nat.add_mul_div_left _ _ hd]

theorem mod_renewedAt_le (ht : 0 < tick) (k : Nat) : renewedAt period start k % tick +
    Nat.gcd period tick ≤ start % Nat.gcd period tick + tick := by
  have hd : 0 < Nat.gcd period tick := Nat.gcd_pos_of_pos_right _ ht
  obtain ⟨i, n, _, hi, hn⟩ := Nat.exists_coprime period tick
  generalize Nat.gcd period tick = d at hd hi hn
  have hn0 : 0 < n := Nat.pos_of_mul_pos_right (hn ▸ ht)
  have hr : d * ((start / d + k * i) % n) + d ≤ d * n := by
    rw [← Nat.mul_succ]
    exact Nat.mul_le_mul_left d (Nat.mod_lt _ hn0)
  rw [hn, Nat.mul_comm n, mod_renewedAt hd hi]
  omega

theorem exists_mod_renewedAt (ht : 0 < tick) : ∃ k, renewedAt period start k % tick +
    Nat.gcd period tick = start % Nat.gcd period tick + tick := by
  have hd : 0 < Nat.gcd period tick := Nat.gcd_pos_of_pos_right _ ht
  obtain ⟨i, n, hcop, hi, hn⟩ := Nat.exists_coprime period tick
  generalize Nat.gcd period tick = d at hd hi hn
  have hn0 : 0 < n := Nat.pos_of_mul_pos_right (hn ▸ ht)
  obtain ⟨k, _, hk⟩ := Nat.exists_mul_mod_eq_of_coprime (n - 1 + (n - 1) * (start / d)) hcop
    (Nat.ne_of_gt hn0)
  refine ⟨k, ?_⟩
  have hlast : (start / d + k * i) % n = n - 1 := by
    have hsum : start / d + (n - 1 + (n - 1) * (start / d)) = n - 1 + n * (start / d) := by
      obtain ⟨n, rfl⟩ := Nat.exists_eq_add_of_lt hn0
      simp only [Nat.zero_add, Nat.add_sub_cancel, Nat.add_mul, Nat.one_mul]
      omega
    rw [Nat.mul_comm k, Nat.add_mod, hk, ← Nat.add_mod, hsum, Nat.add_mul_mod_self_left]
    exact Nat.mod_eq_of_lt (Nat.sub_lt hn0 Nat.one_pos)
  have hr : d * (n - 1) + d = d * n := by
    rw [← Nat.mul_succ, Nat.succ_eq_add_one, Nat.sub_add_cancel hn0]
  rw [hn, Nat.mul_comm n, mod_renewedAt hd hi, hlast]
  omega

/-- The lease holds through all renewals if and only if it holds at the one that comes latest in
its tick. -/
theorem covers_iff (ht : 0 < tick) (hp : 0 < period) : Covers tick period start lease ↔
    period + start % Nat.gcd period tick + tick ≤ lease * tick + Nat.gcd period tick := by
  rw [covers_iff_forall ht hp]
  constructor
  · intro h
    obtain ⟨k, hk⟩ : ∃ k, renewedAt period start k % tick + Nat.gcd period tick =
        start % Nat.gcd period tick + tick := exists_mod_renewedAt ht
    have := h k
    omega
  · intro h k
    have hle : renewedAt period start k % tick + Nat.gcd period tick ≤
        start % Nat.gcd period tick + tick := mod_renewedAt_le ht k
    omega

end PeriodicLease
