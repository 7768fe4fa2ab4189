import Mathlib.Algebra.Ring.Nat

def nanosPerSec : Nat := 1000000000

/-- A span of time: whole seconds in 64 bits, and nanoseconds. -/
structure Duration where
  secs : Nat
  nanos : Nat
  secs_lt : secs < 2 ^ 64
  nanos_lt : nanos < nanosPerSec
  deriving DecidableEq

namespace Duration

def asNanos (d : Duration) : Nat := d.secs * nanosPerSec + d.nanos

def ofMillis (n : Nat) (h : n < 2 ^ 64) : Duration where
  secs := n / 1000
  nanos := n % 1000 * 1000000
  secs_lt := Nat.lt_of_le_of_lt (Nat.div_le_self n 1000) h
  nanos_lt := by
    rw [nanosPerSec]
    omega

def checkedMul (d : Duration) (k : Nat) : Option Duration :=
  let total := d.nanos * k
  let secs := d.secs * k + total / nanosPerSec
  if h : secs < 2 ^ 64 then some ⟨secs, total % nanosPerSec, h, Nat.mod_lt _ (by decide)⟩ else none

theorem div_nanos (d : Duration) (k : Nat) : (d.secs * nanosPerSec + d.nanos) / k =
    d.secs / k * nanosPerSec + (d.nanos / k + (d.secs % k * nanosPerSec + d.nanos % k) / k) := by
  obtain rfl | hk := Nat.eq_zero_or_pos k
  · simp
  have hs : d.secs = d.secs / k * k + d.secs % k := (Nat.div_add_mod' _ _).symm
  have hn : d.nanos = d.nanos / k * k + d.nanos % k := (Nat.div_add_mod' _ _).symm
  have hsum : d.secs * nanosPerSec + d.nanos = d.secs % k * nanosPerSec + d.nanos % k +
      k * (d.secs / k * nanosPerSec + d.nanos / k) := by
    have he : d.secs * nanosPerSec = (d.secs / k * k + d.secs % k) * nanosPerSec := by rw [← hs]
    rw [Nat.add_mul, Nat.mul_right_comm] at he
    rw [Nat.mul_add, Nat.mul_comm k, Nat.mul_comm k]
    omega
  rw [hsum, Nat.add_mul_div_left _ _ hk]
  omega

theorem div_nanos_lt (d : Duration) {k : Nat} (hk : 0 < k) :
    d.nanos / k + (d.secs % k * nanosPerSec + d.nanos % k) / k < nanosPerSec := by
  have hlt : (d.secs * nanosPerSec + d.nanos) / k < (d.secs / k + 1) * nanosPerSec := by
    have hs : d.secs + 1 ≤ (d.secs / k + 1) * k := by
      rw [Nat.mul_comm]
      exact Nat.lt_mul_div_succ d.secs hk
    have hm := Nat.mul_le_mul_right nanosPerSec hs
    have := d.nanos_lt
    rw [Nat.add_mul, Nat.one_mul] at hm
    rw [Nat.div_lt_iff_lt_mul hk, Nat.mul_right_comm]
    omega
  rw [div_nanos, Nat.add_mul, Nat.one_mul] at hlt
  omega

def checkedDiv (d : Duration) (k : Nat) : Option Duration :=
  if h : k = 0 then none
  else some ⟨d.secs / k, d.nanos / k + (d.secs % k * nanosPerSec + d.nanos % k) / k,
    Nat.lt_of_le_of_lt (Nat.div_le_self _ _) d.secs_lt, d.div_nanos_lt (Nat.pos_of_ne_zero h)⟩

protected def max (d e : Duration) : Duration :=
  if d.secs < e.secs ∨ (d.secs = e.secs ∧ d.nanos ≤ e.nanos) then e else d

@[simp] theorem asNanos_ofMillis (n : Nat) (h : n < 2 ^ 64) :
    (ofMillis n h).asNanos = n * 1000000 := by
  simp only [asNanos, ofMillis, nanosPerSec]
  omega

theorem asNanos_checkedMul (d : Duration) (k : Nat) : (d.checkedMul k).map asNanos =
    if d.asNanos * k < 2 ^ 64 * nanosPerSec then some (d.asNanos * k) else none := by
  have hprod : d.asNanos * k = (d.secs * k + d.nanos * k / nanosPerSec) * nanosPerSec +
      d.nanos * k % nanosPerSec := by
    rw [asNanos, Nat.add_mul, Nat.add_mul, Nat.mul_right_comm, Nat.add_assoc, Nat.div_add_mod']
  have hfit : d.asNanos * k < 2 ^ 64 * nanosPerSec ↔
      d.secs * k + d.nanos * k / nanosPerSec < 2 ^ 64 := by
    have := Nat.mod_lt (d.nanos * k) (show 0 < nanosPerSec by decide)
    rw [hprod]
    generalize d.secs * k + d.nanos * k / nanosPerSec = s at *
    rw [nanosPerSec] at *
    omega
  unfold checkedMul
  dsimp only
  split
  · rename_i h
    rw [if_pos (hfit.mpr h), Option.map_some, asNanos, hprod]
  · rename_i h
    rw [if_neg (fun hc => h (hfit.mp hc))]
    rfl

theorem asNanos_checkedDiv (d : Duration) {k : Nat} (hk : k ≠ 0) :
    (d.checkedDiv k).map asNanos = some (d.asNanos / k) := by
  rw [checkedDiv, dif_neg hk, Option.map_some]
  exact congrArg some (div_nanos d k).symm

theorem asNanos_max (d e : Duration) : (d.max e).asNanos = max d.asNanos e.asNanos := by
  have := d.nanos_lt
  have := e.nanos_lt
  unfold Duration.max
  simp only [asNanos, nanosPerSec] at *
  split <;> omega

end Duration
