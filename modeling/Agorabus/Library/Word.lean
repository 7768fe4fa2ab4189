import Mathlib.Algebra.Ring.Nat

namespace Word

def checkedShl (x : UInt64) (n : UInt32) : Option UInt64 :=
  if n < 64 then some (x <<< n.toUInt64) else none

def checkedRem (x y : UInt64) : Option UInt64 := if y = 0 then none else some (x % y)

def saturatingMul (x y : UInt64) : UInt64 :=
  if x.toNat * y.toNat < 2 ^ 64 then x * y else UInt64.ofNat (2 ^ 64 - 1)

def saturatingAdd (x y : UInt64) : UInt64 :=
  if x.toNat + y.toNat < 2 ^ 64 then x + y else UInt64.ofNat (2 ^ 64 - 1)

def saturatingSucc (x : UInt32) : UInt32 := if x.toNat + 1 < 2 ^ 32 then x + 1 else x

theorem toNat_min (x y : UInt64) : (min x y).toNat = min x.toNat y.toNat := by
  change (if x ≤ y then x else y).toNat = _
  split
  · rename_i h
    exact (Nat.min_eq_left (UInt64.le_iff_toNat_le.mp h)).symm
  · rename_i h
    rw [UInt64.le_iff_toNat_le] at h
    omega

theorem toNat_min32 (x y : UInt32) : (min x y).toNat = min x.toNat y.toNat := by
  change (if x ≤ y then x else y).toNat = _
  split
  · rename_i h
    exact (Nat.min_eq_left (UInt32.le_iff_toNat_le.mp h)).symm
  · rename_i h
    rw [UInt32.le_iff_toNat_le] at h
    omega

theorem toNat_saturatingMul (x y : UInt64) :
    (saturatingMul x y).toNat = min (x.toNat * y.toNat) (2 ^ 64 - 1) := by
  unfold saturatingMul
  split
  · rename_i h
    rw [UInt64.toNat_mul, Nat.mod_eq_of_lt h]
    omega
  · rename_i h
    rw [UInt64.toNat_ofNat']
    omega

theorem toNat_saturatingAdd (x y : UInt64) :
    (saturatingAdd x y).toNat = min (x.toNat + y.toNat) (2 ^ 64 - 1) := by
  unfold saturatingAdd
  split
  · rename_i h
    rw [UInt64.toNat_add, Nat.mod_eq_of_lt h]
    omega
  · rename_i h
    rw [UInt64.toNat_ofNat']
    omega

theorem toNat_saturatingSucc (x : UInt32) :
    (saturatingSucc x).toNat = min (x.toNat + 1) (2 ^ 32 - 1) := by
  have := x.toNat_lt
  unfold saturatingSucc
  split
  · rename_i h
    rw [UInt32.toNat_add, UInt32.toNat_one, Nat.mod_eq_of_lt h]
    omega
  · omega

theorem checkedShl_one {n : UInt32} (h : n.toNat < 64) :
    ∃ w, checkedShl 1 n = some w ∧ w.toNat = 2 ^ n.toNat := by
  refine ⟨_, if_pos (UInt32.lt_iff_toNat_lt.mpr h), ?_⟩
  have hpow : 2 ^ n.toNat < 2 ^ 64 := Nat.pow_lt_pow_right (by decide) h
  rw [UInt64.toNat_shiftLeft, UInt32.toNat_toUInt64, Nat.mod_eq_of_lt h, UInt64.toNat_one,
    Nat.one_shiftLeft, Nat.mod_eq_of_lt hpow]

theorem checkedRem_lt (x : UInt64) {y : UInt64} (h : y ≠ 0) :
    ∃ r, checkedRem x y = some r ∧ r < y := by
  refine ⟨_, if_neg h, ?_⟩
  rw [UInt64.lt_iff_toNat_lt, UInt64.toNat_mod]
  exact Nat.mod_lt _ (Nat.pos_of_ne_zero (fun h0 => h (UInt64.toNat_inj.mp h0)))

end Word
