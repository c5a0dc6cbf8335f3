import Mathlib.Tactic.TypeStar
import Mathlib.Order.Basic
import Mathlib.Algebra.Group.Nat.Defs
import Mathlib.Data.List.Basic

/-!
# Saturating and checked arithmetic on 64-bit words

The operations `saturating_sub`, `saturating_add`, `saturating_mul` and `checked_mul` on unsigned 64-bit
words, and what they are as natural numbers.
-/

namespace UInt64

/-- Subtraction that stops at zero. -/
def saturatingSub (a b : UInt64) : UInt64 :=
  if b ≤ a then a - b else 0

/-- Addition that stops at the largest word. -/
def saturatingAdd (a b : UInt64) : UInt64 :=
  if a.toNat + b.toNat < 2 ^ 64 then a + b else 0xFFFFFFFFFFFFFFFF

/-- Multiplication that stops at the largest word. -/
def saturatingMul (a b : UInt64) : UInt64 :=
  if a.toNat * b.toNat < 2 ^ 64 then a * b else 0xFFFFFFFFFFFFFFFF

/-- Multiplication that answers `none` on overflow. -/
def checkedMul (a b : UInt64) : Option UInt64 :=
  if a.toNat * b.toNat < 2 ^ 64 then some (a * b) else none

@[simp]
theorem toNat_saturatingSub (a b : UInt64) :
  (a.saturatingSub b).toNat = a.toNat - b.toNat
  := by
  unfold saturatingSub
  split
  · next h => rw [UInt64.toNat_sub_of_le _ _ h]
  · next h =>
      rw [UInt64.le_iff_toNat_le] at h
      rw [UInt64.toNat_zero]
      omega

theorem saturatingSub_of_le {a b : UInt64} (h : b ≤ a) :
  a.saturatingSub b = a - b
  := if_pos h

/-- Adding a difference if there is one. -/
theorem add_saturatingSub_of_lt (a b c : UInt64) :
  (if c < b then a + (b - c) else a) = a + b.saturatingSub c
  := by
  split
  · next h => rw [saturatingSub_of_le (UInt64.le_of_lt h)]
  · next h =>
      have hzero : b.saturatingSub c = 0 := by
        rw [UInt64.not_lt, UInt64.le_iff_toNat_le] at h
        rw [← UInt64.toNat_inj, toNat_saturatingSub, UInt64.toNat_zero]
        omega
      rw [hzero, UInt64.add_zero]

/-- Subtracting undoes adding exactly if the sum does not overflow. -/
theorem add_saturatingSub_eq_iff (a b : UInt64) :
  (a + b).saturatingSub b = a ↔ a.toNat + b.toNat < 2 ^ 64
  := by
  have ha := a.toNat_lt
  have hb := b.toNat_lt
  rw [← UInt64.toNat_inj, UInt64.toNat_saturatingSub, UInt64.toNat_add]
  omega

@[simp]
theorem saturatingSub_zero (a : UInt64) :
  a.saturatingSub 0 = a
  := by
  apply UInt64.toNat_inj.mp
  simp

theorem toNat_mul_of_lt {a b : UInt64} (h : a.toNat * b.toNat < 2 ^ 64) :
  (a * b).toNat = a.toNat * b.toNat
  := by
  rw [UInt64.toNat_mul, Nat.mod_eq_of_lt h]

theorem toNat_saturatingMul_of_lt {a b : UInt64} (h : a.toNat * b.toNat < 2 ^ 64) :
  (a.saturatingMul b).toNat = a.toNat * b.toNat
  := by
  rw [saturatingMul, if_pos h, toNat_mul_of_lt h]

theorem toNat_add_of_lt' {a b : UInt64} (h : a.toNat + b.toNat < 2 ^ 64) :
  (a + b).toNat = a.toNat + b.toNat
  := by
  rw [UInt64.toNat_add, Nat.mod_eq_of_lt h]

theorem checkedMul_eq_some_iff {a b c : UInt64} :
  a.checkedMul b = some c ↔ a.toNat * b.toNat < 2 ^ 64 ∧ c = a * b
  := by
  unfold checkedMul
  split
  · next h => exact ⟨fun heq => ⟨h, (Option.some.inj heq).symm⟩, fun hc => congrArg some hc.2.symm⟩
  · next h => exact ⟨fun heq => absurd heq (Option.some_ne_none c).symm, fun hc => absurd hc.1 h⟩

/-- What is left of `a` when as much of it is spent as `b` allows. -/
theorem toNat_sub_min (a b : UInt64) :
  (a - min a b).toNat = a.toNat - b.toNat
  := by
  rw [UInt64.toNat_sub_of_le, toNat_min]
  · omega
  · rw [UInt64.le_iff_toNat_le, toNat_min]
    omega

theorem toNat_sub_min' (a b : UInt64) :
  (b - min a b).toNat = b.toNat - a.toNat
  := by
  rw [UInt64.toNat_sub_of_le, toNat_min]
  · omega
  · rw [UInt64.le_iff_toNat_le, toNat_min]
    omega

theorem max_eq_self_iff {a b : UInt64} :
  max a b = a ↔ b ≤ a
  := by
  have hmax : max a b = if a ≤ b then b else a := rfl
  rw [hmax]
  split
  · next h => exact ⟨fun heq => heq ▸ UInt64.le_refl _, fun h' => UInt64.le_antisymm h' h⟩
  · next h => exact ⟨fun _ => UInt64.le_of_lt (UInt64.not_le.mp h), fun _ => rfl⟩

theorem pos_iff_toNat_pos {a : UInt64} :
  0 < a ↔ 0 < a.toNat
  := by
  rw [UInt64.lt_iff_toNat_lt, UInt64.toNat_zero]

theorem ne_zero_iff_pos {a : UInt64} :
  a ≠ 0 ↔ 0 < a
  := by
  rw [pos_iff_toNat_pos, ne_eq, ← UInt64.toNat_inj, UInt64.toNat_zero]
  omega

/-! ### Shifts -/

theorem toNat_ofNat_mod {j : Nat} (h : j < 64) :
  (UInt64.ofNat j).toNat % 64 = j
  := by
  rw [UInt64.toNat_ofNat']
  omega

theorem toNat_shiftRight_ofNat (a : UInt64) {j : Nat} (h : j < 64) :
  (a >>> UInt64.ofNat j).toNat = a.toNat / 2 ^ j
  := by
  rw [UInt64.toNat_shiftRight, toNat_ofNat_mod h, Nat.shiftRight_eq_div_pow]

theorem toNat_one_shiftLeft {j : Nat} (h : j < 64) :
  ((1 : UInt64) <<< UInt64.ofNat j).toNat = 2 ^ j
  := by
  have hpow : 2 ^ j < 2 ^ 64 := Nat.pow_lt_pow_right (by decide) h
  rw [UInt64.toNat_shiftLeft, toNat_ofNat_mod h, Nat.shiftLeft_eq, UInt64.toNat_one, Nat.one_mul]
  apply Nat.mod_eq_of_lt hpow

end UInt64
