import Mathlib.Algebra.Group.Nat.Defs
import Mathlib.Tactic.Common

/-!
This module contains the bit fields of machine words: what is read from a word that was put together with
shifts and ors, in the way that C does.
-/

namespace BitVec

variable {w : Nat} {x y mask : BitVec w} {k p l : Nat}

def field (x : BitVec w) (p l : Nat) : Nat := x.toNat / 2 ^ p % 2 ^ l

@[simp]
theorem field_or : (x ||| y).field p l = x.field p l ||| y.field p l := by
  unfold field
  rw [toNat_or, Nat.or_div_two_pow, Nat.or_mod_two_pow]

theorem field_zero : (0#w).field p l = 0 := by
  simp [field]

theorem field_above (h : x.toNat < 2 ^ p) : x.field p l = 0 := by
  unfold field
  rw [Nat.div_eq_of_lt h, Nat.zero_mod]

theorem field_shiftLeft (h : k + l ≤ w) : (x <<< k).field k l = x.toNat % 2 ^ l := by
  unfold field
  apply Nat.eq_of_testBit_eq
  intro i
  simp only [toNat_shiftLeft, Nat.testBit_mod_two_pow, Nat.testBit_div_two_pow, Nat.testBit_shiftLeft]
  by_cases hi : i < l
  . have hw : i + k < w := by omega
    simp [hi, hw]
  . simp [hi]

theorem field_shiftLeft_below (h : p + l ≤ k) : (x <<< k).field p l = 0 := by
  unfold field
  apply Nat.eq_of_testBit_eq
  intro i
  simp only [toNat_shiftLeft, Nat.testBit_mod_two_pow, Nat.testBit_div_two_pow, Nat.testBit_shiftLeft,
    Nat.zero_testBit]
  by_cases hi : i < l
  . have hk : ¬i + p ≥ k := by omega
    simp [hk]
  . simp [hi]

theorem field_shiftLeft_above (hx : x.toNat < 2 ^ (p - k)) (h : k ≤ p) : (x <<< k).field p l = 0 := by
  apply field_above
  have hpow : 2 ^ (p - k) * 2 ^ k = 2 ^ p := by
    rw [← Nat.pow_add, Nat.sub_add_cancel h]
  rw [toNat_shiftLeft, Nat.shiftLeft_eq]
  apply Nat.lt_of_le_of_lt (Nat.mod_le _ _)
  rw [← hpow]
  exact Nat.mul_lt_mul_of_pos_right hx (Nat.two_pow_pos k)

theorem toNat_shiftRight_and (hmask : mask.toNat = 2 ^ l - 1)
    : ((x >>> p) &&& mask).toNat = x.field p l := by
  unfold field
  rw [toNat_and, toNat_ushiftRight, hmask, Nat.and_two_pow_sub_one_eq_mod, Nat.shiftRight_eq_div_pow]

theorem field_one : x.field p 1 = if x.getLsbD p then 1 else 0 := by
  unfold field
  rw [← testBit_toNat, Nat.testBit_eq_decide_div_mod_eq]
  have := Nat.mod_two_eq_zero_or_one (x.toNat / 2 ^ p)
  rcases this with h | h <;> simp [h]

end BitVec
