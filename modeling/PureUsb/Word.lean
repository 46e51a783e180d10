import Mathlib.Algebra.Group.Nat.Defs
import Mathlib.Tactic.Common

/-!
This module contains facts about single bits of machine words, in the way that C tests them.
-/

namespace BitVec

variable {w : Nat}

theorem and_bit_ne_zero_iff {x : BitVec w} {k : Nat} (hk : k < w)
    : x &&& (1#w <<< k) ≠ 0 ↔ x.getLsbD k = true := by
  have : 1#w <<< k = twoPow w k := (twoPow_eq w k).symm
  rw [this, and_twoPow]
  split
  . next h =>
    simp only [h, iff_true]
    intro hz
    have := congrArg (getLsbD · k) hz
    simp [hk] at this
  . next h => simp [h]

theorem and_bit_eq_zero_iff {x : BitVec w} {k : Nat} (hk : k < w)
    : x &&& (1#w <<< k) = 0 ↔ x.getLsbD k = false := by
  have := and_bit_ne_zero_iff (x := x) hk
  rw [← not_iff_not, ← ne_eq, this]
  simp

theorem getLsbD_of_toNat_lt {x : BitVec w} {k : Nat} (h : x.toNat < 2 ^ k) : x.getLsbD k = false :=
  Nat.testBit_lt_two_pow h

end BitVec
