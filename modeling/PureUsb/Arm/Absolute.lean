import PureUsb.Arm.Machine

/-!
This module contains facts about words that the signed routines use: absolute values, and single bits.
-/

namespace Arm

section

variable {x y : Word}

theorem sdiv_eq_abs
    : x.sdiv y = if (x ^^^ y).msb then -(BitVec.abs x / BitVec.abs y) else BitVec.abs x / BitVec.abs y := by
  rw [BitVec.sdiv_eq, BitVec.msb_xor]
  unfold BitVec.abs
  cases hx : x.msb <;> cases hy : y.msb <;> simp

theorem srem_eq_abs : x.srem y = if x.msb then -(BitVec.abs x % BitVec.abs y) else BitVec.abs x % BitVec.abs y := by
  rw [BitVec.srem_eq]
  unfold BitVec.abs
  cases hx : x.msb <;> cases hy : y.msb <;> simp

theorem sub_udiv_mul : x - x / y * y = x % y := by
  have hle : x.toNat / y.toNat * y.toNat ≤ x.toNat := Nat.div_mul_le_self _ _
  have hmul : (x / y * y).toNat = x.toNat / y.toNat * y.toNat := by
    rw [BitVec.toNat_mul, BitVec.toNat_udiv, Nat.mod_eq_of_lt (Nat.lt_of_le_of_lt hle x.isLt)]
  apply BitVec.eq_of_toNat_eq
  rw [BitVec.toNat_sub_of_le (by rwa [BitVec.le_def, hmul]), hmul, BitVec.toNat_umod, Nat.mod_eq_sub, Nat.mul_comm]

theorem sub_sdiv_mul : x - x.sdiv y * y = x.srem y := by
  have habs (z : Word) : BitVec.abs z = if z.msb then -z else z := rfl
  rw [sdiv_eq_abs, srem_eq_abs, ← sub_udiv_mul, BitVec.msb_xor, habs, habs]
  cases hx : x.msb <;> cases hy : y.msb <;>
    simp only [Bool.xor_false, Bool.xor_true, Bool.not_false, Bool.not_true, if_true, if_false, Bool.false_eq_true,
      BitVec.neg_mul, BitVec.mul_neg]
  . generalize -x / y * y = z
    bv_omega
  . generalize -x / -y * y = z
    bv_omega

theorem abs_pos (hy : y ≠ 0) : 0 < (BitVec.abs y).toNat := by
  refine Nat.pos_of_ne_zero (fun h => hy ?_)
  have hzero : BitVec.abs y = 0 := BitVec.eq_of_toNat_eq h
  unfold BitVec.abs at hzero
  split at hzero
  . exact BitVec.neg_eq_zero_iff.1 hzero
  . exact hzero

theorem asr_or_one : x.sshiftRight 31 ||| 1 = if x.msb then -1 else 1 := by
  have hasr : x.sshiftRight 31 = if x.msb then -1 else 0 := by
    have hlow := x.le_toInt
    have hhigh := x.toInt_lt
    apply BitVec.eq_of_toInt_eq
    rw [BitVec.toInt_sshiftRight, Int.shiftRight_eq_div_pow, BitVec.msb_eq_toInt]
    by_cases hneg : x.toInt < 0
    . have hone : ((if decide (x.toInt < 0) then -1 else 0 : Word)).toInt = -1 := by
        rw [if_pos (decide_eq_true hneg)]
        rfl
      rw [hone]
      omega
    . have hzero : ((if decide (x.toInt < 0) then -1 else 0 : Word)).toInt = 0 := by
        rw [if_neg (by simpa using hneg)]
        rfl
      rw [hzero]
      omega
  rw [hasr]
  cases x.msb <;> rfl

theorem and_top_eq_zero : x &&& 0xe0000000#32 = 0#32 ↔ x.toNat < 2 ^ 29 := by
  have hmask : ∀ i < 32, (0xe0000000#32).getLsbD i = decide (29 ≤ i) := by decide
  have hand : x &&& 0xe0000000#32 = (x >>> 29) <<< 29 := by
    apply BitVec.eq_of_getLsbD_eq
    intro i hi
    rw [BitVec.getLsbD_and, hmask i hi, BitVec.getLsbD_shiftLeft, BitVec.getLsbD_ushiftRight]
    by_cases h : 29 ≤ i
    . simp [h, hi, Nat.not_lt.2 h]
    . simp [h, Nat.lt_of_not_le h]
  rw [hand]
  constructor
  . intro hzero
    have hnat := congrArg BitVec.toNat hzero
    have hlt := x.isLt
    rw [BitVec.toNat_shiftLeft, BitVec.toNat_ushiftRight, Nat.shiftRight_eq_div_pow, Nat.shiftLeft_eq,
      Nat.mod_eq_of_lt (by omega)] at hnat
    have hmul : x.toNat / 2 ^ 29 * 2 ^ 29 = 0 := hnat
    omega
  . intro hlt
    have hzero : x >>> 29 = 0#32 := by
      apply BitVec.eq_of_toNat_eq
      rw [BitVec.toNat_ushiftRight, Nat.shiftRight_eq_div_pow, Nat.div_eq_of_lt hlt]
      rfl
    rw [hzero]
    rfl

theorem exists_shiftLeft_one (hx : x ≠ 0) (h : x &&& (x - 1) = 0) : ∃ k < 32, x = 1#32 <<< k := by
  have hpos : x.toNat ≠ 0 := fun hzero => hx (BitVec.eq_of_toNat_eq hzero)
  have hand : x.toNat &&& (x.toNat - 1) = 0 := by
    have hsub : (x - 1).toNat = x.toNat - 1 := by bv_omega
    rw [← hsub, ← BitVec.toNat_and, h]
    rfl
  obtain ⟨k, hk⟩ := (Nat.and_sub_one_eq_zero_iff_isPowerOfTwo hpos).1 hand
  have hlt := x.isLt
  rw [hk] at hlt
  refine ⟨k, (Nat.pow_lt_pow_iff_right (by decide)).1 hlt, ?_⟩
  apply BitVec.eq_of_toNat_eq
  rw [hk, BitVec.toNat_shiftLeft, Nat.shiftLeft_eq, BitVec.toNat_ofNat, Nat.one_mod, Nat.one_mul, Nat.mod_eq_of_lt hlt]

theorem toNat_shiftLeft_one {k : Nat} (hk : k < 32) : (1#32 <<< k).toNat = 2 ^ k := by
  rw [BitVec.toNat_shiftLeft, Nat.shiftLeft_eq, BitVec.toNat_ofNat, Nat.one_mod, Nat.one_mul,
    Nat.mod_eq_of_lt (Nat.pow_lt_pow_right (by decide) hk)]

theorem and_sub_one_eq_umod (hy : y ≠ 0) (h : y &&& (y - 1) = 0) : x &&& (y - 1) = x % y := by
  obtain ⟨k, hk, rfl⟩ := exists_shiftLeft_one hy h
  have hsub : (1#32 <<< k - 1).toNat = 2 ^ k - 1 := by
    have hpos := Nat.two_pow_pos k
    rw [← toNat_shiftLeft_one hk] at hpos ⊢
    bv_omega
  apply BitVec.eq_of_toNat_eq
  rw [BitVec.toNat_and, BitVec.toNat_umod, hsub, toNat_shiftLeft_one hk, Nat.and_two_pow_sub_one_eq_mod]

end

end Arm
