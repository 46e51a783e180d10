import Mathlib.Algebra.Group.Nat.Defs
import Mathlib.Algebra.Order.Ring.Nat
import Mathlib.Tactic.Common
import Mathlib.Tactic.Ring

/-!
This module contains long division in base 2: the bits of the quotient are found one after the other, from the
highest one on, by comparing what is left of the dividend with a multiple of the divisor.
-/

namespace LongDivision

/--
The multiples of `m` in the quotient `N / b` have been found: they are `q`, and `n` is left of `N`.
-/
structure Partial (N b n q m : Nat) : Prop where
  rest : q * b + n = N
  lt : n < m * b
  dvd : m ∣ q

variable {N b n q m c : Nat}

theorem Partial.start (h : N < m * b) : Partial N b N 0 m where
  rest := by rw [Nat.zero_mul, Nat.zero_add]
  lt := h
  dvd := Nat.dvd_zero m

theorem Partial.step (h : Partial N b n q (2 * c))
    : Partial N b (if b * c ≤ n then n - b * c else n) (if b * c ≤ n then q + c else q) c := by
  have hlt : n < 2 * (b * c) := by
    have := h.lt
    rwa [Nat.mul_assoc, Nat.mul_comm c b] at this
  have hdvd : c ∣ q := Nat.dvd_trans (Nat.dvd_mul_left c 2) h.dvd
  split
  . next hle =>
    refine ⟨?_, ?_, Nat.dvd_add hdvd (Nat.dvd_refl c)⟩
    . rw [Nat.add_mul, Nat.mul_comm c b, Nat.add_assoc, Nat.add_sub_cancel' hle, h.rest]
    . rw [Nat.mul_comm c b]
      omega
  . next hgt =>
    refine ⟨h.rest, ?_, hdvd⟩
    rw [Nat.mul_comm c b]
    omega

theorem Partial.quotient (h : Partial N b n q 1) : q = N / b := by
  have hb : n < b := by simpa using h.lt
  rw [← h.rest, Nat.add_comm, Nat.add_mul_div_right _ _ (by omega), Nat.div_eq_of_lt hb, Nat.zero_add]

theorem Partial.remainder (h : Partial N b n q 1) : n = N % b := by
  have hb : n < b := by simpa using h.lt
  rw [← h.rest, Nat.add_comm, Nat.add_mul_mod_self_right, Nat.mod_eq_of_lt hb]

theorem Partial.of_zero (h : Partial N b 0 q m) : q = N / b ∧ N % b = 0 := by
  have hb : 0 < b := Nat.pos_of_mul_pos_left (Nat.zero_lt_of_lt h.lt)
  have hrest : q * b = N := h.rest
  rw [← hrest, Nat.mul_div_cancel _ hb, Nat.mul_mod_left]
  exact ⟨rfl, rfl⟩

/-! ### Machine words -/

section

variable {w k j : Nat} {d x y : BitVec w}

theorem lt_of_mul_two_pow_lt {b : Nat} (hb : 0 < b) (h : b * 2 ^ k < 2 ^ w) : k < w :=
  (Nat.pow_lt_pow_iff_right (by decide)).1 (Nat.lt_of_le_of_lt (Nat.le_mul_of_pos_left _ hb) h)

theorem toNat_shiftRight_mul (h : d.toNat = b * 2 ^ k) (hj : j ≤ k) : (d >>> j).toNat = b * 2 ^ (k - j) := by
  have hpow : 2 ^ k = 2 ^ (k - j) * 2 ^ j := by
    rw [← Nat.pow_add, Nat.sub_add_cancel hj]
  rw [BitVec.toNat_ushiftRight, h, Nat.shiftRight_eq_div_pow, hpow, ← Nat.mul_assoc,
    Nat.mul_div_cancel _ (Nat.two_pow_pos j)]

theorem toNat_shiftRight_pow (h : d.toNat = 2 ^ k) (hj : j ≤ k) : (d >>> j).toNat = 2 ^ (k - j) := by
  rw [← Nat.one_mul (2 ^ k)] at h
  rw [toNat_shiftRight_mul h hj, Nat.one_mul]

theorem shiftRight_pow_ne_zero (h : d.toNat = 2 ^ k) : d >>> j ≠ 0 ↔ j ≤ k := by
  constructor
  . intro hne
    refine Decidable.byContradiction fun hk => hne (BitVec.eq_of_toNat_eq ?_)
    have hlt : 2 ^ k < 2 ^ j := Nat.pow_lt_pow_right (by decide) (Nat.lt_of_not_le hk)
    rw [BitVec.toNat_ushiftRight, h, Nat.shiftRight_eq_div_pow, Nat.div_eq_of_lt hlt]
    rfl
  . intro hj hzero
    have hpos := Nat.two_pow_pos (k - j)
    rw [← toNat_shiftRight_pow h hj, hzero] at hpos
    exact absurd hpos (Nat.lt_irrefl 0)

theorem toNat_or_pow (hx : 2 ^ (k + 1) ∣ x.toNat) (hy : y.toNat = 2 ^ k) : (x ||| y).toNat = x.toNat + 2 ^ k := by
  obtain ⟨i, hi⟩ := hx
  have hlt : 2 ^ k < 2 ^ (k + 1) := Nat.pow_lt_pow_right (by decide) (Nat.lt_succ_self k)
  rw [BitVec.toNat_or, hi, hy]
  exact (Nat.two_pow_add_eq_or_of_lt hlt i).symm

end

/-! ### Some bits in a row -/

section

variable {w : Nat}

/-- What is left of `n` after `j` bits, the highest of them for the divisor `d`. -/
def remaining (d n : BitVec w) : Nat → BitVec w
  | 0 => n
  | j + 1 => if (d >>> j).toNat ≤ (remaining d n j).toNat then remaining d n j - d >>> j else remaining d n j

def fits (d n : BitVec w) (j : Nat) : Prop := (d >>> j).toNat ≤ (remaining d n j).toNat

instance (d n : BitVec w) (j : Nat) : Decidable (fits d n j) := inferInstanceAs (Decidable (_ ≤ _))

def noted (mark : Nat → BitVec w) (d n q : BitVec w) : Nat → BitVec w
  | 0 => q
  | j + 1 => if fits d n j then noted mark d n q j ||| mark j else noted mark d n q j

variable {d n c q : BitVec w} {k j : Nat}

theorem remaining_succ : remaining d n (j + 1) = if fits d n j then remaining d n j - d >>> j else remaining d n j := rfl

theorem noted_succ {mark : Nat → BitVec w}
    : noted mark d n q (j + 1) = if fits d n j then noted mark d n q j ||| mark j else noted mark d n q j := rfl

theorem toNat_remaining_succ
    : (remaining d n (j + 1)).toNat
      = if fits d n j then (remaining d n j).toNat - (d >>> j).toNat else (remaining d n j).toNat := by
  rw [remaining_succ]
  split
  . next h => exact BitVec.toNat_sub_of_le h
  . rfl

theorem Partial.bits (h : Partial N b n.toNat q.toNat (2 ^ (k + 1))) (hd : d.toNat = b * 2 ^ k)
    (hc : c.toNat = 2 ^ k) (hj : j ≤ k + 1)
    : Partial N b (remaining d n j).toNat (noted (c >>> ·) d n q j).toNat (2 ^ (k + 1 - j)) := by
  induction j with
  | zero => exact h
  | succ j ih =>
    have hj' : j ≤ k := Nat.le_of_succ_le_succ hj
    have hpow : k + 1 - j = (k - j) + 1 := Nat.succ_sub hj'
    have hprev := ih (Nat.le_of_succ_le hj)
    rw [hpow] at hprev
    have hdvd := hprev.dvd
    rw [Nat.pow_succ, Nat.mul_comm] at hprev
    have hstep := hprev.step
    rw [Nat.add_sub_add_right, toNat_remaining_succ, noted_succ]
    have hfits : fits d n j ↔ b * 2 ^ (k - j) ≤ (remaining d n j).toNat := by
      rw [fits, toNat_shiftRight_mul hd hj']
    by_cases hf : fits d n j
    . rw [if_pos (hfits.1 hf), if_pos (hfits.1 hf)] at hstep
      rw [if_pos hf, if_pos hf, toNat_shiftRight_mul hd hj', toNat_or_pow hdvd (toNat_shiftRight_pow hc hj')]
      exact hstep
    . rw [if_neg (fun h => hf (hfits.2 h)), if_neg (fun h => hf (hfits.2 h))] at hstep
      rw [if_neg hf, if_neg hf]
      exact hstep

theorem Partial.exists_bits (h : ∃ q : BitVec w, Partial N b n.toNat q.toNat (2 ^ (k + 1)))
    (hd : d.toNat = b * 2 ^ k) (hj : j ≤ k + 1)
    : ∃ q : BitVec w, Partial N b (remaining d n j).toNat q.toNat (2 ^ (k + 1 - j)) := by
  obtain ⟨q, h⟩ := h
  have hb : 0 < b := Nat.pos_of_mul_pos_left (Nat.zero_lt_of_lt h.lt)
  have hlt : 2 ^ k < 2 ^ w := by
    calc 2 ^ k ≤ b * 2 ^ k := Nat.le_mul_of_pos_left _ hb
      _ = d.toNat := hd.symm
      _ < 2 ^ w := d.isLt
  have hc : (BitVec.ofNat w (2 ^ k)).toNat = 2 ^ k := by
    rw [BitVec.toNat_ofNat, Nat.mod_eq_of_lt hlt]
  exact ⟨_, h.bits hd hc hj⟩

/-- Bits after the lowest one do not change the quotient: their mark has been shifted out. -/
theorem Partial.last (h : Partial N b n.toNat q.toNat (2 ^ (k + 1))) (hd : d.toNat = b * 2 ^ k)
    (hc : c.toNat = 2 ^ k) (hj : k + 1 ≤ j)
    : (noted (c >>> ·) d n q j).toNat = N / b := by
  induction j, hj using Nat.le_induction with
  | base =>
    have hbits := h.bits hd hc (Nat.le_refl _)
    rw [Nat.sub_self] at hbits
    exact hbits.quotient
  | succ j hj ih =>
    have hmark : c >>> j = 0 := Decidable.not_not.1 (mt (shiftRight_pow_ne_zero hc).1 (Nat.not_le.2 hj))
    rw [noted_succ]
    split
    . show (_ ||| c >>> j).toNat = _
      rw [hmark]
      simpa using ih
    . exact ih

theorem Partial.modulo (h : Partial N b n.toNat q.toNat (2 ^ (k + 1))) (hd : d.toNat = b * 2 ^ k)
    (hc : c.toNat = 2 ^ k)
    : (remaining d n (k + 1)).toNat = N % b := by
  have hbits := h.bits hd hc (Nat.le_refl _)
  rw [Nat.sub_self] at hbits
  exact hbits.remainder

end

end LongDivision
