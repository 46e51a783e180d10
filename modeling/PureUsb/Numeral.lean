import Mathlib.Data.Nat.Digits.Lemmas
import Mathlib.Tactic.Common
import Mathlib.Tactic.Ring

/-!
This module contains numerals: the digits of a number, of which there is at least one.
-/

/-- The digits of `n` in the base `b`, the least significant one first. The numeral of 0 is 0. -/
def numeral (b n : Nat) : List Nat := if n = 0 then [0] else Nat.digits b n

namespace Numeral

variable {b n : Nat}

theorem zero : numeral b 0 = [0] := rfl

theorem of_lt (h : n < b) : numeral b n = [n] := by
  unfold numeral
  split
  . next hzero => rw [hzero]
  . next hpos => exact Nat.digits_of_lt b n hpos h

theorem of_ge (hb : 1 < b) (h : b ≤ n) : numeral b n = n % b :: numeral b (n / b) := by
  have hpos : n ≠ 0 := by omega
  have hdiv : n / b ≠ 0 := Nat.div_ne_zero_iff.2 ⟨by omega, h⟩
  unfold numeral
  rw [if_neg hpos, if_neg hdiv, Nat.digits_def' hb (Nat.pos_of_ne_zero hpos)]

def fixed (b k n : Nat) : List Nat :=
  match k with
  | 0 => []
  | k + 1 => n % b :: fixed b k (n / b)

theorem of_pow_le {k : Nat} (hb : 1 < b) (h : b ^ k ≤ n) : numeral b n = fixed b k n ++ numeral b (n / b ^ k) := by
  induction k generalizing n with
  | zero => rw [Nat.pow_zero, Nat.div_one, fixed, List.nil_append]
  | succ k ih =>
    have hle : b ^ k ≤ n / b := by
      rw [Nat.le_div_iff_mul_le (by omega), ← Nat.pow_succ]
      exact h
    have hge : b ≤ n := Nat.le_trans (Nat.le_self_pow (Nat.succ_ne_zero k) b) h
    rw [of_ge hb hge, ih hle, Nat.div_div_eq_div_mul, Nat.pow_succ', fixed, List.cons_append]

theorem fixed_mod {k : Nat} : fixed b k (n % b ^ k) = fixed b k n := by
  induction k generalizing n with
  | zero => rfl
  | succ k ih =>
    rw [fixed, fixed, Nat.pow_succ', Nat.mod_mul_right_mod, Nat.mod_mul_right_div_self, ih]

theorem ne_nil : numeral b n ≠ [] := by
  unfold numeral
  split
  . exact List.cons_ne_nil _ _
  . next hpos => exact Nat.digits_ne_nil_iff_ne_zero.2 hpos

theorem digit_lt (hb : 1 < b) {d : Nat} (hd : d ∈ numeral b n) : d < b := by
  unfold numeral at hd
  split at hd
  . rw [List.mem_singleton.1 hd]
    omega
  . exact Nat.digits_lt_base hb hd

theorem length_le {k : Nat} (hb : 1 < b) (hk : 0 < k) (h : n < b ^ k) : (numeral b n).length ≤ k := by
  unfold numeral
  split
  . exact hk
  . exact (Nat.digits_length_le_iff hb n).2 h

theorem ofDigits_eq : Nat.ofDigits b (numeral b n) = n := by
  unfold numeral
  split
  . next hzero => rw [hzero, Nat.ofDigits_singleton]
  . exact Nat.ofDigits_digits b n

/-- The value of digits, read from the most significant one on, behind others with the value `r`. -/
def value (b r : Nat) (l : List Nat) : Nat := l.foldl (fun r d => r * b + d) r

theorem value_eq (r : Nat) (l : List Nat) : value b r l.reverse = Nat.ofDigits b l + r * b ^ l.length := by
  induction l generalizing r with
  | nil => simp [value]
  | cons d l ih =>
    unfold value at ih ⊢
    rw [List.reverse_cons, List.foldl_append, ih, Nat.ofDigits_cons]
    simp only [List.foldl_cons, List.foldl_nil, List.length_cons, Nat.pow_succ]
    ring

theorem value_mod (m r : Nat) (l : List Nat) : value b (r % m) l % m = value b r l % m := by
  induction l generalizing r with
  | nil => exact Nat.mod_mod _ _
  | cons d l ih =>
    have hstep : (r % m * b + d) % m = (r * b + d) % m := by
      rw [Nat.add_mod, Nat.mod_mul_mod, ← Nat.add_mod]
    change value b (r % m * b + d) l % m = value b (r * b + d) l % m
    rw [← ih (r % m * b + d), hstep, ih]

theorem value_zeros (k : Nat) (l : List Nat) : value b 0 (List.replicate k 0 ++ l) = value b 0 l := by
  induction k with
  | zero => rfl
  | succ k ih =>
    rw [List.replicate_succ, List.cons_append]
    change value b (0 * b + 0) (List.replicate k 0 ++ l) = value b 0 l
    rw [Nat.zero_mul, Nat.zero_add, ih]

theorem value_numeral : value b 0 (numeral b n).reverse = n := by
  rw [value_eq, ofDigits_eq, Nat.zero_mul, Nat.add_zero]

theorem leading_ne_zero (h : n ≠ 0) : ∃ d l, (numeral b n).reverse = d :: l ∧ d ≠ 0 := by
  have hnil : Nat.digits b n ≠ [] := Nat.digits_ne_nil_iff_ne_zero.2 h
  refine ⟨(Nat.digits b n).getLast hnil, (Nat.digits b n).dropLast.reverse, ?_, Nat.getLast_digit_ne_zero b h⟩
  unfold numeral
  rw [if_neg h]
  conv =>
    lhs
    rw [← List.dropLast_concat_getLast hnil]
  rw [List.reverse_append]
  rfl

end Numeral
