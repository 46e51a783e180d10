import PureUsb.Numeral
import PureUsb.Vsprintf.Impl.Number

/-!
This module contains the digits that are written for a number.
-/

namespace Vsprintf

def decimalChar (d : Nat) : Byte := BitVec.ofNat 8 (48 + d)

namespace PutDec

variable {q x : BitVec 32}

theorem putDigit_eq : putDigit x = decimalChar x.toNat := by
  apply BitVec.eq_of_toNat_eq
  unfold putDigit decimalChar
  rw [BitVec.toNat_setWidth, BitVec.toNat_add, BitVec.toNat_ofNat]
  have : (48 : BitVec 32).toNat = 48 := rfl
  omega

theorem toNat_mul_lt {c : BitVec 32} {m : Nat} (hx : x.toNat ≤ m) (h : m * c.toNat < 2 ^ 32)
    : (x * c).toNat = x.toNat * c.toNat := by
  rw [BitVec.toNat_mul, Nat.mod_eq_of_lt]
  exact Nat.lt_of_le_of_lt (Nat.mul_le_mul_right _ hx) h

theorem tenth_cd (h : x.toNat ≤ 1018) : ((x * 0xcd) >>> 11).toNat = x.toNat / 10 := by
  have hc : (0xcd : BitVec 32).toNat = 205 := rfl
  rw [BitVec.toNat_ushiftRight, toNat_mul_lt h (by decide), hc, Nat.shiftRight_eq_div_pow]
  omega

theorem tenth_d (h : x.toNat ≤ 68) : ((x * 0xd) >>> 7).toNat = x.toNat / 10 := by
  have hc : (0xd : BitVec 32).toNat = 13 := rfl
  rw [BitVec.toNat_ushiftRight, toNat_mul_lt h (by decide), hc, Nat.shiftRight_eq_div_pow]
  omega

/-- The last digit of `x`, of which `q` is a tenth. -/
def lastDigit (x q : BitVec 32) : Byte := putDigit (x - 10 * q)

theorem lastDigit_eq (h : q.toNat = x.toNat / 10) : lastDigit x q = decimalChar (x.toNat % 10) := by
  have hc : (10 : BitVec 32).toNat = 10 := rfl
  have hmul : (10 * q).toNat = 10 * (x.toNat / 10) := by
    rw [BitVec.toNat_mul, hc, h, Nat.mod_eq_of_lt]
    omega
  have hle : 10 * q ≤ x := by
    rw [BitVec.le_def, hmul]
    omega
  rw [lastDigit, putDigit_eq, BitVec.toNat_sub_of_le hle, hmul]
  congr 1
  omega

abbrev nibble0 (q : BitVec 32) : BitVec 32 := q &&& 0xf
abbrev nibble1 (q : BitVec 32) : BitVec 32 := (q >>> 4) &&& 0xf
abbrev nibble2 (q : BitVec 32) : BitVec 32 := (q >>> 8) &&& 0xf
abbrev nibble3 (q : BitVec 32) : BitVec 32 := q >>> 12

/-- What the nibbles add to each decimal digit, with what is carried from the digit before. -/
def sum0 (q : BitVec 32) : BitVec 32 := 6 * (nibble3 q + nibble2 q + nibble1 q) + nibble0 q
def sum1 (q : BitVec 32) : BitVec 32 := ((sum0 q * 0xcd) >>> 11) + 9 * nibble3 q + 5 * nibble2 q + nibble1 q
def sum2 (q : BitVec 32) : BitVec 32 := ((sum1 q * 0xcd) >>> 11) + 2 * nibble2 q
def sum3 (q : BitVec 32) : BitVec 32 := ((sum2 q * 0xd) >>> 7) + 4 * nibble3 q

theorem toNat_nibble (k : Nat) : ((q >>> k) &&& 0xf).toNat = q.toNat / 2 ^ k % 16 := by
  rw [BitVec.toNat_and, BitVec.toNat_ushiftRight, Nat.shiftRight_eq_div_pow]
  exact Nat.and_two_pow_sub_one_eq_mod _ 4

theorem toNat_nibble0 : (nibble0 q).toNat = q.toNat % 16 := by
  rw [BitVec.toNat_and]
  exact Nat.and_two_pow_sub_one_eq_mod _ 4

/-- The digits below 100000 from the sums. -/
structure Sums (q : BitVec 32) : Prop where
  low : (sum0 q).toNat % 10 = q.toNat % 10
  tens : (sum1 q).toNat % 10 = q.toNat / 10 % 10
  hundreds : (sum2 q).toNat % 10 = q.toNat / 100 % 10
  thousands : (sum3 q).toNat = q.toNat / 1000
  sum0_le : (sum0 q).toNat ≤ 1018
  sum1_le : (sum1 q).toNat ≤ 1018
  sum2_le : (sum2 q).toNat ≤ 68
  tens_zero : (sum1 q).toNat = 0 ↔ q.toNat < 10
  hundreds_zero : (sum2 q).toNat = 0 ∧ (nibble3 q).toNat = 0 ↔ q.toNat < 100

theorem sums (h : q.toNat < 100000) : Sums q := by
  have h0 := toNat_nibble0 (q := q)
  have h1 : (nibble1 q).toNat = q.toNat / 16 % 16 := toNat_nibble 4
  have h2 : (nibble2 q).toNat = q.toNat / 256 % 16 := toNat_nibble 8
  have h3 : (nibble3 q).toNat = q.toNat / 4096 := by
    rw [BitVec.toNat_ushiftRight, Nat.shiftRight_eq_div_pow]
  have hq : q.toNat = 4096 * (nibble3 q).toNat + 256 * (nibble2 q).toNat + 16 * (nibble1 q).toNat
      + (nibble0 q).toNat := by
    omega
  have hb0 : (nibble0 q).toNat < 16 := by omega
  have hb1 : (nibble1 q).toNat < 16 := by omega
  have hb2 : (nibble2 q).toNat < 16 := by omega
  have hb3 : (nibble3 q).toNat < 25 := by omega
  clear h0 h1 h2 h3
  have c2 : (2 : BitVec 32).toNat = 2 := rfl
  have c4 : (4 : BitVec 32).toNat = 4 := rfl
  have c5 : (5 : BitVec 32).toNat = 5 := rfl
  have c6 : (6 : BitVec 32).toNat = 6 := rfl
  have c9 : (9 : BitVec 32).toNat = 9 := rfl
  have hsum0 : (sum0 q).toNat
      = 6 * ((nibble3 q).toNat + (nibble2 q).toNat + (nibble1 q).toNat) + (nibble0 q).toNat := by
    unfold sum0
    simp (disch := omega) only [BitVec.toNat_add, BitVec.toNat_mul, c6, Nat.mod_eq_of_lt]
  have hle0 : (sum0 q).toNat ≤ 1018 := by omega
  have hsum1 : (sum1 q).toNat
      = (sum0 q).toNat / 10 + 9 * (nibble3 q).toNat + 5 * (nibble2 q).toNat + (nibble1 q).toNat := by
    unfold sum1
    simp (disch := omega) only [BitVec.toNat_add, BitVec.toNat_mul, tenth_cd hle0, c5, c9, Nat.mod_eq_of_lt]
  have hle1 : (sum1 q).toNat ≤ 1018 := by omega
  have hsum2 : (sum2 q).toNat = (sum1 q).toNat / 10 + 2 * (nibble2 q).toNat := by
    unfold sum2
    simp (disch := omega) only [BitVec.toNat_add, BitVec.toNat_mul, tenth_cd hle1, c2, Nat.mod_eq_of_lt]
  have hle2 : (sum2 q).toNat ≤ 68 := by omega
  have hsum3 : (sum3 q).toNat = (sum2 q).toNat / 10 + 4 * (nibble3 q).toNat := by
    unfold sum3
    simp (disch := omega) only [BitVec.toNat_add, BitVec.toNat_mul, tenth_d hle2, c4, Nat.mod_eq_of_lt]
  -- what the sums leave out of the number are tens of the next digit
  have hten : q.toNat / 10 = (sum1 q).toNat + 10 * (40 * (nibble3 q).toNat + 2 * (nibble2 q).toNat) := by omega
  have hhundred : q.toNat / 100 = (sum2 q).toNat + 10 * (4 * (nibble3 q).toNat) := by
    rw [← Nat.div_div_eq_div_mul q.toNat 10 10, hten]
    omega
  have hthousand : q.toNat / 1000 = (sum3 q).toNat := by
    rw [← Nat.div_div_eq_div_mul q.toNat 100 10, hhundred]
    omega
  exact ⟨by omega, by omega, by omega, by omega, hle0, hle1, hle2, by omega, by omega⟩

theorem putDecFull_eq_sums
    : putDecFull q
        = [lastDigit (sum0 q) ((sum0 q * 0xcd) >>> 11), lastDigit (sum1 q) ((sum1 q * 0xcd) >>> 11),
          lastDigit (sum2 q) ((sum2 q * 0xd) >>> 7), lastDigit (sum3 q) ((sum3 q * 0xcd) >>> 11),
          putDigit ((sum3 q * 0xcd) >>> 11)] :=
  rfl

theorem putDecTrunc_eq_sums
    : putDecTrunc q
        = lastDigit (sum0 q) ((sum0 q * 0xcd) >>> 11) ::
            if sum1 q ≠ 0 then
              lastDigit (sum1 q) ((sum1 q * 0xcd) >>> 11) ::
                if sum2 q ≠ 0 ∨ nibble3 q ≠ 0 then
                  lastDigit (sum2 q) ((sum2 q * 0xd) >>> 7) ::
                    if sum3 q ≠ 0 then
                      lastDigit (sum3 q) ((sum3 q * 0xcd) >>> 11) ::
                        if (sum3 q * 0xcd) >>> 11 ≠ 0 then [putDigit ((sum3 q * 0xcd) >>> 11)] else []
                    else []
                else []
            else [] :=
  rfl

theorem ne_zero_iff : x ≠ 0 ↔ x.toNat ≠ 0 := BitVec.toNat_ne_iff_ne.symm

/-- The characters of the five digits. -/
structure Places (q : BitVec 32) : Prop where
  ones : lastDigit (sum0 q) ((sum0 q * 0xcd) >>> 11) = decimalChar (q.toNat % 10)
  tens : lastDigit (sum1 q) ((sum1 q * 0xcd) >>> 11) = decimalChar (q.toNat / 10 % 10)
  hundreds : lastDigit (sum2 q) ((sum2 q * 0xd) >>> 7) = decimalChar (q.toNat / 100 % 10)
  thousands : lastDigit (sum3 q) ((sum3 q * 0xcd) >>> 11) = decimalChar (q.toNat / 1000 % 10)
  top : ((sum3 q * 0xcd) >>> 11).toNat = q.toNat / 10000

theorem places (h : q.toNat < 100000) : Places q := by
  have hs := sums h
  have hle3 : (sum3 q).toNat ≤ 1018 := by
    rw [hs.thousands]
    omega
  refine ⟨?_, ?_, ?_, ?_, ?_⟩
  . rw [lastDigit_eq (tenth_cd hs.sum0_le), hs.low]
  . rw [lastDigit_eq (tenth_cd hs.sum1_le), hs.tens]
  . rw [lastDigit_eq (tenth_d hs.sum2_le), hs.hundreds]
  . rw [lastDigit_eq (tenth_cd hle3), hs.thousands]
  . rw [tenth_cd hle3, hs.thousands, Nat.div_div_eq_div_mul]

theorem putDecFull_eq (h : q.toNat < 100000) : putDecFull q = (Numeral.fixed 10 5 q.toNat).map decimalChar := by
  have hp := places h
  have htop : q.toNat / 10000 % 10 = q.toNat / 10000 := by omega
  rw [putDecFull_eq_sums, hp.ones, hp.tens, hp.hundreds, hp.thousands, putDigit_eq, hp.top]
  simp only [Numeral.fixed, Nat.div_div_eq_div_mul, List.map_cons, List.map_nil, htop]

theorem putDecTrunc_eq (h : q.toNat < 100000) : putDecTrunc q = (numeral 10 q.toNat).map decimalChar := by
  have hs := sums h
  have hp := places h
  rw [putDecTrunc_eq_sums, hp.ones, hp.tens, hp.hundreds, hp.thousands, putDigit_eq, hp.top]
  have h1 : sum1 q ≠ 0 ↔ ¬q.toNat < 10 := ne_zero_iff.trans (not_congr hs.tens_zero)
  have h2 : sum2 q ≠ 0 ∨ nibble3 q ≠ 0 ↔ ¬q.toNat < 100 := by
    rw [← hs.hundreds_zero, ne_zero_iff, ne_zero_iff]
    omega
  have h3 : sum3 q ≠ 0 ↔ ¬q.toNat < 1000 := by
    rw [ne_zero_iff, hs.thousands]
    omega
  have h4 : (sum3 q * 0xcd) >>> 11 ≠ 0 ↔ ¬q.toNat < 10000 := by
    rw [ne_zero_iff, hp.top]
    omega
  have step {n : Nat} (hn : ¬n < 10) : numeral 10 n = n % 10 :: numeral 10 (n / 10) :=
    Numeral.of_ge (by decide) (Nat.le_of_not_lt hn)
  by_cases hlt1 : q.toNat < 10
  . rw [if_neg (mt h1.1 (not_not_intro hlt1)), Numeral.of_lt hlt1, Nat.mod_eq_of_lt hlt1]
    rfl
  rw [if_pos (h1.2 hlt1), step hlt1, List.map_cons]
  congr 1
  by_cases hlt2 : q.toNat < 100
  . rw [if_neg (mt h2.1 (not_not_intro hlt2)), Numeral.of_lt (by omega), Nat.mod_eq_of_lt (by omega)]
    rfl
  rw [if_pos (h2.2 hlt2), step (by omega), List.map_cons, Nat.div_div_eq_div_mul]
  congr 1
  by_cases hlt3 : q.toNat < 1000
  . rw [if_neg (mt h3.1 (not_not_intro hlt3)), Numeral.of_lt (by omega), Nat.mod_eq_of_lt (by omega)]
    rfl
  rw [if_pos (h3.2 hlt3), step (by omega), List.map_cons, Nat.div_div_eq_div_mul]
  congr 1
  by_cases hlt4 : q.toNat < 10000
  . rw [if_neg (mt h4.1 (not_not_intro hlt4)), Numeral.of_lt (by omega), Nat.mod_eq_of_lt (by omega)]
    rfl
  rw [if_pos (h4.2 hlt4), step (by omega), List.map_cons, Nat.div_div_eq_div_mul, Numeral.of_lt (by omega)]
  rfl

theorem putDecLoop_eq {fuel : Nat} {num : BitVec 64} (hfuel : num.toNat < 100000 ^ (fuel + 1))
    : putDecLoop (fuel + 1) num = some ((numeral 10 num.toNat).map decimalChar) := by
  induction fuel generalizing num with
  | zero =>
    have hlt : num.toNat < 100000 := hfuel
    unfold putDecLoop
    rw [if_pos (BitVec.lt_def.2 hlt), putDecTrunc_eq]
    all_goals rw [BitVec.toNat_setWidth, Nat.mod_eq_of_lt (by omega)]
    exact hlt
  | succ fuel ih =>
    unfold putDecLoop
    split
    . next hsmall =>
      have hlt : num.toNat < 100000 := BitVec.lt_def.1 hsmall
      rw [putDecTrunc_eq]
      all_goals rw [BitVec.toNat_setWidth, Nat.mod_eq_of_lt (by omega)]
      exact hlt
    . next hlarge =>
      have hge : 10 ^ 5 ≤ num.toNat := Nat.le_of_not_lt fun hlt => hlarge (BitVec.lt_def.2 hlt)
      have hbase : (100000 : BitVec 32) ≠ 0 := by decide
      have hc : (100000 : BitVec 32).toNat = 10 ^ 5 := rfl
      have hnum := num.isLt
      have hquot : (BitVec.ofNat 64 (num.toNat / 10 ^ 5)).toNat = num.toNat / 10 ^ 5 := by
        rw [BitVec.toNat_ofNat, Nat.mod_eq_of_lt (Nat.lt_of_le_of_lt (Nat.div_le_self _ _) hnum)]
      have hrem : (BitVec.ofNat 32 (num.toNat % 10 ^ 5)).toNat = num.toNat % 10 ^ 5 := by
        rw [BitVec.toNat_ofNat, Nat.mod_eq_of_lt (by omega)]
      have hnext : (BitVec.ofNat 64 (num.toNat / 10 ^ 5)).toNat < 100000 ^ (fuel + 1) := by
        rw [hquot, Nat.div_lt_iff_lt_mul (by decide)]
        exact hfuel
      rw [doDiv_eq hbase, hc]
      simp only [bind, Option.bind]
      rw [ih hnext, hquot, putDecFull_eq (by omega), hrem, Numeral.fixed_mod, Numeral.of_pow_le (by decide) hge,
        List.map_append]
      rfl

end PutDec

theorem pow_ge {b : Nat} (hb : 2 ≤ b) (num : BitVec 64) : num.toNat < b ^ (63 + 1) :=
  Nat.lt_of_lt_of_le num.isLt (Nat.pow_le_pow_left hb 64)

theorem putDec_eq (num : BitVec 64) : putDec num = some ((numeral 10 num.toNat).map decimalChar) :=
  PutDec.putDecLoop_eq (pow_ge (by decide) num)

/-- What `put_dec` writes are the decimal digits of the number, without a 0 in front of them. -/
theorem putDec_decimal (num : BitVec 64)
    : ∃ l : List Nat, putDec num = some (l.map decimalChar) ∧ 0 < l.length ∧ l.length ≤ 20 ∧
        (∀ d ∈ l, d < 10) ∧ Numeral.value 10 0 l.reverse = num.toNat ∧
        (1 < l.length → ∃ d rest, l.reverse = d :: rest ∧ d ≠ 0) := by
  refine ⟨numeral 10 num.toNat, putDec_eq num, ?_, ?_, ?_, Numeral.value_numeral, ?_⟩
  . exact List.length_pos_iff.2 Numeral.ne_nil
  . have hnum := num.isLt
    exact Numeral.length_le (by decide) (by decide) (Nat.lt_trans hnum (by decide))
  . intro d hd
    exact Numeral.digit_lt (by decide) hd
  . intro hlen
    apply Numeral.leading_ne_zero
    intro hzero
    rw [hzero, Numeral.zero] at hlen
    exact absurd hlen (by decide)

/-- The character of a digit in any base, with letters in the case of `locase`. -/
def digitChar (locase : Byte) (d : Nat) : Byte := digits.getD d 0 ||| locase

theorem digitChar_decimal {locase : Byte} (hlocase : locase = 0 ∨ locase = 0x20) {d : Nat} (hd : d < 10)
    : digitChar locase d = decimalChar d := by
  have upper : ∀ d < 10, digitChar 0 d = decimalChar d := by decide
  have lower : ∀ d < 10, digitChar 0x20 d = decimalChar d := by decide
  cases hlocase with
  | inl h => exact h ▸ upper d hd
  | inr h => exact h ▸ lower d hd

section

variable {mask locase : Byte} {shift : Nat} {num : BitVec 64}

theorem toNat_masked (hmask : mask.toNat = 2 ^ shift - 1) (hshift : shift ≤ 8)
    : (num.setWidth 8 &&& mask).toNat = num.toNat % 2 ^ shift := by
  rw [BitVec.toNat_and, BitVec.toNat_setWidth, hmask, Nat.and_two_pow_sub_one_eq_mod]
  exact Nat.mod_mod_of_dvd _ (Nat.pow_dvd_pow 2 hshift)

theorem toNat_shifted : (num >>> shift).toNat = num.toNat / 2 ^ shift := by
  rw [BitVec.toNat_ushiftRight, Nat.shiftRight_eq_div_pow]

theorem shiftDigits_last (hmask : mask.toNat = 2 ^ shift - 1) (hshift : shift ≤ 8)
    (hlt : num.toNat < 2 ^ shift) (fuel : Nat)
    : shiftDigits mask shift locase (fuel + 1) num
        = some ((numeral (2 ^ shift) num.toNat).map (digitChar locase)) := by
  have hzero : num >>> shift = 0 := by
    apply BitVec.eq_of_toNat_eq
    rw [toNat_shifted, Nat.div_eq_of_lt hlt]
    rfl
  unfold shiftDigits
  dsimp only
  rw [hzero, if_neg (not_not_intro rfl), toNat_masked hmask hshift, Nat.mod_eq_of_lt hlt, Numeral.of_lt hlt]
  rfl

theorem shiftDigits_eq (hmask : mask.toNat = 2 ^ shift - 1) (hpos : 0 < shift) (hshift : shift ≤ 8)
    {fuel : Nat} (hfuel : num.toNat < (2 ^ shift) ^ (fuel + 1))
    : shiftDigits mask shift locase (fuel + 1) num
        = some ((numeral (2 ^ shift) num.toNat).map (digitChar locase)) := by
  have hbase : 1 < 2 ^ shift := Nat.one_lt_two_pow (Nat.ne_of_gt hpos)
  induction fuel generalizing num with
  | zero =>
    rw [Nat.zero_add, Nat.pow_one] at hfuel
    exact shiftDigits_last hmask hshift hfuel 0
  | succ fuel ih =>
    by_cases hlt : num.toNat < 2 ^ shift
    . exact shiftDigits_last hmask hshift hlt (fuel + 1)
    . have hge : 2 ^ shift ≤ num.toNat := Nat.le_of_not_lt hlt
      have hnext : (num >>> shift).toNat < (2 ^ shift) ^ (fuel + 1) := by
        rw [toNat_shifted, Nat.div_lt_iff_lt_mul (by omega)]
        exact hfuel
      have hne : num >>> shift ≠ 0 := by
        apply BitVec.toNat_ne_iff_ne.1
        rw [toNat_shifted]
        exact Nat.div_ne_zero_iff.2 ⟨by omega, hge⟩
      unfold shiftDigits
      dsimp only
      rw [if_pos hne, ih hnext, toNat_masked hmask hshift, toNat_shifted, Numeral.of_ge hbase hge]
      rfl

end

theorem numberDigits_eq {base : Nat} {locase : Byte} (hbase : base = 8 ∨ base = 10 ∨ base = 16)
    (hlocase : locase = 0 ∨ locase = 0x20) (num : BitVec 64)
    : numberDigits num base locase = some ((numeral base num.toNat).map (digitChar locase)) := by
  have hten (l : List Nat) (hl : ∀ d ∈ l, d < 10) : l.map decimalChar = l.map (digitChar locase) := by
    apply List.map_congr_left
    intro d hd
    exact (digitChar_decimal hlocase (hl d hd)).symm
  unfold numberDigits
  split
  . next hzero =>
    have hchar : digitChar locase 0 = chr '0' := digitChar_decimal hlocase (by decide)
    have hnum : num.toNat = 0 := by
      rw [hzero]
      rfl
    rw [hnum, Numeral.zero, List.map_cons, hchar]
    rfl
  . obtain rfl | rfl | rfl := hbase
    . exact shiftDigits_eq rfl (by decide) (by decide) (pow_ge (by decide) num)
    . rw [if_neg (not_not_intro rfl), putDec_eq, hten]
      intro d hd
      exact Numeral.digit_lt (by decide) hd
    . exact shiftDigits_eq rfl (by decide) (by decide) (pow_ge (by decide) num)

end Vsprintf
