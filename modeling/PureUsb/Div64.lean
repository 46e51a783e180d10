import PureUsb.Division

/-!
This module contains the division of 64 bit numbers by 32 bit numbers in C.
-/

open LongDivision

/-- The loop that doubles the base until nothing above it is left of the dividend. -/
def scaleBase (rem b d : BitVec 64) (fuel : Nat) : Option (BitVec 64 × BitVec 64) :=
  match fuel with
  | 0 => none
  | fuel + 1 =>
    if 0 < b.toInt ∧ b < rem then
      scaleBase rem (b + b) (d + d) fuel
    else
      some (b, d)

/-- The loop that subtracts what the base was doubled to, and halves it: the quotient and the remainder. -/
def subtractBase (rem b res d : BitVec 64) (fuel : Nat) : Option (BitVec 64 × BitVec 64) :=
  match fuel with
  | 0 => none
  | fuel + 1 =>
    let (rem, res) := if rem ≥ b then (rem - b, res + d) else (rem, res)
    let b := b >>> 1
    let d := d >>> 1
    if d ≠ 0 then
      subtractBase rem b res d fuel
    else
      some (res, rem)

/-- `__div64_32`: the quotient and the remainder. A division by zero ends in `__div0`. -/
def div64_32 (n : BitVec 64) (base : BitVec 32) : Option (BitVec 64 × BitVec 32) := do
  let rem := n
  let b : BitVec 64 := base.setWidth 64
  let high : BitVec 32 := (rem >>> 32).setWidth 32
  let (res, rem) ←
    if high ≥ base then
      if base = 0 then
        none
      else
        let high := high / base
        some ((high.setWidth 64 : BitVec 64) <<< 32, rem - ((high * base).setWidth 64 : BitVec 64) <<< 32)
    else
      some (0, rem)
  let (b, d) ← scaleBase rem b 1 64
  let (res, rem) ← subtractBase rem b res d 64
  return (res, rem.setWidth 32)

def doDiv (n : BitVec 64) (base : BitVec 32) : Option (BitVec 64 × BitVec 32) :=
  if n >>> 32 = 0 then
    let n : BitVec 32 := n.setWidth 32
    if base = 0 then
      none
    else
      some ((n / base).setWidth 64, n % base)
  else
    div64_32 n base

def lldiv (dividend : BitVec 64) (divisor : BitVec 32) : Option (BitVec 64) := do
  let (res, _) ← doDiv dividend divisor
  return res

section

variable {N base k q r : Nat} {rem b res d : BitVec 64}

theorem scaleBase_spec (hb : b.toNat = base * 2 ^ k) (hd : d.toNat = 2 ^ k) (hbase : 0 < base)
    {fuel : Nat} (hfuel : 64 ≤ fuel + k)
    : ∃ b' d' k', scaleBase rem b d fuel = some (b', d') ∧ b'.toNat = base * 2 ^ k' ∧
        d'.toNat = 2 ^ k' ∧ rem.toNat < 2 ^ (k' + 1) * base := by
  have hk : k < 64 := lt_of_mul_two_pow_lt hbase (hb ▸ b.isLt)
  have hpos : 0 < base * 2 ^ k := Nat.mul_pos hbase (Nat.two_pow_pos k)
  induction fuel generalizing b d k with
  | zero => omega
  | succ fuel ih =>
    unfold scaleBase
    have hdouble : 2 ^ (k + 1) * base = 2 * (base * 2 ^ k) := by
      rw [Nat.pow_succ]
      ring
    split
    . next hgo =>
      have htop : 2 * b.toNat < 2 ^ 64 := by
        have := hgo.1
        rw [BitVec.toInt_eq_toNat_cond] at this
        split at this
        . assumption
        . have := b.isLt
          omega
      have hd2 : 2 * d.toNat < 2 ^ 64 := by
        have hle : d.toNat ≤ b.toNat := by
          rw [hd, hb]
          exact Nat.le_mul_of_pos_left _ hbase
        omega
      have hb' : (b + b).toNat = base * 2 ^ (k + 1) := by
        rw [BitVec.toNat_add, Nat.mod_eq_of_lt (by omega), hb, Nat.pow_succ]
        ring
      have hd' : (d + d).toNat = 2 ^ (k + 1) := by
        rw [BitVec.toNat_add, Nat.mod_eq_of_lt (by omega), hd, Nat.pow_succ]
        ring
      refine ih hb' hd' (by omega) ?_ ?_
      . exact lt_of_mul_two_pow_lt hbase (hb' ▸ (b + b).isLt)
      . exact Nat.mul_pos hbase (Nat.two_pow_pos _)
    . next hstop =>
      refine ⟨b, d, k, rfl, hb, hd, ?_⟩
      rw [hdouble, ← hb]
      rw [← hb] at hpos
      by_cases htop : 2 * b.toNat < 2 ^ 64
      . have hint : 0 < b.toInt := by
          rw [BitVec.toInt_eq_toNat_cond, if_pos htop]
          omega
        have hle : rem.toNat ≤ b.toNat := Nat.le_of_not_lt fun hlt => hstop ⟨hint, hlt⟩
        omega
      . have := rem.isLt
        omega

theorem Partial.le_quotient (h : Partial N base r q k) (hbase : 0 < base) : q ≤ N / base := by
  rw [Nat.le_div_iff_mul_le hbase]
  have := h.rest
  omega

theorem subtractBase_round {start : Nat} (h : Partial N base rem.toNat q (2 ^ (k + 1)))
    (hb : b.toNat = base * 2 ^ k) (hd : d.toNat = 2 ^ k) (hres : res.toNat = start + q)
    (hlt : start + N / base < 2 ^ 64) (hbase : 0 < base)
    : ∃ q', Partial N base (if rem ≥ b then (rem - b, res + d) else (rem, res)).1.toNat q' (2 ^ k) ∧
        (if rem ≥ b then (rem - b, res + d) else (rem, res)).2.toNat = start + q' := by
  rw [Nat.pow_succ, Nat.mul_comm] at h
  have hstep := h.step
  rw [← hb, ← hd] at hstep
  by_cases hle : b.toNat ≤ rem.toNat
  . rw [if_pos hle, if_pos hle] at hstep
    have hq := Partial.le_quotient hstep hbase
    have hge : rem ≥ b := hle
    rw [if_pos hge]
    refine ⟨q + d.toNat, ?_, ?_⟩
    . rwa [BitVec.toNat_sub_of_le hle, ← hd]
    . rw [BitVec.toNat_add, hres, Nat.mod_eq_of_lt (by omega), Nat.add_assoc]
  . rw [if_neg hle, if_neg hle] at hstep
    have hlt : ¬rem ≥ b := hle
    rw [if_neg hlt]
    exact ⟨q, by rwa [← hd], hres⟩

theorem subtractBase_spec {start : Nat} (h : Partial N base rem.toNat q (2 ^ (k + 1)))
    (hb : b.toNat = base * 2 ^ k) (hd : d.toNat = 2 ^ k) (hres : res.toNat = start + q)
    (hlt : start + N / base < 2 ^ 64) (hbase : 0 < base) {fuel : Nat} (hfuel : k < fuel)
    : ∃ res' rem', subtractBase rem b res d fuel = some (res', rem') ∧
        res'.toNat = start + N / base ∧ rem'.toNat = N % base := by
  obtain ⟨fuel, rfl⟩ : ∃ f, fuel = f + 1 := ⟨fuel - 1, by omega⟩
  induction k generalizing rem b res d q fuel with
  | zero =>
    obtain ⟨q', hpart, hq⟩ := subtractBase_round h hb hd hres hlt hbase
    have hdone : d >>> 1 = 0 := by
      have hshift := mt (shiftRight_pow_ne_zero (j := 1) hd).1 (by decide)
      exact Decidable.not_not.1 hshift
    unfold subtractBase
    generalize (if rem ≥ b then (rem - b, res + d) else (rem, res)) = p at hpart hq
    dsimp only
    rw [if_neg fun hf => hf hdone]
    exact ⟨p.2, p.1, rfl, by rw [hq, hpart.quotient], hpart.remainder⟩
  | succ k ih =>
    obtain ⟨q', hpart, hq⟩ := subtractBase_round h hb hd hres hlt hbase
    have hgo : d >>> 1 ≠ 0 := (shiftRight_pow_ne_zero (j := 1) hd).2 (by omega)
    unfold subtractBase
    generalize (if rem ≥ b then (rem - b, res + d) else (rem, res)) = p at hpart hq
    dsimp only
    rw [if_pos hgo]
    obtain ⟨fuel, rfl⟩ : ∃ f, fuel = f + 1 := ⟨fuel - 1, by omega⟩
    apply ih hpart _ _ hq
    . exact Nat.lt_of_succ_lt_succ hfuel
    . rw [toNat_shiftRight_mul hb (by omega), Nat.add_sub_cancel]
    . rw [toNat_shiftRight_pow hd (by omega), Nat.add_sub_cancel]

end

section

variable {n : BitVec 64} {base : BitVec 32}

theorem div64_loops {rem : BitVec 64} {start : Nat} {res : BitVec 64} (hbase : 0 < base.toNat)
    (hres : res.toNat = start) (hlt : start + rem.toNat / base.toNat < 2 ^ 64)
    : (do
        let (b, d) ← scaleBase rem (base.setWidth 64) 1 64
        let (res, rem) ← subtractBase rem b res d 64
        return (res, (rem.setWidth 32 : BitVec 32)))
      = some (BitVec.ofNat 64 (start + rem.toNat / base.toNat),
          BitVec.ofNat 32 (rem.toNat % base.toNat)) := by
  have hb : (base.setWidth 64 : BitVec 64).toNat = base.toNat * 2 ^ 0 := by
    rw [BitVec.toNat_setWidth, Nat.mod_eq_of_lt (by omega), Nat.pow_zero, Nat.mul_one]
  have hd : (1 : BitVec 64).toNat = 2 ^ 0 := rfl
  obtain ⟨b, d, k, hscale, hb, hd, hrem⟩ :
      ∃ b' d' k', scaleBase rem (base.setWidth 64) 1 64 = some (b', d') ∧ b'.toNat = base.toNat * 2 ^ k' ∧
        d'.toNat = 2 ^ k' ∧ rem.toNat < 2 ^ (k' + 1) * base.toNat :=
    scaleBase_spec hb hd hbase (by omega)
  obtain ⟨res', rem', hsub, hq, hr⟩ := subtractBase_spec (Partial.start hrem) hb hd hres hlt hbase
    (lt_of_mul_two_pow_lt hbase (hb ▸ b.isLt))
  rw [hscale]
  dsimp only [bind, Option.bind]
  rw [hsub]
  dsimp only [pure]
  rw [← hq, ← hr]
  rw [BitVec.ofNat_toNat, BitVec.setWidth_eq, BitVec.ofNat_toNat]

theorem div64_reduced {n b h : Nat} (hb : 0 < b) (hh : h = n / 2 ^ 32)
    : h / b * b * 2 ^ 32 ≤ n ∧ n / b = h / b * 2 ^ 32 + (n - h / b * b * 2 ^ 32) / b ∧
        n % b = (n - h / b * b * 2 ^ 32) % b := by
  have hle : h / b * b * 2 ^ 32 ≤ n := by
    calc h / b * b * 2 ^ 32 ≤ h * 2 ^ 32 := Nat.mul_le_mul_right _ (Nat.div_mul_le_self _ _)
      _ ≤ n := hh ▸ Nat.div_mul_le_self _ _
  have hsplit : n = (n - h / b * b * 2 ^ 32) + h / b * 2 ^ 32 * b := by
    have : h / b * 2 ^ 32 * b = h / b * b * 2 ^ 32 := by ring
    omega
  refine ⟨hle, ?_, ?_⟩
  . conv =>
      lhs
      rw [hsplit, Nat.add_mul_div_right _ _ hb]
    exact Nat.add_comm _ _
  . conv =>
      lhs
      rw [hsplit, Nat.add_mul_mod_self_right]

theorem div64_32_eq (hbase : base ≠ 0)
    : div64_32 n base
        = some (BitVec.ofNat 64 (n.toNat / base.toNat), BitVec.ofNat 32 (n.toNat % base.toNat)) := by
  have hpos : 0 < base.toNat := by
    have := BitVec.toNat_ne_iff_ne.2 hbase
    simpa [Nat.pos_iff_ne_zero] using this
  have hhigh : ((n >>> 32).setWidth 32 : BitVec 32).toNat = n.toNat / 2 ^ 32 := by
    have := n.isLt
    rw [BitVec.toNat_setWidth, BitVec.toNat_ushiftRight, Nat.shiftRight_eq_div_pow, Nat.mod_eq_of_lt (by omega)]
  unfold div64_32
  dsimp only
  generalize ((n >>> 32).setWidth 32 : BitVec 32) = high at hhigh
  by_cases hge : high ≥ base
  . rw [if_pos hge, if_neg hbase]
    obtain ⟨hle, hquot, hrem⟩ := div64_reduced hpos hhigh
    have hprod : (high / base * base).toNat = high.toNat / base.toNat * base.toNat := by
      rw [BitVec.toNat_mul, BitVec.toNat_udiv, Nat.mod_eq_of_lt]
      exact Nat.lt_of_le_of_lt (Nat.div_mul_le_self _ _) high.isLt
    have htaken : (((high / base * base).setWidth 64 : BitVec 64) <<< 32).toNat
        = high.toNat / base.toNat * base.toNat * 2 ^ 32 := by
      have := n.isLt
      rw [BitVec.toNat_shiftLeft, BitVec.toNat_setWidth, Nat.mod_eq_of_lt (by omega), hprod,
        Nat.shiftLeft_eq, Nat.mod_eq_of_lt (by omega)]
    have hstart : (((high / base).setWidth 64 : BitVec 64) <<< 32).toNat
        = high.toNat / base.toNat * 2 ^ 32 := by
      have hlt := (high / base).isLt
      rw [BitVec.toNat_udiv] at hlt
      rw [BitVec.toNat_shiftLeft, BitVec.toNat_setWidth, Nat.mod_eq_of_lt (by omega), BitVec.toNat_udiv,
        Nat.shiftLeft_eq, Nat.mod_eq_of_lt (by omega)]
    generalize ((high / base * base).setWidth 64 : BitVec 64) <<< 32 = taken at htaken
    rw [← htaken] at hle hquot hrem
    rw [← BitVec.toNat_sub_of_le hle] at hquot hrem
    generalize n - taken = left at hquot hrem
    generalize high.toNat / base.toNat * 2 ^ 32 = start at hstart hquot
    have hlt : start + left.toNat / base.toNat < 2 ^ 64 := by
      rw [← hquot]
      exact Nat.lt_of_le_of_lt (Nat.div_le_self _ _) n.isLt
    have hloops := div64_loops hpos hstart hlt
    rw [← hquot, ← hrem] at hloops
    exact hloops
  . rw [if_neg hge]
    have hlt : 0 + n.toNat / base.toNat < 2 ^ 64 := by
      rw [Nat.zero_add]
      exact Nat.lt_of_le_of_lt (Nat.div_le_self _ _) n.isLt
    have hzero : (0 : BitVec 64).toNat = 0 := rfl
    have hloops := div64_loops hpos hzero hlt
    rw [Nat.zero_add] at hloops
    exact hloops

theorem doDiv_eq (hbase : base ≠ 0)
    : doDiv n base
        = some (BitVec.ofNat 64 (n.toNat / base.toNat), BitVec.ofNat 32 (n.toNat % base.toNat)) := by
  unfold doDiv
  split
  . next hsmall =>
    have hlt : n.toNat < 2 ^ 32 := by
      have hzero : (n >>> 32).toNat = 0 := by
        rw [hsmall]
        rfl
      rw [BitVec.toNat_ushiftRight, Nat.shiftRight_eq_div_pow] at hzero
      omega
    have hn : (n.setWidth 32 : BitVec 32).toNat = n.toNat := by
      rw [BitVec.toNat_setWidth, Nat.mod_eq_of_lt hlt]
    dsimp only
    congr 2
    . apply BitVec.eq_of_toNat_eq
      rw [BitVec.toNat_setWidth, BitVec.toNat_udiv, hn, BitVec.toNat_ofNat]
    . apply BitVec.eq_of_toNat_eq
      have hmod : n.toNat % base.toNat < 2 ^ 32 := Nat.lt_of_le_of_lt (Nat.mod_le _ _) hlt
      rw [BitVec.toNat_umod, hn, BitVec.toNat_ofNat, Nat.mod_eq_of_lt hmod]
  . exact div64_32_eq hbase

/-- The function that `do_div` is said to be, for any dividend. -/
theorem doDiv_divides (hbase : base ≠ 0)
    : doDiv n base = some (n / base.setWidth 64, (n % base.setWidth 64).setWidth 32) ∧
        lldiv n base = some (n / base.setWidth 64) := by
  have hb : (base.setWidth 64 : BitVec 64).toNat = base.toNat := by
    rw [BitVec.toNat_setWidth, Nat.mod_eq_of_lt (by omega)]
  have hquot : BitVec.ofNat 64 (n.toNat / base.toNat) = n / base.setWidth 64 := by
    rw [← hb, ← BitVec.toNat_udiv, BitVec.ofNat_toNat, BitVec.setWidth_eq]
  have hrem : BitVec.ofNat 32 (n.toNat % base.toNat) = (n % base.setWidth 64).setWidth 32 := by
    rw [← hb, ← BitVec.toNat_umod, BitVec.ofNat_toNat]
  have heq := doDiv_eq (n := n) hbase
  rw [hquot, hrem] at heq
  refine ⟨heq, ?_⟩
  unfold lldiv
  rw [heq]
  rfl

theorem doDiv_divides_sign
    : doDiv 0xfffffffeffffffff 0xffffffff = some (0xffffffff, 0xfffffffe) ∧
        lldiv 0xfffffffeffffffff 0xffffffff = some 0xffffffff :=
  @doDiv_divides 0xfffffffeffffffff 0xffffffff (by decide)

end
