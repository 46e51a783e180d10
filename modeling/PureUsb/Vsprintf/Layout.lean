import PureUsb.Vsprintf.Digits

/-!
This module contains the layout of a number that is written: how it is padded.
-/

namespace Vsprintf

def signText (num : BitVec 64) (type : BitVec 32) : List Byte :=
  if type &&& sign ≠ 0 then
    if num.toInt < 0 then [chr '-']
    else if type &&& plus ≠ 0 then [chr '+']
    else if type &&& space ≠ 0 then [chr ' ']
    else []
  else
    []

def magnitude (num : BitVec 64) (type : BitVec 32) : Nat :=
  if type &&& sign ≠ 0 then num.toInt.natAbs else num.toNat

/-- What stands between the sign and the digits for the base. -/
def prefixText (base : Nat) (type : BitVec 32) : List Byte :=
  if type &&& special = 0 then []
  else if base = 8 then [chr '0']
  else if base = 16 then [chr '0', if type &&& small ≠ 0 then chr 'x' else chr 'X']
  else []

def locase (type : BitVec 32) : Byte := if type &&& small ≠ 0 then 0x20 else 0

/-- The digits, at least `precision` of them. -/
def digitsText (num : BitVec 64) (base : Nat) (precision : Int) (type : BitVec 32) : List Byte :=
  let text := ((numeral base (magnitude num type)).map (digitChar (locase type))).reverse
  List.replicate (precision.toNat - text.length) (chr '0') ++ text

/-- A text in a field of at least `size` characters: on the left of it, behind zeros, or on the right of it. -/
def laidOut (signs digits : List Byte) (size : Int) (type : BitVec 32) : List Byte :=
  let pad := size.toNat - (signs ++ digits).length
  if type &&& left ≠ 0 then
    signs ++ digits ++ List.replicate pad (chr ' ')
  else if type &&& zeropad ≠ 0 then
    signs ++ List.replicate pad (chr '0') ++ digits
  else
    List.replicate pad (chr ' ') ++ signs ++ digits

section

variable {type m : BitVec 32}

theorem and_clear (h : ~~~zeropad &&& m = m) (type : BitVec 32) : type &&& ~~~zeropad &&& m = type &&& m := by
  rw [BitVec.and_assoc, h]

theorem and_zeropad_left : type &&& (zeropad + left) = 0 ↔ type &&& zeropad = 0 ∧ type &&& left = 0 := by
  have h : (zeropad + left : BitVec 32) = zeropad ||| left := rfl
  rw [h, BitVec.and_or_distrib_left]
  exact BitVec.or_eq_zero_iff

theorem fill_fst (c : Byte) (size : Int) : (fill c size).1 = List.replicate size.toNat c := rfl

theorem fill_spent (c c' : Byte) (size : Int) : (fill c' (fill c size).2).1 = [] := by
  have h : (fill c size).2.toNat = 0 := by
    unfold fill
    dsimp only
    split
    . omega
    . rfl
  rw [fill_fst, h]
  rfl

end

section

variable {num : BitVec 64} {size : Int} {type : BitVec 32}

theorem toNat_neg_of_neg (h : num.toInt < 0) : (-num).toNat = num.toInt.natAbs := by
  rw [BitVec.toInt_eq_toNat_cond] at h ⊢
  split at h
  . omega
  . next hge =>
    rw [if_neg hge, BitVec.toNat_neg]
    have := num.isLt
    omega

theorem toNat_of_nonneg (h : ¬num.toInt < 0) : num.toNat = num.toInt.natAbs := by
  rw [BitVec.toInt_eq_toNat_cond] at h ⊢
  split at h
  . next hlt =>
    rw [if_pos hlt]
    rfl
  . have := num.isLt
    omega

theorem numberSign_eq (num : BitVec 64) (size : Int) (type : BitVec 32)
    : (if (numberSign num size type).1 ≠ 0 then [(numberSign num size type).1] else []) = signText num type ∧
        (numberSign num size type).2.1.toNat = magnitude num type ∧
        (numberSign num size type).2.2 = size - (signText num type).length := by
  unfold numberSign signText magnitude
  by_cases hsign : type &&& sign ≠ 0
  . simp only [if_pos hsign]
    by_cases hneg : num.toInt < 0
    . simp only [if_pos hneg]
      exact ⟨rfl, toNat_neg_of_neg hneg, rfl⟩
    . simp only [if_neg hneg]
      have hnum := toNat_of_nonneg hneg
      by_cases hplus : type &&& plus ≠ 0
      . simp only [if_pos hplus]
        exact ⟨rfl, hnum, rfl⟩
      . by_cases hspace : type &&& space ≠ 0
        . simp only [if_neg hplus, if_pos hspace]
          exact ⟨rfl, hnum, rfl⟩
        . simp only [if_neg hplus, if_neg hspace]
          exact ⟨rfl, hnum, (Int.sub_zero size).symm⟩
  . simp only [if_neg hsign]
    exact ⟨rfl, trivial, (Int.sub_zero size).symm⟩

end

section

variable {type ty : BitVec 32}

theorem cleared_left (hty : (if type &&& left ≠ 0 then type &&& ~~~zeropad else type) = ty)
    : ty &&& left = type &&& left := by
  rw [← hty]
  split
  . exact and_clear (by decide) type
  . rfl

theorem cleared_of_not_left (hty : (if type &&& left ≠ 0 then type &&& ~~~zeropad else type) = ty)
    (hleft : type &&& left = 0) : ty = type := by
  rw [← hty, if_neg (not_not_intro hleft)]

theorem padded {signs zeros text : List Byte} {s size : Int} {lead pad : List Byte × Int}
    (hty : (if type &&& left ≠ 0 then type &&& ~~~zeropad else type) = ty)
    (hlead : (if ty &&& (zeropad + left) = 0 then fill (chr ' ') s else ([], s)) = lead)
    (hpad : (if ty &&& left = 0 then fill (if ty &&& zeropad ≠ 0 then chr '0' else chr ' ') lead.2
      else ([], lead.2)) = pad)
    (hs : s.toNat = size.toNat - (signs ++ (zeros ++ text)).length)
    : lead.1 ++ signs ++ pad.1 ++ zeros ++ text ++ (fill (chr ' ') pad.2).1
        = laidOut signs (zeros ++ text) size type := by
  have hboth : ty &&& (zeropad + left) = 0 ↔ ty &&& zeropad = 0 ∧ ty &&& left = 0 := and_zeropad_left
  rw [cleared_left hty] at hboth hpad
  unfold laidOut
  rw [← hs]
  by_cases hleft : type &&& left = 0
  . have hsame := cleared_of_not_left hty hleft
    rw [hsame] at hboth hlead hpad
    rw [if_pos hleft] at hpad
    rw [if_neg (not_not_intro hleft)]
    by_cases hzero : type &&& zeropad = 0
    . rw [if_pos (hboth.2 ⟨hzero, hleft⟩)] at hlead
      rw [if_neg (not_not_intro hzero)] at hpad ⊢
      rw [← hpad, ← hlead, fill_spent, fill_spent, fill_fst]
      simp only [List.append_nil, List.append_assoc]
    . rw [if_neg fun h => hzero (hboth.1 h).1] at hlead
      rw [if_pos hzero] at hpad ⊢
      rw [← hpad, ← hlead, fill_spent, fill_fst]
      simp only [List.append_nil, List.append_assoc, List.nil_append]
  . rw [if_neg fun h => hleft (hboth.1 h).2] at hlead
    rw [if_neg hleft] at hpad
    rw [if_pos hleft, ← hpad, ← hlead, fill_fst]
    simp only [List.append_nil, List.append_assoc, List.nil_append]

end

section

variable {num : BitVec 64} {base : Nat} {size precision : Int} {type : BitVec 32}

theorem and_small (type : BitVec 32) : type &&& small = 0 ∨ type &&& small = small := by
  have hsmall : small = BitVec.twoPow 32 5 := by decide
  rw [hsmall, BitVec.and_twoPow]
  split
  . exact .inr rfl
  . exact .inl rfl

theorem locase_eq (type : BitVec 32) : (type &&& small).setWidth 8 = locase type := by
  unfold locase
  cases and_small type with
  | inl h =>
    rw [h]
    rfl
  | inr h =>
    rw [h]
    rfl

theorem locase_or (type : BitVec 32) : locase type = 0 ∨ locase type = 0x20 := by
  unfold locase
  split
  . exact .inr rfl
  . exact .inl rfl

theorem number_parts {signs pfx tmp : List Byte} {sign : Byte} {rest : BitVec 64} {left' : Int}
    (hsign : numberSign num size (if type &&& left ≠ 0 then type &&& ~~~zeropad else type) = (sign, rest, left'))
    (hsigns : (if sign ≠ 0 then [sign] else []) = signs)
    (htmp : numberDigits rest base ((type &&& small).setWidth 8) = some tmp)
    (hpfx : (if type &&& special ≠ 0 ∧ base ≠ 10 then
        chr '0' :: (if base = 16 then [chr 'X' ||| (type &&& small).setWidth 8] else []) else []) = pfx)
    (hleft : left' = size - signs.length)
    : number num base size precision type
        = some (laidOut (signs ++ pfx)
            (List.replicate (precision.toNat - tmp.length) (chr '0') ++ tmp.reverse) size type) := by
  unfold number
  dsimp only
  rw [hsign]
  dsimp only
  rw [htmp, hsigns, hpfx]
  dsimp only [bind, Option.bind, pure]
  have hlen : (pfx.length : Int)
      = if type &&& special ≠ 0 ∧ base ≠ 10 then (if base = 16 then 2 else 1) else 0 := by
    rw [← hpfx]
    split
    . split
      . rfl
      . rfl
    . rfl
  have hsize : (if type &&& special ≠ 0 ∧ base ≠ 10 then if base = 16 then left' - 2 else left' - 1 else left')
      = size - signs.length - pfx.length := by
    rw [hlen, hleft]
    split
    . split
      . rfl
      . rfl
    . omega
  rw [hsize]
  generalize hprec : (if (tmp.length : Int) > precision then (tmp.length : Int) else precision) = p
  have hzeros : (p - tmp.length).toNat = precision.toNat - tmp.length := by
    rw [← hprec]
    split
    . omega
    . omega
  rw [hzeros, List.append_assoc _ signs pfx]
  apply congrArg some
  apply padded rfl rfl rfl
  have hpad : (size - signs.length - pfx.length - p).toNat
      = size.toNat - (signs.length + pfx.length + (precision.toNat - tmp.length + tmp.length)) := by
    rw [← hprec]
    split
    . omega
    . omega
  rw [hpad]
  simp only [List.length_append, List.length_replicate, List.length_reverse]

theorem signText_clear (num : BitVec 64) (type : BitVec 32)
    : signText num (type &&& ~~~zeropad) = signText num type := by
  unfold signText
  rw [and_clear (by decide), and_clear (by decide), and_clear (by decide)]

theorem magnitude_clear (num : BitVec 64) (type : BitVec 32)
    : magnitude num (type &&& ~~~zeropad) = magnitude num type := by
  unfold magnitude
  rw [and_clear (by decide)]

theorem prefixText_eq (hbase : base = 8 ∨ base = 10 ∨ base = 16) (type : BitVec 32)
    : (if type &&& special ≠ 0 ∧ base ≠ 10 then
        chr '0' :: (if base = 16 then [chr 'X' ||| (type &&& small).setWidth 8] else []) else [])
      = prefixText base type := by
  have hx : chr 'X' ||| locase type = if type &&& small ≠ 0 then chr 'x' else chr 'X' := by
    unfold locase
    split
    . rfl
    . rfl
  rw [locase_eq, hx]
  unfold prefixText
  by_cases hspecial : type &&& special = 0
  . rw [if_pos hspecial, if_neg fun h => h.1 hspecial]
  . rw [if_neg hspecial]
    obtain rfl | rfl | rfl := hbase
    . rw [if_pos ⟨hspecial, by decide⟩]
      rfl
    . rw [if_neg fun h => h.2 rfl]
      rfl
    . rw [if_pos ⟨hspecial, by decide⟩]
      rfl

theorem number_eq (num : BitVec 64) (hbase : base = 8 ∨ base = 10 ∨ base = 16) (size precision : Int)
    (type : BitVec 32)
    : number num base size precision type
        = some (laidOut (signText num type ++ prefixText base type) (digitsText num base precision type) size type) := by
  have hsigns := numberSign_eq num size (if type &&& left ≠ 0 then type &&& ~~~zeropad else type)
  have htext : signText num (if type &&& left ≠ 0 then type &&& ~~~zeropad else type) = signText num type := by
    split
    . exact signText_clear num type
    . rfl
  have hmagnitude : magnitude num (if type &&& left ≠ 0 then type &&& ~~~zeropad else type) = magnitude num type := by
    split
    . exact magnitude_clear num type
    . rfl
  rw [htext, hmagnitude] at hsigns
  obtain ⟨hsigns, hnum, hleft⟩ := hsigns
  have htmp := numberDigits_eq hbase (locase_or type)
    (numberSign num size (if type &&& left ≠ 0 then type &&& ~~~zeropad else type)).2.1
  rw [hnum, ← locase_eq] at htmp
  rw [number_parts rfl hsigns htmp (prefixText_eq hbase type) hleft, locase_eq, digitsText, List.length_reverse]

theorem digitsText_length
    : (digitsText num base precision type).length
        = max precision.toNat (numeral base (magnitude num type)).length := by
  unfold digitsText
  dsimp only
  rw [List.length_append, List.length_replicate, List.length_reverse, List.length_map]
  omega

theorem laidOut_length (signs digits : List Byte)
    : (laidOut signs digits size type).length = max size.toNat (signs.length + digits.length) := by
  unfold laidOut
  dsimp only
  split
  . simp only [List.length_append, List.length_replicate]
    omega
  . split
    . simp only [List.length_append, List.length_replicate]
      omega
    . simp only [List.length_append, List.length_replicate]
      omega

/--
What `number` writes is the sign, the prefix and the digits in a field of the width that is asked for, and it is
longer than the field only if these are.
-/
theorem number_fills_field (num : BitVec 64) (hbase : base = 8 ∨ base = 10 ∨ base = 16) (size precision : Int)
    (type : BitVec 32)
    : ∃ text, number num base size precision type = some text ∧
        text = laidOut (signText num type ++ prefixText base type) (digitsText num base precision type) size type ∧
        text.length = max size.toNat ((signText num type).length + (prefixText base type).length
            + max precision.toNat (numeral base (magnitude num type)).length) := by
  refine ⟨_, number_eq num hbase size precision type, rfl, ?_⟩
  rw [laidOut_length, List.length_append, digitsText_length]

/-- `%+08.3d` of -42: a precision does not take the zeros away. -/
theorem number_fills_field_zeros
    : ∃ text, number (-42) 10 8 3 (sign ||| plus ||| zeropad) = some text ∧ text = "-0000042".toList.map chr ∧
        text.length = 8 :=
  @number_fills_field 10 (-42) (.inr (.inl rfl)) 8 3 (sign ||| plus ||| zeropad)

end

end Vsprintf
