import PureUsb.Vsprintf.Impl.Strtoul
import PureUsb.Vsprintf.Layout

/-!
This module contains proofs about the functions that read numbers, and that they read what `number` writes.
-/

namespace Vsprintf

/-- The character is a digit in the base `b`. -/
def isDigitIn (b : Nat) (c : Byte) : Bool := Ctype.isxdigit c && decide (digitValue c < b)

theorem digitValue_lt : ∀ n < 256, Ctype.isxdigit (BitVec.ofNat 8 n) → digitValue (BitVec.ofNat 8 n) < 16 := by
  decide +kernel

theorem digitValue_lt_sixteen {c : Byte} (h : Ctype.isxdigit c) : digitValue c < 16 := by
  have hc : BitVec.ofNat 8 c.toNat = c := by
    rw [BitVec.ofNat_toNat, BitVec.setWidth_eq]
  have hlt := digitValue_lt c.toNat c.isLt
  rw [hc] at hlt
  exact hlt h

section

variable {w b : Nat} {base : BitVec w}

theorem digitLoop_eq (hw : 32 ≤ w) (hb : base.toNat = b) (result : BitVec w) (cp : List Byte)
    : digitLoop base result cp
        = (BitVec.ofNat w (Numeral.value b result.toNat ((cp.takeWhile (isDigitIn b)).map digitValue)),
          cp.dropWhile (isDigitIn b)) := by
  have hwide : 16 < 2 ^ w := Nat.lt_of_lt_of_le (by decide) (Nat.pow_le_pow_right (by decide) hw)
  induction cp generalizing result with
  | nil =>
    have hresult : BitVec.ofNat w result.toNat = result := by
      rw [BitVec.ofNat_toNat, BitVec.setWidth_eq]
    unfold digitLoop
    exact congrArg (·, []) hresult.symm
  | cons c cp ih =>
    have hdigit : (Ctype.isxdigit c ∧ BitVec.ofNat w (digitValue c) < base) ↔ isDigitIn b c = true := by
      unfold isDigitIn
      rw [Bool.and_eq_true, decide_eq_true_iff]
      apply and_congr_right
      intro hx
      have hlt := digitValue_lt_sixteen hx
      rw [BitVec.lt_def, BitVec.toNat_ofNat, Nat.mod_eq_of_lt (by omega), hb]
    unfold digitLoop
    by_cases h : isDigitIn b c = true
    . rw [if_pos (hdigit.2 h), ih, List.takeWhile_cons_of_pos h, List.dropWhile_cons_of_pos h, List.map_cons]
      have hnext : (result * base + BitVec.ofNat w (digitValue c)).toNat
          = (result.toNat * b + digitValue c) % 2 ^ w := by
        rw [BitVec.toNat_add, BitVec.toNat_mul, BitVec.toNat_ofNat, hb, ← Nat.add_mod]
      apply congrArg (·, _)
      apply BitVec.eq_of_toNat_eq
      rw [BitVec.toNat_ofNat, BitVec.toNat_ofNat, hnext, Numeral.value_mod]
      rfl
    . rw [if_neg (mt hdigit.1 h), List.takeWhile_cons_of_neg h, List.dropWhile_cons_of_neg h]
      apply congrArg (·, _)
      rw [List.map_nil]
      exact (by rw [BitVec.ofNat_toNat, BitVec.setWidth_eq] : BitVec.ofNat w result.toNat = result).symm

end

section

variable {base : BitVec 32} {cp : List Byte}

theorem basePrefix_other {c : Byte} (h : c ≠ chr '0')
    : basePrefix (c :: cp) base = (c :: cp, if base = 0 then 10 else base) := by
  have hderef : deref (c :: cp) ≠ chr '0' := h
  unfold basePrefix
  simp only [if_neg hderef]

theorem basePrefix_zero (h : ¬(deref cp = chr 'x' ∧ Ctype.isxdigit (deref cp.tail) = true))
    : basePrefix (chr '0' :: cp) base = (cp, if base = 0 then 8 else base) := by
  have hderef : deref (chr '0' :: cp) = chr '0' := rfl
  unfold basePrefix
  simp only [if_pos hderef, List.tail_cons, h, if_false]
  split
  . rfl
  . rfl

theorem basePrefix_hex (h : Ctype.isxdigit (deref cp) = true)
    : basePrefix (chr '0' :: chr 'x' :: cp) base = (cp, 16) := by
  have hderef : deref (chr '0' :: chr 'x' :: cp) = chr '0' := rfl
  have hx : (deref (chr 'x' :: cp) = chr 'x' ∧ Ctype.isxdigit (deref cp) = true) = True := eq_true ⟨rfl, h⟩
  have h16 : (16 : BitVec 32) ≠ 0 := by decide
  unfold basePrefix
  simp only [if_pos hderef, List.tail_cons, hx, if_true, if_neg h16]

end

theorem toNat_wide {w : Nat} {base : BitVec 32} (hw : 32 ≤ w) : (base.setWidth w).toNat = base.toNat := by
  rw [BitVec.toNat_setWidth, Nat.mod_eq_of_lt]
  exact Nat.lt_of_lt_of_le base.isLt (Nat.pow_le_pow_right (by decide) hw)

/-- The base in which digits behind the prefix `pre` are read, if `base` is asked for. -/
def askedBase (pre : List Byte) (base : BitVec 32) : BitVec 32 :=
  if pre = [chr '0', chr 'x'] then 16
  else if base ≠ 0 then base
  else if pre = [chr '0'] then 8
  else 10

/-- The text begins with `0x` and a hexadecimal digit. -/
def BeginsHex (cp : List Byte) : Prop :=
  ∃ c cp', cp = chr '0' :: chr 'x' :: c :: cp' ∧ Ctype.isxdigit c = true

/-- The prefix of a text is `0x` if it begins with that and a hexadecimal digit, and else a 0 that it begins with. -/
structure Prefix (pre cp : List Byte) : Prop where
  hex : pre = [chr '0', chr 'x'] ↔ BeginsHex cp
  octal : pre = [chr '0'] ↔ deref cp = chr '0' ∧ ¬BeginsHex cp
  unset : pre = [] ↔ deref cp ≠ chr '0'

section

variable {cp : List Byte}

theorem prefix_none (h : deref cp ≠ chr '0') : Prefix [] cp := by
  constructor
  . refine iff_of_false (by decide) ?_
    rintro ⟨c, cp', rfl, -⟩
    exact h rfl
  . exact iff_of_false (by decide) fun hf => h hf.1
  . exact iff_of_true rfl h

theorem prefix_octal (h : ¬(deref cp = chr 'x' ∧ Ctype.isxdigit (deref cp.tail) = true))
    : Prefix [chr '0'] (chr '0' :: cp) := by
  have hnot : ¬BeginsHex (chr '0' :: cp) := by
    rintro ⟨c, cp', heq, hdigit⟩
    injection heq with _ heq
    subst heq
    exact h ⟨rfl, hdigit⟩
  constructor
  . exact iff_of_false (by decide) hnot
  . exact iff_of_true rfl ⟨rfl, hnot⟩
  . exact iff_of_false (by decide) (not_not_intro rfl)

theorem prefix_hex (h : Ctype.isxdigit (deref cp) = true)
    : Prefix [chr '0', chr 'x'] (chr '0' :: chr 'x' :: cp) := by
  have hbegins : BeginsHex (chr '0' :: chr 'x' :: cp) := by
    cases cp with
    | nil => exact absurd h (by decide)
    | cons c cp => exact ⟨c, cp, rfl, h⟩
  constructor
  . exact iff_of_true rfl hbegins
  . exact iff_of_false (by decide) fun hf => hf.2 hbegins
  . exact iff_of_false (by decide) (not_not_intro rfl)

end

theorem basePrefix_eq (cp : List Byte) (base : BitVec 32)
    : ∃ pre cp', Prefix pre cp ∧ cp = pre ++ cp' ∧ basePrefix cp base = (cp', askedBase pre base) := by
  have hnone : (if base = 0 then 10 else base) = askedBase [] base := by
    by_cases h : base = 0
    . rw [h]
      rfl
    . have hpre : ([] : List Byte) ≠ [chr '0', chr 'x'] := by decide
      rw [askedBase, if_neg h, if_neg hpre, if_pos h]
  have hzero : (if base = 0 then 8 else base) = askedBase [chr '0'] base := by
    by_cases h : base = 0
    . rw [h]
      rfl
    . have hpre : [chr '0'] ≠ [chr '0', chr 'x'] := by decide
      rw [askedBase, if_neg h, if_neg hpre, if_pos h]
  cases cp with
  | nil =>
    refine ⟨[], [], prefix_none (by decide), rfl, ?_⟩
    rw [← hnone]
    rfl
  | cons c cp =>
    by_cases hc : c = chr '0'
    . subst hc
      by_cases hx : deref cp = chr 'x' ∧ Ctype.isxdigit (deref cp.tail) = true
      . cases cp with
        | nil => exact absurd hx.1 (by decide)
        | cons c cp =>
          have hc : c = chr 'x' := hx.1
          have hdigit : Ctype.isxdigit (deref cp) = true := hx.2
          subst hc
          refine ⟨[chr '0', chr 'x'], cp, prefix_hex hdigit, rfl, ?_⟩
          rw [basePrefix_hex hdigit]
          rfl
      . refine ⟨[chr '0'], cp, prefix_octal hx, rfl, ?_⟩
        rw [basePrefix_zero hx, hzero]
    . refine ⟨[], c :: cp, prefix_none hc, rfl, ?_⟩
      rw [basePrefix_other hc, hnone]

/--
What `simple_strtoul` and `simple_strtoull` read of any text: behind its prefix, all the digits in the base up to the
first character that is none. They differ in how much of the value they keep.
-/
theorem strtou_longest (cp : List Byte) (base : BitVec 32)
    : ∃ pre digits rest, Prefix pre cp ∧ cp = pre ++ (digits ++ rest) ∧
        (∀ c ∈ digits, isDigitIn (askedBase pre base).toNat c = true) ∧
        isDigitIn (askedBase pre base).toNat (deref rest) = false ∧
        simpleStrtoul cp base
          = (BitVec.ofNat 32 (Numeral.value (askedBase pre base).toNat 0 (digits.map digitValue)), rest) ∧
        simpleStrtoull cp base
          = (BitVec.ofNat 64 (Numeral.value (askedBase pre base).toNat 0 (digits.map digitValue)), rest) := by
  obtain ⟨pre, cp', hpre, hcp, hbase⟩ := basePrefix_eq cp base
  have hread (w : Nat) (hw : 32 ≤ w) : strtou w cp base
      = (BitVec.ofNat w (Numeral.value (askedBase pre base).toNat 0
          ((cp'.takeWhile (isDigitIn (askedBase pre base).toNat)).map digitValue)),
        cp'.dropWhile (isDigitIn (askedBase pre base).toNat)) := by
    unfold strtou
    rw [hbase]
    have hzero : (0 : BitVec w).toNat = 0 := BitVec.toNat_zero
    refine (digitLoop_eq hw (toNat_wide hw) 0 cp').trans ?_
    rw [hzero]
  refine ⟨pre, cp'.takeWhile (isDigitIn (askedBase pre base).toNat),
    cp'.dropWhile (isDigitIn (askedBase pre base).toNat), hpre, ?_, ?_, ?_, hread 32 (by decide), hread 64 (by decide)⟩
  . rw [List.takeWhile_append_dropWhile, hcp]
  . intro c hc
    have hall := List.all_takeWhile (p := isDigitIn (askedBase pre base).toNat) (l := cp')
    exact List.all_eq_true.1 hall c hc
  . cases hrest : cp'.dropWhile (isDigitIn (askedBase pre base).toNat) with
    | nil =>
      have hend : Ctype.isxdigit 0 = false := by decide
      unfold isDigitIn
      rw [show deref [] = 0 from rfl, hend, Bool.false_and]
    | cons c rest =>
      have hnot := List.head?_dropWhile_not (isDigitIn (askedBase pre base).toNat) cp'
      rw [hrest] at hnot
      exact hnot

/-- The `0x` of `0x1fz` is a prefix, the one of `0xz` is not. -/
theorem strtou_longest_hex
    : (∃ digits rest, "0x1fz".toList.map chr = [chr '0', chr 'x'] ++ (digits ++ rest) ∧
        (∀ c ∈ digits, isDigitIn 16 c = true) ∧ isDigitIn 16 (deref rest) = false ∧
        simpleStrtoul ("0x1fz".toList.map chr) 10
          = (BitVec.ofNat 32 (Numeral.value 16 0 (digits.map digitValue)), rest)) ∧
      ∃ digits rest, "0xz".toList.map chr = [chr '0'] ++ (digits ++ rest) ∧
        (∀ c ∈ digits, isDigitIn 8 c = true) ∧ isDigitIn 8 (deref rest) = false ∧
        simpleStrtoul ("0xz".toList.map chr) 0
          = (BitVec.ofNat 32 (Numeral.value 8 0 (digits.map digitValue)), rest) := by
  constructor
  . obtain ⟨pre, digits, rest, hpre, hcp, hdigits, hrest, hread, -⟩ := strtou_longest ("0x1fz".toList.map chr) 10
    obtain rfl := hpre.hex.mpr ⟨chr '1', "fz".toList.map chr, by decide, by decide⟩
    exact ⟨digits, rest, hcp, hdigits, hrest, hread⟩
  . obtain ⟨pre, digits, rest, hpre, hcp, hdigits, hrest, hread, -⟩ := strtou_longest ("0xz".toList.map chr) 0
    have hnot : ¬BeginsHex ("0xz".toList.map chr) := by
      rintro ⟨c, cp', heq, hdigit⟩
      have hc : chr 'z' = c := List.head_eq_of_cons_eq (List.tail_eq_of_cons_eq (List.tail_eq_of_cons_eq heq))
      rw [← hc] at hdigit
      exact absurd hdigit (by decide)
    obtain rfl := hpre.octal.mpr ⟨by decide, hnot⟩
    exact ⟨digits, rest, hcp, hdigits, hrest, hread⟩

/-- What the functions that read numbers need to know of the character of a digit. -/
structure ReadsAs (c : Byte) (d : Nat) : Prop where
  xdigit : Ctype.isxdigit c = true
  value : digitValue c = d
  not_x : c ≠ chr 'x'
  not_minus : c ≠ chr '-'
  zero_iff : c = chr '0' ↔ d = 0

theorem digitChar_reads {locase : Byte} (hlocase : locase = 0 ∨ locase = 0x20) {d : Nat} (hd : d < 16)
    : ReadsAs (digitChar locase d) d := by
  have upper : ∀ d < 16, Ctype.isxdigit (digitChar 0 d) = true ∧ digitValue (digitChar 0 d) = d ∧
      digitChar 0 d ≠ chr 'x' ∧ digitChar 0 d ≠ chr '-' ∧ (digitChar 0 d = chr '0' ↔ d = 0) := by decide
  have lower : ∀ d < 16, Ctype.isxdigit (digitChar 0x20 d) = true ∧ digitValue (digitChar 0x20 d) = d ∧
      digitChar 0x20 d ≠ chr 'x' ∧ digitChar 0x20 d ≠ chr '-' ∧ (digitChar 0x20 d = chr '0' ↔ d = 0) := by decide
  obtain rfl | rfl := hlocase
  . obtain ⟨hx, hvalue, hne, hminus, hzero⟩ := upper d hd
    exact ⟨hx, hvalue, hne, hminus, hzero⟩
  . obtain ⟨hx, hvalue, hne, hminus, hzero⟩ := lower d hd
    exact ⟨hx, hvalue, hne, hminus, hzero⟩

/-- The text does not go on with a digit in the base `b`, nor with an `x`. -/
def Ends (b : Nat) (rest : List Byte) : Prop := deref rest ≠ chr 'x' ∧ isDigitIn b (deref rest) = false

section

variable {w b : Nat} {base : BitVec 32} {locase : Byte} {l : List Nat} {rest : List Byte}

theorem digits_span (hb : b ≤ 16) (hlocase : locase = 0 ∨ locase = 0x20) (hl : ∀ d ∈ l, d < b)
    (hrest : Ends b rest)
    : (l.map (digitChar locase) ++ rest).takeWhile (isDigitIn b) = l.map (digitChar locase) ∧
        (l.map (digitChar locase) ++ rest).dropWhile (isDigitIn b) = rest := by
  induction l with
  | nil =>
    cases rest with
    | nil => exact ⟨rfl, rfl⟩
    | cons c rest =>
      have hc : ¬isDigitIn b c = true := Bool.not_eq_true _ ▸ hrest.2
      exact ⟨List.takeWhile_cons_of_neg hc, List.dropWhile_cons_of_neg hc⟩
  | cons d l ih =>
    have hd : d < b := hl d List.mem_cons_self
    have hreads := digitChar_reads hlocase (Nat.lt_of_lt_of_le hd hb)
    have hdigit : isDigitIn b (digitChar locase d) = true := by
      unfold isDigitIn
      rw [hreads.xdigit, hreads.value, decide_eq_true hd]
      rfl
    obtain ⟨htake, hdrop⟩ := ih fun d hd => hl d (List.mem_cons_of_mem _ hd)
    rw [List.map_cons, List.cons_append, List.takeWhile_cons_of_pos hdigit, List.dropWhile_cons_of_pos hdigit,
      htake, hdrop]
    exact ⟨rfl, rfl⟩

theorem digitLoop_digits {base : BitVec w} (hw : 32 ≤ w) (hbase : base.toNat = b) (hb : b ≤ 16)
    (hlocase : locase = 0 ∨ locase = 0x20) (hl : ∀ d ∈ l, d < b) (hrest : Ends b rest)
    : digitLoop base 0 (l.map (digitChar locase) ++ rest) = (BitVec.ofNat w (Numeral.value b 0 l), rest) := by
  obtain ⟨htake, hdrop⟩ := digits_span hb hlocase hl hrest
  have hvalues : (l.map (digitChar locase)).map digitValue = l := by
    rw [List.map_map]
    conv =>
      rhs
      rw [← List.map_id l]
    apply List.map_congr_left
    intro d hd
    exact (digitChar_reads hlocase (Nat.lt_of_lt_of_le (hl d hd) hb)).value
  rw [digitLoop_eq hw hbase, htake, hdrop, hvalues]
  rfl

theorem strtou_digits (hw : 32 ≤ w) (hpos : 0 < b) (hb : b ≤ 16) (hlocase : locase = 0 ∨ locase = 0x20)
    (hl : ∀ d ∈ l, d < b) (hne : l ≠ []) (hrest : Ends b rest)
    (hbase : base.toNat = b ∨ base = 0 ∧ b = 8 ∧ l.head? = some 0)
    : strtou w (l.map (digitChar locase) ++ rest) base = (BitVec.ofNat w (Numeral.value b 0 l), rest) := by
  cases l with
  | nil => exact absurd rfl hne
  | cons d l =>
    have hd := digitChar_reads hlocase (Nat.lt_of_lt_of_le (hl d List.mem_cons_self) hb)
    unfold strtou
    rw [List.map_cons, List.cons_append]
    by_cases hzero : d = 0
    . -- the first digit is taken for a prefix
      have hnext : deref (l.map (digitChar locase) ++ rest) ≠ chr 'x' := by
        cases l with
        | nil => exact hrest.1
        | cons d' l =>
          have hd' := hl d' (List.mem_cons_of_mem _ List.mem_cons_self)
          exact (digitChar_reads hlocase (Nat.lt_of_lt_of_le hd' hb)).not_x
      have hbase' : (if base = 0 then 8 else base : BitVec 32).toNat = b := by
        split
        . next h =>
          obtain h' | h' := hbase
          . rw [h] at h'
            exact absurd h' (Nat.ne_of_lt hpos)
          . exact h'.2.1.symm
        . next h =>
          obtain h' | h' := hbase
          . exact h'
          . exact absurd h'.1 h
      have hvalue : Numeral.value b 0 (d :: l) = Numeral.value b 0 l := by
        rw [hzero]
        exact Numeral.value_zeros 1 l
      rw [hd.zero_iff.2 hzero, basePrefix_zero fun hx => hnext hx.1, hvalue]
      exact digitLoop_digits hw ((toNat_wide hw).trans hbase') hb hlocase
        (fun d hd => hl d (List.mem_cons_of_mem _ hd)) hrest
    . have hbase' : base.toNat = b := by
        obtain h | h := hbase
        . exact h
        . exact absurd (Option.some.inj h.2.2) hzero
      have hne : base ≠ 0 := by
        intro h
        rw [h] at hbase'
        exact absurd hbase' (Nat.ne_of_lt hpos)
      rw [basePrefix_other (mt hd.zero_iff.1 hzero), if_neg hne]
      exact digitLoop_digits hw ((toNat_wide hw).trans hbase') hb hlocase hl hrest

/-- A prefix for the base 16 is taken whatever base is asked for. -/
theorem strtou_prefixed (hw : 32 ≤ w) (hlocase : locase = 0 ∨ locase = 0x20) (hl : ∀ d ∈ l, d < 16) (hne : l ≠ [])
    (hrest : Ends 16 rest)
    : strtou w (chr '0' :: chr 'x' :: (l.map (digitChar locase) ++ rest)) base
        = (BitVec.ofNat w (Numeral.value 16 0 l), rest) := by
  cases l with
  | nil => exact absurd rfl hne
  | cons d l =>
    have hx := (digitChar_reads hlocase (hl d List.mem_cons_self)).xdigit
    have h16 : ((16 : BitVec 32).setWidth w).toNat = 16 := toNat_wide hw
    have hderef : Ctype.isxdigit (deref ((d :: l).map (digitChar locase) ++ rest)) = true := hx
    unfold strtou
    rw [basePrefix_hex hderef]
    exact digitLoop_digits hw h16 (Nat.le_refl 16) hlocase hl hrest

end

/-- A text in the base `base` is read when the base `b` is asked for, with the prefix that it has. -/
def Reads (type : BitVec 32) (base : Nat) (b : BitVec 32) : Prop :=
  prefixText base type = [] ∧ b.toNat = base ∨
    prefixText base type = [chr '0'] ∧ base = 8 ∧ (b = 8 ∨ b = 0) ∨
    prefixText base type = [chr '0', chr 'x'] ∧ base = 16

section

variable {w base n : Nat} {type b : BitVec 32} {size precision : Int} {rest : List Byte} {num : BitVec 64}

def zerosDigits (type : BitVec 32) (base n m : Nat) : List Byte :=
  (List.replicate m 0 ++ (numeral base n).reverse).map (digitChar (locase type))

theorem zero_char (type : BitVec 32) : digitChar (locase type) 0 = chr '0' :=
  digitChar_decimal (locase_or type) (by decide)

theorem replicate_zerosDigits (k m : Nat)
    : List.replicate k (chr '0') ++ zerosDigits type base n m = zerosDigits type base n (k + m) := by
  have hzeros (l : List Nat) : (List.replicate k 0 ++ l).map (digitChar (locase type))
      = List.replicate k (chr '0') ++ l.map (digitChar (locase type)) := by
    rw [List.map_append, List.map_replicate, zero_char]
  unfold zerosDigits
  rw [List.replicate_add, List.append_assoc, hzeros]

theorem digitsText_eq (num : BitVec 64) (base : Nat) (precision : Int) (type : BitVec 32)
    : ∃ m, digitsText num base precision type = zerosDigits type base (magnitude num type) m := by
  refine ⟨precision.toNat - (numeral base (magnitude num type)).length, ?_⟩
  have hnone : ((numeral base (magnitude num type)).map (digitChar (locase type))).reverse
      = zerosDigits type base (magnitude num type) 0 := by
    unfold zerosDigits
    rw [List.replicate_zero, List.nil_append, List.map_reverse]
  unfold digitsText
  dsimp only
  rw [List.length_reverse, List.length_map, hnone, replicate_zerosDigits, Nat.add_zero]

theorem laidOut_eq (signs : List Byte) (m : Nat)
    (hpad : type &&& left ≠ 0 ∨ type &&& zeropad ≠ 0 ∨ size ≤ 0)
    : ∃ m' k, laidOut signs (zerosDigits type base n m) size type
        = signs ++ (zerosDigits type base n m' ++ List.replicate k (chr ' ')) := by
  unfold laidOut
  dsimp only
  by_cases hleft : type &&& left ≠ 0
  . rw [if_pos hleft, List.append_assoc]
    exact ⟨m, _, rfl⟩
  . rw [if_neg hleft]
    by_cases hzero : type &&& zeropad ≠ 0
    . rw [if_pos hzero, List.append_assoc, replicate_zerosDigits]
      exact ⟨_, 0, by rw [List.replicate_zero, List.append_nil]⟩
    . have hsize : size.toNat = 0 := by
        obtain h | h | h := hpad
        . exact absurd h hleft
        . exact absurd h hzero
        . omega
      rw [if_neg hzero, hsize, Nat.zero_sub, List.replicate_zero, List.nil_append]
      exact ⟨m, 0, by rw [List.replicate_zero, List.append_nil]⟩

theorem ends_spaces (k : Nat) (hrest : Ends base rest) : Ends base (List.replicate k (chr ' ') ++ rest) := by
  cases k with
  | zero => exact hrest
  | succ k =>
    have hx : chr ' ' ≠ chr 'x' := by decide
    have hdigit : isDigitIn base (chr ' ') = false := by
      have hspace : Ctype.isxdigit (chr ' ') = false := by decide
      unfold isDigitIn
      rw [hspace, Bool.false_and]
    exact ⟨hx, hdigit⟩

theorem zeros_digit_lt (hpos : 1 < base) (m : Nat)
    : ∀ d ∈ List.replicate m 0 ++ (numeral base n).reverse, d < base := by
  intro d hd
  rw [List.mem_append, List.mem_reverse] at hd
  obtain hd | hd := hd
  . rw [List.eq_of_mem_replicate hd]
    omega
  . exact Numeral.digit_lt hpos hd

theorem zeros_ne_nil (m : Nat) : List.replicate m 0 ++ (numeral base n).reverse ≠ [] := by
  intro h
  rw [List.append_eq_nil_iff, List.reverse_eq_nil_iff] at h
  exact Numeral.ne_nil h.2

theorem deref_ne_minus (hbase : base = 8 ∨ base = 10 ∨ base = 16) (hreads : Reads type base b) (m : Nat)
    : deref (prefixText base type ++ (zerosDigits type base n m ++ rest)) ≠ chr '-' := by
  have hpos : 1 < base := by omega
  have hzero : chr '0' ≠ chr '-' := by decide
  obtain ⟨hpfx, -⟩ | ⟨hpfx, -⟩ | ⟨hpfx, -⟩ := hreads
  . rw [hpfx, List.nil_append]
    unfold zerosDigits
    have hdigits := zeros_digit_lt (n := n) hpos m
    cases h : List.replicate m 0 ++ (numeral base n).reverse with
    | nil => exact absurd h (zeros_ne_nil m)
    | cons d l =>
      rw [h] at hdigits
      have hd := hdigits d List.mem_cons_self
      exact (digitChar_reads (locase_or type) (by omega : d < 16)).not_minus
  . rw [hpfx]
    exact hzero
  . rw [hpfx]
    exact hzero

theorem strtou_zerosDigits (hw : 32 ≤ w) (hbase : base = 8 ∨ base = 10 ∨ base = 16) (hreads : Reads type base b)
    (m : Nat) (hrest : Ends base rest)
    : strtou w (prefixText base type ++ (zerosDigits type base n m ++ rest)) b = (BitVec.ofNat w n, rest) := by
  have hpos : 1 < base := by omega
  have hle : base ≤ 16 := by omega
  have hvalue (m : Nat) : Numeral.value base 0 (List.replicate m 0 ++ (numeral base n).reverse) = n := by
    rw [Numeral.value_zeros, Numeral.value_numeral]
  obtain ⟨hpfx, hb⟩ | ⟨hpfx, height, hb⟩ | ⟨hpfx, hsixteen⟩ := hreads
  . rw [hpfx]
    refine (strtou_digits hw (Nat.lt_of_succ_lt hpos) hle (locase_or type) (zeros_digit_lt hpos m) (zeros_ne_nil m)
      hrest (.inl hb)).trans ?_
    rw [hvalue]
  . -- the prefix is one more zero
    have hzeros : prefixText base type ++ (zerosDigits type base n m ++ rest)
        = zerosDigits type base n (m + 1) ++ rest := by
      rw [hpfx, Nat.add_comm, ← replicate_zerosDigits]
      rfl
    have hasked : b.toNat = base ∨ b = 0 ∧ base = 8 ∧
        (List.replicate (m + 1) 0 ++ (numeral base n).reverse).head? = some 0 := by
      obtain rfl | rfl := hb
      . exact .inl height.symm
      . exact .inr ⟨rfl, height, rfl⟩
    rw [hzeros]
    refine (strtou_digits hw (Nat.lt_of_succ_lt hpos) hle (locase_or type) (zeros_digit_lt hpos (m + 1))
      (zeros_ne_nil (m + 1)) hrest hasked).trans ?_
    rw [hvalue]
  . subst hsixteen
    rw [hpfx]
    refine (strtou_prefixed hw (locase_or type) (zeros_digit_lt hpos m) (zeros_ne_nil m) hrest).trans ?_
    rw [hvalue]

theorem number_text (num : BitVec 64) (hbase : base = 8 ∨ base = 10 ∨ base = 16) (size precision : Int)
    (hpad : type &&& left ≠ 0 ∨ type &&& zeropad ≠ 0 ∨ size ≤ 0)
    : ∃ m k, number num base size precision type
        = some (signText num type ++ (prefixText base type ++
            (zerosDigits type base (magnitude num type) m ++ List.replicate k (chr ' ')))) := by
  obtain ⟨m, hdigits⟩ := digitsText_eq num base precision type
  have hpadded : ∃ m' k, laidOut (signText num type ++ prefixText base type)
      (zerosDigits type base (magnitude num type) m) size type
      = signText num type ++ prefixText base type ++
          (zerosDigits type base (magnitude num type) m' ++ List.replicate k (chr ' ')) :=
    laidOut_eq _ m hpad
  obtain ⟨m', k, hlaid⟩ := hpadded
  refine ⟨m', k, ?_⟩
  rw [number_eq num hbase, hdigits, hlaid, List.append_assoc]

/--
What `number` writes without a sign is read back by `simple_strtoul`, which keeps 32 bits of it, and by
`simple_strtoull`. They end where the digits end.
-/
theorem strtou_number (num : BitVec 64) (hbase : base = 8 ∨ base = 10 ∨ base = 16)
    (size precision : Int) (hsign : type &&& sign = 0)
    (hpad : type &&& left ≠ 0 ∨ type &&& zeropad ≠ 0 ∨ size ≤ 0) (hreads : Reads type base b) (hrest : Ends base rest)
    : ∃ text k, number num base size precision type = some (text ++ List.replicate k (chr ' ')) ∧
        simpleStrtoul (text ++ (List.replicate k (chr ' ') ++ rest)) b
          = (num.setWidth 32, List.replicate k (chr ' ') ++ rest) ∧
        simpleStrtoull (text ++ (List.replicate k (chr ' ') ++ rest)) b
          = (num, List.replicate k (chr ' ') ++ rest) := by
  obtain ⟨m, k, hnumber⟩ := number_text num hbase size precision hpad
  have hnone : signText num type = [] := by
    unfold signText
    rw [if_neg (not_not_intro hsign)]
  have hnum : magnitude num type = num.toNat := by
    unfold magnitude
    rw [if_neg (not_not_intro hsign)]
  refine ⟨prefixText base type ++ zerosDigits type base num.toNat m, k, ?_, ?_, ?_⟩
  . rw [hnumber, hnone, hnum, List.nil_append, List.append_assoc]
  . unfold simpleStrtoul
    rw [List.append_assoc, strtou_zerosDigits (by decide) hbase hreads m (ends_spaces k hrest), BitVec.ofNat_toNat]
  . unfold simpleStrtoull
    rw [List.append_assoc, strtou_zerosDigits (by decide) hbase hreads m (ends_spaces k hrest), BitVec.ofNat_toNat,
      BitVec.setWidth_eq]

/-- `%#010x` is read in the base 16 although the base 10 is asked for. -/
theorem strtou_number_prefixed
    : ∃ text k, number 0x123456789 16 10 (-1) (special ||| small ||| zeropad)
          = some (text ++ List.replicate k (chr ' ')) ∧
        simpleStrtoul (text ++ (List.replicate k (chr ' ') ++ [chr ','])) 10
          = (0x23456789, List.replicate k (chr ' ') ++ [chr ',']) ∧
        simpleStrtoull (text ++ (List.replicate k (chr ' ') ++ [chr ','])) 10
          = (0x123456789, List.replicate k (chr ' ') ++ [chr ',']) :=
  @strtou_number 16 (special ||| small ||| zeropad) 10 [chr ','] 0x123456789 (.inr (.inr rfl)) 10 (-1) (by decide)
    (.inr (.inl (by decide))) (.inr (.inr ⟨by decide, rfl⟩)) ⟨by decide, by decide⟩

/-- What `number` writes with a sign is read back by `simple_strtol`, which keeps 32 bits of it. -/
theorem simpleStrtol_number (num : BitVec 64) (hbase : base = 8 ∨ base = 10 ∨ base = 16)
    (size precision : Int) (hsign : type &&& sign ≠ 0) (hplus : type &&& plus = 0) (hspace : type &&& space = 0)
    (hpad : type &&& left ≠ 0 ∨ type &&& zeropad ≠ 0 ∨ size ≤ 0) (hreads : Reads type base b) (hrest : Ends base rest)
    : ∃ text k, number num base size precision type = some (text ++ List.replicate k (chr ' ')) ∧
        simpleStrtol (text ++ (List.replicate k (chr ' ') ++ rest)) b
          = (num.setWidth 32, List.replicate k (chr ' ') ++ rest) := by
  obtain ⟨m, k, hnumber⟩ := number_text num hbase size precision hpad
  have hread := strtou_zerosDigits (Nat.le_refl 32) hbase hreads (n := magnitude num type) m (ends_spaces k hrest)
  refine ⟨signText num type ++ (prefixText base type ++ zerosDigits type base (magnitude num type) m), k, ?_, ?_⟩
  . rw [hnumber, List.append_assoc, List.append_assoc]
  . rw [List.append_assoc, List.append_assoc]
    by_cases hneg : num.toInt < 0
    . have hminus : signText num type = [chr '-'] := by
        unfold signText
        rw [if_pos hsign, if_pos hneg]
      have hnum : magnitude num type = (-num).toNat := by
        unfold magnitude
        rw [if_pos hsign, toNat_neg_of_neg hneg]
      rw [hnum, BitVec.ofNat_toNat] at hread
      have htwice : -(-num).setWidth 32 = num.setWidth 32 := by
        rw [BitVec.setWidth_neg_of_le (by decide), BitVec.neg_neg]
      have hderef : deref (chr '-' :: (prefixText base type ++ (zerosDigits type base (magnitude num type) m ++
          (List.replicate k (chr ' ') ++ rest)))) = chr '-' := rfl
      unfold simpleStrtol simpleStrtoul
      rw [hminus, List.cons_append, List.nil_append, if_pos hderef, List.tail_cons, hnum, hread]
      exact congrArg (·, _) htwice
    . have hnone : signText num type = [] := by
        unfold signText
        rw [if_pos hsign, if_neg hneg, if_neg (not_not_intro hplus), if_neg (not_not_intro hspace)]
      have hnum : magnitude num type = num.toNat := by
        unfold magnitude
        rw [if_pos hsign, toNat_of_nonneg hneg]
      rw [hnum, BitVec.ofNat_toNat] at hread
      unfold simpleStrtol simpleStrtoul
      rw [hnone, List.nil_append, if_neg (deref_ne_minus hbase hreads m), hnum, hread]

theorem simpleStrtol_number_negative
    : ∃ text k, number (-42) 10 6 (-1) (sign ||| left) = some (text ++ List.replicate k (chr ' ')) ∧
        simpleStrtol (text ++ (List.replicate k (chr ' ') ++ [])) 10 = (-42, List.replicate k (chr ' ') ++ []) :=
  @simpleStrtol_number 10 (sign ||| left) 10 [] (-42) (.inr (.inl rfl)) 6 (-1) (by decide) (by decide) (by decide)
    (.inl (by decide)) (.inl ⟨by decide, rfl⟩) ⟨by decide, by decide⟩

end

end Vsprintf
