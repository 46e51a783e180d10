import PureUsb.Usb.Basic
import PureUsb.Prog.Sim

/-!
This module contains the console of the simulation: `serial_puts` packs four characters into each word that
it stores to the tube.
-/

/-- What a word reads as from its most significant byte on. -/
def wordChars (word : BitVec 32) : List Byte :=
  [wordByte word 3, wordByte word 2, wordByte word 1, wordByte word 0]

/-- `*((int*)tube_word)` on a little endian CPU. -/
def tubeInt (tubeWord : Bytes 4) : BitVec 32 := tubeWord 3 ++ tubeWord 2 ++ tubeWord 1 ++ tubeWord 0

/-- `tube_word` before any character is stored in it. -/
def tubeWordInit : Bytes 4 := fun _ => 13

/--
The inner loop of `serial_puts` with `n` rounds left and `t` at `tube_word + n - 1`: where `c` points to
after it, or `none` if it comes to the terminator.
-/
def fillWord (n : Nat) (c : List Byte) (tubeWord : Bytes 4) : Except Stop (Bytes 4 × Option (List Byte)) :=
  match n with
  | 0 => .ok (tubeWord, some c)
  | n + 1 =>
    match c with
    | [] => .error .fault
    | b :: c => if b = 0 then .ok (tubeWord, none) else fillWord n c (tubeWord.write n [b])

/-- At most `fuel` rounds of the outer loop: the words that they store to the tube. -/
def putWords (fuel : Nat) (c : List Byte) : Except Stop (List (BitVec 32)) :=
  match fuel with
  | 0 => .error .hang
  | fuel + 1 => do
    match ← fillWord 4 c tubeWordInit with
    | (tubeWord, none) => return [tubeInt tubeWord]
    | (tubeWord, some c) =>
      let words ← putWords fuel c
      return tubeInt tubeWord :: words

/--
`serial_puts`, for the memory `c` from the first character on. Each round takes four bytes of it.
-/
def serialPuts (c : List Byte) : Except Stop (List (BitVec 32)) := putWords (c.length / 4 + 1) c

/-!
### The inner loop
-/

/-- The characters in `tube_word` in the order in which they are stored there. -/
def tubeChars (tubeWord : Bytes 4) : List Byte := [tubeWord 3, tubeWord 2, tubeWord 1, tubeWord 0]

theorem wordByte_eq {x : BitVec 32} {i : Nat} {b : Byte} (h : ∀ j < 8, x.getLsbD (8 * i + j) = b.getLsbD j)
    : wordByte x i = b := by
  apply BitVec.eq_of_getLsbD_eq
  intro j hj
  unfold wordByte
  rw [BitVec.getLsbD_setWidth, BitVec.getLsbD_ushiftRight, h j hj]
  simp [hj]

theorem wordChars_tubeInt (tubeWord : Bytes 4) : wordChars (tubeInt tubeWord) = tubeChars tubeWord := by
  unfold wordChars tubeChars
  rw [wordByte_eq (b := tubeWord 3), wordByte_eq (b := tubeWord 2), wordByte_eq (b := tubeWord 1),
    wordByte_eq (b := tubeWord 0)]
  all_goals
    intro j hj
    unfold tubeInt
    simp (disch := omega) only [BitVec.getLsbD_append, if_pos, if_neg]
    congr 1
    omega

theorem tubeChars_write (tubeWord : Bytes 4) {n : Nat} (hn : n < 4) (b : Byte)
    : tubeChars (tubeWord.write n [b]) = (tubeChars tubeWord).set (3 - n) b := by
  have hcases : n = 0 ∨ n = 1 ∨ n = 2 ∨ n = 3 := by omega
  rcases hcases with rfl | rfl | rfl | rfl <;> rfl

variable {s done rest : List Byte} {n : Nat} {tubeWord : Bytes 4}

theorem fillWord_eq (hs : 0 ∉ s) (hn : done.length + n = 4)
    (hword : tubeChars tubeWord = done ++ List.replicate n 13)
    : ∃ word next, fillWord n (s ++ 0 :: rest) tubeWord = .ok (word, next) ∧
        tubeChars word = done ++ s.take n ++ List.replicate (n - s.length) 13 ∧
        next = if s.length < n then none else some (s.drop n ++ 0 :: rest) := by
  induction n generalizing s done tubeWord with
  | zero => exact ⟨tubeWord, some _, rfl, by simpa using hword, rfl⟩
  | succ n ih =>
    cases s with
    | nil => exact ⟨tubeWord, none, rfl, by simpa using hword, rfl⟩
    | cons b s =>
      rw [List.mem_cons, not_or] at hs
      have hstored : tubeChars (tubeWord.write n [b]) = done ++ [b] ++ List.replicate n 13 := by
        rw [tubeChars_write _ (by omega), hword, List.set_append_right _ _ (by omega)]
        have hfirst : 3 - n - done.length = 0 := by omega
        rw [hfirst, List.replicate_succ, List.set_cons_zero, List.append_assoc]
        rfl
      have hlength : (done ++ [b]).length + n = 4 := by
        rw [List.length_append, List.length_singleton]
        omega
      obtain ⟨word, next, hfill, hchars, hnext⟩ := ih hs.2 hlength hstored
      refine ⟨word, next, ?_, ?_, ?_⟩
      . rw [List.cons_append]
        unfold fillWord
        dsimp only
        rw [if_neg (Ne.symm hs.1), hfill]
      . rw [hchars, List.take_succ_cons, List.length_cons, Nat.add_sub_add_right]
        simp
      . rw [hnext, List.length_cons, List.drop_succ_cons]
        simp only [Nat.add_lt_add_iff_right]

/-!
### The outer loop
-/

theorem putWords_eq {fuel : Nat} (hs : 0 ∉ s) (hfuel : s.length / 4 < fuel)
    : ∃ words, putWords fuel (s ++ 0 :: rest) = .ok words ∧
        words.flatMap wordChars = s ++ List.replicate (4 - s.length % 4) 13 ∧
        words.length = s.length / 4 + 1 := by
  induction fuel generalizing s with
  | zero => exact absurd hfuel (Nat.not_lt_zero _)
  | succ fuel ih =>
    have hinit : tubeChars tubeWordInit = [] ++ List.replicate 4 13 := rfl
    obtain ⟨word, next, hfill, hchars, hnext⟩ := @fillWord_eq s [] rest 4 tubeWordInit hs rfl hinit
    unfold putWords
    rw [hfill, Except.ok_bind]
    subst hnext
    by_cases hlt : s.length < 4
    . rw [if_pos hlt]
      refine ⟨[tubeInt word], rfl, ?_, ?_⟩
      . rw [List.flatMap_singleton, wordChars_tubeInt, hchars, List.take_of_length_le (by omega),
          Nat.mod_eq_of_lt hlt, List.nil_append]
      . rw [Nat.div_eq_of_lt hlt]
        rfl
    . rw [if_neg hlt]
      have hdrop : (s.drop 4).length = s.length - 4 := List.length_drop
      obtain ⟨words, hwords, hflat, hlength⟩ :=
        ih (s := s.drop 4) (fun hmem => hs (List.mem_of_mem_drop hmem)) (by omega)
      refine ⟨tubeInt word :: words, ?_, ?_, ?_⟩
      . dsimp only
        rw [hwords]
        rfl
      . have hmod : (s.length - 4) % 4 = s.length % 4 := by omega
        have hfull : 4 - s.length = 0 := by omega
        rw [List.flatMap_cons, wordChars_tubeInt, hchars, hflat, hdrop, hmod, hfull, List.nil_append,
          List.replicate_zero, List.append_nil, ← List.append_assoc, List.take_append_drop]
      . rw [List.length_cons, hlength, hdrop]
        omega

/--
The words hold the characters of the string, and between one and four carriage returns behind them.
-/
theorem serialPuts_chars (hs : 0 ∉ s)
    : ∃ words pad, serialPuts (s ++ 0 :: rest) = .ok words ∧
        words.flatMap wordChars = s ++ List.replicate pad 13 ∧ 1 ≤ pad ∧ pad ≤ 4 ∧
        words.length = s.length / 4 + 1 := by
  have hfuel : s.length / 4 < (s ++ 0 :: rest).length / 4 + 1 := by
    rw [List.length_append]
    omega
  obtain ⟨words, hwords, hflat, hlength⟩ := putWords_eq hs hfuel
  exact ⟨words, 4 - s.length % 4, hwords, hflat, by omega, by omega, hlength⟩

example : serialPuts [0x61, 0x62, 0x63, 0x64, 0x65, 0] = .ok [0x61626364, 0x650d0d0d] := rfl

theorem serialPuts_chars_five
    : ∃ words pad, serialPuts [0x61, 0x62, 0x63, 0x64, 0x65, 0] = .ok words ∧
        words.flatMap wordChars = [0x61, 0x62, 0x63, 0x64, 0x65] ++ List.replicate pad 13 ∧ 1 ≤ pad ∧
        pad ≤ 4 ∧ words.length = 2 :=
  @serialPuts_chars [0x61, 0x62, 0x63, 0x64, 0x65] [] (by decide)
