import PureUsb.Bytes
import Mathlib.Tactic.Common

/-!
This module contains the functions that fill and copy memory. Addresses are those of areas that do not wrap.
-/

namespace Memory

/-- The bytes at the addresses. -/
abbrev Mem := Nat → Byte

def storeByte (m : Mem) (a : Nat) (b : Byte) : Mem := fun x => if x = a then b else m x

def storeWord (m : Mem) (a : Nat) (w : BitVec 32) : Mem := fun x =>
  if a ≤ x ∧ x < a + 4 then wordByte w (x - a) else m x

def loadWord (m : Mem) (a : Nat) : BitVec 32 := m (a + 3) ++ m (a + 2) ++ m (a + 1) ++ m a

/-!
### The functions
-/

/-- `while (count--) *s8++ = c` -/
def setBytes (m : Mem) (s : Nat) (c : Byte) (count : Nat) : Mem :=
  match count with
  | 0 => m
  | count + 1 => setBytes (storeByte m s c) (s + 1) c count

/-- The loop over the words: the memory, and the address and the count that are left. -/
def setWords (m : Mem) (sl : Nat) (cl : BitVec 32) (count : Nat) : Mem × Nat × Nat :=
  if 4 ≤ count then setWords (storeWord m sl cl) (sl + 4) cl (count - 4) else (m, sl, count)
termination_by count

/-- The word that `memset` collects from the character. -/
def fillWord (c cl : BitVec 32) (i : Nat) : BitVec 32 :=
  match i with
  | 0 => cl
  | i + 1 => fillWord c ((cl <<< 8) ||| (c &&& 0xff)) i

def memset (m : Mem) (s : Nat) (c : BitVec 32) (count : Nat) : Mem :=
  let (m, s8, count) := if s % 4 = 0 then setWords m s (fillWord c 0 4) count else (m, s, count)
  setBytes m s8 (c.setWidth 8) count

/-- `while (count--) *d8++ = *s8++` -/
def copyBytes (m : Mem) (d s count : Nat) : Mem :=
  match count with
  | 0 => m
  | count + 1 => copyBytes (storeByte m d (m s)) (d + 1) (s + 1) count

/-- The loop over the words: the memory, and the addresses and the count that are left. -/
def copyWords (m : Mem) (dl sl count : Nat) : Mem × Nat × Nat × Nat :=
  if 4 ≤ count then copyWords (storeWord m dl (loadWord m sl)) (dl + 4) (sl + 4) (count - 4) else (m, dl, sl, count)
termination_by count

def memcpy (m : Mem) (dest src count : Nat) : Mem :=
  let (m, d8, s8, count) := if (dest ||| src) % 4 = 0 then copyWords m dest src count else (m, dest, src, count)
  copyBytes m d8 s8 count

/-- `while (count--) *--tmp = *--s` -/
def copyDown (m : Mem) (tmp s count : Nat) : Mem :=
  match count with
  | 0 => m
  | count + 1 => copyDown (storeByte m (tmp - 1) (m (s - 1))) (tmp - 1) (s - 1) count

def memmove (m : Mem) (dest src count : Nat) : Mem :=
  if dest ≤ src then copyBytes m dest src count else copyDown m (dest + count) (src + count) count

/-!
### What they do
-/

/-- `n` bytes from `s` on are `b`. -/
def filled (m : Mem) (s n : Nat) (b : Byte) : Mem := fun x => if s ≤ x ∧ x < s + n then b else m x

/-- The `n` bytes from `d` on are those that were at `s`. -/
def copied (m : Mem) (d s n : Nat) : Mem := fun x => if d ≤ x ∧ x < d + n then m (s + (x - d)) else m x

section

variable {m : Mem} {s d n k : Nat} {b : Byte}

theorem filled_filled : filled (filled m s k b) (s + k) n b = filled m s (k + n) b := by
  funext x
  unfold filled
  by_cases h : s + k ≤ x ∧ x < s + k + n
  . rw [if_pos h, if_pos (by omega)]
  . rw [if_neg h]
    by_cases h' : s ≤ x ∧ x < s + k
    . rw [if_pos h', if_pos (by omega)]
    . rw [if_neg h', if_neg (by omega)]

theorem storeByte_filled : storeByte m s b = filled m s 1 b := by
  funext x
  unfold storeByte filled
  by_cases h : x = s
  . rw [if_pos h, if_pos (by omega)]
  . rw [if_neg h, if_neg (by omega)]

theorem filled_zero : filled m s 0 b = m := by
  funext x
  unfold filled
  rw [if_neg (by omega)]

theorem setBytes_eq (m : Mem) (s : Nat) (b : Byte) (n : Nat) : setBytes m s b n = filled m s n b := by
  induction n generalizing m s with
  | zero => exact filled_zero.symm
  | succ n ih => rw [setBytes, ih, storeByte_filled, filled_filled, Nat.add_comm]

theorem toNat_wordByte (w : BitVec 32) (i : Nat) : (wordByte w i).toNat = w.toNat / 2 ^ (8 * i) % 256 := by
  unfold wordByte
  rw [BitVec.toNat_setWidth, BitVec.toNat_ushiftRight, Nat.shiftRight_eq_div_pow]

theorem toNat_collect {c cl : BitVec 32} (h : cl.toNat < 2 ^ 24)
    : ((cl <<< 8) ||| (c &&& 0xff)).toNat = cl.toNat * 256 + c.toNat % 256 := by
  have hlow : (c &&& 0xff).toNat = c.toNat % 2 ^ 8 := by
    rw [BitVec.toNat_and]
    exact Nat.and_two_pow_sub_one_eq_mod _ 8
  have hlt : c.toNat % 2 ^ 8 < 2 ^ 8 := Nat.mod_lt _ (by decide)
  rw [BitVec.toNat_or, BitVec.toNat_shiftLeft, hlow, Nat.shiftLeft_eq, Nat.mod_eq_of_lt (by omega), ← Nat.shiftLeft_eq,
    ← Nat.shiftLeft_add_eq_or_of_lt hlt, Nat.shiftLeft_eq]
  rfl

theorem toNat_fillWord (c : BitVec 32) : (fillWord c 0 4).toNat = c.toNat % 256 * 16843009 := by
  have hzero : (0 : BitVec 32).toNat = 0 := rfl
  have h1 := @toNat_collect c 0 (by decide)
  have h2 := @toNat_collect c _ (by omega : ((0 : BitVec 32) <<< 8 ||| (c &&& 0xff)).toNat < 2 ^ 24)
  have h3 := @toNat_collect c _ (by omega :
    (((0 : BitVec 32) <<< 8 ||| (c &&& 0xff)) <<< 8 ||| (c &&& 0xff)).toNat < 2 ^ 24)
  have h4 := @toNat_collect c _ (by omega :
    ((((0 : BitVec 32) <<< 8 ||| (c &&& 0xff)) <<< 8 ||| (c &&& 0xff)) <<< 8 ||| (c &&& 0xff)).toNat < 2 ^ 24)
  refine Eq.trans h4 ?_
  rw [h3, h2, h1, hzero]
  omega

theorem wordByte_fillWord (c : BitVec 32) : ∀ i < 4, wordByte (fillWord c 0 4) i = c.setWidth 8 := by
  have hbytes : ∀ b < 256, ∀ i < 4, b * 16843009 / 2 ^ (8 * i) % 256 = b := by decide +kernel
  intro i hi
  apply BitVec.eq_of_toNat_eq
  rw [toNat_wordByte, toNat_fillWord, BitVec.toNat_setWidth]
  exact hbytes _ (Nat.mod_lt _ (by decide)) i hi

theorem wordByte_loadWord {a i : Nat} (hi : i < 4) : wordByte (loadWord m a) i = m (a + i) := by
  have hcases : i = 0 ∨ i = 1 ∨ i = 2 ∨ i = 3 := by omega
  apply BitVec.eq_of_getLsbD_eq
  intro j hj
  unfold wordByte loadWord
  rw [BitVec.getLsbD_setWidth, BitVec.getLsbD_ushiftRight, decide_eq_true hj, Bool.true_and]
  obtain rfl | rfl | rfl | rfl := hcases
  all_goals
    simp (disch := omega) only [BitVec.getLsbD_append, if_pos, if_neg]
    congr 1
    omega

theorem setWords_eq {w : BitVec 32} (hw : ∀ i < 4, wordByte w i = b) (m : Mem) (s n : Nat)
    : ∃ k, k ≤ n ∧ setWords m s w n = (filled m s k b, s + k, n - k) := by
  induction n using Nat.strongRecOn generalizing m s with
  | ind n ih =>
    unfold setWords
    by_cases h : 4 ≤ n
    . have hstore : storeWord m s w = filled m s 4 b := by
        funext x
        unfold storeWord filled
        by_cases hx : s ≤ x ∧ x < s + 4
        . rw [if_pos hx, if_pos hx, hw (x - s) (by omega)]
        . rw [if_neg hx, if_neg hx]
      obtain ⟨k, hk, hset⟩ := ih (n - 4) (by omega) (filled m s 4 b) (s + 4)
      refine ⟨4 + k, by omega, ?_⟩
      rw [if_pos h, hstore, hset, filled_filled, Nat.add_assoc, Nat.sub_sub]
    . refine ⟨0, Nat.zero_le n, ?_⟩
      rw [if_neg h, filled_zero]
      rfl

/-- A copy that goes on behind itself reads nothing that it has written, if it runs down or does not overlap. -/
theorem copied_copied (h : d ≤ s ∨ s + (k + n) ≤ d)
    : copied (copied m d s k) (d + k) (s + k) n = copied m d s (k + n) := by
  funext x
  unfold copied
  by_cases hx : d + k ≤ x ∧ x < d + k + n
  . rw [if_pos hx, if_neg (by omega), if_pos (by omega)]
    congr 1
    omega
  . rw [if_neg hx]
    by_cases hx' : d ≤ x ∧ x < d + k
    . rw [if_pos hx', if_pos (by omega)]
    . rw [if_neg hx', if_neg (by omega)]

theorem copied_zero : copied m d s 0 = m := by
  funext x
  unfold copied
  rw [if_neg (by omega)]

theorem storeByte_copied : storeByte m d (m s) = copied m d s 1 := by
  funext x
  unfold storeByte copied
  by_cases h : x = d
  . rw [if_pos h, if_pos (by omega), h, Nat.sub_self, Nat.add_zero]
  . rw [if_neg h, if_neg (by omega)]

theorem copyBytes_eq (m : Mem) (h : d ≤ s ∨ s + n ≤ d) : copyBytes m d s n = copied m d s n := by
  induction n generalizing m d s with
  | zero => exact copied_zero.symm
  | succ n ih =>
    rw [copyBytes, ih _ (by omega), storeByte_copied, copied_copied (by omega), Nat.add_comm]

/-- A copy that goes on in front of itself, upwards. -/
theorem copyDown_eq (m : Mem) (h : s ≤ d) : copyDown m (d + n) (s + n) n = copied m d s n := by
  induction n generalizing m with
  | zero => exact copied_zero.symm
  | succ n ih =>
    have hd : d + (n + 1) - 1 = d + n := rfl
    have hs : s + (n + 1) - 1 = s + n := rfl
    rw [copyDown, hd, hs, ih]
    funext x
    unfold copied storeByte
    by_cases hx : d ≤ x ∧ x < d + n
    . rw [if_pos hx, if_neg (by omega), if_pos (by omega)]
    . rw [if_neg hx]
      by_cases hx' : x = d + n
      . rw [if_pos hx', if_pos (by omega), hx', Nat.add_sub_cancel_left]
      . rw [if_neg hx', if_neg (by omega)]

theorem copyWords_eq (m : Mem) (h : d ≤ s ∨ s + n ≤ d)
    : ∃ k, k ≤ n ∧ copyWords m d s n = (copied m d s k, d + k, s + k, n - k) := by
  induction n using Nat.strongRecOn generalizing m d s with
  | ind n ih =>
    unfold copyWords
    by_cases hn : 4 ≤ n
    . have hstore : storeWord m d (loadWord m s) = copied m d s 4 := by
        funext x
        unfold storeWord copied
        by_cases hx : d ≤ x ∧ x < d + 4
        . rw [if_pos hx, if_pos hx, wordByte_loadWord (by omega)]
        . rw [if_neg hx, if_neg hx]
      have hnext : d + 4 ≤ s + 4 ∨ s + 4 + (n - 4) ≤ d + 4 := by omega
      obtain ⟨k, hk, hcopy⟩ := ih (n - 4) (by omega) (copied m d s 4) hnext
      refine ⟨4 + k, by omega, ?_⟩
      rw [if_pos hn, hstore, hcopy, copied_copied (by omega), Nat.add_assoc, Nat.add_assoc, Nat.sub_sub]
    . refine ⟨0, Nat.zero_le n, ?_⟩
      rw [if_neg hn, copied_zero]
      rfl

/-- `memset` fills the area, whether it starts on a word or not, and touches nothing else. -/
theorem memset_eq (m : Mem) (s : Nat) (c : BitVec 32) (n : Nat) : memset m s c n = filled m s n (c.setWidth 8) := by
  unfold memset
  by_cases h : s % 4 = 0
  . obtain ⟨k, hk, hset⟩ := setWords_eq (wordByte_fillWord c) m s n
    rw [if_pos h, hset]
    dsimp only
    rw [setBytes_eq, filled_filled, Nat.add_sub_cancel' hk]
  . rw [if_neg h]
    exact setBytes_eq m s _ n

/--
`memcpy` copies an area that does not overlap its own copy, or overlaps it from above, word by word as well as byte by
byte.
-/
theorem memcpy_eq (m : Mem) (h : d ≤ s ∨ s + n ≤ d) : memcpy m d s n = copied m d s n := by
  unfold memcpy
  by_cases hwords : (d ||| s) % 4 = 0
  . obtain ⟨k, hk, hcopy⟩ := copyWords_eq m h
    rw [if_pos hwords, hcopy]
    dsimp only
    rw [copyBytes_eq _ (by omega), copied_copied (by omega), Nat.add_sub_cancel' hk]
  . rw [if_neg hwords]
    exact copyBytes_eq m h

/-- A word and three bytes, which overlap their own copy. -/
theorem memcpy_eq_seven
    : memcpy (fun a => BitVec.ofNat 8 a) 0x100 0x104 7 = copied (fun a => BitVec.ofNat 8 a) 0x100 0x104 7 :=
  memcpy_eq (fun a => BitVec.ofNat 8 a) (by decide)

/-- `memmove` copies every area, however it overlaps its copy. -/
theorem memmove_eq (m : Mem) (d s n : Nat) : memmove m d s n = copied m d s n := by
  unfold memmove
  split
  . next h => exact copyBytes_eq m (.inl h)
  . next h => exact copyDown_eq m (by omega)

end

end Memory
