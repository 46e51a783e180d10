import Mathlib.Algebra.GroupWithZero.Nat
import Mathlib.Logic.Function.Basic
import Mathlib.Tactic.Basic

/-!
This module contains fixed size byte arrays, the copies made into them and little endian words.
-/

abbrev Byte := BitVec 8

abbrev Bytes (n : Nat) := Fin n → Byte

namespace Bytes

variable {n : Nat}

def zero : Bytes n := fun _ => 0

def get? (b : Bytes n) (i : Nat) : Option Byte :=
  if h : i < n then some (b ⟨i, h⟩) else none

/-- The array after the bytes of `l` were stored from offset `off` on. -/
def write (b : Bytes n) (off : Nat) (l : List Byte) : Bytes n :=
  fun i => if off ≤ i then l[i - off]?.getD (b i) else b i

/-- The bytes at `off`, `off + 1`, .. `off + len - 1`, if all of them are in the array. -/
def slice? (b : Bytes n) (off len : Nat) : Option (List Byte) :=
  if h : off + len ≤ n then
    some (List.ofFn fun i : Fin len => b ⟨off + i, by omega⟩)
  else
    none

def byte (b : Bytes n) (i : Nat) : Byte := (b.get? i).getD 0

theorem get?_of_lt (b : Bytes n) {i : Nat} (h : i < n) : b.get? i = some (b ⟨i, h⟩) := by
  simp [get?, h]

theorem get?_eq_some_iff (b : Bytes n) {i : Nat} {x : Byte}
    : b.get? i = some x ↔ ∃ h : i < n, b ⟨i, h⟩ = x := by
  unfold get?
  split
  . next h => simp [h]
  . next h => simp [h]

theorem write_apply_of_lt (b : Bytes n) {off : Nat} {l : List Byte} {i : Fin n} (h : i < off)
    : b.write off l i = b i := by
  have : ¬off ≤ (i : Nat) := by omega
  simp [write, this]

theorem write_apply_of_ge (b : Bytes n) {off : Nat} {l : List Byte} {i : Fin n}
    (h : off + l.length ≤ i)
    : b.write off l i = b i := by
  unfold write
  split
  . rw [List.getElem?_eq_none (by omega)]
    rfl
  . rfl

theorem write_apply (b : Bytes n) {off : Nat} {l : List Byte} {i : Fin n} {j : Nat}
    (hj : j < l.length) (h : (i : Nat) = off + j)
    : b.write off l i = l[j] := by
  have h1 : off ≤ (i : Nat) := by omega
  have h2 : (i : Nat) - off = j := by omega
  simp [write, h1, h2, hj]

theorem write_singleton (b : Bytes n) (off : Nat) (x : Byte) (i : Fin n)
    : b.write off [x] i = if (i : Nat) = off then x else b i := by
  split
  . next h => exact write_apply b (j := 0) (by simp) (by omega)
  . next h =>
    rcases Nat.lt_or_ge i off with hlt | hge
    . exact write_apply_of_lt b hlt
    . exact write_apply_of_ge b (by simp; omega)

@[simp]
theorem write_nil (b : Bytes n) (off : Nat) : b.write off [] = b := by
  funext i
  simp [write]

theorem byte_of_lt (b : Bytes n) {i : Nat} (h : i < n) : b.byte i = b ⟨i, h⟩ := by
  simp [byte, get?, h]

@[simp]
theorem byte_zero (i : Nat) : (zero : Bytes n).byte i = 0 := by
  unfold byte get? zero
  split <;> rfl

theorem byte_write_of_lt (b : Bytes n) {off i : Nat} (l : List Byte) (h : i < off)
    : (b.write off l).byte i = b.byte i := by
  by_cases hi : i < n
  . rw [byte_of_lt _ hi, byte_of_lt _ hi]
    exact write_apply_of_lt b h
  . simp [byte, get?, hi]

theorem byte_write_of_ge (b : Bytes n) {off i : Nat} (l : List Byte) (h : off + l.length ≤ i)
    : (b.write off l).byte i = b.byte i := by
  by_cases hi : i < n
  . rw [byte_of_lt _ hi, byte_of_lt _ hi]
    exact write_apply_of_ge b h
  . simp [byte, get?, hi]

theorem byte_write (b : Bytes n) {off j : Nat} (l : List Byte) (hj : j < l.length) (h : off + j < n)
    : (b.write off l).byte (off + j) = l[j] := by
  rw [byte_of_lt _ h]
  exact write_apply b hj rfl

theorem byte_write_singleton (b : Bytes n) {off : Nat} (x : Byte) (h : off < n) (i : Nat)
    : (b.write off [x]).byte i = if i = off then x else b.byte i := by
  split
  . next hi =>
    subst hi
    exact byte_write b (j := 0) [x] (by simp) h
  . next hi =>
    rcases Nat.lt_or_ge i off with hlt | hge
    . exact byte_write_of_lt b [x] hlt
    . exact byte_write_of_ge b [x] (by simp; omega)

theorem write_cons (b : Bytes n) (off : Nat) (x : Byte) (l : List Byte)
    : (b.write off [x]).write (off + 1) l = b.write off (x :: l) := by
  funext i
  rcases Nat.lt_trichotomy i off with h | h | h
  . rw [write_apply_of_lt _ (by omega), write_apply_of_lt _ h, write_apply_of_lt _ h]
  . rw [write_apply_of_lt _ (by omega), write_apply b (j := 0) (by simp) (by omega),
      write_apply b (j := 0) (by simp) (by omega)]
    rfl
  . have hx : b.write off [x] i = b i := write_apply_of_ge b (by simp; omega)
    by_cases hi : i < off + 1 + l.length
    . rw [write_apply _ (j := i - (off + 1)) (by omega) (by omega),
        write_apply b (j := i - (off + 1) + 1) (by simp; omega) (by omega)]
      rfl
    . rw [write_apply_of_ge _ (by omega), hx, write_apply_of_ge b (by simp; omega)]

theorem write_write (b : Bytes n) {l l' : List Byte} (h : l.length ≤ l'.length)
    : (b.write 0 l).write 0 l' = b.write 0 l' := by
  funext i
  by_cases hi : (i : Nat) < l'.length
  . rw [write_apply _ hi (Nat.zero_add _).symm, write_apply _ hi (Nat.zero_add _).symm]
  . rw [write_apply_of_ge _ (by omega), write_apply_of_ge _ (by omega), write_apply_of_ge _ (by omega)]

end Bytes

def le16 (lo hi : Byte) : Nat := lo.toNat + 256 * hi.toNat

theorem le16_lt (lo hi : Byte) : le16 lo hi < 65536 := by
  unfold le16
  omega

def wordByte (x : BitVec 32) (i : Nat) : Byte := (x >>> (8 * i)).setWidth 8

def pokeWord (x : BitVec 32) (i : Nat) (b : Byte) : BitVec 32 :=
  (x &&& ~~~((0xff#32) <<< (8 * i))) ||| (b.setWidth 32 <<< (8 * i))

/-!
### Sizes

Arrays of these sizes are not empty, so that numerals are indices of them.
-/

instance neZero_two : NeZero 2 := ⟨by decide⟩
instance neZero_three : NeZero 3 := ⟨by decide⟩
instance neZero_four : NeZero 4 := ⟨by decide⟩
instance neZero_eight : NeZero 8 := ⟨by decide⟩
instance neZero_eleven : NeZero 11 := ⟨by decide⟩
instance neZero_sixteen : NeZero 16 := ⟨by decide⟩
instance neZero_eighteen : NeZero 18 := ⟨by decide⟩
instance neZero_thirtyTwo : NeZero 32 := ⟨by decide⟩
instance neZero_512 : NeZero 512 := ⟨by decide⟩
instance neZero_1002 : NeZero 1002 := ⟨by decide⟩
