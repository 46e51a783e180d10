import PureUsb.Bytes

/-!
This module contains the classes of characters.
-/

/-- The code of a character. -/
def chr (c : Char) : Byte := BitVec.ofNat 8 c.toNat

namespace Ctype

abbrev upper : Byte := 0x01
abbrev lower : Byte := 0x02
abbrev digit : Byte := 0x04
abbrev cntrl : Byte := 0x08
abbrev punct : Byte := 0x10
abbrev space : Byte := 0x20
abbrev hexDigit : Byte := 0x40
abbrev hardSpace : Byte := 0x80

/-- `_ctype`, as runs of characters of one class. -/
def table : List (Nat × Byte) :=
  [(9, cntrl), (5, cntrl ||| space), (18, cntrl),
   (1, space ||| hardSpace), (15, punct),
   (10, digit), (7, punct),
   (6, upper ||| hexDigit), (20, upper), (6, punct),
   (6, lower ||| hexDigit), (20, lower), (4, punct), (1, cntrl),
   (32, 0),
   (1, space ||| hardSpace), (31, punct),
   (23, upper), (1, punct), (7, upper), (24, lower), (1, punct), (8, lower)]

/-- The class of `c`, the `i`-th character of the runs `l`. -/
def classAt (l : List (Nat × Byte)) (i : Nat) : Byte :=
  match l with
  | [] => 0
  | (n, mask) :: l => if i < n then mask else classAt l (i - n)

def ismask (c : Byte) : Byte := classAt table c.toNat

def isdigit (c : Byte) : Bool := ismask c &&& digit ≠ 0

def islower (c : Byte) : Bool := ismask c &&& lower ≠ 0

def isxdigit (c : Byte) : Bool := ismask c &&& (digit ||| hexDigit) ≠ 0

def toupper (c : Byte) : Byte := if islower c then c - (chr 'a' - chr 'A') else c

end Ctype
