import PureUsb.Vsprintf.Impl.Ctype

/-!
This module contains the functions that read numbers.
-/

namespace Vsprintf

/-- `*cp`, for the text `cp` up to its terminator. -/
def deref (cp : List Byte) : Byte := cp.headD 0

/-- The value of a digit, with 10 and more for letters. -/
def digitValue (c : Byte) : Nat :=
  if Ctype.isdigit c then
    (c - chr '0').toNat
  else
    ((if Ctype.islower c then Ctype.toupper c else c) - chr 'A').toNat + 10

/-- The loop over the digits, with numbers of `w` bits: the result, and where it ends. -/
def digitLoop {w : Nat} (base result : BitVec w) (cp : List Byte) : BitVec w × List Byte :=
  match cp with
  | [] => (result, [])
  | c :: cp =>
    if Ctype.isxdigit c ∧ BitVec.ofNat w (digitValue c) < base then
      digitLoop base (result * base + BitVec.ofNat w (digitValue c)) cp
    else
      (result, c :: cp)

/-- What is left to read behind the prefix, and the base that it stands for. -/
def basePrefix (cp : List Byte) (base : BitVec 32) : List Byte × BitVec 32 :=
  let (cp, base) :=
    if deref cp = chr '0' then
      let cp := cp.tail
      let (cp, base) := if deref cp = chr 'x' ∧ Ctype.isxdigit (deref cp.tail) then (cp.tail, 16) else (cp, base)
      (cp, if base = 0 then 8 else base)
    else
      (cp, base)
  (cp, if base = 0 then 10 else base)

/-- `simple_strtoul` and `simple_strtoull`, with what they store in `*endp`. -/
def strtou (w : Nat) (cp : List Byte) (base : BitVec 32) : BitVec w × List Byte :=
  let (cp, base) := basePrefix cp base
  digitLoop (base.setWidth w) 0 cp

def simpleStrtoul (cp : List Byte) (base : BitVec 32) : BitVec 32 × List Byte := strtou 32 cp base

def simpleStrtoull (cp : List Byte) (base : BitVec 32) : BitVec 64 × List Byte := strtou 64 cp base

def simpleStrtol (cp : List Byte) (base : BitVec 32) : BitVec 32 × List Byte :=
  if deref cp = chr '-' then
    let (result, endp) := simpleStrtoul cp.tail base
    (-result, endp)
  else
    simpleStrtoul cp base

def ustrtoul (cp : List Byte) (base : BitVec 32) : BitVec 32 × List Byte :=
  let (result, endp) := simpleStrtoul cp base
  let c := deref endp
  if c = chr 'G' ∨ c = chr 'M' ∨ c = chr 'K' ∨ c = chr 'k' then
    let result := if c = chr 'G' then result * 1024 else result
    let result := if c = chr 'G' ∨ c = chr 'M' then result * 1024 else result
    let result := result * 1024
    if deref (endp.drop 1) = chr 'i' then
      if deref (endp.drop 2) = chr 'B' then (result, endp.drop 3) else (result, endp.drop 2)
    else
      (result, endp)
  else
    (result, endp)

end Vsprintf
