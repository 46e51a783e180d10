import PureUsb.Div64
import PureUsb.Vsprintf.Impl.Ctype

/-!
This module contains the functions that write numbers and strings.
-/

namespace Vsprintf

/-- A digit, as it is stored in a `char`. -/
def putDigit (d : BitVec 32) : Byte := (d + 48).setWidth 8

/-- `put_dec_trunc`: the digits of `q` below 100000, the least significant one first. -/
def putDecTrunc (q : BitVec 32) : List Byte :=
  let d1 := (q >>> 4) &&& 0xf
  let d2 := (q >>> 8) &&& 0xf
  let d3 := q >>> 12
  let d0 := 6 * (d3 + d2 + d1) + (q &&& 0xf)
  let q := (d0 * 0xcd) >>> 11
  let d0 := d0 - 10 * q
  putDigit d0 ::
    (let d1 := q + 9 * d3 + 5 * d2 + d1
    if d1 ≠ 0 then
      let q := (d1 * 0xcd) >>> 11
      let d1 := d1 - 10 * q
      putDigit d1 ::
        (let d2 := q + 2 * d2
        if d2 ≠ 0 ∨ d3 ≠ 0 then
          let q := (d2 * 0xd) >>> 7
          let d2 := d2 - 10 * q
          putDigit d2 ::
            (let d3 := q + 4 * d3
            if d3 ≠ 0 then
              let q := (d3 * 0xcd) >>> 11
              let d3 := d3 - 10 * q
              putDigit d3 :: (if q ≠ 0 then [putDigit q] else [])
            else
              [])
        else
          [])
    else
      [])

/-- `put_dec_full`: always five digits. -/
def putDecFull (q : BitVec 32) : List Byte :=
  let d1 := (q >>> 4) &&& 0xf
  let d2 := (q >>> 8) &&& 0xf
  let d3 := q >>> 12
  let d0 := 6 * (d3 + d2 + d1) + (q &&& 0xf)
  let q := (d0 * 0xcd) >>> 11
  let d0 := d0 - 10 * q
  let d1 := q + 9 * d3 + 5 * d2 + d1
  let q := (d1 * 0xcd) >>> 11
  let d1 := d1 - 10 * q
  let d2 := q + 2 * d2
  let q := (d2 * 0xd) >>> 7
  let d2 := d2 - 10 * q
  let d3 := q + 4 * d3
  let q := (d3 * 0xcd) >>> 11
  let d3 := d3 - 10 * q
  [putDigit d0, putDigit d1, putDigit d2, putDigit d3, putDigit q]

/-- The loop of `put_dec`. -/
def putDecLoop (fuel : Nat) (num : BitVec 64) : Option (List Byte) :=
  match fuel with
  | 0 => none
  | fuel + 1 =>
    if num < 100000 then
      some (putDecTrunc (num.setWidth 32))
    else do
      let (num, rem) ← doDiv num 100000
      let rest ← putDecLoop fuel num
      return putDecFull rem ++ rest

def putDec (num : BitVec 64) : Option (List Byte) := putDecLoop 64 num

abbrev zeropad : BitVec 32 := 1
abbrev sign : BitVec 32 := 2
abbrev plus : BitVec 32 := 4
abbrev space : BitVec 32 := 8
abbrev left : BitVec 32 := 16
abbrev small : BitVec 32 := 32
abbrev special : BitVec 32 := 64

def digits : List Byte := "0123456789ABCDEF".toList.map chr

/-- The digits for a power of two, the least significant one first. -/
def shiftDigits (mask : Byte) (shift : Nat) (locase : Byte) (fuel : Nat) (num : BitVec 64) : Option (List Byte) :=
  match fuel with
  | 0 => none
  | fuel + 1 => do
    let digit := digits.getD (num.setWidth 8 &&& mask).toNat 0 ||| locase
    let num := num >>> shift
    if num ≠ 0 then
      let rest ← shiftDigits mask shift locase fuel num
      return digit :: rest
    else
      return [digit]

/-- What `while (--size >= 0) *buf++ = c` writes, and `size` after it. -/
def fill (c : Byte) (size : Int) : List Byte × Int :=
  (List.replicate size.toNat c, if size < 0 then size - 1 else -1)

/-- The digits of `num` as they are collected in `tmp`. -/
def numberDigits (num : BitVec 64) (base : Nat) (locase : Byte) : Option (List Byte) :=
  if num = 0 then
    some [chr '0']
  else if base ≠ 10 then
    shiftDigits (BitVec.ofNat 8 (base - 1)) (if base = 16 then 4 else 3) locase 64 num
  else
    putDec num

/-- The character for the sign, 0 if there is none, with what is left of the number and of the width. -/
def numberSign (num : BitVec 64) (size : Int) (type : BitVec 32) : Byte × BitVec 64 × Int :=
  if type &&& sign ≠ 0 then
    if num.toInt < 0 then (chr '-', -num, size - 1)
    else if type &&& plus ≠ 0 then (chr '+', num, size - 1)
    else if type &&& space ≠ 0 then (chr ' ', num, size - 1)
    else (0, num, size)
  else
    (0, num, size)

/-- `number` for a base of 8, 10 or 16: what it writes. -/
def number (num : BitVec 64) (base : Nat) (size precision : Int) (type : BitVec 32) : Option (List Byte) := do
  let needPfx := type &&& special ≠ 0 ∧ base ≠ 10
  let locase : Byte := (type &&& small).setWidth 8
  let type := if type &&& left ≠ 0 then type &&& ~~~zeropad else type
  let (signChar, num, size) := numberSign num size type
  let size := if needPfx then (if base = 16 then size - 2 else size - 1) else size
  let tmp ← numberDigits num base locase
  let i : Int := tmp.length
  let precision := if i > precision then i else precision
  let size := size - precision
  let (lead, size) := if type &&& (zeropad + left) = 0 then fill (chr ' ') size else ([], size)
  let signText := if signChar ≠ 0 then [signChar] else []
  let pfx := if needPfx then chr '0' :: (if base = 16 then [chr 'X' ||| locase] else []) else []
  let (pad, size) :=
    if type &&& left = 0 then fill (if type &&& zeropad ≠ 0 then chr '0' else chr ' ') size else ([], size)
  let zeros := List.replicate (precision - i).toNat (chr '0')
  return lead ++ signText ++ pfx ++ pad ++ zeros ++ tmp.reverse ++ (fill (chr ' ') size).1

/-- `strnlen`, for the text `s` up to its terminator. -/
def strnlen (s : List Byte) (count : BitVec 32) : Nat := min (s.takeWhile (· ≠ 0)).length count.toNat

/-- What `while (len < field_width--) *buf++ = ' '` writes, and `field_width` after it. -/
def fillWidth (len fieldWidth : Int) : List Byte × Int :=
  (List.replicate (fieldWidth - len).toNat (chr ' '), if len < fieldWidth then len - 1 else fieldWidth - 1)

/-- `string`: what it writes. -/
def string (s : Option (List Byte)) (fieldWidth precision : Int) (flags : BitVec 32) : List Byte :=
  let s := s.getD ("<NULL>".toList.map chr)
  let len := strnlen s (BitVec.ofInt 32 precision)
  let (lead, fieldWidth) := if flags &&& left = 0 then fillWidth len fieldWidth else ([], fieldWidth)
  lead ++ s.take len ++ (fillWidth len fieldWidth).1

end Vsprintf
