import PureUsb.Vsprintf.Impl.Format
import PureUsb.Vsprintf.Layout

/-!
This module contains what a format says: the characters and directives that it is made of, and what these stand for.
-/

namespace Vsprintf

/-- A width or a precision in a format. -/
inductive Count where
  | unset
  | given (n : Nat)
  | star
  deriving DecidableEq

def Count.text (c : Count) : List Byte :=
  match c with
  | .unset => []
  | .given n => (numeral 10 n).reverse.map decimalChar
  | .star => [chr '*']

/-- The count does not overflow an `int`. -/
def Count.Fits (c : Count) : Prop := ∀ n, c = .given n → n < 2 ^ 31

inductive Qualifier where
  | unset
  | h
  | l
  | ll
  | L
  | Z
  | z
  | t
  deriving DecidableEq

def Qualifier.text (q : Qualifier) : List Byte :=
  match q with
  | .unset => []
  | .h => [chr 'h']
  | .l => [chr 'l']
  | .ll => [chr 'l', chr 'l']
  | .L => [chr 'L']
  | .Z => [chr 'Z']
  | .z => [chr 'z']
  | .t => [chr 't']

/-- What is converted. -/
inductive Conv where
  | c
  | s
  | p
  | n
  | percent
  | o
  | x
  | X
  | d
  | i
  | u
  deriving DecidableEq

def Conv.char (conv : Conv) : Byte :=
  match conv with
  | .c => chr 'c'
  | .s => chr 's'
  | .p => chr 'p'
  | .n => chr 'n'
  | .percent => chr '%'
  | .o => chr 'o'
  | .x => chr 'x'
  | .X => chr 'X'
  | .d => chr 'd'
  | .i => chr 'i'
  | .u => chr 'u'

/-- The value of an argument: of the size that the qualifier says, with a sign if the conversion has one. -/
def Qualifier.value (q : Qualifier) (signed : Bool) (args : List VaArg) : Option (Int × List VaArg) :=
  match q, args with
  | .ll, .dword x :: args | .L, .dword x :: args => some (if signed then x.toInt else x.toNat, args)
  | .unset, .word x :: args | .l, .word x :: args => some (if signed then x.toInt else x.toNat, args)
  | .h, .word x :: args =>
    let x : BitVec 16 := x.setWidth 16
    some (if signed then x.toInt else x.toNat, args)
  | .Z, .word x :: args | .z, .word x :: args => some (x.toNat, args)
  | .t, .word x :: args => some (x.toInt, args)
  | _, _ => none

/-!
### What a directive stands for
-/

def flagChars : List Byte := "-+ #0".toList.map chr

/-- How an argument is laid out. -/
structure Style where
  flags : BitVec 32
  width : Option Nat
  precision : Option Nat

namespace Style

/-- A text in its field, on the left or on the right of it. -/
def field (style : Style) (text : List Byte) : List Byte :=
  let pad := List.replicate (style.width.getD 0 - text.length) (chr ' ')
  if style.flags &&& left ≠ 0 then text ++ pad else pad ++ text

/-- A number in its field: the sign, the prefix and at least as many digits as the precision says. -/
def number (style : Style) (base : Nat) (type : BitVec 32) (value : Int) : List Byte :=
  let num := BitVec.ofInt 64 value
  let type := style.flags ||| type
  laidOut (signText num type ++ prefixText base type) (digitsText num base (style.precision.getD 0 : Nat) type)
    (style.width.getD 0 : Nat) type

end Style

namespace Conv

def base (conv : Conv) : Nat :=
  match conv with
  | .o => 8
  | .x | .X => 16
  | _ => 10

def signed (conv : Conv) : Bool :=
  match conv with
  | .d | .i => true
  | _ => false

/-- The flags that the conversion of a number brings along: a sign, or small letters. -/
def type (conv : Conv) : BitVec 32 :=
  match conv with
  | .d | .i => sign
  | .x => small
  | _ => 0

end Conv

/-- What stands behind a `%`. A width does not begin with 0, which would be a flag. -/
structure Directive where
  flags : List Byte
  width : Count
  precision : Option Count
  qualifier : Qualifier
  conv : Conv
  flags_mem : ∀ c ∈ flags, c ∈ flagChars
  width_pos : width ≠ .given 0
  width_fits : width.Fits
  precision_fits : ∀ c, precision = some c → c.Fits

namespace Directive

def precisionText (precision : Option Count) : List Byte :=
  match precision with
  | none => []
  | some c => chr '.' :: c.text

/-- The text behind the `%`. -/
def text (d : Directive) : List Byte :=
  d.flags ++ (d.width.text ++ (precisionText d.precision ++ (d.qualifier.text ++ [d.conv.char])))

end Directive

/-- A part of a format: a character, or a directive. -/
inductive Item where
  | literal (c : Byte) (ne_percent : c ≠ chr '%') (ne_zero : c ≠ 0)
  | directive (d : Directive)

def Item.text (item : Item) : List Byte :=
  match item with
  | .literal c _ _ => [c]
  | .directive d => chr '%' :: d.text

end Vsprintf
