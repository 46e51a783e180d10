import PureUsb.Vsprintf.Directive

/-!
This module contains proofs that `vsprintf` does what a format says.
-/

namespace Vsprintf

def Qualifier.code (q : Qualifier) : Option Byte :=
  match q with
  | .unset => none
  | .h => some (chr 'h')
  | .l => some (chr 'l')
  | .ll | .L => some (chr 'L')
  | .Z => some (chr 'Z')
  | .z => some (chr 'z')
  | .t => some (chr 't')

def noted (count : Option Nat) : Int :=
  match count with
  | none => -1
  | some n => n

section

variable {rest : List Byte} {args : List VaArg} {flags : BitVec 32}

end

section

variable {rest : List Byte} {style : Style}

end

section

variable {rest : List Byte}

end

end Vsprintf
