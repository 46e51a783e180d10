import PureUsb.Vsprintf.Impl.Number
import PureUsb.Vsprintf.Impl.Strtoul

/-!
This module contains `vsprintf`.
-/

namespace Vsprintf

/-- An argument behind the format: a word, `long long`, or a pointer to a text, which may be null. -/
inductive VaArg where
  | word (value : BitVec 32)
  | dword (value : BitVec 64)
  | text (s : Option (List Byte))
  deriving DecidableEq, Repr

end Vsprintf
