import PureUsb.Usb.Impl.Config

/-!
This module contains the retrieval of string descriptors.
-/

/-- `isprint`, read off the table in `ctype.c`. -/
def isprint (c : Byte) : Bool := (32 ≤ c && c ≤ 126) || 160 ≤ c

/-- `usb_get_string` with `tries + 1` attempts left, and what it leaves in `buf`. -/
def usbGetStringTries (dev : Fin 32) (langid : BitVec 16) (index : Byte) (size : Nat)
    (buf : Bytes 512) (tries : Nat) : UsbM (Int × Bytes 512) := do
  let d ← getDev dev
  let (result, bytes) ← usbControlMsg dev (usbRcvctrlpipe d 0) usbReqGetDescriptor usbDirIn
    ((usbDtString.setWidth 16 <<< 8) + index.setWidth 16) langid .mybuf (BitVec.ofNat 16 size)
    usbCntlTimeout
  let buf := buf.write 0 bytes
  if result > 0 then
    return (result, buf)
  else
    match tries with
    | 0 => return (result, buf)
    | tries + 1 => usbGetStringTries dev langid index size buf tries

def usbGetString (dev : Fin 32) (langid : BitVec 16) (index : Byte) (buf : Bytes 512) (size : Nat)
    : UsbM (Int × Bytes 512) :=
  usbGetStringTries dev langid index size buf 2

/-- The loop of `usb_try_string_workarounds`: the final value of `newlength`. -/
def workaroundLength (buf : Bytes 512) (oldlength : Int) (fuel newlength : Nat)
    : Except Stop Nat :=
  match fuel with
  | 0 => .error .fault
  | fuel + 1 => do
    if (newlength : Int) + 1 < oldlength then
      let lo ← rd buf newlength
      let hi ← rd buf (newlength + 1)
      if !isprint lo || hi ≠ 0 then
        return newlength
      else
        workaroundLength buf oldlength fuel (newlength + 2)
    else
      return newlength

/-- `usb_try_string_workarounds`, with what it leaves in `buf` and `*length`. -/
def usbTryStringWorkarounds (buf : Bytes 512) (length : Int) : Except Stop (Bytes 512 × Int) := do
  -- the loop leaves the buffer before the fuel runs out
  let newlength ← workaroundLength buf length usbBufsiz 2
  if newlength > 2 then
    return (buf.write 0 [BitVec.ofNat 8 newlength], newlength)
  else
    return (buf, length)

/-- The attempts of `usb_string_sub` to read the string. -/
def readString (dev : Fin 32) (langid : BitVec 16) (index : Byte) (buf : Bytes 512)
    : UsbM (Int × Bytes 512) := do
  let (rc, buf) ← usbGetString dev langid index buf 255
  if rc < 2 then
    let (rc, buf) ← usbGetString dev langid index buf 2
    if rc = 2 then
      usbGetString dev langid index buf (buf 0).toNat
    else
      return (rc, buf)
  else
    return (rc, buf)

/-- What `usb_string_sub` does to a string that starts with zeros. -/
def fixString (buf : Bytes 512) (rc : Int) : Except Stop (Bytes 512 × Int) :=
  if buf 0 = 0 ∧ buf 1 = 0 then usbTryStringWorkarounds buf rc else return (buf, rc)

/-- `usb_string_sub`, with what it leaves in `buf`. -/
def usbStringSub (dev : Fin 32) (langid : BitVec 16) (index : Byte) (buf : Bytes 512)
    : UsbM (Int × Bytes 512) := do
  let (rc, buf) ← readString dev langid index buf
  if rc ≥ 2 then
    let (buf, rc) ← Stateful.ofExcept (fixString buf rc)
    let rc := if ((buf 0).toNat : Int) < rc then ((buf 0).toNat : Int) else rc
    let rc := rc - rc % 2
    return (if rc < 2 then -1 else rc, buf)
  else
    return (-1, buf)

/-- The characters that the last loop of `usb_string` stores, from code unit `u` on. -/
def stringChars (tbuf : Bytes 512) (err size fuel u idx : Nat) : Except Stop (List Byte) :=
  match fuel with
  | 0 => .ok []
  | fuel + 1 => do
    if u < err then
      if idx ≥ size then
        return []
      else
        let hi ← rd tbuf (u + 1)
        let lo ← rd tbuf u
        let rest ← stringChars tbuf err size fuel (u + 2) (idx + 1)
        return (if hi ≠ 0 then 63 else lo) :: rest
    else
      return []

/--
Make sure that `have_langid` is set; string descriptor 0 is the language table. `false` if there is
none.
-/
def readLangid (dev : Fin 32) (tbuf : Bytes 512) : UsbM (Bool × Bytes 512) := do
  let d ← getDev dev
  if d.haveLangid = 0 then
    let (err, tbuf) ← usbStringSub dev 0 0 tbuf
    if err < 0 then
      return (false, tbuf)
    else if (tbuf 0).toNat < 4 then
      return (false, tbuf)
    else
      modifyDev dev fun d =>
        { d with haveLangid := -1, stringLangid := le16 (tbuf 2) (tbuf 3) }
      return (true, tbuf)
  else
    return (true, tbuf)

/-- `usb_string` for the first `size` bytes of a `buf` that is not `NULL`, with what it leaves there. -/
def usbStringAt (dev : Fin 32) (index : Int) (size : Nat) {n : Nat} (buf : Bytes n)
    : UsbM (Int × Bytes n) := do
  if size = 0 ∨ index = 0 then
    return (-1, buf)
  else
    let tbuf : Bytes 512 ← Stateful.ask (HcdOp.stack 512)
    let buf := buf.write 0 [0]
    let (known, tbuf) ← readLangid dev tbuf
    if known then
      let d ← getDev dev
      let (err, tbuf) ← usbStringSub dev (BitVec.ofInt 16 d.stringLangid) (BitVec.ofInt 8 index) tbuf
      if err < 0 then
        return (err, buf)
      else
        let chars ← Stateful.ofExcept (stringChars tbuf err.toNat (size - 1) err.toNat 2 0)
        return (chars.length, buf.write 0 (chars ++ [0]))
    else
      return (-1, buf)

/-- `usb_string` for a whole array. -/
def usbString (dev : Fin 32) (index : Int) {size : Nat} (buf : Bytes size) : UsbM (Int × Bytes size) :=
  usbStringAt dev index size buf
