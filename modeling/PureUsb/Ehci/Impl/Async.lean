import PureUsb.Ehci.Basic
import PureUsb.Usb.Impl.Control

/-!
This module contains transfers over the asynchronous schedule.
-/

/-- `ehci_alloc(sizeof(struct QH), 32)` -/
def allocQh : EhciM Unit := do
  storeDma fun m => { m with qh := .zero }
  modify fun e => { e with ntds := 0 }

/-- `ehci_alloc(sizeof(struct qTD), 32)` -/
def allocTd : EhciM (Option (Fin 3)) := do
  let e ← get
  if h : e.ntds = 3 then
    return none
  else
    let i : Fin 3 := ⟨e.ntds, by omega⟩
    storeDma fun m => m.setTd i .zero
    set { e with ntds := e.ntds + 1 }
    return some i

/-- The loop of `ehci_td_buffer` from `idx` on, with `n` entries left. -/
def tdBufferFrom (td : QTD) (addr : BitVec 32) (sz n idx : Nat) : QTD × Int :=
  match n with
  | 0 => (td, -1)
  | n + 1 =>
    let td := { td with
      qtBuffer := fun i => if (i : Nat) = idx then addr else td.qtBuffer i
      qtBufferHi := fun i => if (i : Nat) = idx then 0 else td.qtBufferHi i }
    let next := (addr + 4096) &&& ~~~4095#32
    let delta := (next - addr).toNat
    if delta ≥ sz then
      (td, 0)
    else
      tdBufferFrom td next (sz - delta) n (idx + 1)

/-- `ehci_td_buffer`, with the qTD it leaves. -/
def ehciTdBuffer (td : QTD) (buf : BitVec 32) (sz : Nat) : QTD × Int :=
  tdBufferFrom td buf sz 5 0

/-- The first endpoint word of the queue head. -/
def qhEndpt1 (dev : UsbDevice) (pipe : BitVec 32) : BitVec 32 :=
  let c : BitVec 32 := if usbPipespeed pipe ≠ 2 ∧ usbPipeendpoint pipe = 0 then 1 else 0
  (8#32 <<< 28) ||| (c <<< 27) ||| (BitVec.ofInt 32 (usbMaxpacket dev pipe) <<< 16) ||| (0#32 <<< 15) |||
    (1#32 <<< 14) ||| (usbPipespeed pipe <<< 12) ||| (usbPipeendpoint pipe <<< 8) ||| (0#32 <<< 7) |||
    (usbPipedevice pipe <<< 0)

/-- The second endpoint word of the queue head. -/
def qhEndpt2 (dev parent : UsbDevice) : BitVec 32 :=
  (1#32 <<< 30) ||| (BitVec.ofInt 32 dev.portnr <<< 23) ||| (BitVec.ofInt 32 parent.devnum <<< 16) |||
    (0#32 <<< 8) ||| (0#32 <<< 0)

def setupToken : BitVec 32 :=
  (0#32 <<< 31) ||| (8#32 <<< 16) ||| (0#32 <<< 15) ||| (0#32 <<< 12) ||| (3#32 <<< 10) ||| (2#32 <<< 8) ||| 0x80

def dataToken (toggle : BitVec 32) (length : Nat) (control : Bool) (pipe : BitVec 32) : BitVec 32 :=
  (toggle <<< 31) ||| (BitVec.ofNat 32 length <<< 16) ||| ((if control then 0#32 else 1) <<< 15) |||
    (0#32 <<< 12) ||| (3#32 <<< 10) ||| ((if usbPipein pipe ≠ 0 then 1#32 else 0) <<< 8) ||| 0x80

def statusToken (toggle pipe : BitVec 32) : BitVec 32 :=
  (toggle <<< 31) ||| (0#32 <<< 16) ||| (1#32 <<< 15) ||| (0#32 <<< 12) ||| (3#32 <<< 10) |||
    ((if usbPipein pipe ≠ 0 then 0#32 else 1) <<< 8) ||| 0x80

/-- The buffer pointers of a qTD that has a buffer. -/
def fillBuffer (td : QTD) (buffer : Option (BitVec 32 × Nat)) : QTD × Int :=
  match buffer with
  | some (buf, sz) => ehciTdBuffer td buf sz
  | none => (td, 0)

/-- `*tdp = td[i]`, where `tdp` is the `qt_next` of the overlay or of the qTD before. -/
def linkTd (prev : Option (Fin 3)) (i : Fin 3) (m : Dma) : Dma :=
  match prev with
  | none => m.setOverlay { m.qh.qhOverlay with qtNext := .td i }
  | some j => m.setTd j { m.td j with qtNext := .td i }

/--
Append a qTD with `token` to the chain whose last element is `prev`. The STATUS stage has no buffer.
`none`: there is no qTD left, or the buffer does not fit.
-/
def appendTd (prev : Option (Fin 3)) (token : BitVec 32) (buffer : Option (BitVec 32 × Nat))
    : EhciM (Option (Fin 3)) := do
  match ← allocTd with
  | none => return none
  | some i =>
    storeDma fun m =>
      m.setTd i { m.td i with qtNext := .terminate, qtAltnext := .terminate, qtToken := token }
    let m ← loadDma
    storeDma fun m' => m'.setTd i (fillBuffer (m.td i) buffer).1
    if (fillBuffer (m.td i) buffer).2 ≠ 0 then
      return none
    else
      storeDma (linkTd prev i)
      return some i

/-- The DATA stage of a control transfer, if it has one. -/
def appendData (setup : Fin 3) (pipe buffer : BitVec 32) (length : Nat) : EhciM (Option (Fin 3)) :=
  if length > 0 then
    appendTd (some setup) (dataToken 1 length true pipe) (some (buffer, length))
  else
    return some setup

/--
Build the chain of qTDs behind the queue head: its last element, or `none` for `goto fail`.
-/
def buildChain (dev : UsbDevice) (pipe buffer : BitVec 32) (length : Nat) (req : Option (BitVec 32))
    : EhciM (Option (Fin 3)) := do
  let toggle := usbGettoggle dev (usbPipeendpoint pipe) (usbPipeout pipe)
  match req with
  | none => appendTd none (dataToken toggle length false pipe) (some (buffer, length))
  | some req =>
    match ← appendTd none setupToken (some (req, 8)) with
    | none => return none
    | some setup =>
      match ← appendData setup pipe buffer length with
      | none => return none
      | some last => appendTd (some last) (statusToken 1 pipe) none

/-- Wait for the qTD `td`, with `attempts + 1` looks at its token left. -/
def pollTries (td : Fin 3) (attempts : Nat) : EhciM Unit := do
  let m ← loadDma
  if (m.td td).qtToken &&& qtTokenActive = 0 then
    return ()
  else
    match attempts with
    | 0 => return ()
    | attempts + 1 => pollTries td attempts

/-- The walk over the chain at the label `fail`; `ehci_free` does nothing. -/
def dropChain (m : Dma) (fuel : Nat) : Dma :=
  match fuel, m.qh.qhOverlay.qtNext with
  | fuel + 1, .td i =>
    dropChain (m.setOverlay { m.qh.qhOverlay with qtNext := (m.td i).qtNext }) fuel
  | _, _ => m

def failAsync (dev : UsbDevice) : EhciM (Int × UsbDevice) := do
  storeDma fun m => dropChain m 4
  return (-1, dev)

/-- Enable the asynchronous schedule. -/
def enableAsync : EhciM Int := do
  let usbsts ← ehciReadl .usbsts
  ehciWritel .usbsts (usbsts &&& 0x3f)
  let cmd ← ehciReadl .usbcmd
  ehciWritel .usbcmd (cmd ||| cmdAse)
  handshake .usbsts stdAss stdAss (100 * 1000)

/-- Disable the asynchronous schedule. -/
def disableAsync : EhciM Int := do
  let cmd ← ehciReadl .usbcmd
  ehciWritel .usbcmd (cmd &&& ~~~cmdAse)
  handshake .usbsts stdAss 0 (100 * 1000)

/-- The `switch` over the status bits of a token that is not active, without the case 0. -/
def tokenStatus (token : BitVec 32) : BitVec 32 :=
  if token &&& 0xfc = 0x40 then usbStStalled
  else if token &&& 0xfc = 0xa0 ∨ token &&& 0xfc = 0x20 then usbStBufErr
  else if token &&& 0xfc = 0x50 ∨ token &&& 0xfc = 0x10 then usbStBabbleDet
  else usbStCrcErr

/-- What `ehci_submit_async` reads off the token of the overlay. -/
def completeAsync (dev : UsbDevice) (pipe : BitVec 32) (length : Nat) (token : BitVec 32)
    : UsbDevice :=
  if token &&& qtTokenActive = 0 then
    let dev :=
      if token &&& 0xfc = 0 then
        { usbSettoggle dev (usbPipeendpoint pipe) (usbPipeout pipe) (token >>> 31) with status := 0 }
      else
        { dev with status := tokenStatus token }
    { dev with actLen := length - ((token >>> 16) &&& 0x7fff).toNat }
  else
    { dev with actLen := 0 }

/--
`ehci_submit_async`, with the device structure it leaves. `parent` is what `dev->parent` points to.
-/
def ehciSubmitAsync (dev : UsbDevice) (parent : Option UsbDevice) (pipe buffer : BitVec 32)
    (length : Nat) (req : Option (BitVec 32)) : EhciM (Int × UsbDevice) := do
  allocQh
  storeDma fun m =>
    { m with qh := { m.qh with qhLink := .qhList, qhEndpt1 := qhEndpt1 dev pipe } }
  match parent with
  | none => Stateful.stop .fault
  | some parent =>
    storeDma fun m => { m with qh := { m.qh with qhEndpt2 := qhEndpt2 dev parent } }
    storeDma fun m => m.setOverlay { m.qh.qhOverlay with qtNext := .terminate }
    match ← buildChain dev pipe buffer length req with
    | none => failAsync dev
    | some td =>
      storeDma fun m => m.setLink .qh
      let ret ← enableAsync
      if ret < 0 then
        failAsync dev
      else
        pollTries td 999
        let ret ← disableAsync
        if ret < 0 then
          failAsync dev
        else
          storeDma fun m => m.setLink .qhList
          let m ← loadDma
          let dev := completeAsync dev pipe length m.qh.qhOverlay.qtToken
          return (if dev.status ≠ usbStNotProc then 0 else -1, dev)
