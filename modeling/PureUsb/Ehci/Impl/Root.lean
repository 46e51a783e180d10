import PureUsb.Ehci.Impl.Async
import Mathlib.Data.Fin.VecNotation

/-!
This module contains the emulated root hub and the entry points of the host controller driver.
-/

/-- `descriptor.hub` as it is initialised. -/
def hubDescriptor : Bytes 11 := ![8, 0x29, 2, 0, 0, 0xff, 0, 0, 0, 0, 0]

/-- `descriptor.device` -/
def deviceDescriptor : List Byte :=
  [0x12, 1, 0, 2, 9, 0, 1, 64, 0, 0, 0, 0, 0, 1, 1, 2, 0, 1]

/-- `descriptor.config`, `descriptor.interface` and `descriptor.endpoint` -/
def configDescriptor : List Byte :=
  [9, 2, 0x19, 0, 1, 1, 0, 0x40, 0,
   9, 4, 0, 0, 1, 9, 0, 0, 0,
   7, 5, 0x81, 3, 8, 0, 255]

/-- The string descriptors: language, vendor `u-boot` and product `EHCI Host Controller`. -/
def stringDescriptor (index : Nat) : Option (List Byte) :=
  match index with
  | 0 => some [4, 3, 1, 0]
  | 1 => some [14, 3, 117, 0, 45, 0, 98, 0, 111, 0, 111, 0, 116, 0]
  | 2 => some
    [42, 3, 69, 0, 72, 0, 67, 0, 73, 0, 32, 0, 72, 0, 111, 0, 115, 0, 116, 0, 32, 0,
     67, 0, 111, 0, 110, 0, 116, 0, 114, 0, 111, 0, 108, 0, 108, 0, 101, 0, 114, 0]
  | _ => none

/--
`&hcor->or_portsc[index - 1]`. There is a word in front of `or_portsc`: `or_configflag`.
-/
def statusReg (index : BitVec 16) : Reg :=
  match index.toNat with
  | 0 => .configflag
  | 1 => .portsc 0
  | _ => .portsc 1

/-- `request | requesttype << 8` -/
def DevRequest.typeReq (req : DevRequest) : BitVec 16 :=
  req.request.setWidth 16 ||| (req.requesttype.setWidth 16 <<< 8)

/-- The low or high byte of a port status or port change word if `cond` holds. -/
def statBit (cond : BitVec 32) (bit : BitVec 16) : BitVec 16 :=
  if cond ≠ 0 then bit else 0

/-- `wPortStatus` for the register value `reg`. -/
def rootPortStatus (reg : BitVec 32) : BitVec 16 :=
  statBit (reg &&& ehciPsCs) usbPortStatConnection |||
  statBit (reg &&& ehciPsPe) usbPortStatEnable |||
  statBit (reg &&& ehciPsSusp) usbPortStatSuspend |||
  statBit (reg &&& ehciPsOca) usbPortStatOvercurrent |||
  statBit (reg &&& ehciPsPr) usbPortStatReset |||
  statBit (reg &&& ehciPsPp) usbPortStatPower |||
  (if ehciIsTDI then
    if (reg >>> 26) &&& 3 = 0 then 0
    else if (reg >>> 26) &&& 3 = 1 then usbPortStatLowSpeed
    else usbPortStatHighSpeed
  else
    usbPortStatHighSpeed)

/-- `wPortChange` for the register value `reg`. -/
def rootPortChange (reg : BitVec 32) (portreset : BitVec 16) (index : BitVec 16) : BitVec 16 :=
  statBit (reg &&& ehciPsCsc) usbPortStatCConnection |||
  statBit (reg &&& ehciPsPec) usbPortStatCEnable |||
  statBit (reg &&& ehciPsOcc) usbPortStatCOvercurrent |||
  (if portreset &&& (1#16 <<< index.toNat) ≠ 0 then usbPortStatCReset else 0)

/-- The low and the high byte of a word. -/
def bytes16 (x : BitVec 16) : List Byte := [x.setWidth 8, (x >>> 8).setWidth 8]

/-- The descriptor that `wValue` names. -/
def rootDescriptor (value : BitVec 16) : Option (List Byte) :=
  if (value >>> 8).setWidth 8 = usbDtDevice then some deviceDescriptor
  else if (value >>> 8).setWidth 8 = usbDtConfig then some configDescriptor
  else if (value >>> 8).setWidth 8 = usbDtString then stringDescriptor (value &&& 0xff).toNat
  else none

/-- The case `USB_PORT_FEAT_RESET` of SET_FEATURE. -/
def resetRootPort (req : DevRequest) (reg : BitVec 32) : EhciM Unit := do
  if reg &&& (ehciPsPe ||| ehciPsCs) = ehciPsCs ∧ ehciIsTDI = false ∧ ehciPsIsLowspeed reg then
    -- low speed device, give up ownership
    ehciWritel (statusReg req.index) (reg ||| ehciPsPo)
  else
    let reg := (reg ||| ehciPsPr) &&& ~~~ehciPsPe
    ehciWritel (statusReg req.index) reg
    ehciWritel (statusReg req.index) (reg &&& ~~~ehciPsPr)
    let ret ← handshake (statusReg req.index) ehciPsPr 0 (2 * 1000)
    if ret = 0 then
      modify fun e => { e with portreset := e.portreset ||| (1#16 <<< req.index.toNat) }
    else
      return ()

/-- SET_FEATURE on a port: `false` for `goto unknown`. -/
def rootSetFeature (req : DevRequest) : EhciM Bool := do
  let reg ← ehciReadl (statusReg req.index)
  let reg := reg &&& ~~~ehciPsClear
  let known ←
    if req.value = usbPortFeatEnable then do
      ehciWritel (statusReg req.index) (reg ||| ehciPsPe)
      pure true
    else if req.value = usbPortFeatPower then do
      if hcsPpc (← ehciReadl .hcsparams) ≠ 0 then
        ehciWritel (statusReg req.index) (reg ||| ehciPsPp)
        ehciWritel .configflag 1
        pure true
      else
        pure true
    else if req.value = usbPortFeatReset then do
      resetRootPort req reg
      pure true
    else
      pure false
  if known then
    -- unblock posted writes
    let _ ← ehciReadl .usbcmd
    return true
  else
    return false

/-- The value that CLEAR_FEATURE writes back to a port: `none` for `goto unknown`. -/
def rootClearFeatureValue (req : DevRequest) (reg : BitVec 32) : EhciM (Option (BitVec 32)) := do
  if req.value = usbPortFeatEnable then
    return some (reg &&& ~~~ehciPsPe)
  else if req.value = usbPortFeatCEnable then
    return some ((reg &&& ~~~ehciPsClear) ||| ehciPsPe)
  else if req.value = usbPortFeatPower then
    let ppc ← ehciReadl .hcsparams
    let reg := if hcsPpc ppc ≠ 0 then reg &&& ~~~(ehciPsClear ||| ehciPsPp) else reg
    -- falls through to `USB_PORT_FEAT_C_CONNECTION`
    return some ((reg &&& ~~~ehciPsClear) ||| ehciPsCsc)
  else if req.value = usbPortFeatCConnection then
    return some ((reg &&& ~~~ehciPsClear) ||| ehciPsCsc)
  else if req.value = usbPortFeatOverCurrent then
    return some ((reg &&& ~~~ehciPsClear) ||| ehciPsOcc)
  else if req.value = usbPortFeatCReset then
    modify fun e => { e with portreset := e.portreset &&& ~~~(1#16 <<< req.index.toNat) }
    return some reg
  else
    return none

/-- CLEAR_FEATURE on a port: `false` for `goto unknown`. -/
def rootClearFeature (req : DevRequest) : EhciM Bool := do
  let reg ← ehciReadl (statusReg req.index)
  match ← rootClearFeatureValue req reg with
  | none => return false
  | some reg =>
    ehciWritel (statusReg req.index) reg
    -- unblock posted write
    let _ ← ehciReadl .usbcmd
    return true

/--
The `switch` over the request: the bytes it answers with, `none` for `goto unknown`.
-/
def rootRequest (req : DevRequest) : EhciM (Option (List Byte)) := do
  if req.typeReq = 0x8006 then
    -- DeviceRequest | USB_REQ_GET_DESCRIPTOR
    return rootDescriptor req.value
  else if req.typeReq = 0xa006 then
    -- USB_REQ_GET_DESCRIPTOR | ((USB_DIR_IN | USB_RT_HUB) << 8)
    if (req.value >>> 8).setWidth 8 = usbDtHub then
      let e ← get
      return some ((List.ofFn e.hub).take 8)
    else
      return none
  else if req.typeReq = 0x0005 then
    -- USB_REQ_SET_ADDRESS | (USB_RECIP_DEVICE << 8)
    modify fun e => { e with rootdev := req.value.toNat }
    return some []
  else if req.typeReq = 0x0009 then
    -- DeviceOutRequest | USB_REQ_SET_CONFIGURATION
    return some []
  else if req.typeReq = 0xa000 then
    -- USB_REQ_GET_STATUS | ((USB_DIR_IN | USB_RT_HUB) << 8)
    return some [1, 0]
  else if req.typeReq = 0xa300 then
    -- USB_REQ_GET_STATUS | ((USB_RT_PORT | USB_DIR_IN) << 8)
    let reg ← ehciReadl (statusReg req.index)
    let e ← get
    return some (bytes16 (rootPortStatus reg) ++ bytes16 (rootPortChange reg e.portreset req.index))
  else if req.typeReq = 0x2303 then
    -- USB_REQ_SET_FEATURE | ((USB_DIR_OUT | USB_RT_PORT) << 8)
    if ← rootSetFeature req then return some [] else return none
  else if req.typeReq = 0x2301 then
    -- USB_REQ_CLEAR_FEATURE | ((USB_DIR_OUT | USB_RT_PORT) << 8)
    if ← rootClearFeature req then return some [] else return none
  else
    return none

/--
`ehci_submit_root`, with the device structure it leaves and the bytes it copies to the buffer.
-/
def ehciSubmitRoot (dev : UsbDevice) (length : Nat) (req : DevRequest)
    : EhciM (Int × UsbDevice × List Byte) := do
  if req.index.toNat > configSysUsbEhciMaxRootPorts then
    return (-1, dev, [])
  else
    match ← rootRequest req with
    | some src =>
      let len := min (min src.length req.length.toNat) length
      return (0, { dev with actLen := len, status := 0 }, src.take len)
    | none => return (-1, { dev with actLen := 0, status := usbStStalled }, [])

/-!
### Entry points
-/

/-- Who handles a control transfer. -/
inductive Backend where
  | root
  | async
  deriving DecidableEq

/-- `usb_pipedevice(pipe) == rootdev` -/
def backend (rootdev : Int) (pipe : BitVec 32) : Backend :=
  if ((usbPipedevice pipe).toNat : Int) = rootdev then .root else .async

/--
`submit_control_msg`. `buffer` and `setup` lie at the addresses `bufAddr` and `setupAddr`; what the
controller puts into the buffer is not the driver's doing and `none` here.
-/
def submitControlMsg (dev : UsbDevice) (parent : Option UsbDevice) (pipe bufAddr : BitVec 32)
    (length : Nat) (setup : DevRequest) (setupAddr : BitVec 32)
    : EhciM (Int × UsbDevice × Option (List Byte)) := do
  if usbPipetype pipe ≠ pipeControl then
    return (-1, dev, some [])
  else
    let e ← get
    match backend e.rootdev pipe with
    | .root =>
      let dev := if e.rootdev = 0 then { dev with speed := usbSpeedHigh } else dev
      let (ret, dev, data) ← ehciSubmitRoot dev length setup
      return (ret, dev, some data)
    | .async =>
      let (ret, dev) ← ehciSubmitAsync dev parent pipe bufAddr length (some setupAddr)
      return (ret, dev, none)

def submitBulkMsg (dev : UsbDevice) (parent : Option UsbDevice) (pipe bufAddr : BitVec 32)
    (length : Nat) : EhciM (Int × UsbDevice × Option (List Byte)) := do
  if usbPipetype pipe ≠ pipeBulk then
    return (-1, dev, some [])
  else
    let (ret, dev) ← ehciSubmitAsync dev parent pipe bufAddr length none
    return (ret, dev, none)
