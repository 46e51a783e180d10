import PureUsb.Usb.Impl.Strings

/-!
This module contains the enumeration of devices.
-/

def usbAllocNewDevice (parent : Option (Fin 32)) (port : Nat) : UsbM (Option (Fin 32)) := do
  let u ← get
  if u.gDevIndex = usbMaxDevice then
    return none
  else if hp : port < usbMaxchildren then
    if h : u.gDevIndex < usbMaxDevice then
      let new : Fin 32 := ⟨u.gDevIndex, h⟩
      modifyDev new fun d =>
        { d with devnum := u.gDevIndex + 1, maxchild := 0, children := fun _ => .null }
      match parent with
      | some p =>
        modifyDev p fun d => { d with children := Function.update d.children ⟨port, hp⟩ (.dev new) }
        modifyDev new fun d => { d with parent := .dev p }
      | none => modifyDev new fun d => { d with parent := .null }
      modify fun u => { u with gDevIndex := u.gDevIndex + 1 }
      return some new
    else
      Stateful.stop .fault
  else
    return none

/-- The two halves of a `struct usb_port_status`. -/
def portStatus (portsts : Bytes 4) : BitVec 16 := BitVec.ofNat 16 (le16 (portsts 0) (portsts 1))

def portChange (portsts : Bytes 4) : BitVec 16 := BitVec.ofNat 16 (le16 (portsts 2) (portsts 3))

abbrev maxTries : Nat := 5

/--
The loop of `hub_port_reset` with `tries` attempts left: the port status of the last attempt if the
port is enabled.
-/
def hubPortResetTries (dev : Fin 32) (port : Int) (portsts : Bytes 4) (tries : Nat)
    : UsbM (Option (BitVec 16)) :=
  match tries with
  | 0 => return none
  | tries + 1 => do
    let _ ← usbSetPortFeature dev (port + 1) usbPortFeatReset
    let (ret, bytes) ← usbGetPortStatus dev (port + 1)
    if ret < 0 then
      return none
    else
      let portsts := portsts.write 0 bytes
      if portChange portsts &&& usbPortStatCConnection ≠ 0 ∨
          portStatus portsts &&& usbPortStatConnection = 0 then
        return none
      else if portStatus portsts &&& usbPortStatEnable ≠ 0 then
        return some (portStatus portsts)
      else
        hubPortResetTries dev port portsts tries

/-- `hub_port_reset`, with what it stores in `*portstat`, if it does. -/
def hubPortReset (dev : Fin 32) (port : Int) : UsbM (Int × Option (BitVec 16)) := do
  let portsts : Bytes 4 ← Stateful.ask (HcdOp.stack 4)
  match ← hubPortResetTries dev port portsts maxTries with
  | none => return (-1, none)
  | some status =>
    let _ ← usbClearPortFeature dev (port + 1) usbPortFeatCReset
    return (0, some status)

/--
The first port from `j` on, of those below `j + n`, where `parent` has `dev` as its child.
-/
def findPort (parent : UsbDevice) (dev : Fin 32) (n j : Nat) : Except Stop (Option Nat) :=
  match n with
  | 0 => return none
  | n + 1 =>
    if h : j < usbMaxchildren then
      if parent.children ⟨j, h⟩ = .dev dev then
        return some j
      else
        findPort parent dev n (j + 1)
    else
      .error .fault

/-- The second reset of the port in `usb_scan_device`. -/
def resetParentPort (dev : Fin 32) : UsbM Int := do
  let d ← getDev dev
  if d.parent = .null then
    return 0
  else
    let p ← deref d.parent
    let parent ← getDev p
    match ← Stateful.ofExcept (findPort parent dev parent.maxchild.toNat 0) with
    | none => return -1
    | some port =>
      let (err, _) ← hubPortReset p port
      if err < 0 then
        return -1
      else
        return 0

/-- The `switch` over `bMaxPacketSize0`. -/
def packetSize (bMaxPacketSize0 : Byte) (maxpacketsize : Int) : Int :=
  if bMaxPacketSize0 = 8 then packetSize8
  else if bMaxPacketSize0 = 16 then packetSize16
  else if bMaxPacketSize0 = 32 then packetSize32
  else if bMaxPacketSize0 = 64 then packetSize64
  else maxpacketsize

/-- Read the string with the index `index` into the field that `get` and `set` belong to. -/
def scanString (dev : Fin 32) (index : UsbDevice → Byte) (get : UsbDevice → Bytes 32)
    (set : UsbDevice → Bytes 32 → UsbDevice) : UsbM Unit := do
  let d ← getDev dev
  if index d ≠ 0 then
    let (_, buf) ← usbString dev (index d).toNat (get d)
    modifyDev dev fun d => set d buf
  else
    return ()

/-- The strings that `usb_scan_device` reads at its end. -/
def scanStrings (dev : Fin 32) : UsbM Unit := do
  modifyDev dev fun d => { d with mf := .zero, prod := .zero, serial := .zero }
  scanString dev (·.iManufacturer) (·.mf) fun d mf => { d with mf }
  scanString dev (·.iProduct) (·.prod) fun d prod => { d with prod }
  scanString dev (·.iSerialNumber) (·.serial) fun d serial => { d with serial }

/--
What `usb_scan_device` does once the device has its address and its descriptor was read: find its
configuration and select it.
-/
def scanConfiguration (dev : Fin 32) (tmpbuf : Bytes 512) : UsbM Int := do
  let (_, tmpbuf) ← usbGetConfigurationNo dev tmpbuf 0
  let _ ← usbParseConfig dev tmpbuf 0
  let _ ← usbSetMaxpacket dev
  let d ← getDev dev
  let err ← usbSetConfiguration dev d.bConfigurationValue
  if err ≠ 0 then
    return -1
  else
    scanStrings dev
    return 0

/-- What `usb_scan_device` does at the default address: find the size of endpoint 0. -/
def scanDefault (dev : Fin 32) (tmpbuf : Bytes 512) : UsbM (Int × Bytes 512) := do
  modifyDev dev fun d =>
    { d with
      descriptor := d.descriptor.write 7 [64]
      maxpacketsize := packetSize64
      epmaxpacketin := Function.update d.epmaxpacketin 0 64
      epmaxpacketout := Function.update d.epmaxpacketout 0 64 }
  let (err, bytes) ← usbGetDescriptor dev usbDtDevice 0 .tmpbuf 64
  let tmpbuf := tmpbuf.write 0 bytes
  if err < 0 then
    return (-1, tmpbuf)
  else
    modifyDev dev fun d => { d with descriptor := d.descriptor.write 7 [tmpbuf 7] }
    let err ← resetParentPort dev
    if err < 0 then
      return (-1, tmpbuf)
    else
      modifyDev dev fun d =>
        { d with
          epmaxpacketin := Function.update d.epmaxpacketin 0 (d.bMaxPacketSize0.toNat : Int)
          epmaxpacketout := Function.update d.epmaxpacketout 0 (d.bMaxPacketSize0.toNat : Int)
          maxpacketsize := packetSize d.bMaxPacketSize0 d.maxpacketsize }
      return (0, tmpbuf)

def usbScanDevice (dev : Fin 32) : UsbM Int := do
  let tmpbuf : Bytes 512 ← Stateful.ask (HcdOp.stack 512)
  let addr := (← getDev dev).devnum
  modifyDev dev fun d => { d with devnum := 0 }
  let (err, tmpbuf) ← scanDefault dev tmpbuf
  if err < 0 then
    return -1
  else
    modifyDev dev fun d => { d with devnum := addr }
    let err ← usbSetAddress dev
    if err < 0 then
      return -1
    else
      let (err, bytes) ← usbGetDescriptor dev usbDtDevice 0 (.descriptor dev) 18
      modifyDev dev fun d => { d with descriptor := d.descriptor.write 0 bytes }
      if err < 18 then
        return -1
      else
        scanConfiguration dev tmpbuf

/-- `usb_scan_roothub`, with what it stores in `*root`. -/
def usbScanRoothub : UsbM (Int × Option (Fin 32)) := do
  match ← usbAllocNewDevice none 0 with
  | none => return (-1, none)
  | some root =>
    let ret ← usbScanDevice root
    if ret < 0 then
      return (ret, none)
    else
      let hub ← usbIsHub root 0
      if hub ≠ 1 then
        return (ret, none)
      else
        return (0, some root)
