import PureUsb.Usb.Impl.Scan

/-!
This module contains the hub driver.
-/

/-- The loop of `usb_hub_power_on` from port index `i` on, with `n` ports left. -/
def powerOnPorts (dev : Fin 32) (n i : Nat) : UsbM Unit :=
  match n with
  | 0 => return ()
  | n + 1 => do
    let _ ← usbSetPortFeature dev (i + 1) usbPortFeatPower
    powerOnPorts dev n (i + 1)

def usbHubPowerOn (dev : Fin 32) : UsbM Unit := do
  let d ← getDev dev
  powerOnPorts dev d.maxchild.toNat 0

/-- `dev->children[port] != NULL` -/
def hasChild (dev : Fin 32) (port : Int) : UsbM Bool := do
  let d ← getDev dev
  if h : 0 ≤ port ∧ port < usbMaxchildren then
    return d.children ⟨port.toNat, by simp only [usbMaxchildren] at h; omega⟩ ≠ .null
  else
    Stateful.stop .fault

/-- The speed that the port status of an enabled port stands for. -/
def portSpeed (portstatus : BitVec 16) : Int :=
  if portstatus &&& usbPortStatHighSpeed ≠ 0 then usbSpeedHigh
  else if portstatus &&& usbPortStatLowSpeed ≠ 0 then usbSpeedLow
  else usbSpeedFull

/-- Nothing is connected to the port any more, or there was a device before. -/
def portIsStale (dev : Fin 32) (port : Int) (portstatus : BitVec 16) : UsbM Bool :=
  if portstatus &&& usbPortStatConnection = 0 ∧ portstatus &&& usbPortStatEnable = 0 then
    return true
  else
    hasChild dev port

/-- Enumerate the device behind a port that was reset. -/
def enumeratePort (dev : Fin 32) (port : Int) (portstatus : BitVec 16)
    : UsbM (Int × Option (Fin 32)) := do
  match ← usbAllocNewDevice (some dev) (BitVec.ofInt 32 port).toNat with
  | none => return (-1, none)
  | some usb =>
    modifyDev usb fun d => { d with speed := portSpeed portstatus }
    let ret ← usbScanDevice usb
    if ret < 0 then
      return (ret, none)
    else
      return (1, some usb)

/-- `usb_hub_port_connect_change`, with what it stores in `*child`. -/
def usbHubPortConnectChange (dev : Fin 32) (port : Int) : UsbM (Int × Option (Fin 32)) := do
  let portsts : Bytes 4 ← Stateful.ask (HcdOp.stack 4)
  let (ret, bytes) ← usbGetPortStatus dev (port + 1)
  if ret < 0 then
    return (ret, none)
  else
    let portstatus := portStatus (portsts.write 0 bytes)
    let _ ← usbClearPortFeature dev (port + 1) usbPortFeatCConnection
    let stale ← portIsStale dev port portstatus
    if stale ∧ portstatus &&& usbPortStatConnection = 0 then
      -- nothing is connected
      return (0, none)
    else
      match ← hubPortReset dev port with
      | (_, some portstatus) => enumeratePort dev port portstatus
      | (ret, none) => return (ret, none)

/-- The loops over the two bitmaps in `usb_hub_init`, both of which write `DeviceRemovable`. -/
def copyBitmaps (buffer : Bytes 512) (bNbrPorts : Nat) : Except Stop (List Byte × List Byte) := do
  let n := (bNbrPorts + 1 + 7) / 8
  let removable ← rdRange buffer 7 n
  let powerCtrl ← rdRange buffer 9 n
  return (removable, powerCtrl)

/-- Where `hubdescriptor` of `usb_dev[dev]` lies in the table. -/
def hubdescriptorAddr (dev : Fin 32) : Int := sizeofUsbDevice * dev + offsetofHubdescriptor

/-- What `usb_hub_init` stores in `hubdescriptor`. -/
def copyHubDescriptor (t : UsbTable) (base : BitVec 32) (dev : Fin 32) (buffer : Bytes 512)
    : Except Stop UsbTable := do
  let descriptor ← rdRange buffer 0 (buffer 0).toNat
  let t ← pokes t base (hubdescriptorAddr dev) descriptor
  -- `wHubCharacteristics` and the two bitmaps
  let t ← pokes t base (hubdescriptorAddr dev + 3) [buffer 3, buffer 4]
  let t ← pokes t base (hubdescriptorAddr dev + 7) [0xff, 0xff, 0xff, 0xff]
  let bNbrPorts := ((t dev).hubdescriptor 2).toNat
  let (removable, powerCtrl) ← copyBitmaps buffer bNbrPorts
  let t ← pokes t base (hubdescriptorAddr dev + 7) removable
  pokes t base (hubdescriptorAddr dev + 7) powerCtrl

/-- What `usb_hub_init` does with the hub descriptor it read. -/
def storeHubDescriptor (dev : Fin 32) (buffer : Bytes 512) : UsbM Unit := do
  Stateful.ask (HcdOp.copyingHub dev buffer)
  let u ← get
  let usbDev ← Stateful.ofExcept (copyHubDescriptor u.usbDev u.usbDevAddr dev buffer)
  set { u with usbDev }
  modifyDev dev fun d => { d with maxchild := (buffer 2).toNat }

def usbHubInit (dev : Fin 32) : UsbM Int := do
  let buffer : Bytes 512 ← Stateful.ask (HcdOp.stack 512)
  let (ret, bytes) ← usbGetHubDescriptor dev 4
  if ret < 0 then
    return -1
  else
    let buffer := buffer.write 0 bytes
    -- a byte is never above `USB_BUFSIZ`
    let (ret, bytes) ← usbGetHubDescriptor dev (buffer 0).toNat
    if ret < 0 then
      return -1
    else
      let buffer := buffer.write 0 bytes
      storeHubDescriptor dev buffer
      let (ret, _) ← usbGetHubStatus dev
      if ret < 0 then
        return -1
      else
        usbHubPowerOn dev
        return 0

/-- What `usb_hub_scan` does about a connection change. -/
def hubScanConnection (dev : Fin 32) (i : Int) (portchange : BitVec 16)
    : UsbM (Int × Option (Fin 32)) :=
  if portchange &&& usbPortStatCConnection ≠ 0 then
    usbHubPortConnectChange dev i
  else
    return (0, none)

/-- What `usb_hub_scan` does about an enable change: the new value of `new`. -/
def hubScanEnable (dev : Fin 32) (i : Int) (portstatus portchange : BitVec 16)
    (new : Option (Fin 32)) : UsbM (Int × Option (Fin 32)) := do
  if portchange &&& usbPortStatCEnable ≠ 0 then
    let _ ← usbClearPortFeature dev (i + 1) usbPortFeatCEnable
    if portstatus &&& usbPortStatEnable = 0 ∧ portstatus &&& usbPortStatConnection ≠ 0 then
      if ← hasChild dev i then
        -- a running port was disabled by the hub
        usbHubPortConnectChange dev i
      else
        return (0, new)
    else
      return (0, new)
  else
    return (0, new)

/--
Clear `feature` if `cond` holds; `usb_hub_scan` gives up when the request returns 0.
-/
def hubScanClear (dev : Fin 32) (i : Int) (cond : Prop) [Decidable cond] (feature : BitVec 16)
    : UsbM Bool := do
  if cond then
    let ret ← usbClearPortFeature dev (i + 1) feature
    return ret ≠ 0
  else
    return true

/-- What `usb_hub_scan` does about an over-current change: `false` if it gives up. -/
def hubScanOverCurrent (dev : Fin 32) (i : Int) (portchange : BitVec 16) : UsbM Bool := do
  if portchange &&& usbPortStatCOvercurrent ≠ 0 then
    let ret ← usbClearPortFeature dev (i + 1) usbPortFeatCOverCurrent
    if ret = 0 then
      return false
    else
      usbHubPowerOn dev
      return true
  else
    return true

/-- `usb_hub_scan`, with what it stores in `*child`. -/
def usbHubScan (dev : Fin 32) (i : Int) : UsbM (Int × Option (Fin 32)) := do
  let portsts : Bytes 4 ← Stateful.ask (HcdOp.stack 4)
  let (ret, bytes) ← usbGetPortStatus dev (i + 1)
  if ret = 0 then
    return (-1, none)
  else
    let portstatus := portStatus (portsts.write 0 bytes)
    let portchange := portChange (portsts.write 0 bytes)
    let (ret, new) ← hubScanConnection dev i portchange
    if ret < 0 then
      return (-1, none)
    else
      let (ret, new) ← hubScanEnable dev i portstatus portchange new
      if ret < 0 then
        return (-1, none)
      else if !(← hubScanClear dev i (portstatus &&& usbPortStatSuspend ≠ 0) usbPortFeatSuspend) then
        return (-1, none)
      else if !(← hubScanOverCurrent dev i portchange) then
        return (-1, none)
      else if !(← hubScanClear dev i (portchange &&& usbPortStatCReset ≠ 0) usbPortFeatCReset) then
        return (-1, none)
      else
        return (if new.isNone then 0 else 1, new)
