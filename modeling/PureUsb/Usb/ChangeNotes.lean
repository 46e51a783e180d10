import PureUsb.Usb.Impl.Hub
import PureUsb.Prog.Noted

/-!
This module contains `usb_hub_scan` with notes on the ways it went through
`usb_hub_port_connect_change`.
-/

open Stateful

/-- The way through `usb_hub_port_connect_change`. -/
inductive ChangePath where
  /-- `usb_get_port_status` failed -/
  | noStatus
  /-- `goto nothing` -/
  | nothing
  /-- `hub_port_reset` failed -/
  | noReset
  /-- `usb_alloc_new_device` found no room -/
  | noDevice
  /-- `usb_scan_device` returned `ret` -/
  | scanned (ret : Int)

/--
A call of `usb_hub_port_connect_change`: the states before and after it, its way, what it returned and
what it stored in `*child`.
-/
structure PortChange where
  before : Usb
  path : ChangePath
  ret : Int
  child : Option (Fin 32)
  after : Usb

def pathedEnumerate (dev : Fin 32) (port : Int) (portstatus : BitVec 16)
    : UsbM ((Int × Option (Fin 32)) × ChangePath) := do
  match ← usbAllocNewDevice (some dev) (BitVec.ofInt 32 port).toNat with
  | none => return ((-1, none), .noDevice)
  | some usb =>
    modifyDev usb fun d => { d with speed := portSpeed portstatus }
    let ret ← usbScanDevice usb
    if ret < 0 then
      return ((ret, none), .scanned ret)
    else
      return ((1, some usb), .scanned ret)

def pathedChange (dev : Fin 32) (port : Int) : UsbM ((Int × Option (Fin 32)) × ChangePath) := do
  let portsts : Bytes 4 ← Stateful.ask (HcdOp.stack 4)
  let (ret, bytes) ← usbGetPortStatus dev (port + 1)
  if ret < 0 then
    return ((ret, none), .noStatus)
  else
    let portstatus := portStatus (portsts.write 0 bytes)
    let _ ← usbClearPortFeature dev (port + 1) usbPortFeatCConnection
    let stale ← portIsStale dev port portstatus
    if stale ∧ portstatus &&& usbPortStatConnection = 0 then
      return ((0, none), .nothing)
    else
      match ← hubPortReset dev port with
      | (_, some portstatus) => pathedEnumerate dev port portstatus
      | (ret, none) => return ((ret, none), .noReset)

/-- `usb_hub_port_connect_change` -/
def followedChange (dev : Fin 32) (port : Int)
    : UsbM ((Int × Option (Fin 32)) × List PortChange) := do
  let before ← get
  let (r, path) ← pathedChange dev port
  let after ← get
  return (r, [⟨before, path, r.1, r.2, after⟩])

def followedConnection (dev : Fin 32) (i : Int) (portchange : BitVec 16)
    : UsbM ((Int × Option (Fin 32)) × List PortChange) :=
  if portchange &&& usbPortStatCConnection ≠ 0 then
    followedChange dev i
  else
    return ((0, none), [])

def followedEnable (dev : Fin 32) (i : Int) (portstatus portchange : BitVec 16)
    (new : Option (Fin 32)) : UsbM ((Int × Option (Fin 32)) × List PortChange) := do
  if portchange &&& usbPortStatCEnable ≠ 0 then
    let _ ← usbClearPortFeature dev (i + 1) usbPortFeatCEnable
    if portstatus &&& usbPortStatEnable = 0 ∧ portstatus &&& usbPortStatConnection ≠ 0 then
      if ← hasChild dev i then
        followedChange dev i
      else
        return ((0, new), [])
    else
      return ((0, new), [])
  else
    return ((0, new), [])

/-- `usb_hub_scan` -/
def followedScan (dev : Fin 32) (i : Int) : UsbM ((Int × Option (Fin 32)) × List PortChange) := do
  let portsts : Bytes 4 ← Stateful.ask (HcdOp.stack 4)
  let (ret, bytes) ← usbGetPortStatus dev (i + 1)
  if ret = 0 then
    return ((-1, none), [])
  else
    let portstatus := portStatus (portsts.write 0 bytes)
    let portchange := portChange (portsts.write 0 bytes)
    let ((ret, new), l1) ← followedConnection dev i portchange
    if ret < 0 then
      return ((-1, none), l1)
    else
      let ((ret, new), l2) ← followedEnable dev i portstatus portchange new
      if ret < 0 then
        return ((-1, none), l1 ++ l2)
      else if !(← hubScanClear dev i (portstatus &&& usbPortStatSuspend ≠ 0) usbPortFeatSuspend) then
        return ((-1, none), l1 ++ l2)
      else if !(← hubScanOverCurrent dev i portchange) then
        return ((-1, none), l1 ++ l2)
      else if !(← hubScanClear dev i (portchange &&& usbPortStatCReset ≠ 0) usbPortFeatCReset) then
        return ((-1, none), l1 ++ l2)
      else
        return ((if new.isNone then 0 else 1, new), l1 ++ l2)

/-!
### Without the notes it is the same
-/

theorem notes_pathedEnumerate (dev : Fin 32) (port : Int) (portstatus : BitVec 16)
    : Notes (pathedEnumerate dev port portstatus) (enumeratePort dev port portstatus) := by
  apply Notes.after
  rintro (_ | usb)
  . apply Notes.pure
  . apply Notes.after
    intro _
    apply Notes.after
    intro ret
    apply Notes.ite
    . apply Notes.pure
    . apply Notes.pure

theorem notes_pathedChange (dev : Fin 32) (port : Int)
    : Notes (pathedChange dev port) (usbHubPortConnectChange dev port) := by
  apply Notes.after
  intro portsts
  apply Notes.after
  rintro ⟨ret, bytes⟩
  apply Notes.ite
  . apply Notes.pure
  . apply Notes.after
    intro _
    apply Notes.after
    intro stale
    apply Notes.ite
    . apply Notes.pure
    . apply Notes.after
      rintro ⟨ret, _ | portstatus⟩
      . apply Notes.pure
      . apply notes_pathedEnumerate

theorem notes_followedChange (dev : Fin 32) (port : Int)
    : Notes (followedChange dev port) (usbHubPortConnectChange dev port) := by
  have h : Notes (followedChange dev port) (usbHubPortConnectChange dev port >>= pure) := by
    apply Notes.get
    intro before
    apply Notes.bind (notes_pathedChange _ _)
    intro r path
    apply Notes.get
    intro after
    apply Notes.pure
  rwa [bind_pure] at h

theorem notes_followedConnection (dev : Fin 32) (i : Int) (portchange : BitVec 16)
    : Notes (followedConnection dev i portchange) (hubScanConnection dev i portchange) := by
  apply Notes.ite
  . apply notes_followedChange
  . apply Notes.pure

theorem notes_followedEnable (dev : Fin 32) (i : Int) (portstatus portchange : BitVec 16)
    (new : Option (Fin 32))
    : Notes (followedEnable dev i portstatus portchange new)
        (hubScanEnable dev i portstatus portchange new) := by
  apply Notes.ite
  . apply Notes.after
    intro _
    apply Notes.ite
    . apply Notes.after
      intro child
      apply Notes.ite
      . apply notes_followedChange
      . apply Notes.pure
    . apply Notes.pure
  . apply Notes.pure

theorem notes_followedScan (dev : Fin 32) (i : Int) : Notes (followedScan dev i) (usbHubScan dev i) := by
  apply Notes.after
  intro portsts
  apply Notes.after
  rintro ⟨ret, bytes⟩
  apply Notes.ite
  . apply Notes.pure
  . apply Notes.bind (notes_followedConnection _ _ _)
    rintro ⟨ret, new⟩ l1
    apply Notes.ite
    . apply Notes.pure
    . apply Notes.bind (notes_followedEnable _ _ _ _ _)
      rintro ⟨ret, new⟩ l2
      apply Notes.ite
      . apply Notes.pure
      . apply Notes.after
        intro ok
        apply Notes.ite
        . apply Notes.pure
        . apply Notes.after
          intro ok
          apply Notes.ite
          . apply Notes.pure
          . apply Notes.after
            intro ok
            apply Notes.ite
            . apply Notes.pure
            . apply Notes.pure
