import PureUsb.Usb.Impl.Hub
import PureUsb.Prog.Noted

/-!
This module contains `usb_hub_scan` with notes on the calls it makes about the port.
-/

open Stateful

/-- What `usb_hub_scan` did. -/
inductive ScanNote where
  /-- it called `usb_clear_port_feature`, which returned `ret` -/
  | clear (ret : Int)
  /--
  it called `usb_hub_port_connect_change` in the state `before`, which returned `ret`, stored `child`
  and left the state `after`
  -/
  | change (before : Usb) (ret : Int) (child : Option (Fin 32)) (after : Usb)

/-- `usb_clear_port_feature` -/
def notedClear (dev : Fin 32) (port : Int) (feature : BitVec 16) : UsbM (Int × List ScanNote) := do
  let ret ← usbClearPortFeature dev port feature
  return (ret, [.clear ret])

/-- `usb_hub_port_connect_change` -/
def notedChange (dev : Fin 32) (port : Int) : UsbM ((Int × Option (Fin 32)) × List ScanNote) := do
  let before ← get
  let (ret, child) ← usbHubPortConnectChange dev port
  let after ← get
  return ((ret, child), [.change before ret child after])

def notedConnection (dev : Fin 32) (i : Int) (portchange : BitVec 16)
    : UsbM ((Int × Option (Fin 32)) × List ScanNote) :=
  if portchange &&& usbPortStatCConnection ≠ 0 then
    notedChange dev i
  else
    return ((0, none), [])

def notedEnable (dev : Fin 32) (i : Int) (portstatus portchange : BitVec 16)
    (new : Option (Fin 32)) : UsbM ((Int × Option (Fin 32)) × List ScanNote) := do
  if portchange &&& usbPortStatCEnable ≠ 0 then
    let (_, notes) ← notedClear dev (i + 1) usbPortFeatCEnable
    if portstatus &&& usbPortStatEnable = 0 ∧ portstatus &&& usbPortStatConnection ≠ 0 then
      if ← hasChild dev i then
        let (r, notes') ← notedChange dev i
        return (r, notes ++ notes')
      else
        return ((0, new), notes)
    else
      return ((0, new), notes)
  else
    return ((0, new), [])

def notedClearIf (dev : Fin 32) (i : Int) (cond : Prop) [Decidable cond] (feature : BitVec 16)
    : UsbM (Bool × List ScanNote) := do
  if cond then
    let (ret, notes) ← notedClear dev (i + 1) feature
    return (ret ≠ 0, notes)
  else
    return (true, [])

def notedOverCurrent (dev : Fin 32) (i : Int) (portchange : BitVec 16)
    : UsbM (Bool × List ScanNote) := do
  if portchange &&& usbPortStatCOvercurrent ≠ 0 then
    let (ret, notes) ← notedClear dev (i + 1) usbPortFeatCOverCurrent
    if ret = 0 then
      return (false, notes)
    else
      usbHubPowerOn dev
      return (true, notes)
  else
    return (true, [])

/-- `usb_hub_scan` once the status of the port was read -/
def notedPort (dev : Fin 32) (i : Int) (portstatus portchange : BitVec 16)
    : UsbM ((Int × Option (Fin 32)) × List ScanNote) := do
  let ((ret, new), n1) ← notedConnection dev i portchange
  if ret < 0 then
    return ((-1, none), n1)
  else
    let ((ret, new), n2) ← notedEnable dev i portstatus portchange new
    if ret < 0 then
      return ((-1, none), n1 ++ n2)
    else
      let (ok, n3) ← notedClearIf dev i (portstatus &&& usbPortStatSuspend ≠ 0) usbPortFeatSuspend
      if !ok then
        return ((-1, none), n1 ++ n2 ++ n3)
      else
        let (ok, n4) ← notedOverCurrent dev i portchange
        if !ok then
          return ((-1, none), n1 ++ n2 ++ n3 ++ n4)
        else
          let (ok, n5) ← notedClearIf dev i (portchange &&& usbPortStatCReset ≠ 0) usbPortFeatCReset
          if !ok then
            return ((-1, none), n1 ++ n2 ++ n3 ++ n4 ++ n5)
          else
            return ((if new.isNone then 0 else 1, new), n1 ++ n2 ++ n3 ++ n4 ++ n5)

/-- `usb_hub_scan` -/
def notedScan (dev : Fin 32) (i : Int) : UsbM ((Int × Option (Fin 32)) × List ScanNote) := do
  let portsts : Bytes 4 ← Stateful.ask (HcdOp.stack 4)
  let (ret, bytes) ← usbGetPortStatus dev (i + 1)
  if ret = 0 then
    return ((-1, none), [])
  else
    notedPort dev i (portStatus (portsts.write 0 bytes)) (portChange (portsts.write 0 bytes))

/-!
### Without the notes it is the same
-/

theorem notes_clear (dev : Fin 32) (port : Int) (feature : BitVec 16)
    : Notes (notedClear dev port feature) (usbClearPortFeature dev port feature) := by
  apply Notes.add

theorem notes_change (dev : Fin 32) (port : Int)
    : Notes (notedChange dev port) (usbHubPortConnectChange dev port) := by
  have h : Notes (notedChange dev port) (usbHubPortConnectChange dev port >>= pure) := by
    apply Notes.get
    intro before
    apply Notes.after
    intro r
    apply Notes.get
    intro after
    apply Notes.pure
  rwa [bind_pure] at h

theorem notes_connection (dev : Fin 32) (i : Int) (portchange : BitVec 16)
    : Notes (notedConnection dev i portchange) (hubScanConnection dev i portchange) := by
  apply Notes.ite
  . apply notes_change
  . apply Notes.pure

theorem notes_enable (dev : Fin 32) (i : Int) (portstatus portchange : BitVec 16)
    (new : Option (Fin 32))
    : Notes (notedEnable dev i portstatus portchange new)
        (hubScanEnable dev i portstatus portchange new) := by
  apply Notes.ite
  . apply Notes.bind (notes_clear _ _ _)
    intro _ notes
    apply Notes.ite
    . apply Notes.after
      intro child
      apply Notes.ite
      . apply Notes.map (notes_change _ _)
      . apply Notes.pure
    . apply Notes.pure
  . apply Notes.pure

theorem notes_clearIf (dev : Fin 32) (i : Int) (cond : Prop) [Decidable cond] (feature : BitVec 16)
    : Notes (notedClearIf dev i cond feature) (hubScanClear dev i cond feature) := by
  apply Notes.ite
  . apply Notes.bind (notes_clear _ _ _)
    intro _ _
    apply Notes.pure
  . apply Notes.pure

theorem notes_overCurrent (dev : Fin 32) (i : Int) (portchange : BitVec 16)
    : Notes (notedOverCurrent dev i portchange) (hubScanOverCurrent dev i portchange) := by
  apply Notes.ite
  . apply Notes.bind (notes_clear _ _ _)
    intro _ _
    apply Notes.ite
    . apply Notes.pure
    . apply Notes.after
      intro _
      apply Notes.pure
  . apply Notes.pure

theorem notes_scan (dev : Fin 32) (i : Int) : Notes (notedScan dev i) (usbHubScan dev i) := by
  apply Notes.after
  intro portsts
  apply Notes.after
  rintro ⟨ret, bytes⟩
  apply Notes.ite
  . apply Notes.pure
  . apply Notes.bind (notes_connection _ _ _)
    rintro ⟨ret, new⟩ n1
    apply Notes.ite
    . apply Notes.pure
    . apply Notes.bind (notes_enable _ _ _ _ _)
      rintro ⟨ret, new⟩ n2
      apply Notes.ite
      . apply Notes.pure
      . apply Notes.bind (notes_clearIf _ _ _ _)
        intro ok n3
        apply Notes.ite
        . apply Notes.pure
        . apply Notes.bind (notes_overCurrent _ _ _)
          intro ok n4
          apply Notes.ite
          . apply Notes.pure
          . apply Notes.bind (notes_clearIf _ _ _ _)
            intro ok n5
            apply Notes.ite
            . apply Notes.pure
            . apply Notes.pure
