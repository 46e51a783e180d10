import PureUsb.Usb.Impl.Hub
import PureUsb.Prog.Noted

/-!
This module contains `usb_hub_scan` with notes on what it was answered about the port.
-/

open Stateful

/-- An answer to GET_STATUS of a port: what `usb_get_port_status` returned, and the words it left. -/
structure PortAnswer where
  ret : Int
  status : BitVec 16
  change : BitVec 16

def PortAnswer.of (ret : Int) (portsts : Bytes 4) : PortAnswer := ⟨ret, portStatus portsts, portChange portsts⟩

/-- What `usb_hub_port_connect_change` was answered. -/
structure ConnectAnswers where
  status : PortAnswer
  /-- to the attempts of `hub_port_reset` -/
  resets : List PortAnswer
  /-- what came of the enumeration, if there was one -/
  scan : Option Int

/-- What `usb_hub_scan` was answered, and its calls of `usb_hub_port_connect_change`. -/
structure ScanAnswers where
  first : PortAnswer
  /-- for `C_CONNECTION` -/
  connection : Option ConnectAnswers
  /-- for `C_ENABLE` -/
  enable : Option ConnectAnswers

def answeredResetTries (dev : Fin 32) (port : Int) (portsts : Bytes 4) (tries : Nat)
    : UsbM (Option (BitVec 16) × List PortAnswer) :=
  match tries with
  | 0 => return (none, [])
  | tries + 1 => do
    let _ ← usbSetPortFeature dev (port + 1) usbPortFeatReset
    let (ret, bytes) ← usbGetPortStatus dev (port + 1)
    if ret < 0 then
      return (none, [.of ret (portsts.write 0 bytes)])
    else
      let portsts := portsts.write 0 bytes
      if portChange portsts &&& usbPortStatCConnection ≠ 0 ∨
          portStatus portsts &&& usbPortStatConnection = 0 then
        return (none, [.of ret portsts])
      else if portStatus portsts &&& usbPortStatEnable ≠ 0 then
        return (some (portStatus portsts), [.of ret portsts])
      else
        let (r, answers) ← answeredResetTries dev port portsts tries
        return (r, .of ret portsts :: answers)

def answeredReset (dev : Fin 32) (port : Int)
    : UsbM ((Int × Option (BitVec 16)) × List PortAnswer) := do
  let portsts : Bytes 4 ← Stateful.ask (HcdOp.stack 4)
  match ← answeredResetTries dev port portsts maxTries with
  | (none, answers) => return ((-1, none), answers)
  | (some status, answers) =>
    let _ ← usbClearPortFeature dev (port + 1) usbPortFeatCReset
    return ((0, some status), answers)

def answeredEnumerate (dev : Fin 32) (port : Int) (portstatus : BitVec 16)
    : UsbM ((Int × Option (Fin 32)) × Option Int) := do
  match ← usbAllocNewDevice (some dev) (BitVec.ofInt 32 port).toNat with
  | none => return ((-1, none), none)
  | some usb =>
    modifyDev usb fun d => { d with speed := portSpeed portstatus }
    let ret ← usbScanDevice usb
    if ret < 0 then
      return ((ret, none), some ret)
    else
      return ((1, some usb), some ret)

/-- `usb_hub_port_connect_change` -/
def answeredChange (dev : Fin 32) (port : Int) : UsbM ((Int × Option (Fin 32)) × ConnectAnswers) := do
  let portsts : Bytes 4 ← Stateful.ask (HcdOp.stack 4)
  let (ret, bytes) ← usbGetPortStatus dev (port + 1)
  let status := PortAnswer.of ret (portsts.write 0 bytes)
  if ret < 0 then
    return ((ret, none), ⟨status, [], none⟩)
  else
    let portstatus := portStatus (portsts.write 0 bytes)
    let _ ← usbClearPortFeature dev (port + 1) usbPortFeatCConnection
    let stale ← portIsStale dev port portstatus
    if stale ∧ portstatus &&& usbPortStatConnection = 0 then
      return ((0, none), ⟨status, [], none⟩)
    else
      match ← answeredReset dev port with
      | ((_, some portstatus), resets) =>
        let (r, scan) ← answeredEnumerate dev port portstatus
        return (r, ⟨status, resets, scan⟩)
      | ((ret, none), resets) => return ((ret, none), ⟨status, resets, none⟩)

def answeredConnection (dev : Fin 32) (i : Int) (portchange : BitVec 16)
    : UsbM ((Int × Option (Fin 32)) × Option ConnectAnswers) :=
  if portchange &&& usbPortStatCConnection ≠ 0 then do
    let (r, answers) ← answeredChange dev i
    return (r, some answers)
  else
    return ((0, none), none)

def answeredEnable (dev : Fin 32) (i : Int) (portstatus portchange : BitVec 16) (new : Option (Fin 32))
    : UsbM ((Int × Option (Fin 32)) × Option ConnectAnswers) := do
  if portchange &&& usbPortStatCEnable ≠ 0 then
    let _ ← usbClearPortFeature dev (i + 1) usbPortFeatCEnable
    if portstatus &&& usbPortStatEnable = 0 ∧ portstatus &&& usbPortStatConnection ≠ 0 then
      if ← hasChild dev i then
        let (r, answers) ← answeredChange dev i
        return (r, some answers)
      else
        return ((0, new), none)
    else
      return ((0, new), none)
  else
    return ((0, new), none)

/-- `usb_hub_scan` -/
def answeredScan (dev : Fin 32) (i : Int) : UsbM ((Int × Option (Fin 32)) × ScanAnswers) := do
  let portsts : Bytes 4 ← Stateful.ask (HcdOp.stack 4)
  let (ret, bytes) ← usbGetPortStatus dev (i + 1)
  let first := PortAnswer.of ret (portsts.write 0 bytes)
  if ret = 0 then
    return ((-1, none), ⟨first, none, none⟩)
  else
    let portstatus := portStatus (portsts.write 0 bytes)
    let portchange := portChange (portsts.write 0 bytes)
    let ((ret, new), connection) ← answeredConnection dev i portchange
    if ret < 0 then
      return ((-1, none), ⟨first, connection, none⟩)
    else
      let ((ret, new), enable) ← answeredEnable dev i portstatus portchange new
      if ret < 0 then
        return ((-1, none), ⟨first, connection, enable⟩)
      else if !(← hubScanClear dev i (portstatus &&& usbPortStatSuspend ≠ 0) usbPortFeatSuspend) then
        return ((-1, none), ⟨first, connection, enable⟩)
      else if !(← hubScanOverCurrent dev i portchange) then
        return ((-1, none), ⟨first, connection, enable⟩)
      else if !(← hubScanClear dev i (portchange &&& usbPortStatCReset ≠ 0) usbPortFeatCReset) then
        return ((-1, none), ⟨first, connection, enable⟩)
      else
        return ((if new.isNone then 0 else 1, new), ⟨first, connection, enable⟩)

/-!
### Without the notes it is the same
-/

theorem notes_answeredResetTries (dev : Fin 32) (port : Int) (portsts : Bytes 4) (tries : Nat)
    : Notes (answeredResetTries dev port portsts tries) (hubPortResetTries dev port portsts tries) := by
  induction tries generalizing portsts with
  | zero => apply Notes.pure
  | succ tries ih =>
    apply Notes.after
    intro _
    apply Notes.after
    rintro ⟨ret, bytes⟩
    apply Notes.ite
    . apply Notes.pure
    . apply Notes.ite
      . apply Notes.pure
      . apply Notes.ite
        . apply Notes.pure
        . apply Notes.map (ih _)

theorem notes_answeredReset (dev : Fin 32) (port : Int)
    : Notes (answeredReset dev port) (hubPortReset dev port) := by
  apply Notes.after
  intro portsts
  apply Notes.bind (notes_answeredResetTries _ _ _ _)
  rintro (_ | status) answers
  . apply Notes.pure
  . apply Notes.after
    intro _
    apply Notes.pure

theorem notes_answeredEnumerate (dev : Fin 32) (port : Int) (portstatus : BitVec 16)
    : Notes (answeredEnumerate dev port portstatus) (enumeratePort dev port portstatus) := by
  apply Notes.after
  rintro (_ | usb)
  . apply Notes.pure
  . apply Notes.after
    intro _
    apply Notes.after
    intro ret
    apply Notes.ite
    . apply Notes.pure
    . apply Notes.pure

theorem notes_answeredChange (dev : Fin 32) (port : Int)
    : Notes (answeredChange dev port) (usbHubPortConnectChange dev port) := by
  apply Notes.after
  intro portsts
  apply Notes.after
  rintro ⟨ret, bytes⟩
  apply Notes.ite
  . apply Notes.pure
  . apply Notes.after
    intro _
    apply Notes.after
    intro stale
    apply Notes.ite
    . apply Notes.pure
    . apply Notes.bind (notes_answeredReset _ _)
      rintro ⟨ret, _ | portstatus⟩ resets
      . apply Notes.pure
      . apply Notes.map (notes_answeredEnumerate _ _ _)

theorem notes_answeredConnection (dev : Fin 32) (i : Int) (portchange : BitVec 16)
    : Notes (answeredConnection dev i portchange) (hubScanConnection dev i portchange) := by
  apply Notes.ite
  . apply Notes.map (notes_answeredChange _ _)
  . apply Notes.pure

theorem notes_answeredEnable (dev : Fin 32) (i : Int) (portstatus portchange : BitVec 16)
    (new : Option (Fin 32))
    : Notes (answeredEnable dev i portstatus portchange new)
        (hubScanEnable dev i portstatus portchange new) := by
  apply Notes.ite
  . apply Notes.after
    intro _
    apply Notes.ite
    . apply Notes.after
      intro child
      apply Notes.ite
      . apply Notes.map (notes_answeredChange _ _)
      . apply Notes.pure
    . apply Notes.pure
  . apply Notes.pure

theorem notes_answeredScan (dev : Fin 32) (i : Int) : Notes (answeredScan dev i) (usbHubScan dev i) := by
  apply Notes.after
  intro portsts
  apply Notes.after
  rintro ⟨ret, bytes⟩
  apply Notes.ite
  . apply Notes.pure
  . apply Notes.bind (notes_answeredConnection _ _ _)
    rintro ⟨ret, new⟩ connection
    apply Notes.ite
    . apply Notes.pure
    . apply Notes.bind (notes_answeredEnable _ _ _ _ _)
      rintro ⟨ret, new⟩ enable
      apply Notes.ite
      . apply Notes.pure
      . apply Notes.after
        intro ok
        apply Notes.ite
        . apply Notes.pure
        . apply Notes.after
          intro ok
          apply Notes.ite
          . apply Notes.pure
          . apply Notes.after
            intro ok
            apply Notes.ite
            . apply Notes.pure
            . apply Notes.pure
