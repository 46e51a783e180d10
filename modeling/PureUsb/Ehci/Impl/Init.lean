import PureUsb.Ehci.Impl.Root

/-!
This module contains the initialisation of the host controller.
-/

/-- `ehci_specific_init`; the register addresses it sets are constants. -/
def ehciSpecificInit : EhciM Int := return 0

/-- Wait for `STS_HALT` with `attempt + 1` looks left: the last value of `USBSTS`. -/
def haltTries (attempt : Nat) : EhciM (BitVec 32) := do
  let cmd ← ehciReadl .usbsts
  if cmd &&& stsHalt ≠ 0 then
    return cmd
  else
    match attempt with
    | 0 => return cmd
    | attempt + 1 => haltTries attempt

/-- `ehci_reset`; nothing is left to do for `ehci_is_TDI()`. -/
def ehciReset : EhciM Int := do
  ehciWritel .usbcmd 0
  let cmd ← haltTries 1000
  if cmd &&& stsHalt = 0 then
    return -1
  else
    let cmd ← ehciReadl .usbcmd
    rawWritel .usbcmd (cmd ||| cmdReset)
    handshake .usbcmd cmdReset 0 (250 * 1000)

/-- The head of the reclaim list as `ehci_init` sets it up. -/
def qhListInit : QH :=
  { QH.zero with
    qhLink := .qhList
    qhEndpt1 := (1#32 <<< 15) ||| (2#32 <<< 12)
    qhCurtd := .terminate
    qhOverlay := { QTD.zero with qtNext := .terminate, qtAltnext := .terminate, qtToken := 0x40 } }

/-- `descriptor.hub` after `ehci_init` looked at the structural parameters. -/
def hubAfterInit (hub : Bytes 11) (reg : BitVec 32) : Bytes 11 :=
  let hub := hub.write 2 [(hcsNPorts reg).setWidth 8]
  let hub := if hcsIndicator reg ≠ 0 then hub.write 3 [hub 3 ||| 0x80] else hub
  if hcsPpc reg ≠ 0 then hub.write 3 [hub 3 ||| 0x01] else hub

/-- `ehci_init`; `qhListAddr` is the address of `qh_list`. -/
def ehciInit (qhListAddr : BitVec 32) : EhciM Int := do
  modify fun e => { e with gEhciCounter := 0 }
  if (← ehciSpecificInit) ≠ 0 then
    return -1
  else if (← ehciReset) ≠ 0 then
    return -1
  else
    storeDma fun m => { m with qhList := qhListInit }
    ehciWritel .asynclistaddr qhListAddr
    let reg ← ehciReadl .hcsparams
    modify fun e => { e with hub := hubAfterInit e.hub reg }
    let cmd ← ehciReadl .usbcmd
    let cmd := cmd &&& ~~~(cmdLreset ||| cmdIaad ||| cmdPse ||| cmdAse ||| cmdReset)
    ehciWritel .usbcmd (cmd ||| cmdRun)
    let cmd ← ehciReadl .configflag
    ehciWritel .configflag (cmd ||| flagCf)
    -- unblock posted write
    let _ ← ehciReadl .usbcmd
    let _ ← ehciReadl .capbase
    modify fun e => { e with rootdev := 0 }
    return 0

/-!
### The driver before anything ran
-/

/-- The static variables. -/
def Ehci.boot : Ehci where
  rootdev := 0
  portreset := 0
  hub := hubDescriptor
  ntds := 0
  gEhciCounter := 0
  gRec := fun _ => ⟨.capbase, 0, 0⟩

/-- The shared structures. -/
def Dma.boot : Dma := ⟨.zero, .zero, fun _ => .zero⟩

/-- A device with an address, as `usb_control_msg` hands it down. -/
def waitingDevice : UsbDevice := { UsbDevice.zero with devnum := 2, status := usbStNotProc }
