import PureUsb.Usb.Basic

/-!
This module contains the registers of the host controller, the structures in memory that the driver
shares with it and the state of `ehci-hcd.c`.
-/

/-!
### Registers
-/

/-- `struct ehci_hccr` and `struct ehci_hcor`, as far as the driver uses them. -/
inductive Reg where
  | capbase
  | hcsparams
  | usbcmd
  | usbsts
  | asynclistaddr
  | configflag
  | portsc (i : Fin 2)
  deriving DecidableEq

abbrev configSysUsbEhciMaxRootPorts : Nat := 2

abbrev cmdRun : BitVec 32 := 1#32 <<< 0
abbrev cmdReset : BitVec 32 := 1#32 <<< 1
abbrev cmdPse : BitVec 32 := 1#32 <<< 4
abbrev cmdAse : BitVec 32 := 1#32 <<< 5
abbrev cmdIaad : BitVec 32 := 1#32 <<< 5
abbrev cmdLreset : BitVec 32 := 1#32 <<< 7

abbrev stsFatal : BitVec 32 := 1#32 <<< 4
abbrev stsHalt : BitVec 32 := 1#32 <<< 12
abbrev stdAss : BitVec 32 := 1#32 <<< 15

abbrev flagCf : BitVec 32 := 1#32 <<< 0

def hcsPpc (p : BitVec 32) : BitVec 32 := p &&& (1#32 <<< 4)
def hcsIndicator (p : BitVec 32) : BitVec 32 := p &&& (1#32 <<< 16)
def hcsNPorts (p : BitVec 32) : BitVec 32 := (p >>> 0) &&& 0xf

abbrev ehciPsPo : BitVec 32 := 1#32 <<< 13
abbrev ehciPsPp : BitVec 32 := 1#32 <<< 12
abbrev ehciPsLs : BitVec 32 := 3#32 <<< 10
abbrev ehciPsPr : BitVec 32 := 1#32 <<< 8
abbrev ehciPsSusp : BitVec 32 := 1#32 <<< 7
abbrev ehciPsOcc : BitVec 32 := 1#32 <<< 5
abbrev ehciPsOca : BitVec 32 := 1#32 <<< 4
abbrev ehciPsPec : BitVec 32 := 1#32 <<< 3
abbrev ehciPsPe : BitVec 32 := 1#32 <<< 2
abbrev ehciPsCsc : BitVec 32 := 1#32 <<< 1
abbrev ehciPsCs : BitVec 32 := 1#32 <<< 0
abbrev ehciPsClear : BitVec 32 := ehciPsOcc ||| ehciPsPec ||| ehciPsCsc

def ehciPsIsLowspeed (x : BitVec 32) : Prop := x &&& ehciPsLs = 1#32 <<< 10

instance : DecidablePred ehciPsIsLowspeed :=
  fun x => inferInstanceAs (Decidable (x &&& ehciPsLs = 1#32 <<< 10))

/-- `CONFIG_EHCI_IS_TDI` is not defined. -/
def ehciIsTDI : Bool := false

/-!
### Shared structures
-/

/-- What the link fields of the schedule point to. -/
inductive HcPtr where
  | null
  /-- `QT_NEXT_TERMINATE` -/
  | terminate
  /-- `&qh_list` with `QH_LINK_TYPE_QH` -/
  | qhList
  /-- `&qh` with `QH_LINK_TYPE_QH` -/
  | qh
  /-- `&td[i]` -/
  | td (i : Fin 3)
  deriving DecidableEq

structure QTD where
  qtNext : HcPtr
  qtAltnext : HcPtr
  qtToken : BitVec 32
  qtBuffer : Fin 5 → BitVec 32
  qtBufferHi : Fin 5 → BitVec 32

structure QH where
  qhLink : HcPtr
  qhEndpt1 : BitVec 32
  qhEndpt2 : BitVec 32
  qhCurtd : HcPtr
  qhOverlay : QTD

def QTD.zero : QTD := ⟨.null, .null, 0, fun _ => 0, fun _ => 0⟩

def QH.zero : QH := ⟨.null, 0, 0, .null, .zero⟩

abbrev qtTokenActive : BitVec 32 := 0x80

/-- The static structures that the controller reads and writes: `qh_list`, and those of `ehci_alloc`. -/
structure Dma where
  qhList : QH
  qh : QH
  td : Fin 3 → QTD

namespace Dma

def setTd (m : Dma) (i : Fin 3) (td : QTD) : Dma :=
  { m with td := Function.update m.td i td }

def setOverlay (m : Dma) (td : QTD) : Dma :=
  { m with qh := { m.qh with qhOverlay := td } }

def setLink (m : Dma) (p : HcPtr) : Dma :=
  { m with qhList := { m.qhList with qhLink := p } }

end Dma

/-!
### The state of the driver
-/

structure EhciRec where
  reg : Reg
  dir : Nat
  val : BitVec 32

/-- The size of `g_rec`. -/
abbrev rsz : Int := 300

/-- The static variables of `ehci-hcd.c` that the controller does not look at. -/
structure Ehci where
  rootdev : Int
  portreset : BitVec 16
  /-- `descriptor.hub` -/
  hub : Bytes 11
  /-- `ntds` of `ehci_alloc` -/
  ntds : Fin 4
  gEhciCounter : BitVec 32
  /-- the memory around `g_rec`, which takes the indices from 0 to `RSZ - 1` -/
  gRec : Int → EhciRec

/-- What `ehci-hcd.c` gets from outside. -/
inductive EhciOp where
  | readl (r : Reg)
  | writel (r : Reg) (v : BitVec 32)
  /-- read the shared structures -/
  | load
  /-- change the shared structures -/
  | store (f : Dma → Dma)

abbrev EhciAns : EhciOp → Type
  | .readl _ => BitVec 32
  | .writel _ _ => Unit
  | .load => Dma
  | .store _ => Unit

/-- A world that answers `ehci-hcd.c`. -/
abbrev EhciWorld (σ : Type) := World EhciOp EhciAns Stop σ

abbrev EhciM := Stateful Ehci EhciOp EhciAns Stop

/-- `ehci_readl_` -/
def rawReadl (r : Reg) : EhciM (BitVec 32) := Stateful.ask (EhciOp.readl r)

/-- `ehci_writel_` -/
def rawWritel (r : Reg) (v : BitVec 32) : EhciM Unit := Stateful.ask (EhciOp.writel r v)

def loadDma : EhciM Dma := Stateful.ask EhciOp.load

def storeDma (f : Dma → Dma) : EhciM Unit := Stateful.ask (EhciOp.store f)

/-- The index into `g_rec` that the next call uses. -/
def Ehci.slot (e : Ehci) : Int := e.gEhciCounter.toInt.tmod rsz

/-- What `ehci_writel` and `ehci_readl` note in `g_rec`. -/
def Ehci.record (e : Ehci) (reg : Reg) (dir : Nat) (val : BitVec 32) : Ehci :=
  { e with
    gRec := Function.update e.gRec e.slot ⟨reg, dir, val⟩
    gEhciCounter := e.gEhciCounter + 1 }

def ehciWritel (reg : Reg) (val : BitVec 32) : EhciM Unit := do
  rawWritel reg val
  modify fun e => e.record reg 1 val

def ehciReadl (reg : Reg) : EhciM (BitVec 32) := do
  let val ← rawReadl reg
  modify fun e => e.record reg 0 val
  return val

/-- `handshake` with `usec + 1` attempts left. -/
def handshakeTries (ptr : Reg) (mask done : BitVec 32) (usec : Nat) : EhciM Int := do
  let result ← rawReadl ptr
  if result = ~~~0#32 then
    return -1
  else if result &&& stsFatal ≠ 0 then
    return -16
  else if result &&& mask = done then
    return 0
  else
    match usec with
    | 0 => return -2
    | usec + 1 => handshakeTries ptr mask done usec

/-- `handshake`; what it reads from the OHCI registers is thrown away. -/
def handshake (ptr : Reg) (mask done : BitVec 32) (usec : Nat) : EhciM Int :=
  handshakeTries ptr mask done (usec - 1)
