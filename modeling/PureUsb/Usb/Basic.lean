import PureUsb.Usb.Device

/-!
This module contains the state of `usb.c`, the calls it makes into the host controller driver, and
the memory behind its pointers.
-/

/-- Why a function of the driver does not return. -/
inductive Stop where
  /-- it touches memory that is neither its own nor in the device table -/
  | fault
  /-- it loops forever -/
  | hang
  deriving DecidableEq

abbrev UsbTable := Fin 32 → UsbDevice

/-- The static variables of `usb.c`. -/
structure Usb where
  usbDev : UsbTable
  /-- where the linker put `usb_dev` -/
  usbDevAddr : BitVec 32
  gDevIndex : Nat
  running : Int
  asynchAllowed : Int
  usbStarted : Int
  setupPacket : DevRequest

/-- The objects that the `data` pointer of a control transfer leads to. -/
inductive Buffer where
  | null
  /-- `tmpbuf` of `usb_scan_device`, `mybuf` of `usb_string` and `buffer` of `usb_hub_init` -/
  | tmpbuf
  | mybuf
  | buffer
  /-- `&dev->descriptor` -/
  | descriptor (dev : Fin 32)
  /-- a `struct usb_port_status` on the stack -/
  | portsts
  deriving DecidableEq

/-- How many bytes the object takes. -/
def Buffer.size : Buffer → Nat
  | null => 0
  | tmpbuf => usbBufsiz
  | mybuf => usbBufsiz
  | buffer => usbBufsiz
  | descriptor _ => 18
  | portsts => 4

/--
The arguments of `submit_control_msg` and of `submit_bulk_msg`, which has no `setup`, together with
the device table their `dev` argument points into.
-/
structure Transfer where
  usbDev : UsbTable
  dev : Fin 32
  pipe : BitVec 32
  buffer : Buffer
  length : Nat
  setup : Option DevRequest

/-- What a submission returns, the device structure it leaves and the bytes it put in the buffer. -/
structure Submitted where
  ret : Int
  dev : UsbDevice
  data : List Byte

/-- What `usb.c` gets from outside. -/
inductive HcdOp where
  /-- `submit_control_msg` and `submit_bulk_msg` of `ehci-hcd.c` -/
  | submit (x : Transfer)
  /-- the contents of an array on the stack nobody has written to yet -/
  | stack (n : Nat)
  /-- reached before `usb_parse_config` walks `buffer` -/
  | parsing (dev : Fin 32) (buffer : Bytes 512)
  /-- reached before `usb_hub_init` copies the hub descriptor in `buffer` -/
  | copyingHub (dev : Fin 32) (buffer : Bytes 512)

abbrev HcdAns : HcdOp → Type
  | .submit _ => Submitted
  | .stack n => Bytes n
  | .parsing _ _ => Unit
  | .copyingHub _ _ => Unit

/-- A world that answers `usb.c`. -/
abbrev HcdWorld (σ : Type) := World HcdOp HcdAns Stop σ

abbrev UsbM := Stateful Usb HcdOp HcdAns Stop

/-!
### Access to the device table
-/

/-- The byte `a` bytes behind the start of the table. -/
@[irreducible]
def peek (t : UsbTable) (base : BitVec 32) (a : Int) : Except Stop Byte :=
  if h : 0 ≤ a ∧ a < 32 * 1364 then
    .ok ((t ⟨a.toNat / 1364, by omega⟩).getByte base (a.toNat % 1364))
  else
    .error .fault

/-- Store a byte `a` bytes behind the start of the table. -/
@[irreducible]
def poke (t : UsbTable) (base : BitVec 32) (a : Int) (b : Byte) : Except Stop UsbTable :=
  if 0 ≤ a ∧ a < 32 * 1364 then
    .ok fun i =>
      if (i : Nat) = a.toNat / 1364 then (t i).setByte base (a.toNat % 1364) b else t i
  else
    .error .fault

/-- Store the bytes of `l` from `a` on. -/
def pokes (t : UsbTable) (base : BitVec 32) (a : Int) (l : List Byte) : Except Stop UsbTable :=
  match l with
  | [] => .ok t
  | b :: l => do
    let t ← poke t base a b
    pokes t base (a + 1) l

namespace Usb

def setDev (u : Usb) (k : Fin 32) (d : UsbDevice) : Usb :=
  { u with usbDev := Function.update u.usbDev k d }

@[simp]
theorem setDev_same (u : Usb) (k : Fin 32) (d : UsbDevice) : (u.setDev k d).usbDev k = d := by
  simp [setDev]

theorem setDev_ne (u : Usb) {k j : Fin 32} (d : UsbDevice) (h : j ≠ k)
    : (u.setDev k d).usbDev j = u.usbDev j := by
  simp [setDev, h]

@[simp]
theorem setDev_gDevIndex (u : Usb) (k : Fin 32) (d : UsbDevice)
    : (u.setDev k d).gDevIndex = u.gDevIndex := rfl

@[simp]
theorem setDev_usbDevAddr (u : Usb) (k : Fin 32) (d : UsbDevice)
    : (u.setDev k d).usbDevAddr = u.usbDevAddr := rfl

@[simp]
theorem setDev_asynchAllowed (u : Usb) (k : Fin 32) (d : UsbDevice)
    : (u.setDev k d).asynchAllowed = u.asynchAllowed := rfl

@[simp]
theorem setDev_setDev (u : Usb) (k : Fin 32) (d d' : UsbDevice)
    : (u.setDev k d).setDev k d' = u.setDev k d' := by
  simp [setDev]

end Usb

/-- The structure `k` of the table. -/
def getDev (k : Fin 32) : UsbM UsbDevice := do
  let u ← get
  return u.usbDev k

def modifyDev (k : Fin 32) (f : UsbDevice → UsbDevice) : UsbM Unit :=
  modify fun u => u.setDev k (f (u.usbDev k))

/-- The slot a pointer leads to. -/
def deref (p : DevPtr) : UsbM (Fin 32) :=
  match p with
  | .dev k => pure k
  | _ => .stop .fault

section

open Stateful

variable {σ : Type} {w : HcdWorld σ} {E : Stop → σ → Prop} {u : Usb} {s : σ}

@[simp]
theorem wp_getDev (k : Fin 32) {Q : UsbDevice → Usb → σ → Prop}
    : wp w (getDev k) Q E u s ↔ Q (u.usbDev k) u s := Iff.rfl

@[simp]
theorem wp_modifyDev (k : Fin 32) (f : UsbDevice → UsbDevice) {Q : Unit → Usb → σ → Prop}
    : wp w (modifyDev k f) Q E u s ↔ Q () (u.setDev k (f (u.usbDev k))) s := Iff.rfl

@[simp]
theorem wp_deref_dev (k : Fin 32) {Q : Fin 32 → Usb → σ → Prop}
    : wp w (deref (.dev k)) Q E u s ↔ Q k u s := Iff.rfl

end
