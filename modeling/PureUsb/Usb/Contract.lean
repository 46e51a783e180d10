import PureUsb.Usb.Impl.Hub

/-!
This module contains what `usb.c` may rely on about the host controller driver, whatever the devices
do.
-/

namespace UsbDevice

/-- What a transfer over `pipe` may change in the structure of its device. -/
structure AfterTransfer (pipe : BitVec 32) (d d' : UsbDevice) : Prop where
  eq : d' = { d with
    status := d'.status, actLen := d'.actLen, speed := d'.speed, toggle := d'.toggle }
  speed : d'.speed = d.speed ∨ d'.speed = usbSpeedHigh
  toggle : ∀ out ep, ep ≠ (usbPipeendpoint pipe).toNat →
    (d'.toggle out).getLsbD ep = (d.toggle out).getLsbD ep

theorem AfterTransfer.refl (pipe : BitVec 32) (d : UsbDevice) : AfterTransfer pipe d d :=
  ⟨rfl, .inl rfl, fun _ _ _ => rfl⟩

theorem AfterTransfer.withResult {pipe : BitVec 32} {d d' : UsbDevice} (h : AfterTransfer pipe d d')
    (status : BitVec 32) (actLen : Int)
    : AfterTransfer pipe d { d' with status, actLen } := by
  refine ⟨?_, h.speed, h.toggle⟩
  rw [h.eq]

/-- The address, the place in the tree of devices and the copied descriptors are the same. -/
structure SameLinks (d d' : UsbDevice) : Prop where
  devnum : d'.devnum = d.devnum
  parent : d'.parent = d.parent
  children : d'.children = d.children
  config : d'.config = d.config
  hubdescriptor : d'.hubdescriptor = d.hubdescriptor

theorem AfterTransfer.sameLinks {pipe : BitVec 32} {d d' : UsbDevice} (h : AfterTransfer pipe d d')
    : SameLinks d d' := by
  rw [h.eq]
  exact ⟨rfl, rfl, rfl, rfl, rfl⟩

end UsbDevice

/-- The answers to the submission of `x`. -/
structure Submitted.Allowed (x : Transfer) (r : Submitted) : Prop where
  length_le : r.data.length ≤ x.length
  actLen_le : 0 ≤ r.ret → r.dev.actLen ≤ x.length
  dev : (x.usbDev x.dev).AfterTransfer x.pipe r.dev

/-- A world in which the driver keeps to this. -/
structure Lawful {σ : Type} (w : HcdWorld σ) : Prop where
  submit : ∀ {x s r t}, w (.submit x) s (.ok r) t → r.Allowed x

/--
A hub descriptor for which there is room in `struct usb_hub_descriptor`: it is not longer than that,
and a bit for each port fits behind `DeviceRemovable`.
-/
def HubFits (buffer : Bytes 512) : Prop :=
  (buffer 0).toNat ≤ 11 ∧ (buffer 2).toNat ≤ 31

instance (buffer : Bytes 512) : Decidable (HubFits buffer) := inferInstanceAs (Decidable (_ ∧ _))

/--
The driver with any devices behind it, and any state these may have. Runs are only followed as long
as the configurations that are parsed satisfy `fits` and the hub descriptors fit.
-/
def deviceWorld (σ : Type) (fits : Bytes 512 → Prop) : HcdWorld σ := fun o _ r _ =>
  match o, r with
  | .submit x, .ok y => y.Allowed x
  | .stack _, .ok _ => True
  | .parsing _ buffer, .ok _ => fits buffer
  | .copyingHub _ buffer, .ok _ => HubFits buffer
  | _, .error _ => False

theorem deviceWorld_lawful (σ : Type) (fits : Bytes 512 → Prop) : Lawful (deviceWorld σ fits) :=
  ⟨fun h => h⟩

/-!
### Scripts
-/

namespace Transfer

/-- `x` succeeds, and the device sends the first bytes of `data`. -/
def sends (x : Transfer) (data : List Byte) : Submitted where
  ret := 0
  dev := { x.usbDev x.dev with status := 0, actLen := (data.take x.length).length }
  data := data.take x.length

def stalls (x : Transfer) : Submitted where
  ret := 0
  dev := { x.usbDev x.dev with status := usbStStalled, actLen := 0 }
  data := []

theorem sends_allowed (x : Transfer) (data : List Byte) : (x.sends data).Allowed x where
  length_le := List.length_take_le ..
  actLen_le _ := Int.ofNat_le.mpr (List.length_take_le ..)
  dev := (UsbDevice.AfterTransfer.refl _ _).withResult ..

theorem stalls_allowed (x : Transfer) : x.stalls.Allowed x where
  length_le := Nat.zero_le _
  actLen_le _ := Int.natCast_nonneg _
  dev := (UsbDevice.AfterTransfer.refl _ _).withResult ..

end Transfer

/--
Devices with the state `σ` that send what `script` says, or stall where it says `none`. The stack is full
of `garbage`.
-/
def scriptHandler {σ : Type} (garbage : Byte) (script : Transfer → σ → Option (List Byte) × σ) (o : HcdOp)
    (s : σ) : Except Stop (HcdAns o) × σ :=
  match o with
  | .submit x =>
    match script x s with
    | (some data, t) => (.ok (x.sends data), t)
    | (none, t) => (.ok x.stalls, t)
  | .stack _ => (.ok fun _ => garbage, s)
  | .parsing _ _ => (.ok (), s)
  | .copyingHub _ _ => (.ok (), s)

abbrev scriptWorld {σ : Type} (garbage : Byte) (script : Transfer → σ → Option (List Byte) × σ) :=
  World.ofHandler (scriptHandler garbage script)

theorem scriptWorld_lawful {σ : Type} (garbage : Byte) (script : Transfer → σ → Option (List Byte) × σ)
    : Lawful (scriptWorld garbage script) := by
  constructor
  intro x s y t h
  unfold scriptWorld World.ofHandler scriptHandler at h
  dsimp only at h
  split at h
  . cases h
    apply Transfer.sends_allowed
  . cases h
    apply Transfer.stalls_allowed
