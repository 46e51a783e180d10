import PureUsb.Ehci.Lemmas.Prepare
import PureUsb.Ehci.Lemmas.Token
import PureUsb.Fields

/-!
This module contains the fields of the endpoint words of the queue head.
-/

open BitVec Stateful

/-- The fields of `qh_endpt1`. -/
structure Endpt1 where
  deviceAddress : Nat
  inactivate : Nat
  endpoint : Nat
  speed : Nat
  dataToggleControl : Nat
  head : Nat
  maxPacket : Nat
  control : Nat
  nakReload : Nat
  deriving DecidableEq

def Endpt1.decode (x : BitVec 32) : Endpt1 where
  deviceAddress := x.field 0 7
  inactivate := x.field 7 1
  endpoint := x.field 8 4
  speed := x.field 12 2
  dataToggleControl := x.field 14 1
  head := x.field 15 1
  maxPacket := x.field 16 11
  control := x.field 27 1
  nakReload := x.field 28 4

/-- The fields of `qh_endpt2`. -/
structure Endpt2 where
  smask : Nat
  cmask : Nat
  hubAddress : Nat
  port : Nat
  multiplier : Nat
  deriving DecidableEq

def Endpt2.decode (x : BitVec 32) : Endpt2 where
  smask := x.field 0 8
  cmask := x.field 8 8
  hubAddress := x.field 16 7
  port := x.field 23 7
  multiplier := x.field 30 2

namespace UsbDevice

/-- What enumeration leaves in the fields that a queue head is made of. -/
structure Ranges (d : UsbDevice) : Prop where
  devnum : 0 ≤ d.devnum ∧ d.devnum ≤ 32
  fits : d.PipeFits
  sizeIn : ∀ ep, 0 ≤ d.epmaxpacketin ep ∧ d.epmaxpacketin ep < 65536
  sizeOut : ∀ ep, 0 ≤ d.epmaxpacketout ep ∧ d.epmaxpacketout ep < 65536

/-- The pipes to the endpoint `ep`, which are for IN if `isIn` is set. -/
inductive PipeTo (d : UsbDevice) (ep : Fin 16) : (isIn : Bool) → BitVec 32 → Prop where
  | sndctrl : PipeTo d ep false (usbSndctrlpipe d (BitVec.ofNat 32 ep))
  | rcvctrl : PipeTo d ep true (usbRcvctrlpipe d (BitVec.ofNat 32 ep))
  | sndbulk : PipeTo d ep false (usbSndbulkpipe d (BitVec.ofNat 32 ep))
  | rcvbulk : PipeTo d ep true (usbRcvbulkpipe d (BitVec.ofNat 32 ep))

def maxPacketSize (d : UsbDevice) (ep : Fin 16) (isIn : Bool) : Int :=
  if isIn then d.epmaxpacketin ep else d.epmaxpacketout ep

theorem Ranges.size {d : UsbDevice} (h : d.Ranges) (ep : Fin 16) (isIn : Bool)
    : 0 ≤ d.maxPacketSize ep isIn ∧ d.maxPacketSize ep isIn < 65536 := by
  unfold maxPacketSize
  split
  . exact h.sizeIn ep
  . exact h.sizeOut ep

def endpt1 (d : UsbDevice) (ep : Fin 16) (isIn : Bool) : Endpt1 where
  deviceAddress := d.devnum.toNat
  inactivate := 0
  endpoint := ep
  speed := d.speed.toNat
  dataToggleControl := 1
  head := 0
  maxPacket := (d.maxPacketSize ep isIn).toNat
  control := if d.speed ≠ usbSpeedHigh ∧ ep = 0 then 1 else 0
  nakReload := 8

end UsbDevice

/-!
### Pipes
-/

/-- The fields of a pipe that a queue head is made of. -/
structure PipeFields (pipe : BitVec 32) (num ep speed : Nat) (isIn : Bool) : Prop where
  direction : pipe.getLsbD 7 = isIn
  device : pipe.field 8 7 = num
  endpoint : pipe.field 15 4 = ep
  speed : pipe.field 26 2 = speed

theorem pipeFields_mk (type num ep speed size direction : BitVec 32) (isIn : Bool)
    (hnum : num.toNat < 2 ^ 7) (hep : ep.toNat < 2 ^ 4) (hspeed : speed.toNat < 2 ^ 2)
    (hsize : size.toNat < 2 ^ 2) (hdirection : direction = if isIn then 1#32 <<< 7 else 0#32)
    : PipeFields ((type <<< 30) ||| ((num <<< 8) ||| (ep <<< 15) ||| (speed <<< 26) ||| size) ||| direction)
        num.toNat ep.toNat speed.toNat isIn := by
  have habove : ∀ {p l : Nat}, 2 ≤ p → size.field p l = 0 := fun hp =>
    field_above (Nat.lt_of_lt_of_le hsize (Nat.pow_le_pow_right (by decide) hp))
  have hdir : ∀ {p l : Nat}, 8 ≤ p → direction.field p l = 0 := by
    intro p l hp
    apply field_above
    have hlt : direction.toNat < 2 ^ 8 := by
      rw [hdirection]
      cases isIn <;> decide
    exact Nat.lt_of_lt_of_le hlt (Nat.pow_le_pow_right (by decide) hp)
  constructor
  . have hbit := getLsbD_of_small (i := 7) hsize (by decide)
    simp only [getLsbD_or, getLsbD_shiftLeft, hbit, hdirection]
    cases isIn <;> simp
  . rw [field_or, field_or, field_or, field_or, field_or, hdir (by decide), habove (by decide),
      field_shiftLeft (by decide), field_shiftLeft_below (k := 15) (by decide),
      field_shiftLeft_below (k := 26) (by decide), field_shiftLeft_below (k := 30) (by decide)]
    simp only [Nat.or_zero, Nat.zero_or]
    exact Nat.mod_eq_of_lt hnum
  . rw [field_or, field_or, field_or, field_or, field_or, hdir (by decide), habove (by decide),
      field_shiftLeft (by decide), field_shiftLeft_above (k := 8) hnum (by decide),
      field_shiftLeft_below (k := 26) (by decide), field_shiftLeft_below (k := 30) (by decide)]
    simp only [Nat.or_zero, Nat.zero_or]
    exact Nat.mod_eq_of_lt hep
  . have hnum : num.toNat < 2 ^ (26 - 8) := Nat.lt_of_lt_of_le hnum (by decide)
    have hep : ep.toNat < 2 ^ (26 - 15) := Nat.lt_of_lt_of_le hep (by decide)
    rw [field_or, field_or, field_or, field_or, field_or, hdir (by decide), habove (by decide),
      field_shiftLeft (by decide), field_shiftLeft_above hnum (by decide),
      field_shiftLeft_above hep (by decide), field_shiftLeft_below (k := 30) (by decide)]
    simp only [Nat.or_zero, Nat.zero_or]
    exact Nat.mod_eq_of_lt hspeed

section

variable {d : UsbDevice} {ep : Fin 16} {isIn : Bool} {pipe : BitVec 32}

theorem UsbDevice.PipeTo.fields (h : d.PipeTo ep isIn pipe) (hd : d.Ranges)
    : PipeFields pipe d.devnum.toNat ep d.speed.toNat isIn := by
  have hlt := hd.devnum.2
  have hspeed2 := hd.fits.speed.2
  have hsize3 := hd.fits.packetSize.2
  have toNat_ofInt : ∀ {x : Int} {k : Nat}, 0 ≤ x → x < k → k ≤ 2 ^ 32 →
      (BitVec.ofInt 32 x).toNat = x.toNat := by
    intro x k hx hk h32
    rw [BitVec.toNat_ofInt]
    omega
  have hnum := toNat_ofInt hd.devnum.1 (k := 33) (by omega) (by decide)
  have hspeed := toNat_ofInt hd.fits.speed.1 (k := 4) (by omega) (by decide)
  have hsize := toNat_ofInt hd.fits.packetSize.1 (k := 4) (by omega) (by decide)
  have hep : (BitVec.ofNat 32 (ep : Nat)).toNat = ep := by
    rw [BitVec.toNat_ofNat]
    omega
  have hfields : ∀ (type : BitVec 32) (b : Bool), PipeFields
      ((type <<< 30) ||| createPipe d (BitVec.ofNat 32 ep) ||| if b then 1#32 <<< 7 else 0#32)
      d.devnum.toNat ep d.speed.toNat b := by
    intro type b
    have h := pipeFields_mk type (BitVec.ofInt 32 d.devnum) (BitVec.ofNat 32 ep) (BitVec.ofInt 32 d.speed)
      (BitVec.ofInt 32 d.maxpacketsize) _ b (by omega) (by omega) (by omega) (by omega) rfl
    rw [hnum, hep, hspeed] at h
    unfold createPipe
    exact h
  have hzero : ∀ x : BitVec 32, x ||| (if false then 1#32 <<< 7 else 0#32) = x := fun x => BitVec.or_zero
  cases h with
  | sndctrl => exact hzero (usbSndctrlpipe d _) ▸ hfields pipeControl false
  | rcvctrl => exact hfields pipeControl true
  | sndbulk => exact hzero (usbSndbulkpipe d _) ▸ hfields pipeBulk false
  | rcvbulk => exact hfields pipeBulk true

end

/-!
### Queue heads
-/

theorem withChain_qhEndpts (m : Dma) (dev : UsbDevice) (pipe buffer : BitVec 32) (length : Nat)
    (req : Option (BitVec 32))
    : (m.withChain dev pipe buffer length req).qh.qhEndpt1 = m.qh.qhEndpt1 ∧
      (m.withChain dev pipe buffer length req).qh.qhEndpt2 = m.qh.qhEndpt2 := by
  unfold Dma.withChain
  cases req with
  | none => exact ⟨rfl, rfl⟩
  | some req =>
    dsimp only
    split
    . exact ⟨rfl, rfl⟩
    . exact ⟨rfl, rfl⟩

theorem decode_endpt1 {c size speed ep num : BitVec 32} (hc : c.toNat < 2 ^ 1) (hspeed : speed.toNat < 2 ^ 2)
    (hep : ep.toNat < 2 ^ 4) (hnum : num.toNat < 2 ^ 7) (hsize : size.toNat < 2 ^ 11)
    : Endpt1.decode ((8#32 <<< 28) ||| (c <<< 27) ||| (size <<< 16) ||| (0#32 <<< 15) ||| (1#32 <<< 14) |||
        (speed <<< 12) ||| (ep <<< 8) ||| (0#32 <<< 7) ||| (num <<< 0)) =
      ⟨num.toNat, 0, ep.toNat, speed.toNat, 1, 0, size.toNat, c.toNat, 8⟩ := by
  have hone : (1#32).toNat < 2 ^ 1 := by decide
  unfold Endpt1.decode
  simp (disch := omega) only [BitVec.zero_shiftLeft, BitVec.or_zero, field_or, field_shiftLeft,
    field_shiftLeft_below, field_shiftLeft_above, Nat.or_zero, Nat.zero_or, Nat.mod_eq_of_lt]
  rfl

theorem decode_endpt2 {port hub : BitVec 32} (hport : port.toNat < 2 ^ 7) (hhub : hub.toNat < 2 ^ 7)
    : Endpt2.decode ((1#32 <<< 30) ||| (port <<< 23) ||| (hub <<< 16) ||| (0#32 <<< 8) ||| (0#32 <<< 0)) =
      ⟨0, 0, hub.toNat, port.toNat, 1⟩ := by
  have hone : (1#32).toNat < 2 ^ 1 := by decide
  unfold Endpt2.decode
  simp (disch := omega) only [BitVec.zero_shiftLeft, BitVec.or_zero, field_or, field_shiftLeft,
    field_shiftLeft_below, field_shiftLeft_above, Nat.or_zero, Nat.zero_or, Nat.mod_eq_of_lt]
  rfl

theorem maxPacket_endpt1 {c size speed ep num : BitVec 32} (hspeed : speed.toNat < 2 ^ 2)
    (hep : ep.toNat < 2 ^ 4) (hnum : num.toNat < 2 ^ 7)
    : (Endpt1.decode ((8#32 <<< 28) ||| (c <<< 27) ||| (size <<< 16) ||| (0#32 <<< 15) ||| (1#32 <<< 14) |||
        (speed <<< 12) ||| (ep <<< 8) ||| (0#32 <<< 7) ||| (num <<< 0))).maxPacket = size.toNat % 2 ^ 11 := by
  have hone : (1#32).toNat < 2 ^ 1 := by decide
  unfold Endpt1.decode
  simp (disch := omega) only [BitVec.zero_shiftLeft, BitVec.or_zero, field_or, field_shiftLeft,
    field_shiftLeft_below, field_shiftLeft_above, Nat.or_zero, Nat.zero_or]

theorem PipeFields.maxPacketSize {d : UsbDevice} {pipe : BitVec 32} {num speed : Nat} {ep : Fin 16}
    {isIn : Bool} (h : PipeFields pipe num ep speed isIn)
    : usbMaxpacket d pipe = d.maxPacketSize ep isIn := by
  have hep : Fin.ofNat 16 ((pipe >>> 15) &&& 0xf).toNat = ep := by
    rw [toNat_shiftRight_and (l := 4) rfl, h.endpoint]
    exact Fin.ofNat_val_eq_self ep
  have hmask : usbDirIn.setWidth 32 = twoPow 32 7 := by decide
  unfold usbMaxpacket UsbDevice.maxPacketSize
  rw [hep, hmask, and_twoPow, h.direction]
  cases isIn with
  | false => simp
  | true => rfl

theorem prepareAsync_endpts {d : UsbDevice} {parent : Option UsbDevice} {pipe buffer : BitVec 32}
    {length : Nat} {req : Option (BitVec 32)} {e e' : Ehci} {m m' : Dma} {td : Fin 3}
    (hr : (prepareAsync d parent pipe buffer length req).Run memWorld e m (.ok (some td, e')) m')
    : m'.qh.qhEndpt1 = qhEndpt1 d pipe ∧ ∃ p, parent = some p ∧ m'.qh.qhEndpt2 = qhEndpt2 d p := by
  cases parent with
  | none => exact absurd hr prepareAsync_none
  | some p =>
    obtain ⟨-, hsome⟩ := wp_run (memWorld_owned.wp_prepareAsync trivial) hr
    obtain ⟨-, hdma⟩ := hsome (by simp)
    obtain ⟨h1, h2⟩ := withChain_qhEndpts { m with qh := preparedQh d p pipe } d pipe buffer length req
    have hm : m' = _ := hdma
    rw [hm]
    exact ⟨h1, p, rfl, h2⟩

section

variable {d : UsbDevice} {ep : Fin 16} {isIn : Bool} {pipe : BitVec 32}

theorem decode_qhEndpt1_iff (hd : d.Ranges) (hpipe : d.PipeTo ep isIn pipe)
    : Endpt1.decode (qhEndpt1 d pipe) = d.endpt1 ep isIn ↔ d.maxPacketSize ep isIn < 2048 := by
  have hfields := hpipe.fields hd
  have hmax := hfields.maxPacketSize (d := d)
  have hspeed : (usbPipespeed pipe).toNat = d.speed.toNat :=
    (toNat_shiftRight_and (l := 2) rfl).trans hfields.speed
  have hep : (usbPipeendpoint pipe).toNat = ep := (toNat_shiftRight_and (l := 4) rfl).trans hfields.endpoint
  have hnum : (usbPipedevice pipe).toNat = d.devnum.toNat :=
    (toNat_shiftRight_and (l := 7) rfl).trans hfields.device
  obtain ⟨hsize0, hsize16⟩ := hd.size ep isIn
  obtain ⟨hspeed0, hspeed2⟩ := hd.fits.speed
  have hdevnum := hd.devnum
  have hsize : (BitVec.ofInt 32 (d.maxPacketSize ep isIn)).toNat = (d.maxPacketSize ep isIn).toNat := by
    rw [BitVec.toNat_ofInt]
    omega
  have hcontrol : (usbPipespeed pipe ≠ 2 ∧ usbPipeendpoint pipe = 0) ↔ (d.speed ≠ usbSpeedHigh ∧ ep = 0) := by
    rw [ne_eq, BitVec.toNat_eq, BitVec.toNat_eq, hspeed, hep, Fin.ext_iff]
    show (¬d.speed.toNat = 2 ∧ (ep : Nat) = 0) ↔ (d.speed ≠ 2 ∧ (ep : Nat) = 0)
    omega
  unfold qhEndpt1
  dsimp only
  rw [hmax]
  constructor
  . intro h
    have hpacket := congrArg Endpt1.maxPacket h
    rw [maxPacket_endpt1 (by omega) (by omega) (by omega), hsize] at hpacket
    have hmod : (d.maxPacketSize ep isIn).toNat % 2 ^ 11 = (d.maxPacketSize ep isIn).toNat := hpacket
    omega
  . intro h
    rw [decode_endpt1 (by split <;> decide) (by omega) (by omega) (by omega) (by omega), hsize, hspeed, hep, hnum]
    unfold UsbDevice.endpt1
    simp only [hcontrol]
    congr
    split <;> rfl

/-- The queue head that gets linked describes the endpoint if and only if its packet size fits. -/
theorem prepareAsync_endpt1_iff {parent : Option UsbDevice} {buffer : BitVec 32} {length : Nat}
    {req : Option (BitVec 32)} {e e' : Ehci} {m m' : Dma} {td : Fin 3} (hd : d.Ranges)
    (hpipe : d.PipeTo ep isIn pipe)
    (hr : (prepareAsync d parent pipe buffer length req).Run memWorld e m (.ok (some td, e')) m')
    : Endpt1.decode m'.qh.qhEndpt1 = d.endpt1 ep isIn ↔ d.maxPacketSize ep isIn < 2048 := by
  rw [(prepareAsync_endpts hr).1]
  exact decode_qhEndpt1_iff hd hpipe

end
