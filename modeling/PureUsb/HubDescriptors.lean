import PureUsb.Usb.HubBounds

/-!
This module contains what `usb_hub_init` decodes from the descriptor of a hub.
-/

open Stateful

/-!
### Hub descriptors
-/

/-- How many bytes the bitmaps of a hub take: a bit for each port, and the reserved bit 0. -/
def bitmapSize (ports : Nat) : Nat := (ports + 1 + 7) / 8

def portBit (bitmap : List Byte) (port : Nat) : Bool := (bitmap[port / 8]?.getD 0).getLsbD (port % 8)

/-- A hub descriptor as it is sent, of a hub for whose ports there are child pointers. -/
structure HubDescriptor where
  bDescriptorType : Byte
  bNbrPorts : Byte
  wHubCharacteristics : BitVec 16
  bPwrOn2PwrGood : Byte
  bHubContrCurrent : Byte
  deviceRemovable : List Byte
  portPwrCtrlMask : List Byte
  ports_le : bNbrPorts.toNat ≤ usbMaxchildren
  length_deviceRemovable : deviceRemovable.length = bitmapSize bNbrPorts.toNat
  length_portPwrCtrlMask : portPwrCtrlMask.length = bitmapSize bNbrPorts.toNat

namespace HubDescriptor

def bLength (D : HubDescriptor) : Byte := BitVec.ofNat 8 (7 + 2 * bitmapSize D.bNbrPorts.toNat)

def fixed (D : HubDescriptor) : List Byte :=
  [D.bLength, D.bDescriptorType, D.bNbrPorts, D.wHubCharacteristics.setWidth 8,
    (D.wHubCharacteristics >>> 8).setWidth 8, D.bPwrOn2PwrGood, D.bHubContrCurrent]

def bytes (D : HubDescriptor) : List Byte := D.fixed ++ D.deviceRemovable ++ D.portPwrCtrlMask

variable (D : HubDescriptor)

theorem bitmapSize_cases
    : D.bNbrPorts.toNat < 8 ∧ bitmapSize D.bNbrPorts.toNat = 1 ∨
      D.bNbrPorts.toNat = 8 ∧ bitmapSize D.bNbrPorts.toNat = 2 := by
  have hle := D.ports_le
  unfold bitmapSize
  simp only [usbMaxchildren] at hle
  omega

theorem toNat_bLength : D.bLength.toNat = 7 + 2 * bitmapSize D.bNbrPorts.toNat := by
  unfold bLength
  rw [BitVec.toNat_ofNat]
  rcases D.bitmapSize_cases with ⟨-, hsize⟩ | ⟨-, hsize⟩ <;> rw [hsize]

theorem length_bytes : D.bytes.length = D.bLength.toNat := by
  unfold bytes
  rw [List.length_append, List.length_append, D.length_deviceRemovable, D.length_portPwrCtrlMask, D.toNat_bLength]
  show 7 + _ + _ = _
  omega

/-- What is stored for a hub is what it sent. -/
structure Decoded (D : HubDescriptor) (d : UsbDevice) : Prop where
  fixed : d.hubdescriptor.range 0 7 = D.fixed
  deviceRemovable : ∀ p, 1 ≤ p → p ≤ D.bNbrPorts.toNat →
    portBit (d.hubdescriptor.range 7 2) p = portBit D.deviceRemovable p
  portPowerCtrlMask : ∀ p, 1 ≤ p → p ≤ D.bNbrPorts.toNat →
    portBit (d.hubdescriptor.range 9 2) p = portBit D.portPwrCtrlMask p
  maxchild : d.maxchild = D.bNbrPorts.toNat

/--
The mask has the value that `usb_hub_init` leaves in it, and the removable devices are those that it reads from
offset 9 on: that is the mask of a hub with eight ports, and for others a byte that was on the stack before.
-/
def Decodable (D : HubDescriptor) (stack : Bytes 512) : Prop :=
  ∀ p, 1 ≤ p → p ≤ D.bNbrPorts.toNat →
    portBit D.portPwrCtrlMask p = true ∧
    portBit D.deviceRemovable p =
      if D.bNbrPorts.toNat < 8 then portBit [stack.byte 9] p else portBit D.portPwrCtrlMask p

end HubDescriptor

/-!
### What is stored
-/

/-- `hubdescriptor` after the stores of `usb_hub_init`. -/
def storedDescriptor (old : Bytes 11) (buffer : Bytes 512) : Bytes 11 :=
  (hubStores old buffer).foldl (fun descriptor s => descriptor.write s.field.offset s.data) old

section

variable {old : Bytes 11} {buffer : Bytes 512} {t t' : UsbTable} {base : BitVec 32} {dev : Fin 32}

theorem hubdescriptor_stores {stores : List HubStore}
    (hstores : ∀ s ∈ stores, s.field.offset + s.data.length ≤ sizeofUsbDevice)
    (h : stores.foldlM (HubStore.apply base dev) t = .ok t')
    : (t' dev).hubdescriptor =
        stores.foldl (fun descriptor s => descriptor.write s.field.offset s.data) (t dev).hubdescriptor := by
  induction stores generalizing t with
  | nil =>
    cases h
    rfl
  | cons s stores ih =>
    rw [List.forall_mem_cons] at hstores
    rw [List.foldlM_cons] at h
    obtain ⟨t₁, hs, h⟩ := Except.bind_eq_ok.mp h
    rw [ih hstores.2 h, pokes_hubdescriptor_eq hstores.1 hs]
    rfl

theorem copyHubDescriptor_stored (h : copyHubDescriptor t base dev buffer = .ok t')
    : (t' dev).hubdescriptor = storedDescriptor (t dev).hubdescriptor buffer := by
  rw [copyHubDescriptor_eq_stores] at h
  refine hubdescriptor_stores ?_ h
  have hlength := (buffer 0).isLt
  have hports : storedPorts (t dev).hubdescriptor buffer < 256 := BitVec.isLt _
  unfold hubStores
  simp only [List.forall_mem_cons, HubField.offset, Bytes.length_range, List.length_cons, List.length_nil,
    sizeofUsbDevice]
  refine ⟨?_, ?_, ?_, ?_, ?_, ?_, List.forall_mem_nil _⟩ <;> omega

section

variable (hlength : 7 ≤ (buffer 0).toNat)
include hlength

theorem storedPorts_received : storedPorts old buffer = (buffer 2).toNat := by
  rw [storedPorts_eq, if_pos (by omega)]

theorem byte_storedDescriptor_fixed {i : Nat} (hi : i < 7)
    : (storedDescriptor old buffer).byte i = buffer.byte i := by
  unfold storedDescriptor hubStores
  simp only [List.foldl_cons, List.foldl_nil, HubField.offset]
  rw [Bytes.byte_write_of_lt _ _ hi, Bytes.byte_write_of_lt _ _ hi, Bytes.byte_write_of_lt _ _ (by omega),
    Bytes.byte_write_of_lt _ _ hi]
  by_cases hi3 : i = 3
  . subst hi3
    exact Bytes.byte_write _ _ (show 0 < 2 by decide) (show 3 + 0 < 11 by decide)
  by_cases hi4 : i = 4
  . subst hi4
    exact Bytes.byte_write _ _ (show 1 < 2 by decide) (show 3 + 1 < 11 by decide)
  have hcopy : ((old.write 0 (buffer.range 0 (buffer 0).toNat)).write 3 [buffer 3, buffer 4]).byte i
      = (old.write 0 (buffer.range 0 (buffer 0).toNat)).byte i := by
    rcases Nat.lt_or_ge i 3 with hlt | hge
    . exact Bytes.byte_write_of_lt _ _ hlt
    . exact Bytes.byte_write_of_ge _ _ (show 3 + 2 ≤ i by omega)
  have hbyte := Bytes.byte_write old (buffer.range 0 (buffer 0).toNat) (show i < _ by rw [Bytes.length_range]; omega)
    (show 0 + i < 11 by omega)
  rw [Bytes.getElem_range, Nat.zero_add] at hbyte
  rw [hcopy, hbyte]

/-- Both bitmaps are copied to the first one, and the second stays. -/
theorem byte_storedDescriptor_removable (hports : bitmapSize (buffer 2).toNat ≤ 2) {j : Nat}
    (hj : j < bitmapSize (buffer 2).toNat)
    : (storedDescriptor old buffer).byte (7 + j) = buffer.byte (9 + j) := by
  unfold storedDescriptor hubStores
  simp only [List.foldl_cons, List.foldl_nil, HubField.offset]
  rw [storedPorts_received hlength]
  unfold bitmapSize at hports hj
  rw [Bytes.byte_write _ _ (by rwa [Bytes.length_range]) (by omega), Bytes.getElem_range]

theorem byte_storedDescriptor_mask (hports : bitmapSize (buffer 2).toNat ≤ 2) {j : Nat} (hj : j < 2)
    : (storedDescriptor old buffer).byte (9 + j) = 0xff := by
  unfold storedDescriptor hubStores
  simp only [List.foldl_cons, List.foldl_nil, HubField.offset]
  rw [storedPorts_received hlength]
  unfold bitmapSize at hports
  rw [Bytes.byte_write_of_ge _ _ (by rw [Bytes.length_range]; omega),
    Bytes.byte_write_of_ge _ _ (by rw [Bytes.length_range]; omega), Bytes.byte_write _ _ hj (by omega)]
  obtain rfl | rfl : j = 0 ∨ j = 1 := by omega
  all_goals rfl

end

end

theorem portBit_range (b : Bytes 11) (o : Nat) {p : Nat} (hp : p / 8 < 2)
    : portBit (b.range o 2) p = (b.byte (o + p / 8)).getLsbD (p % 8) := by
  have hlength : p / 8 < (b.range o 2).length := by rwa [Bytes.length_range]
  unfold portBit
  rw [List.getElem?_eq_getElem hlength, Bytes.getElem_range]
  rfl

namespace HubDescriptor

variable {D : HubDescriptor} {stack : Bytes 512}

/-- The buffer of `usb_hub_init` after it was read. -/
def received (D : HubDescriptor) (stack : Bytes 512) : Bytes 512 := stack.write 0 D.bytes

theorem byte_received {i : Nat} (hi : i < D.bytes.length) : (D.received stack).byte i = D.bytes[i] := by
  have hlength := D.length_bytes
  have hlt := D.bLength.isLt
  have hbyte := Bytes.byte_write stack D.bytes hi (show 0 + i < 512 by omega)
  rwa [Nat.zero_add] at hbyte

theorem received_bLength : (D.received stack) 0 = D.bLength := rfl

theorem received_bNbrPorts : (D.received stack) 2 = D.bNbrPorts := rfl

theorem seven_le_received : 7 ≤ ((D.received stack) 0).toNat := by
  rw [received_bLength, D.toNat_bLength]
  omega

theorem bitmapSize_received : bitmapSize ((D.received stack) 2).toNat ≤ 2 := by
  rw [received_bNbrPorts]
  rcases D.bitmapSize_cases with ⟨-, hsize⟩ | ⟨-, hsize⟩ <;> omega

theorem received_removable {p : Nat} (hp : p ≤ D.bNbrPorts.toNat)
    : ((D.received stack).byte (9 + p / 8)).getLsbD (p % 8) =
        if D.bNbrPorts.toNat < 8 then portBit [stack.byte 9] p else portBit D.portPwrCtrlMask p := by
  have hlength := D.length_bytes
  rw [D.toNat_bLength] at hlength
  have hremovable := D.length_deviceRemovable
  have hpower := D.length_portPwrCtrlMask
  rcases D.bitmapSize_cases with ⟨hports, hsize⟩ | ⟨hports, hsize⟩
  . rw [hsize] at hlength
    have hfirst : p / 8 = 0 := by omega
    have hbyte : (D.received stack).byte 9 = stack.byte 9 :=
      Bytes.byte_write_of_ge stack D.bytes (show 0 + D.bytes.length ≤ 9 by omega)
    rw [if_pos hports, hfirst, hbyte]
    unfold portBit
    rw [hfirst]
    rfl
  . rw [hsize] at hlength hremovable hpower
    have hlt : p / 8 < 2 := by omega
    rw [if_neg (by omega), byte_received (by omega)]
    unfold portBit
    rw [List.getElem?_eq_getElem (show p / 8 < D.portPwrCtrlMask.length by omega)]
    congr 1
    unfold bytes
    rw [List.getElem_append_right (by rw [List.length_append, hremovable]; show 7 + 2 ≤ _; omega)]
    congr 1
    rw [List.length_append, hremovable]
    show 9 + p / 8 - (7 + 2) = p / 8
    omega

variable {d : UsbDevice} {old : Bytes 11}

theorem fixed_stored (hstored : d.hubdescriptor = storedDescriptor old (D.received stack))
    : d.hubdescriptor.range 0 7 = D.fixed := by
  have hlength : 7 ≤ D.bytes.length := by
    rw [D.length_bytes, D.toNat_bLength]
    omega
  apply List.ext_getElem
  . rw [Bytes.length_range]
    rfl
  . intro i hi _
    rw [Bytes.length_range] at hi
    have hbytes : D.bytes = D.fixed ++ (D.deviceRemovable ++ D.portPwrCtrlMask) := List.append_assoc ..
    rw [Bytes.getElem_range, Nat.zero_add, hstored, byte_storedDescriptor_fixed seven_le_received hi,
      byte_received (by omega), List.getElem_of_eq hbytes, List.getElem_append_left]

theorem portBit_stored (hstored : d.hubdescriptor = storedDescriptor old (D.received stack)) {p : Nat}
    (hp : p ≤ D.bNbrPorts.toNat)
    : portBit (d.hubdescriptor.range 9 2) p = true ∧
        portBit (d.hubdescriptor.range 7 2) p =
          if D.bNbrPorts.toNat < 8 then portBit [stack.byte 9] p else portBit D.portPwrCtrlMask p := by
  have hsize : p / 8 < bitmapSize ((D.received stack) 2).toNat := by
    rw [received_bNbrPorts]
    unfold bitmapSize
    omega
  have hlt := Nat.lt_of_lt_of_le hsize bitmapSize_received
  constructor
  . rw [portBit_range _ _ hlt, hstored, byte_storedDescriptor_mask seven_le_received bitmapSize_received hlt]
    have hbit : ∀ k < 8, (0xff : Byte).getLsbD k = true := by decide
    exact hbit _ (Nat.mod_lt _ (by decide))
  . rw [portBit_range _ _ hlt, hstored,
      byte_storedDescriptor_removable seven_le_received bitmapSize_received hsize, received_removable hp]

theorem decoded_iff (hstored : d.hubdescriptor = storedDescriptor old (D.received stack))
    (hmaxchild : d.maxchild = ((D.received stack) 2).toNat)
    : D.Decoded d ↔ D.Decodable stack := by
  constructor
  . intro h p h1 hp
    obtain ⟨hmask, hremovable⟩ := portBit_stored hstored hp
    exact ⟨(h.portPowerCtrlMask p h1 hp).symm.trans hmask, (h.deviceRemovable p h1 hp).symm.trans hremovable⟩
  . intro h
    refine ⟨fixed_stored hstored, ?_, ?_, hmaxchild⟩
    . intro p h1 hp
      exact (portBit_stored hstored hp).2.trans (h p h1 hp).2.symm
    . intro p h1 hp
      exact (portBit_stored hstored hp).1.trans (h p h1 hp).1.symm

end HubDescriptor

/-!
### Runs
-/

def DevRequest.ReadsHubDescriptor (setup : DevRequest) : Prop :=
  setup.requesttype = (usbDirIn ||| usbRtHub) ∧ setup.request = usbReqGetDescriptor

/--
A hub with the descriptor `D` behind a lawful driver, and `stack` in the buffer of `usb_hub_init`. Other requests
are answered in any way.
-/
structure HubWorld {σ : Type} (D : HubDescriptor) (stack : Bytes 512) (w : HcdWorld σ) : Prop extends Lawful w where
  stack : ∀ {s b t}, w (.stack 512) s (.ok b) t → b = stack
  descriptor : ∀ {x setup s y t}, w (.submit x) s (.ok y) t → x.setup = some setup → setup.ReadsHubDescriptor →
    0 ≤ y.result → y.data = D.bytes.take x.length

/-- The descriptor of a hub and its ports stay as they were stored. -/
structure HubStored (dev : Fin 32) (descriptor : Bytes 11) (ports : Int) (u : Usb) : Prop where
  hubdescriptor : (u.usbDev dev).hubdescriptor = descriptor
  maxchild : (u.usbDev dev).maxchild = ports

section

variable {σ : Type} {w : HcdWorld σ} {dev : Fin 32} {descriptor : Bytes 11} {ports : Int} {u : Usb} {s : σ}
variable {D : HubDescriptor} {stack : Bytes 512}

theorem HubStored.answered (h : HubStored dev descriptor ports u) {pipe : BitVec 32} {data : Buffer}
    {setup : DevRequest} {y : Submitted} (hy : y.Allowed (u.request dev pipe data setup))
    : HubStored dev descriptor ports (u.answered dev setup y) := by
  have hafter := Usb.afterTransfer_answered hy
  constructor
  . rw [hafter.sameLinks.hubdescriptor]
    exact h.hubdescriptor
  . rw [hafter.eq]
    exact h.maxchild

theorem frame_stored (hw : Lawful w) : Frame w (fun u _ => HubStored dev descriptor ports u) (fun _ _ => True) dev where
  stack h := fun _ => ⟨fun _ _ => h, fun _ _ => trivial⟩
  msg {u s pipe request requesttype value index data size timeout} h _ htimeout _ := by
    rw [wp_usbControlMsg htimeout]
    intro setup x t
    refine ⟨fun y hy => ?_, fun _ _ => trivial⟩
    have hy : w (.submit (u.request dev pipe data setup)) s (.ok y) t := hy
    exact ⟨h.answered (hw.submit hy), (hw.submit hy).result_le⟩
  texts {u s} _ _ _ _ _ h := by
    constructor <;> rw [Usb.setDev_same]
    . exact h.hubdescriptor
    . exact h.maxchild

theorem wp_usbGetHubDescriptor_sent (hw : HubWorld D stack w) {size : Nat} (hsize : size < 65536)
    : wp w (usbGetHubDescriptor dev size) (fun r _ _ => 0 ≤ r.1 → r.2 = D.bytes.take size) (fun _ _ => True) u
        s := by
  unfold usbGetHubDescriptor
  rw [wp_bind, wp_getDev, wp_usbControlMsg (by decide)]
  intro setup x t
  refine ⟨fun y hy hret => ?_, fun _ _ => trivial⟩
  have hdata := hw.descriptor hy rfl ⟨rfl, rfl⟩ hret
  have hlength : x.length = size := by
    show (BitVec.ofNat 16 size).toNat = size
    rw [BitVec.toNat_ofNat]
    exact Nat.mod_eq_of_lt hsize
  rwa [hlength] at hdata

theorem wp_storeHubDescriptor_stored (buffer : Bytes 512)
    : wp w (storeHubDescriptor dev buffer)
        (fun _ v _ => HubStored dev (storedDescriptor (u.usbDev dev).hubdescriptor buffer) (buffer 2).toNat v)
        (fun _ _ => True) u s := by
  unfold storeHubDescriptor
  rw [wp_bind, wp_ask]
  refine fun t => ⟨fun _ _ => ?_, fun _ _ => trivial⟩
  rw [wp_bind, wp_get, wp_bind]
  cases hcopy : copyHubDescriptor u.usbDev u.usbDevAddr dev buffer with
  | error e => trivial
  | ok usbDev =>
    rw [wp_ofExcept_ok, wp_bind, wp_set, wp_modifyDev]
    constructor <;> rw [Usb.setDev_same]
    exact copyHubDescriptor_stored hcopy

theorem wp_usbHubInit_decoded (hw : HubWorld D stack w)
    : wp w (usbHubInit dev) (fun ret v _ => ret = 0 → (D.Decoded (v.usbDev dev) ↔ D.Decodable stack))
        (fun _ _ => True) u s := by
  unfold usbHubInit
  rw [wp_bind, wp_ask]
  refine fun t => ⟨fun buffer hstack => ?_, fun _ _ => trivial⟩
  obtain rfl := hw.stack hstack
  rw [wp_bind]
  refine wp_post (wp_usbGetHubDescriptor_sent hw (by decide)) ?_
  rintro ⟨ret, bytes⟩ u t hbytes
  dsimp only at hbytes ⊢
  split
  . nofun
  . next hret =>
    rw [hbytes (Int.not_lt.mp hret), wp_bind]
    refine wp_post (wp_usbGetHubDescriptor_sent hw (by have := ((buffer.write 0 (D.bytes.take 4)) 0).isLt; omega)) ?_
    rintro ⟨ret, bytes⟩ u t hbytes
    dsimp only at hbytes ⊢
    split
    . nofun
    . next hret =>
      have hfirst : (buffer.write 0 (D.bytes.take 4)) 0 = D.bLength := rfl
      have hbytes := hbytes (Int.not_lt.mp hret)
      rw [hfirst, ← D.length_bytes, List.take_length] at hbytes
      rw [hbytes, Bytes.write_write buffer (List.length_take_le' ..), wp_bind]
      refine wp_post (wp_storeHubDescriptor_stored _) fun _ u t hstored => ?_
      rw [wp_bind]
      unfold usbGetHubStatus
      rw [wp_bind, wp_getDev]
      refine wp_post ((frame_stored hw.toLawful).msg hstored .rcv (by decide) (.hub (by decide) (by decide))) ?_
      rintro ⟨ret, bytes⟩ u t ⟨hstored, -⟩
      dsimp only
      split
      . nofun
      . rw [wp_bind]
        refine wp_post ((frame_stored hw.toLawful).hubPowerOn hstored) fun _ v t hstored _ => ?_
        exact HubDescriptor.decoded_iff hstored.hubdescriptor hstored.maxchild

/-- For any descriptor of up to eight ports, what is stored is right if and only if the descriptor is `Decodable`. -/
theorem usbHubInit_decoded_iff (hw : HubWorld D stack w) {v : Usb} {t : σ}
    (hr : (usbHubInit dev).Run w u s (.ok (0, v)) t)
    : D.Decoded (v.usbDev dev) ↔ D.Decodable stack := by
  have hdecoded : wp w (usbHubInit dev) _ _ u s := wp_usbHubInit_decoded hw
  exact wp_run hdecoded hr rfl

end

/-- The hub of a keyboard: four ports, and the device at the first port is part of the hub. -/
def keyboardHub (removable : Byte) : HubDescriptor where
  bDescriptorType := usbDtHub
  bNbrPorts := 4
  wHubCharacteristics := 4
  bPwrOn2PwrGood := 50
  bHubContrCurrent := 100
  deviceRemovable := [removable]
  portPwrCtrlMask := [0xff]
  ports_le := by decide
  length_deviceRemovable := rfl
  length_portPwrCtrlMask := rfl

def descriptorScript (D : HubDescriptor) (x : Transfer) (s : Unit) : Option (List Byte) × Unit :=
  (some (if x.setup.any (·.request = usbReqGetDescriptor) then D.bytes else [0, 0, 0, 0]), s)

theorem descriptorScript_hubWorld (D : HubDescriptor) (garbage : Byte)
    : HubWorld D (fun _ => garbage) (scriptWorld garbage (descriptorScript D)) where
  toLawful := scriptWorld_lawful garbage _
  stack := by
    rintro s b t ⟨⟩
    rfl
  descriptor := by
    rintro x setup s y t ⟨⟩ hx hsetup -
    have hany : x.setup.any (·.request = usbReqGetDescriptor) = true := by
      rw [hx]
      exact decide_eq_true hsetup.2
    show List.take x.length (if x.setup.any (·.request = usbReqGetDescriptor) = true then D.bytes else _) = _
    rw [if_pos hany]

/-- Its mark for the device at the first port is lost. -/
theorem keyboardHub_not_decoded
    : ∃ v, (usbHubInit 0).Run (scriptWorld 0 (descriptorScript (keyboardHub 2))) attachedUsb () (.ok (0, v)) () ∧
        ¬(keyboardHub 2).Decoded (v.usbDev 0) := by
  obtain ⟨r, v, _, hr, hp⟩ := exists_run_of_check
    (Prog.ofHandler_serves (scriptHandler 0 (descriptorScript (keyboardHub 2)))).offers
    (m := usbHubInit 0) (u := attachedUsb) (s := ())
    (p := fun r v _ => r = 0 ∧ portBit ((v.usbDev 0).hubdescriptor.range 7 2) 1 = false) (by decide +kernel)
  obtain ⟨rfl, hbit⟩ := of_decide_eq_true hp
  refine ⟨v, hr, fun h => ?_⟩
  have hmark := h.deviceRemovable 1 (by decide) (by decide)
  rw [hbit] at hmark
  exact absurd hmark (by decide)

theorem usbHubInit_decoded_iff_keyboard
    : ∃ v, (usbHubInit 0).Run (scriptWorld 0 (descriptorScript (keyboardHub 0))) attachedUsb () (.ok (0, v)) () ∧
        (keyboardHub 0).Decoded (v.usbDev 0) := by
  obtain ⟨r, v, _, hr, hp⟩ := exists_run_of_check
    (Prog.ofHandler_serves (scriptHandler 0 (descriptorScript (keyboardHub 0)))).offers
    (m := usbHubInit 0) (u := attachedUsb) (s := ()) (p := fun r _ _ => r = 0) (by decide +kernel)
  obtain rfl : r = 0 := of_decide_eq_true hp
  refine ⟨v, hr, (usbHubInit_decoded_iff (descriptorScript_hubWorld _ 0) hr).mpr ?_⟩
  intro p h1 hp
  have hp : p ≤ 4 := hp
  obtain rfl | rfl | rfl | rfl : p = 1 ∨ p = 2 ∨ p = 3 ∨ p = 4 := by omega
  all_goals exact ⟨rfl, rfl⟩
