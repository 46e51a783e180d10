import PureUsb.Usb.Configured
import PureUsb.Ehci.QueueHead
import Mathlib.Data.List.MinMax

/-!
This module contains the packet size of endpoint 0 after the enumeration of a device: when the table
of packet sizes agrees with what the pipes of the device encode.
-/

open Stateful

/-!
### The sizes that count for endpoint 0
-/

def packetBytes (maxpacketsize : Int) : Nat := 8 <<< maxpacketsize.toNat

/--
The sizes in `acc` with that of `ep`, if this is about the given direction of endpoint 0. A control
endpoint replaces all others.
-/
def countSize (isIn : Bool) (acc : List Nat) (ep : EndpointDescriptor) : List Nat :=
  if ep.bEndpointAddress &&& 0x0f ≠ 0 then acc
  else if ep.bmAttributes &&& 0x03 = 0 then [ep.wMaxPacketSize]
  else if decide (ep.bEndpointAddress &&& 0x80 ≠ 0) = isIn then ep.wMaxPacketSize :: acc
  else acc

/-- The sizes that count if the device descriptor says `b`, the last one first. -/
def countedSizes (isIn : Bool) (b : Byte) (eps : List EndpointDescriptor) : List Nat :=
  eps.foldl (countSize isIn) [b.toNat]

section

variable {isIn : Bool} {acc : List Nat} {d : UsbDevice} {n : Nat}

theorem endpointNumber_eq_zero {address : Byte}
    : Fin.ofNat 16 (address &&& 0x0f).toNat = 0 ↔ address &&& 0x0f = 0 := by
  have hlt : (address &&& 0x0f).toNat < 16 := by
    rw [BitVec.toNat_and]
    exact Nat.and_lt_two_pow _ (n := 4) (by decide)
  rw [Fin.ext_iff, Fin.val_ofNat, Nat.mod_eq_of_lt hlt, ← BitVec.toNat_inj]
  rfl

theorem update_apply_ne (sizes : Fin 16 → Int) (size : Int) (b k : Fin 16)
    : Function.update sizes b size k = if b ≠ k then sizes k else size := by
  by_cases hk : b = k
  . rw [if_neg (not_not.mpr hk), hk, Function.update_self]
  . rw [if_pos hk, Function.update_of_ne (Ne.symm hk)]

theorem raise_apply (sizes : Fin 16 → Int) (size : Int) (b k : Fin 16)
    : (if size > sizes b then Function.update sizes b size else sizes) k =
        if b ≠ k then sizes k else max size (sizes k) := by
  by_cases hk : b = k
  . subst hk
    rw [if_neg (not_not.mpr rfl)]
    split
    . rw [Function.update_self]
      omega
    . omega
  . rw [if_pos hk]
    split
    . rw [update_apply_ne, if_pos hk]
    . rfl

theorem maxPacketSize_usbSetMaxpacketEp (d : UsbDevice) (ep : EndpointDescriptor) (k : Fin 16)
    (isIn : Bool)
    : (usbSetMaxpacketEp d ep).maxPacketSize k isIn =
        if Fin.ofNat 16 (ep.bEndpointAddress &&& 0x0f).toNat ≠ k then d.maxPacketSize k isIn
        else if ep.bmAttributes &&& 0x03 = 0 then (ep.wMaxPacketSize : Int)
        else if decide (ep.bEndpointAddress &&& 0x80 ≠ 0) = isIn then
          max (ep.wMaxPacketSize : Int) (d.maxPacketSize k isIn)
        else d.maxPacketSize k isIn := by
  unfold usbSetMaxpacketEp
  dsimp only
  generalize Fin.ofNat 16 (ep.bEndpointAddress &&& 0x0f).toNat = b
  by_cases hcontrol : ep.bmAttributes &&& 0x03 = 0
  . rw [if_pos hcontrol, if_pos hcontrol]
    cases isIn <;> apply update_apply_ne
  . rw [if_neg hcontrol, if_neg hcontrol]
    by_cases hout : ep.bEndpointAddress &&& 0x80 = 0
    . rw [if_pos hout, decide_eq_false (not_not.mpr hout)]
      cases isIn with
      | true =>
        rw [if_neg Bool.false_ne_true, ite_self]
        split <;> rfl
      | false =>
        rw [if_pos rfl]
        apply Eq.trans _ (raise_apply d.epmaxpacketout ep.wMaxPacketSize b k)
        split <;> rfl
    . rw [if_neg hout, decide_eq_true hout]
      cases isIn with
      | true =>
        rw [if_pos rfl]
        apply Eq.trans _ (raise_apply d.epmaxpacketin ep.wMaxPacketSize b k)
        split <;> rfl
      | false =>
        rw [if_neg Bool.false_ne_true.symm, ite_self]
        split <;> rfl

theorem maximum_cons_coe {size : Nat} (h : acc.maximum = n)
    : (size :: acc).maximum = (max size n : Nat) := by
  rw [List.maximum_cons, h]
  rfl

theorem maxPacketSize_step (ep : EndpointDescriptor) (h : acc.maximum = n)
    (hd : d.maxPacketSize 0 isIn = n)
    : ∃ m : Nat, (countSize isIn acc ep).maximum = m ∧
        (usbSetMaxpacketEp d ep).maxPacketSize 0 isIn = m := by
  rw [maxPacketSize_usbSetMaxpacketEp, hd]
  unfold countSize
  simp only [ne_eq, endpointNumber_eq_zero]
  split
  . exact ⟨n, h, rfl⟩
  . split
    . exact ⟨ep.wMaxPacketSize, rfl, rfl⟩
    . split
      . exact ⟨max ep.wMaxPacketSize n, maximum_cons_coe h, by push_cast; rfl⟩
      . exact ⟨n, h, rfl⟩

theorem maxPacketSize_foldl (eps : List EndpointDescriptor) (h : acc.maximum = n)
    (hd : d.maxPacketSize 0 isIn = n)
    : ∃ m : Nat, (eps.foldl (countSize isIn) acc).maximum = m ∧
        (eps.foldl usbSetMaxpacketEp d).maxPacketSize 0 isIn = m := by
  induction eps generalizing d acc n with
  | nil => exact ⟨n, h, hd⟩
  | cons ep eps ih =>
    obtain ⟨m, hm, hdm⟩ := maxPacketSize_step ep h hd
    exact ih hm hdm

theorem countedSizes_eq_singleton {b : Byte} {eps : List EndpointDescriptor}
    (h : ∀ ep ∈ eps, ep.bEndpointAddress &&& 0x0f ≠ 0)
    : countedSizes isIn b eps = [b.toNat] := by
  unfold countedSizes
  induction eps with
  | nil => rfl
  | cons ep eps ih =>
    rw [List.foldl_cons, countSize, if_pos (h ep List.mem_cons_self)]
    exact ih fun ep hep => h ep (List.mem_cons_of_mem _ hep)

end

/-!
### Pipes
-/

theorem UsbDevice.PipeTo.packetSize {d : UsbDevice} {ep : Fin 16} {isIn : Bool} {pipe : BitVec 32}
    (h : d.PipeTo ep isIn pipe) (hd : IsPacketSize d.maxpacketsize)
    : pipe.field 0 2 = d.maxpacketsize.toNat := by
  have hfield : ∀ type direction : BitVec 32, direction.field 0 2 = 0 →
      ((type <<< 30) ||| createPipe d (BitVec.ofNat 32 ep) ||| direction).field 0 2 =
        d.maxpacketsize.toNat := by
    intro type direction hdirection
    unfold createPipe
    simp (disch := omega) only [BitVec.field_or, BitVec.field_shiftLeft_below, hdirection, Nat.or_zero,
      Nat.zero_or]
    obtain ⟨h0, h3⟩ := hd
    unfold BitVec.field
    rw [BitVec.toNat_ofInt]
    omega
  have hzero : ∀ x : BitVec 32, x ||| 0#32 = x := fun x => BitVec.or_zero
  cases h with
  | sndctrl => exact hzero (usbSndctrlpipe d _) ▸ hfield pipeControl 0#32 BitVec.field_zero
  | rcvctrl => exact hfield pipeControl (usbDirIn.setWidth 32) (by decide)
  | sndbulk => exact hzero (usbSndbulkpipe d _) ▸ hfield pipeBulk 0#32 BitVec.field_zero
  | rcvbulk => exact hfield pipeBulk (usbDirIn.setWidth 32) (by decide)

/--
The two notes of the packet size of endpoint 0 agree, and every pipe of the device encodes this size.
-/
structure SizesAgree (d : UsbDevice) : Prop where
  sizeIn : d.epmaxpacketin 0 = packetBytes d.maxpacketsize
  sizeOut : d.epmaxpacketout 0 = packetBytes d.maxpacketsize
  allowed : packetBytes d.maxpacketsize ∈ [8, 16, 32, 64]
  pipes : ∀ {ep isIn pipe}, d.PipeTo ep isIn pipe → 8 <<< pipe.field 0 2 = packetBytes d.maxpacketsize

theorem packetBytes_mem {x : Int} (h : IsPacketSize x) : packetBytes x ∈ [8, 16, 32, 64] := by
  obtain ⟨h0, h3⟩ := h
  have hx : x = 0 ∨ x = 1 ∨ x = 2 ∨ x = 3 := by omega
  rcases hx with rfl | rfl | rfl | rfl <;> decide

theorem sizesAgree_iff {d : UsbDevice} (h : IsPacketSize d.maxpacketsize)
    : SizesAgree d ↔ ∀ isIn, d.maxPacketSize 0 isIn = packetBytes d.maxpacketsize := by
  constructor
  . intro hd isIn
    cases isIn with
    | true => exact hd.sizeIn
    | false => exact hd.sizeOut
  . intro hd
    refine ⟨hd true, hd false, packetBytes_mem h, fun hpipe => ?_⟩
    rw [hpipe.packetSize h]
    rfl

/-!
### Devices whose sizes agree
-/

/-- The `config` that `usb_parse_config` leaves, if there was nothing in it before. -/
def parsedConfig (buffer : Bytes 512) : Bytes 1002 :=
  match parseConfig strictMem buffer .zero with
  | .ok (_, c) => c
  | .error _ => .zero

/-- The endpoints of this configuration that `usb_set_maxpacket` looks at. -/
def visitedEndpoints (buffer : Bytes 512) : List EndpointDescriptor := endpointsOf (parsedConfig buffer)

/--
In both directions the largest of the sizes that count for endpoint 0 is the one that the pipes
encode. `b` is the `bMaxPacketSize0` of the first read of the device descriptor, `buffer` holds the
configuration.
-/
def SizesFit (b : Byte) (buffer : Bytes 512) : Prop :=
  ∀ isIn, (countedSizes isIn b (visitedEndpoints buffer)).maximum =
    (packetBytes (packetSize b packetSize64) : Nat)

instance (b : Byte) (buffer : Bytes 512) : Decidable (SizesFit b buffer) :=
  inferInstanceAs (Decidable (∀ _, _))

theorem sizesFit_iff_of_other {b : Byte} {buffer : Bytes 512}
    (h : ∀ ep ∈ visitedEndpoints buffer, ep.bEndpointAddress &&& 0x0f ≠ 0)
    : SizesFit b buffer ↔ b.toNat ∈ [8, 16, 32, 64] := by
  unfold SizesFit
  simp only [countedSizes_eq_singleton h, List.maximum_singleton, forall_const]
  constructor
  . intro hb
    have hb : b.toNat = packetBytes (packetSize b packetSize64) := WithBot.coe_inj.mp hb
    rw [hb]
    exact packetBytes_mem (isPacketSize_packetSize b (by decide))
  . have hall : ∀ b : Byte, b.toNat ∈ [8, 16, 32, 64] →
        b.toNat = packetBytes (packetSize b packetSize64) := by decide
    intro hb
    exact congrArg _ (hall b hb)

/-- The first read of the device descriptor left `b` in the place of `bMaxPacketSize0`. -/
inductive FirstRead {σ : Type} (l : List (HcdEvent σ)) (b : Byte) : Prop where
  | mk {s s' : σ} {tmpbuf : Bytes 512} {x : Transfer} {y : Submitted} {rest : List (HcdEvent σ)} :
      l = ⟨s, .stack 512, .ok tmpbuf⟩ :: ⟨s', .submit x, .ok y⟩ :: rest →
      b = (tmpbuf.write 0 y.data) 7 → FirstRead l b

theorem FirstRead.append {σ : Type} {l : List (HcdEvent σ)} {b : Byte} (h : FirstRead l b)
    (l' : List (HcdEvent σ))
    : FirstRead (l ++ l') b := by
  cases h with
  | mk hl hb =>
    subst hl
    exact .mk rfl hb

theorem FirstRead.eq {σ : Type} {l : List (HcdEvent σ)} {b b' : Byte} (h : FirstRead l b)
    (h' : FirstRead l b')
    : b = b' := by
  cases h with
  | mk hl hb =>
    cases h' with
    | mk hl' hb' =>
      cases hl.symm.trans hl'
      rw [hb, hb']

/-- The device described its endpoint 0 consistently. -/
inductive DescribesSizes {σ : Type} (l : List (HcdEvent σ)) : Prop where
  | mk {b : Byte} {buffer : Bytes 512} :
      FirstRead l b → parsedBuffers l = [buffer] → SizesFit b buffer → DescribesSizes l

/-!
### Enumeration
-/

/-- The packet sizes and the descriptors are the same. -/
structure UsbDevice.SameSizes (d d' : UsbDevice) : Prop where
  descriptor : d'.descriptor = d.descriptor
  maxpacketsize : d'.maxpacketsize = d.maxpacketsize
  epmaxpacketin : d'.epmaxpacketin = d.epmaxpacketin
  epmaxpacketout : d'.epmaxpacketout = d.epmaxpacketout
  config : d'.config = d.config

theorem UsbDevice.AfterTransfer.sameSizes {pipe : BitVec 32} {d d' : UsbDevice}
    (h : d.AfterTransfer pipe d')
    : d.SameSizes d' := by
  rw [h.eq]
  exact ⟨rfl, rfl, rfl, rfl, rfl⟩

def AboutSizes (P : UsbDevice → Prop) : Prop := ∀ {d d'}, d.SameSizes d' → P d → P d'

/-- The packet size that pipes encode, the sizes of endpoint 0 that are noted, and the configuration. -/
structure SizesAre (x : Int) (sizes : Bool → Int) (c : Bytes 1002) (d : UsbDevice) : Prop where
  encoded : d.maxpacketsize = x
  noted : ∀ isIn, d.maxPacketSize 0 isIn = sizes isIn
  config : d.config = c

theorem aboutSizes_sizesAre {x : Int} {sizes : Bool → Int} {c : Bytes 1002}
    : AboutSizes (SizesAre x sizes c) := by
  intro d d' hd h
  constructor
  . rw [hd.maxpacketsize, h.encoded]
  . intro isIn
    rw [← h.noted]
    unfold UsbDevice.maxPacketSize
    rw [hd.epmaxpacketin, hd.epmaxpacketout]
  . rw [hd.config, h.config]

/-- `P` holds of `dev`, and the trace began with the first read of its descriptor. -/
structure Sized {σ : Type} (P : UsbDevice → Prop) (dev : Fin 32) (b : Byte) (parsed : List (Bytes 512))
    (u : Usb) (s : σ × List (HcdEvent σ)) : Prop where
  dev : P (u.usbDev dev)
  first : FirstRead s.2 b
  parsed : parsedBuffers s.2 = parsed

section

variable {σ : Type} {fits : Bytes 512 → Prop} {P P' : UsbDevice → Prop} {dev : Fin 32} {b : Byte}
variable {parsed : List (Bytes 512)} {u : Usb} {s : σ × List (HcdEvent σ)}

theorem Sized.setSelf (h : Sized P dev b parsed u s) {d : UsbDevice} (hd : P' d)
    : Sized P' dev b parsed (u.setDev dev d) s := by
  refine ⟨?_, h.first, h.parsed⟩
  rw [Usb.setDev_same]
  exact hd

theorem Sized.setDev (h : Sized P dev b parsed u s) (hP : AboutSizes P) {p : Fin 32} {d : UsbDevice}
    (hd : (u.usbDev p).SameSizes d)
    : Sized P dev b parsed (u.setDev p d) s := by
  by_cases hp : dev = p
  . subst hp
    exact h.setSelf (hP hd h.dev)
  . refine ⟨?_, h.first, h.parsed⟩
    rw [Usb.setDev_ne _ _ hp]
    exact h.dev

theorem Sized.waiting (h : Sized P dev b parsed u s) (hP : AboutSizes P) (p : Fin 32)
    (setup : DevRequest)
    : Sized P dev b parsed (u.waiting p setup) s :=
  Sized.setDev (u := { u with setupPacket := setup }) (d := { u.usbDev p with status := usbStNotProc })
    ⟨h.dev, h.first, h.parsed⟩ hP ⟨rfl, rfl, rfl, rfl, rfl⟩

theorem wp_usbControlMsg_sized (h : Sized P dev b parsed u s) (hP : AboutSizes P) {p : Fin 32}
    {pipe : BitVec 32} {request requesttype : Byte} {value index size : BitVec 16} {data : Buffer}
    {timeout : Nat} (htimeout : timeout ≠ 0)
    : wp (deviceWorld σ fits).traced
        (usbControlMsg p pipe request requesttype value index data size timeout)
        (fun r v t => Sized P dev b parsed v t ∧ r.1 ≤ size.toNat) (fun _ _ => True) u s := by
  apply wp_usbControlMsg_event _ rfl htimeout
  . intro y t hy
    have hy : y.Allowed _ := hy
    refine ⟨?_, hy.result_le⟩
    have h := (h.waiting hP p ⟨requesttype, request, value, index, size⟩).setDev hP hy.dev.sameSizes
    refine ⟨h.dev, h.first.append _, ?_⟩
    rw [← h.parsed]
    simp [parsedBuffers, Event.parsed?]
  . exact fun _ _ _ => trivial

theorem frame_sized (hP : AboutSizes P) (p : Fin 32)
    : Frame (deviceWorld σ fits).traced (Sized P dev b parsed) (fun _ _ => True) p where
  stack {u s n} h := by
    rintro ⟨t, l⟩
    refine ⟨?_, fun _ _ => trivial⟩
    rintro tmpbuf ⟨-, hl⟩
    have hl : l = s.2 ++ [_] := hl
    rw [hl]
    refine ⟨h.dev, h.first.append _, ?_⟩
    rw [← h.parsed]
    simp [parsedBuffers, Event.parsed?]
  msg h _ htimeout _ := wp_usbControlMsg_sized h hP htimeout
  texts _ _ _ _ _ h := h.setDev hP ⟨rfl, rfl, rfl, rfl, rfl⟩

/-- The first read of the device descriptor decides about both sizes. -/
theorem wp_scanDefault_sized {s' : σ} {tmpbuf : Bytes 512} (hconfig : (u.usbDev dev).config = .zero)
    (hl : s.2 = [⟨s', .stack 512, .ok tmpbuf⟩])
    : wp (deviceWorld σ fits).traced (scanDefault dev tmpbuf)
        (fun r v t => r.1 < 0 ∨ ∃ b,
          Sized (SizesAre (packetSize b packetSize64) (fun _ => b.toNat) .zero) dev b [] v t)
        (fun _ _ => True) u s := by
  unfold scanDefault usbGetDescriptor
  rw [wp_bind, wp_modifyDev, wp_bind, wp_bind, wp_getDev]
  apply wp_usbControlMsg_event _ rfl (by decide)
  . intro y t hy
    have hy : y.Allowed _ := hy
    dsimp only
    split
    . exact .inl (by decide : (-1 : Int) < 0)
    . have hsizes := (Usb.afterTransfer_answered hy).sameSizes
      rw [Usb.setDev_same] at hsizes
      generalize hb : (tmpbuf.write 0 y.data) 7 = b
      generalize Usb.answered _ _ _ y = v at hsizes
      have hP : AboutSizes fun d =>
          d.bMaxPacketSize0 = b ∧ d.maxpacketsize = packetSize64 ∧ d.config = .zero := by
        rintro d d' hd ⟨h1, h2, h3⟩
        unfold UsbDevice.bMaxPacketSize0
        rw [hd.descriptor, hd.maxpacketsize, hd.config]
        exact ⟨h1, h2, h3⟩
      rw [wp_bind, wp_modifyDev, wp_bind]
      refine wp_post (wp_resetParentPort (I := Sized _ dev b []) (fun _ => frame_sized hP _)
        (fun _ => trivial) ⟨?_, ?_, ?_⟩) ?_
      . rw [Usb.setDev_same]
        refine ⟨?_, hsizes.maxpacketsize, hsizes.config.trans hconfig⟩
        show (v.usbDev dev).descriptor.write 7 [b] 7 = [b][0]
        exact Bytes.write_apply _ _ rfl
      . rw [hl]
        exact .mk rfl hb.symm
      . rw [hl]
        rfl
      . rintro err v t h
        split
        . exact .inl (by decide : (-1 : Int) < 0)
        . obtain ⟨hfirst, hsize, hconfig⟩ := h.dev
          rw [wp_bind, wp_modifyDev, hfirst, hsize]
          refine .inr ⟨b, h.setSelf ⟨rfl, fun isIn => ?_, hconfig⟩⟩
          cases isIn <;> simp [UsbDevice.maxPacketSize]
  . exact fun _ _ _ => trivial

theorem wp_usbGetDescriptor_sized (h : Sized P dev b parsed u s) (hP : AboutSizes P) {type index : Byte}
    {buf : Buffer} {size : Nat}
    : wp (deviceWorld σ fits).traced (usbGetDescriptor dev type index buf size)
        (fun _ v t => Sized P dev b parsed v t) (fun _ _ => True) u s := by
  unfold usbGetDescriptor
  rw [wp_bind, wp_getDev]
  exact wp_post (wp_usbControlMsg_sized h hP (by decide)) fun _ _ _ h => h.1

theorem wp_usbSetAddress_sized (h : Sized P dev b parsed u s) (hP : AboutSizes P)
    : wp (deviceWorld σ fits).traced (usbSetAddress dev) (fun _ v t => Sized P dev b parsed v t)
        (fun _ _ => True) u s := by
  unfold usbSetAddress
  rw [wp_bind, wp_getDev, wp_bind]
  exact wp_post (wp_usbControlMsg_sized h hP (by decide)) fun _ _ _ h => h.1

theorem configEndpoints_parsedConfig {buffer : Bytes 512} {ret : Int} {c : Bytes 1002}
    (hfits : ConfigFits buffer) (h : parseConfig strictMem buffer .zero = .ok (ret, c))
    : configEndpoints strictMem (parsedConfig buffer) = .ok (visitedEndpoints buffer) := by
  have hc : parsedConfig buffer = c := by
    unfold parsedConfig
    rw [h]
  unfold visitedEndpoints
  rw [hc]
  by_cases htype : buffer.byte 1 = usbDtConfig
  . obtain ⟨-, t, s, hwalk, hends, hcounts, rfl⟩ := parseConfig_counts hfits htype h
    have hannounces := (hfits htype).2 _ _ hwalk
    rw [if_pos hends] at hannounces
    rw [hcounts.configEndpoints_eq, if_pos hannounces]
  . unfold parseConfig at h
    rw [parseHeader_none _ _ htype] at h
    cases h
    rw [configEndpoints_strict, if_pos]
    simp

theorem wp_usbParseConfig_sized {x : Int} {sizes : Bool → Int}
    (h : Sized (SizesAre x sizes .zero) dev b parsed u s) (buffer : Bytes 512)
    : wp (deviceWorld σ ConfigFits).traced (usbParseConfig dev buffer 0)
        (fun _ v t => Sized (SizesAre x sizes (parsedConfig buffer)) dev b (parsed ++ [buffer]) v t ∧
          configEndpoints strictMem (parsedConfig buffer) = .ok (visitedEndpoints buffer))
        (fun _ _ => True) u s := by
  apply wp_usbParseConfig_fits h.dev.config
  rintro ⟨t, l⟩
  refine ⟨?_, fun _ _ => trivial⟩
  rintro _ ⟨hfits, hl⟩
  have hfits : ConfigFits buffer := hfits
  have hl : l = s.2 ++ [_] := hl
  refine ⟨rfl, hfits, fun _ => trivial, fun ret c hstrict => ?_⟩
  refine ⟨⟨?_, ?_, ?_⟩, configEndpoints_parsedConfig hfits hstrict⟩
  . rw [Usb.setDev_same]
    refine ⟨h.dev.encoded, h.dev.noted, ?_⟩
    unfold parsedConfig
    rw [hstrict]
    rfl
  . rw [hl]
    exact h.first.append _
  . rw [hl, ← h.parsed]
    simp [parsedBuffers, Event.parsed?]

/-- What `usb_set_maxpacket` makes of the sizes. -/
structure SizesCounted (b : Byte) (buffer : Bytes 512) (d : UsbDevice) : Prop where
  encoded : d.maxpacketsize = packetSize b packetSize64
  noted : ∀ isIn, ∃ m : Nat, (countedSizes isIn b (visitedEndpoints buffer)).maximum = m ∧
    d.maxPacketSize 0 isIn = m

theorem aboutSizes_sizesCounted {buffer : Bytes 512} : AboutSizes (SizesCounted b buffer) := by
  intro d d' hd h
  constructor
  . rw [hd.maxpacketsize, h.encoded]
  . intro isIn
    obtain ⟨m, hm, hnoted⟩ := h.noted isIn
    refine ⟨m, hm, ?_⟩
    rw [← hnoted]
    unfold UsbDevice.maxPacketSize
    rw [hd.epmaxpacketin, hd.epmaxpacketout]

theorem SizesCounted.agree_iff {buffer : Bytes 512} {d : UsbDevice} (h : SizesCounted b buffer d)
    : SizesAgree d ↔ SizesFit b buffer := by
  have hsize : IsPacketSize d.maxpacketsize := by
    rw [h.encoded]
    exact isPacketSize_packetSize b (by decide)
  rw [sizesAgree_iff hsize, h.encoded]
  apply forall_congr'
  intro isIn
  obtain ⟨m, hm, hnoted⟩ := h.noted isIn
  rw [hm, hnoted]
  exact Int.ofNat_inj.trans WithBot.coe_inj.symm

theorem wp_usbSetMaxpacket_sized {buffer : Bytes 512}
    (h : Sized (SizesAre (packetSize b packetSize64) (fun _ => b.toNat) (parsedConfig buffer)) dev b parsed
      u s)
    (hvisited : configEndpoints strictMem (parsedConfig buffer) = .ok (visitedEndpoints buffer))
    : wp (deviceWorld σ fits).traced (usbSetMaxpacket dev)
        (fun _ v t => Sized (SizesCounted b buffer) dev b parsed v t) (fun _ _ => True) u s := by
  apply wp_usbSetMaxpacket_ok (h.dev.config.symm ▸ hvisited)
  refine h.setSelf ⟨?_, fun isIn => ?_⟩
  . obtain ⟨epin, epout, hfold, -⟩ := foldl_usbSetMaxpacketEp (u.usbDev dev) (wMaxPacketSize_lt hvisited)
    rw [hfold]
    exact h.dev.encoded
  . exact maxPacketSize_foldl _ (List.maximum_singleton _) (h.dev.noted isIn)

theorem wp_usbSetConfiguration_sized (h : Sized P dev b parsed u s) (hP : AboutSizes P) (value : Byte)
    : wp (deviceWorld σ fits).traced (usbSetConfiguration dev value)
        (fun _ v t => Sized P dev b parsed v t) (fun _ _ => True) u s := by
  apply wp_usbSetConfiguration
  . exact wp_post (wp_usbControlMsg_sized h hP (by decide)) fun _ _ _ h => h.1
  . exact fun h => h.setDev hP ⟨rfl, rfl, rfl, rfl, rfl⟩

theorem wp_scanConfiguration_sized
    (h : Sized (SizesAre (packetSize b packetSize64) (fun _ => b.toNat) .zero) dev b [] u s)
    (tmpbuf : Bytes 512)
    : wp (deviceWorld σ ConfigFits).traced (scanConfiguration dev tmpbuf)
        (fun _ v t => ∃ buffer, Sized (SizesCounted b buffer) dev b [buffer] v t)
        (fun _ _ => True) u s := by
  unfold scanConfiguration
  rw [wp_bind]
  refine wp_post (wp_usbGetConfigurationNo (fun h => wp_usbGetDescriptor_sized h aboutSizes_sizesAre) h
    tmpbuf 0) ?_
  rintro ⟨_, buffer⟩ v t h
  dsimp only
  rw [wp_bind]
  refine wp_post (wp_usbParseConfig_sized h buffer) ?_
  rintro _ v t ⟨h, hvisited⟩
  rw [wp_bind]
  refine wp_post (wp_usbSetMaxpacket_sized h hvisited) fun _ v t h => ?_
  rw [wp_bind, wp_getDev, wp_bind]
  refine wp_post (wp_usbSetConfiguration_sized h aboutSizes_sizesCounted _) fun err v t h => ?_
  split
  . exact ⟨buffer, h⟩
  . rw [wp_bind]
    exact wp_post ((frame_sized aboutSizes_sizesCounted dev).scansStrings h) fun _ _ _ h => ⟨buffer, h⟩

theorem wp_usbScanDevice_sized {s' : σ} (hconfig : (u.usbDev dev).config = .zero)
    : wp (deviceWorld σ ConfigFits).traced (usbScanDevice dev)
        (fun r v t => r = 0 → ∃ b buffer, Sized (SizesCounted b buffer) dev b [buffer] v t)
        (fun _ _ => True) u (s', []) := by
  have hfail : ∀ Q : Prop, (-1 : Int) = 0 → Q := fun _ h => absurd h (by decide)
  unfold usbScanDevice
  have hstack : wp (deviceWorld σ ConfigFits).traced (Stateful.ask (HcdOp.stack 512))
      (fun tmpbuf v t => v = u ∧ t.2 = [⟨s', .stack 512, .ok tmpbuf⟩]) (fun _ _ => True) u (s', []) :=
    fun _ => ⟨fun _ h => ⟨rfl, h.2⟩, fun _ _ => trivial⟩
  rw [wp_bind]
  refine wp_post hstack ?_
  rintro tmpbuf _ t ⟨rfl, hl⟩
  rw [wp_bind, wp_getDev, wp_bind, wp_modifyDev, wp_bind]
  refine wp_post (wp_scanDefault_sized ?_ hl) ?_
  . rw [Usb.setDev_same]
    exact hconfig
  . rintro ⟨err, tmpbuf⟩ v t h
    dsimp only at h ⊢
    split
    . exact hfail _
    . next herr =>
      obtain ⟨b, h⟩ := h.resolve_left herr
      rw [wp_bind, wp_modifyDev, wp_bind]
      refine wp_post (wp_usbSetAddress_sized (h.setDev aboutSizes_sizesAre ⟨rfl, rfl, rfl, rfl, rfl⟩)
        aboutSizes_sizesAre) fun err v t h => ?_
      split
      . exact hfail _
      . rw [wp_bind]
        refine wp_post (wp_usbGetDescriptor_sized h aboutSizes_sizesAre) ?_
        rintro ⟨err, bytes⟩ v t h
        rw [wp_bind, wp_modifyDev]
        dsimp only
        split
        . exact hfail _
        . refine wp_post (wp_scanConfiguration_sized (h.setSelf ?_) tmpbuf) fun _ _ _ h _ => ⟨b, h⟩
          exact ⟨h.dev.encoded, h.dev.noted, h.dev.config⟩

end

/--
Whatever the device answers, when `usb_scan_device` returns 0 for a device that was just allocated,
the packet sizes of its endpoint 0 agree if and only if the device described them consistently.
-/
theorem usbScanDevice_sizesAgree_iff {σ : Type} {dev : Fin 32} {u v : Usb} {s t : σ}
    {l : List (HcdEvent σ)} (hnew : (u.usbDev dev).config = .zero)
    (hrun : (usbScanDevice dev).Run (deviceWorld σ ConfigFits).traced u (s, []) (.ok (0, v)) (t, l))
    : SizesAgree (v.usbDev dev) ↔ DescribesSizes l := by
  obtain ⟨b, buffer, h⟩ := wp_run (wp_usbScanDevice_sized hnew) hrun rfl
  rw [h.dev.agree_iff]
  constructor
  . exact fun hfit => .mk h.first h.parsed hfit
  . rintro ⟨hfirst, hparsed, hfit⟩
    cases hfirst.eq h.first
    cases hparsed.symm.trans h.parsed
    exact hfit

theorem usbScanDevice_sizesAgree_iff_hub
    : ∃ (v : Usb) (t : Bool) (l : List (HcdEvent Bool)),
        (usbScanDevice 1).Run (deviceWorld Bool ConfigFits).traced attachedUsb (false, [])
          (.ok (0, v)) (t, l) ∧
        SizesAgree (v.usbDev 1) ∧ DescribesSizes l := by
  obtain ⟨r, v, ⟨t, l⟩, hr, hp⟩ :=
    exists_run_of_check
      (World.tracedHandler_offers
        (plainHandler_offers true hubConfig fun _ h => h.resolve_left (by decide)))
      (m := usbScanDevice 1) (u := attachedUsb) (s := (false, []))
      (p := fun r v _ => r = 0 ∧ IsPacketSize (v.usbDev 1).maxpacketsize ∧
        ∀ isIn, (v.usbDev 1).maxPacketSize 0 isIn = packetBytes (v.usbDev 1).maxpacketsize)
      (by decide +kernel)
  obtain ⟨rfl, hsize, hnoted⟩ := of_decide_eq_true hp
  have hagree : SizesAgree (v.usbDev 1) := (sizesAgree_iff hsize).mpr hnoted
  exact ⟨v, t, l, hr, hagree, (usbScanDevice_sizesAgree_iff rfl hr).mp hagree⟩

/-- A configuration with a descriptor for endpoint 0, which has 8 bytes there. -/
def controlConfig : List Byte :=
  [9, 2, 25, 0, 1, 1, 0, 0xc0, 0, 9, 4, 0, 0, 1, 0, 0, 0, 0, 7, 5, 0, 0, 8, 0, 0]

/-- The device said 64 bytes before, and its pipes encode that. -/
theorem controlConfig_not_sizesAgree
    : ¬∀ (dev : Fin 32) (u v : Usb) (s t : Bool) (l : List (HcdEvent Bool)),
        (u.usbDev dev).config = .zero →
        (usbScanDevice dev).Run (deviceWorld Bool ConfigFits).traced u (s, []) (.ok (0, v)) (t, l) →
        SizesAgree (v.usbDev dev) := by
  intro h
  obtain ⟨r, v, ⟨t, l⟩, hr, hp⟩ :=
    exists_run_of_check
      (World.tracedHandler_offers
        (plainHandler_offers true controlConfig fun _ h => h.resolve_left (by decide)))
      (m := usbScanDevice 1) (u := attachedUsb) (s := (false, []))
      (p := fun r v _ => r = 0 ∧ (v.usbDev 1).epmaxpacketin 0 = 8 ∧ (v.usbDev 1).maxpacketsize = 3)
      (by decide +kernel)
  obtain ⟨rfl, hnoted, hencoded⟩ := of_decide_eq_true hp
  have hagree := (h 1 attachedUsb v false t l rfl hr).sizeIn
  rw [hnoted, hencoded] at hagree
  exact absurd hagree (by decide)
