import PureUsb.PacketSizes
import PureUsb.Usb.Lemmas.Configuration
import PureUsb.Usb.Lemmas.Pipe

/-!
This module contains the enumeration of devices that answer every request the way they have to: it
succeeds, and the driver knows what the device said.
-/

open Stateful

/-!
### Devices that comply
-/

/-- What a device says about itself. -/
structure Described where
  descriptor : Bytes 18
  config : Configuration
  length : descriptor 0 = 18
  type : descriptor 1 = usbDtDevice
  size : (descriptor 7).toNat ∈ [8, 16, 32, 64]

/-- The bytes that it has for a request, as far as that is determined. -/
def Described.available (D : Described) (setup : DevRequest) : Option (List Byte) :=
  if setup.requesttype = usbDirIn ∧ setup.request = usbReqGetDescriptor then
    if setup.value = 0x0100 then some (List.ofFn D.descriptor)
    else if setup.value = 0x0200 then some D.config.bytes
    else none
  else if setup.requesttype = 0 then some []
  else none

/-- The transfer succeeds with as many of the available bytes as fit. -/
structure Transfer.Succeeds (x : Transfer) (available : List Byte) (y : Submitted) : Prop where
  allowed : y.Allowed x
  ret : 0 ≤ y.ret
  status : y.dev.status = 0
  data : y.data = available.take x.length
  actLen : y.dev.actLen = y.data.length

def DevRequest.SetsAddress (setup : DevRequest) : Prop :=
  setup.requesttype = 0 ∧ setup.request = usbReqSetAddress

instance (setup : DevRequest) : Decidable setup.SetsAddress := inferInstanceAs (Decidable (_ ∧ _))

/-- The device answers the request `setup` and has the address `address'` afterwards. -/
def Described.Answers (D : Described) (setup : DevRequest) (x : Transfer) (address : BitVec 16)
    (y : Submitted) (address' : BitVec 16) : Prop :=
  (∃ available, x.Succeeds available y ∧ ∀ l ∈ D.available setup, available = l) ∧
  address' = if setup.SetsAddress then setup.value else address

/-- The status of a port behind which there is a device that is enabled. -/
def PortEnabled (portsts : Bytes 4) : Prop :=
  portStatus portsts &&& usbPortStatConnection ≠ 0 ∧ portStatus portsts &&& usbPortStatEnable ≠ 0

instance (portsts : Bytes 4) : Decidable (PortEnabled portsts) := inferInstanceAs (Decidable (_ ∧ _))

/-- This device was there all the time. -/
def PortStable (portsts : Bytes 4) : Prop := portChange portsts &&& usbPortStatCConnection = 0

instance (portsts : Bytes 4) : Decidable (PortStable portsts) := inferInstanceAs (Decidable (_ = _))

/-- The hub answers the request `setup`. A reset of the port sets the address back. -/
def HubAnswers (reports : Bytes 4 → Prop) (setup : DevRequest) (x : Transfer) (address : BitVec 16)
    (y : Submitted) (address' : BitVec 16) : Prop :=
  (∃ available, x.Succeeds available y ∧
    (setup.requesttype = (usbDirIn ||| usbRtPort) ∧ setup.request = usbReqGetStatus →
      ∃ portsts, available = List.ofFn portsts ∧ reports portsts)) ∧
  address' = if setup.requesttype = usbRtPort ∧ setup.request = usbReqSetFeature ∧
    setup.value = usbPortFeatReset then 0 else address

/--
The bus with the device `D`, whose structure is in slot `dev`. It listens to the address that is the
state of the world. Its hub reports on its port what satisfies `reports`.
-/
def compliantWorld (D : Described) (dev : Fin 32) (reports : Bytes 4 → Prop) : HcdWorld (BitVec 16) :=
  fun o address r address' =>
    match o, r with
    | .submit x, .ok y =>
      y.Allowed x ∧
      ∀ setup ∈ x.setup,
        if x.dev ≠ dev then HubAnswers reports setup x address y address'
        else if (usbPipedevice x.pipe).toNat = address.toNat then D.Answers setup x address y address'
        else address' = address
    | .stack _, .ok _ => address' = address
    | .parsing _ _, .ok _ => address' = address
    | .copyingHub _ _, .ok _ => address' = address
    | _, .error _ => False

/-- There is no parent, or `dev` is behind one of its ports. -/
def BehindPort (dev : Fin 32) (u : Usb) : Prop :=
  (u.usbDev dev).parent = .null ∨ ∃ p port, (u.usbDev dev).parent = .dev p ∧ p ≠ dev ∧
    (u.usbDev p).children port = .dev dev ∧ ((port : Nat) : Int) < (u.usbDev p).maxchild

theorem BehindPort.of_eq {dev : Fin 32} {u v : Usb} (h : BehindPort dev u)
    (hparent : (v.usbDev dev).parent = (u.usbDev dev).parent) (hother : ∀ k ≠ dev, v.usbDev k = u.usbDev k)
    : BehindPort dev v := by
  rcases h with hnull | ⟨p, port, hp, hne, hport, hlt⟩
  . exact .inl (hparent.trans hnull)
  . refine .inr ⟨p, port, hparent.trans hp, hne, ?_, ?_⟩
    . rw [hother p hne]
      exact hport
    . rw [hother p hne]
      exact hlt

/-- The slot `dev` was just allocated, for a device behind a port of its parent, if there is one. -/
structure FreshSlot (dev : Fin 32) (u : Usb) : Prop where
  devnum : (u.usbDev dev).devnum = (dev : Int) + 1
  config : (u.usbDev dev).config = .zero
  speed : 0 ≤ (u.usbDev dev).speed ∧ (u.usbDev dev).speed ≤ 2
  parent : BehindPort dev u

/-- The driver knows the device, which listens to `address`. -/
structure Enumerated (D : Described) (dev : Fin 32) (d : UsbDevice) (address : BitVec 16) : Prop where
  devnum : d.devnum = (dev : Int) + 1
  address : (address.toNat : Int) = d.devnum
  descriptor : d.descriptor = D.descriptor
  config : ∀ {o b}, D.config.header[o]? = some b → d.config.byte o = b
  size : (∀ ep ∈ D.config.endpoints, ep.bEndpointAddress &&& 0x0f ≠ 0) →
    ∀ isIn, d.maxPacketSize 0 isIn = (D.descriptor 7).toNat
  toggle : ∀ out ep, ep ≠ 0 → (d.toggle out).getLsbD ep = false

/-!
### Requests
-/

/-- What requests to a device leave as it was. -/
structure UsbDevice.Kept (d d' : UsbDevice) : Prop where
  sizes : d.SameSizes d'
  devnum : d'.devnum = d.devnum
  speed : d'.speed = d.speed ∨ d'.speed = usbSpeedHigh
  toggle : ∀ out ep, ep ≠ 0 → (d'.toggle out).getLsbD ep = (d.toggle out).getLsbD ep

theorem UsbDevice.AfterTransfer.kept {pipe : BitVec 32} {d d' : UsbDevice} (h : d.AfterTransfer pipe d')
    (hpipe : usbPipeendpoint pipe = 0)
    : d.Kept d' where
  sizes := h.sameSizes
  devnum := h.sameLinks.devnum
  speed := h.speed
  toggle out ep hep := h.toggle out ep (by rw [hpipe]; exact hep)

theorem UsbDevice.Kept.pipeFits {d d' : UsbDevice} (h : d.Kept d') (hd : d.PipeFits) : d'.PipeFits := by
  constructor
  . rw [h.sizes.maxpacketsize]
    exact hd.packetSize
  . rcases h.speed with hspeed | hspeed
    . rw [hspeed]
      exact hd.speed
    . rw [hspeed]
      decide

/-- The pipes to endpoint 0 lead to the device `num`. -/
structure UsbDevice.Reaches (num : Nat) (d : UsbDevice) : Prop where
  fits : d.PipeFits
  devnum : d.devnum = num
  lt : num < 128

theorem UsbDevice.Kept.reaches {d d' : UsbDevice} {num : Nat} (h : d.Kept d') (hd : d.Reaches num)
    : d'.Reaches num :=
  ⟨h.pipeFits hd.fits, h.devnum.trans hd.devnum, hd.lt⟩

def AboutKept (P : UsbDevice → Prop) : Prop := ∀ {d d'}, d.Kept d' → P d → P d'

/-- `P` holds of `dev`, and the device listens to the address that is in its structure. -/
structure OnBus (num : Nat) (P : UsbDevice → Prop) (dev : Fin 32) (u : Usb) (s : BitVec 16) : Prop where
  reaches : (u.usbDev dev).Reaches num
  dev : P (u.usbDev dev)
  address : s.toNat = num

section

variable {D : Described} {reports : Bytes 4 → Prop} {num : Nat} {P : UsbDevice → Prop} {dev : Fin 32}
variable {u : Usb} {s : BitVec 16}

theorem wp_usbControlMsg_compliant {setup : DevRequest} {pipe : BitVec 32} {request requesttype : Byte}
    {value index size : BitVec 16} {data : Buffer} {timeout : Nat} {Q : Int × List Byte → Usb → BitVec 16 → Prop}
    (hsetup : setup = ⟨requesttype, request, value, index, size⟩) (htimeout : timeout ≠ 0)
    (hdevice : (usbPipedevice pipe).toNat = s.toNat)
    (hQ : ∀ available v, (∀ l ∈ D.available setup, available = l) →
      ({ u.usbDev dev with status := usbStNotProc }).AfterTransfer pipe (v.usbDev dev) →
      (∀ k ≠ dev, v.usbDev k = u.usbDev k) →
      Q ((available.take size.toNat).length, available.take size.toNat) v
        (if setup.SetsAddress then value else s))
    : wp (compliantWorld D dev reports)
        (usbControlMsg dev pipe request requesttype value index data size timeout) Q (fun _ _ => False) u s := by
  subst hsetup
  rw [wp_usbControlMsg htimeout]
  intro setup x t
  refine ⟨?_, fun _ hf => hf⟩
  intro y hy
  obtain ⟨hallowed, hy⟩ : y.Allowed x ∧ _ := hy
  have hanswer := hy setup rfl
  rw [if_neg (not_not.mpr rfl), if_pos hdevice] at hanswer
  obtain ⟨⟨available, hsucceeds, havailable⟩, ht⟩ := hanswer
  have hresult : y.result = (available.take size.toNat).length := by
    unfold Submitted.result
    rw [if_neg (by have := hsucceeds.ret; omega), if_neg (not_not.mpr hsucceeds.status), hsucceeds.actLen,
      hsucceeds.data]
  rw [hresult, hsucceeds.data, ht]
  exact hQ available _ havailable (Usb.afterTransfer_answered hallowed) fun k hk => Usb.answered_ne hk

theorem UsbDevice.kept_status (d : UsbDevice) (status : BitVec 32) : d.Kept { d with status } :=
  ⟨⟨rfl, rfl, rfl, rfl, rfl⟩, rfl, .inl rfl, fun _ _ _ => rfl⟩

theorem UsbDevice.Kept.trans {d d' d'' : UsbDevice} (h : d.Kept d') (h' : d'.Kept d'') : d.Kept d'' where
  sizes := by
    constructor
    . rw [h'.sizes.descriptor, h.sizes.descriptor]
    . rw [h'.sizes.maxpacketsize, h.sizes.maxpacketsize]
    . rw [h'.sizes.epmaxpacketin, h.sizes.epmaxpacketin]
    . rw [h'.sizes.epmaxpacketout, h.sizes.epmaxpacketout]
    . rw [h'.sizes.config, h.sizes.config]
  devnum := h'.devnum.trans h.devnum
  speed := by
    rcases h'.speed with hspeed | hspeed
    . rw [hspeed]
      exact h.speed
    . exact .inr hspeed
  toggle out ep hep := (h'.toggle out ep hep).trans (h.toggle out ep hep)

theorem wp_usbControlMsg_onBus (h : OnBus num P dev u s) (hP : AboutKept P) {setup : DevRequest}
    {pipe : BitVec 32} {request requesttype : Byte} {value index size : BitVec 16} {data : Buffer}
    {timeout : Nat} (hsetup : setup = ⟨requesttype, request, value, index, size⟩) (htimeout : timeout ≠ 0)
    (hpipe : (u.usbDev dev).Addresses pipe) (haddress : ¬setup.SetsAddress)
    : wp (compliantWorld D dev reports)
        (usbControlMsg dev pipe request requesttype value index data size timeout)
        (fun r v t => OnBus num P dev v t ∧ r.1 = r.2.length ∧
          ∃ available, (∀ l ∈ D.available setup, available = l) ∧ r.2 = available.take size.toNat)
        (fun _ _ => False) u s := by
  have hlt := h.reaches.lt
  have hnum := h.reaches.devnum
  have hrange : 0 ≤ (u.usbDev dev).devnum ∧ (u.usbDev dev).devnum < 128 := by omega
  have hdevice := hpipe.device h.reaches.fits hrange
  have hendpoint := (hpipe.controlPipe h.reaches.fits hrange).endpoint
  apply wp_usbControlMsg_compliant hsetup htimeout
  . rw [h.address]
    omega
  . intro available v havailable hv _
    have hkept := ((u.usbDev dev).kept_status usbStNotProc).trans (hv.kept hendpoint)
    rw [if_neg haddress]
    exact ⟨⟨hkept.reaches h.reaches, hP hkept h.dev, h.address⟩, rfl, available, havailable, rfl⟩

theorem OnBus.setSelf {P' : UsbDevice → Prop} (h : OnBus num P dev u s) {d : UsbDevice}
    (hreaches : d.Reaches num) (hd : P' d)
    : OnBus num P' dev (u.setDev dev d) s := by
  refine ⟨?_, ?_, h.address⟩
  . rw [Usb.setDev_same]
    exact hreaches
  . rw [Usb.setDev_same]
    exact hd

theorem frame_onBus (hP : AboutKept P)
    (htexts : ∀ {d : UsbDevice} mf prod serial haveLangid stringLangid, P d →
      P (d.withTexts mf prod serial haveLangid stringLangid))
    : Frame (compliantWorld D dev reports) (OnBus num P dev) (fun _ _ => False) dev where
  stack {u s n} h := by
    intro t
    refine ⟨?_, fun _ hf => hf⟩
    intro b ht
    have ht : t = s := ht
    rw [ht]
    exact h
  msg {u s pipe request requesttype value index data size timeout} h hpipe htimeout hroutine := by
    refine wp_post (wp_usbControlMsg_onBus h hP rfl htimeout hpipe fun hf => hroutine.1 hf.1) ?_
    rintro r v t ⟨h, hlen, available, -, hdata⟩
    refine ⟨h, ?_⟩
    rw [hlen, hdata, List.length_take]
    omega
  texts mf prod serial haveLangid stringLangid h :=
    h.setSelf ⟨⟨h.reaches.fits.packetSize, h.reaches.fits.speed⟩, h.reaches.devnum, h.reaches.lt⟩
      (htexts mf prod serial haveLangid stringLangid h.dev)

theorem wp_usbGetDescriptor_onBus (h : OnBus num P dev u s) (hP : AboutKept P) {type index : Byte}
    {buf : Buffer} {size : Nat} {l : List Byte} (hsize : size < 65536)
    (hl : D.available ⟨usbDirIn, usbReqGetDescriptor, (type.setWidth 16 <<< 8) + index.setWidth 16, 0,
      BitVec.ofNat 16 size⟩ = some l)
    : wp (compliantWorld D dev reports) (usbGetDescriptor dev type index buf size)
        (fun r v t => OnBus num P dev v t ∧ r.1 = r.2.length ∧ r.2 = l.take size)
        (fun _ _ => False) u s := by
  unfold usbGetDescriptor
  rw [wp_bind, wp_getDev]
  refine wp_post (wp_usbControlMsg_onBus h hP rfl (by decide) .rcv ?_) ?_
  . exact fun hf => absurd hf.1 (show usbDirIn ≠ 0 by decide)
  rintro r v t ⟨h, hlen, available, havailable, hdata⟩
  rw [havailable l hl, BitVec.toNat_ofNat, Nat.mod_eq_of_lt hsize] at hdata
  exact ⟨h, hlen, hdata⟩

theorem wp_usbGetConfigurationNo_onBus (h : OnBus num P dev u s) (hP : AboutKept P) (tmpbuf : Bytes 512)
    : wp (compliantWorld D dev reports) (usbGetConfigurationNo dev tmpbuf 0)
        (fun r v t => OnBus num P dev v t ∧ r.2.StartsWith D.config) (fun _ _ => False) u s := by
  have hle := D.config.totalLength_le
  have hlength := D.config.length_bytes
  have hfirst : D.config.bytes.take 9 = D.config.header := rfl
  unfold usbGetConfigurationNo
  rw [wp_bind]
  refine wp_post (wp_usbGetDescriptor_onBus h hP (by decide) rfl) ?_
  rintro ⟨result, bytes⟩ v t ⟨h, hresult, hbytes⟩
  dsimp only at hresult hbytes ⊢
  rw [hfirst] at hbytes
  subst hbytes
  have hnine : ¬result < 9 := by
    rw [hresult]
    exact Int.lt_irrefl 9
  have htotal : le16 ((tmpbuf.write 0 D.config.header) 2) ((tmpbuf.write 0 D.config.header) 3) =
      D.config.totalLength := by
    rw [Bytes.write_apply (l := D.config.header) (j := 2) tmpbuf (show 2 < 9 by decide) rfl,
      Bytes.write_apply (l := D.config.header) (j := 3) tmpbuf (show 3 < 9 by decide) rfl]
    exact le16_ofNat (by omega)
  have hfits : ¬D.config.totalLength > usbBufsiz := Nat.not_lt.mpr hle
  rw [if_neg hnine, htotal, if_neg hfits, wp_bind]
  refine wp_post (wp_usbGetDescriptor_onBus h hP (by omega) rfl) ?_
  rintro ⟨result, bytes⟩ v t ⟨h, -, hbytes⟩
  dsimp only at hbytes ⊢
  rw [List.take_of_length_le (Nat.le_of_eq hlength)] at hbytes
  subst hbytes
  refine ⟨h, ?_⟩
  intro j b hb
  obtain ⟨hj, rfl⟩ := List.getElem?_eq_some_iff.mp hb
  have hin : 0 + j < 512 := by omega
  have hbyte := Bytes.byte_write (tmpbuf.write 0 D.config.header) D.config.bytes hj hin
  rwa [Nat.zero_add] at hbyte

/-!
### The hub
-/

theorem wp_usbControlMsg_hub {p : Fin 32} (hp : p ≠ dev) {pipe : BitVec 32}
    {request requesttype : Byte} {value index size : BitVec 16} {data : Buffer} {timeout : Nat}
    (htimeout : timeout ≠ 0)
    : wp (compliantWorld D dev reports)
        (usbControlMsg p pipe request requesttype value index data size timeout)
        (fun r v t => v.usbDev dev = u.usbDev dev ∧ r.1 = r.2.length ∧
          (requesttype = (usbDirIn ||| usbRtPort) ∧ request = usbReqGetStatus →
            ∃ portsts, reports portsts ∧ r.2 = (List.ofFn portsts).take size.toNat) ∧
          t = if requesttype = usbRtPort ∧ request = usbReqSetFeature ∧ value = usbPortFeatReset then 0
            else s)
        (fun _ _ => False) u s := by
  rw [wp_usbControlMsg htimeout]
  intro setup x t
  refine ⟨?_, fun _ hf => hf⟩
  intro y hy
  obtain ⟨-, hy⟩ : y.Allowed x ∧ _ := hy
  have hanswer := hy setup rfl
  rw [if_pos hp] at hanswer
  obtain ⟨⟨available, hsucceeds, hstatus⟩, ht⟩ := hanswer
  refine ⟨Usb.answered_ne hp.symm, ?_, ?_, ht⟩
  . unfold Submitted.result
    rw [if_neg (by have := hsucceeds.ret; omega), if_neg (not_not.mpr hsucceeds.status), hsucceeds.actLen]
  . intro hreq
    obtain ⟨portsts, rfl, hreports⟩ := hstatus hreq
    exact ⟨portsts, hreports, hsucceeds.data⟩

theorem Bytes.write_ofFn {n : Nat} (b b' : Bytes n) : b.write 0 (List.ofFn b') = b' := by
  funext i
  rw [Bytes.write_apply (j := i) b (by rw [List.length_ofFn]; exact i.isLt) (Nat.zero_add _).symm,
    List.getElem_ofFn]

theorem wp_usbSetPortFeature_reset {p : Fin 32} (hp : p ≠ dev) (port : Int)
    : wp (compliantWorld D dev reports) (usbSetPortFeature p port usbPortFeatReset)
        (fun _ v t => v.usbDev dev = u.usbDev dev ∧ t = 0) (fun _ _ => False) u s := by
  unfold usbSetPortFeature
  rw [wp_bind, wp_getDev, wp_bind]
  refine wp_post (wp_usbControlMsg_hub hp (by decide)) ?_
  rintro _ v t ⟨hv, -, -, ht⟩
  exact ⟨hv, ht⟩

theorem wp_usbClearPortFeature_hub {p : Fin 32} (hp : p ≠ dev) (port : Int) (feature : BitVec 16)
    : wp (compliantWorld D dev reports) (usbClearPortFeature p port feature)
        (fun _ v t => v.usbDev dev = u.usbDev dev ∧ t = s) (fun _ _ => False) u s := by
  unfold usbClearPortFeature
  rw [wp_bind, wp_getDev, wp_bind]
  refine wp_post (wp_usbControlMsg_hub hp (by decide)) ?_
  rintro _ v t ⟨hv, -, -, ht⟩
  exact ⟨hv, ht⟩

theorem wp_usbGetPortStatus_hub {p : Fin 32} (hp : p ≠ dev) (port : Int)
    : wp (compliantWorld D dev reports) (usbGetPortStatus p port)
        (fun r v t => v.usbDev dev = u.usbDev dev ∧ t = s ∧ 0 ≤ r.1 ∧
          ∃ portsts, reports portsts ∧ r.2 = List.ofFn portsts)
        (fun _ _ => False) u s := by
  unfold usbGetPortStatus
  rw [wp_bind, wp_getDev]
  refine wp_post (wp_usbControlMsg_hub hp (by decide)) ?_
  rintro r v t ⟨hv, hret, hstatus, ht⟩
  obtain ⟨portsts, hreports, hbytes⟩ := hstatus ⟨rfl, rfl⟩
  rw [List.take_of_length_le (Nat.le_of_eq List.length_ofFn)] at hbytes
  exact ⟨hv, ht, hret ▸ Int.natCast_nonneg _, portsts, hreports, hbytes⟩

theorem wp_hubPortReset_compliant {p : Fin 32} (hp : p ≠ dev) (port : Int)
    : wp (compliantWorld D dev fun portsts => PortEnabled portsts ∧ PortStable portsts) (hubPortReset p port)
        (fun r v t => r.1 = 0 ∧ v.usbDev dev = u.usbDev dev ∧ t = 0) (fun _ _ => False) u s := by
  have hstack : wp (compliantWorld D dev fun portsts => PortEnabled portsts ∧ PortStable portsts)
      (Stateful.ask (HcdOp.stack 4)) (fun _ v t => v = u ∧ t = s) (fun _ _ => False) u s :=
    fun _ => ⟨fun _ ht => ⟨rfl, ht⟩, fun _ hf => hf⟩
  unfold hubPortReset hubPortResetTries
  rw [wp_bind]
  refine wp_post hstack ?_
  rintro portsts _ _ ⟨rfl, rfl⟩
  rw [wp_bind, wp_bind]
  refine wp_post (wp_usbSetPortFeature_reset hp _) ?_
  rintro _ v t ⟨hv, ht⟩
  rw [wp_bind]
  refine wp_post (wp_usbGetPortStatus_hub hp _) ?_
  rintro ⟨ret, bytes⟩ v' t' ⟨hv', ht', hret, status, ⟨⟨hconnection, henable⟩, hstable⟩, hbytes⟩
  dsimp only at hret hbytes ⊢
  have hgood : ¬(portChange status &&& usbPortStatCConnection ≠ 0 ∨
      portStatus status &&& usbPortStatConnection = 0) :=
    not_or.mpr ⟨not_not.mpr hstable, hconnection⟩
  rw [hbytes, Bytes.write_ofFn, if_neg (Int.not_lt.mpr hret), if_neg hgood, if_pos henable, wp_pure, wp_bind]
  refine wp_post (wp_usbClearPortFeature_hub hp _ _) ?_
  rintro _ v'' t'' ⟨hv'', ht''⟩
  refine ⟨rfl, hv''.trans (hv'.trans hv), ?_⟩
  rw [ht'', ht', ht]

theorem findPort_ok {parent : UsbDevice} {dev : Fin 32} {port : Fin 8} (hport : parent.children port = .dev dev)
    {n j : Nat} (hj : j ≤ port) (hn : port < j + n)
    : ∃ k, findPort parent dev n j = .ok (some k) := by
  induction n generalizing j with
  | zero => omega
  | succ n ih =>
    unfold findPort
    have hlt : j < usbMaxchildren := Nat.lt_of_le_of_lt hj port.isLt
    rw [dif_pos hlt]
    split
    . exact ⟨j, rfl⟩
    . next hne =>
      apply ih
      . rcases Nat.lt_or_eq_of_le hj with hlt | rfl
        . exact hlt
        . exact absurd hport hne
      . omega

theorem wp_resetParentPort_compliant (hparent : BehindPort dev u)
    : wp (compliantWorld D dev fun portsts => PortEnabled portsts ∧ PortStable portsts) (resetParentPort dev)
        (fun r v t => r = 0 ∧ v.usbDev dev = u.usbDev dev ∧ t = 0) (fun _ _ => False) u 0 := by
  unfold resetParentPort
  rw [wp_bind, wp_getDev]
  rcases hparent with hnull | ⟨p, port, hparent, hp, hport, hlt⟩
  . rw [if_pos hnull]
    exact ⟨rfl, rfl, rfl⟩
  . obtain ⟨k, hk⟩ := findPort_ok hport (n := (u.usbDev p).maxchild.toNat) (Nat.zero_le _) (by omega)
    rw [hparent, if_neg (by simp), wp_bind, wp_deref_dev, wp_bind, wp_getDev, wp_bind, hk, wp_ofExcept_ok,
      wp_bind]
    refine wp_post (wp_hubPortReset_compliant hp _) ?_
    rintro ⟨err, status⟩ v t ⟨herr, hv, ht⟩
    dsimp only at herr ⊢
    rw [herr, if_neg (by decide)]
    exact ⟨rfl, hv, ht⟩

/-!
### The device
-/

theorem wp_scanDefault_compliant (hfresh : FreshSlot dev u) (tmpbuf : Bytes 512)
    : wp (compliantWorld D dev fun portsts => PortEnabled portsts ∧ PortStable portsts)
        (scanDefault dev tmpbuf)
        (fun r v t => r.1 = 0 ∧ OnBus 0 (SizesAre (packetSize (D.descriptor 7) packetSize64)
          (fun _ => (D.descriptor 7).toNat) .zero) dev v t)
        (fun _ _ => False) (u.setDev dev { u.usbDev dev with devnum := 0 }) 0 := by
  unfold scanDefault usbGetDescriptor
  rw [wp_bind, wp_modifyDev, wp_bind, wp_bind, wp_getDev]
  generalize hu : Usb.setDev (Usb.setDev u dev _) dev _ = u'
  have hdev : (u'.usbDev dev).Reaches 0 ∧ (u'.usbDev dev).maxpacketsize = packetSize64 ∧
      (u'.usbDev dev).config = .zero ∧ (u'.usbDev dev).parent = (u.usbDev dev).parent := by
    rw [← hu, Usb.setDev_same, Usb.setDev_same]
    exact ⟨⟨⟨(by decide : IsPacketSize packetSize64), hfresh.speed⟩, rfl, by decide⟩, rfl, hfresh.config, rfl⟩
  have hother : ∀ k ≠ dev, u'.usbDev k = u.usbDev k := by
    intro k hk
    rw [← hu, Usb.setDev_ne _ _ hk, Usb.setDev_ne _ _ hk]
  obtain ⟨hreaches, hsize, hconfig, hparent⟩ := hdev
  have hpipe : (u'.usbDev dev).Addresses (usbRcvctrlpipe (u'.usbDev dev) 0) := .rcv
  have hrange : 0 ≤ (u'.usbDev dev).devnum ∧ (u'.usbDev dev).devnum < 128 := by
    rw [hreaches.devnum]
    decide
  have hdevice := hpipe.device hreaches.fits hrange
  apply wp_usbControlMsg_compliant rfl (by decide)
  . have : (u'.usbDev dev).devnum = 0 := hreaches.devnum
    have : (0 : BitVec 16).toNat = 0 := rfl
    omega
  . intro available v havailable hv hv'
    have hkept := ((u'.usbDev dev).kept_status usbStNotProc).trans
      (hv.kept (hpipe.controlPipe hreaches.fits hrange).endpoint)
    have hl : available = List.ofFn D.descriptor := havailable _ rfl
    have hbyte : (tmpbuf.write 0 ((List.ofFn D.descriptor).take (BitVec.ofNat 16 64).toNat)) 7 =
        D.descriptor 7 := by
      rw [List.take_of_length_le (by rw [List.length_ofFn]; decide),
        Bytes.write_apply (j := 7) tmpbuf (by rw [List.length_ofFn]; decide) rfl, List.getElem_ofFn]
      rfl
    rw [hl, if_neg fun hf => absurd hf.1 (show usbDirIn ≠ 0 by decide)]
    dsimp only
    rw [hbyte, if_neg (Int.not_lt.mpr (Int.natCast_nonneg _)), wp_bind, wp_modifyDev, wp_bind]
    refine wp_post (wp_resetParentPort_compliant ?_) ?_
    . refine hfresh.parent.of_eq ?_ ?_
      . rw [Usb.setDev_same]
        exact hv.sameLinks.parent.trans hparent
      . intro k hk
        rw [Usb.setDev_ne _ _ hk, hv' k hk, hother k hk]
    . rintro err w t ⟨herr, hw, ht⟩
      rw [Usb.setDev_same] at hw
      have hv := hkept.reaches hreaches
      have hdev : (w.usbDev dev).Reaches 0 ∧ (w.usbDev dev).maxpacketsize = packetSize64 ∧
          (w.usbDev dev).config = .zero ∧ (w.usbDev dev).bMaxPacketSize0 = D.descriptor 7 := by
        rw [hw]
        refine ⟨⟨⟨hv.fits.packetSize, hv.fits.speed⟩, hv.devnum, hv.lt⟩, hkept.sizes.maxpacketsize.trans hsize,
          hkept.sizes.config.trans hconfig, ?_⟩
        show (v.usbDev dev).descriptor.write 7 [D.descriptor 7] 7 = [D.descriptor 7][0]
        exact Bytes.write_apply _ _ rfl
      obtain ⟨hreaches, hsize, hconfig, hfirst⟩ := hdev
      rw [herr, if_neg (by decide), wp_bind, wp_modifyDev, hfirst, hsize]
      refine ⟨rfl, ?_, ?_, ?_⟩
      . rw [Usb.setDev_same]
        exact ⟨⟨isPacketSize_packetSize _ (by decide), hreaches.fits.speed⟩, hreaches.devnum, hreaches.lt⟩
      . rw [Usb.setDev_same]
        refine ⟨rfl, ?_, hconfig⟩
        intro isIn
        cases isIn <;> simp [UsbDevice.maxPacketSize]
      . rw [ht]
        rfl

theorem wp_usbSetAddress_compliant (hreaches : (u.usbDev dev).Reaches num) (hP : AboutKept P)
    (hdev : P (u.usbDev dev))
    : wp (compliantWorld D dev reports) (usbSetAddress dev)
        (fun r v t => r = 0 ∧ OnBus num P dev v t) (fun _ _ => False) u 0 := by
  have hpipe := controlPipe_snddefctrl hreaches.fits
  have hnum : (BitVec.ofInt 16 (u.usbDev dev).devnum).toNat = num := by
    rw [hreaches.devnum, BitVec.ofInt_natCast, BitVec.toNat_ofNat]
    have := hreaches.lt
    omega
  unfold usbSetAddress
  rw [wp_bind, wp_getDev, wp_bind]
  apply wp_usbControlMsg_compliant rfl (by decide)
  . rw [hpipe.device (by decide)]
    rfl
  . intro available v _ hv _
    have hkept := ((u.usbDev dev).kept_status usbStNotProc).trans (hv.kept hpipe.endpoint)
    rw [if_pos ⟨rfl, rfl⟩]
    exact ⟨rfl, hkept.reaches hreaches, hP hkept hdev, hnum⟩

theorem AboutSizes.aboutKept (hP : AboutSizes P) : AboutKept P := fun hd h => hP hd.sizes h

/-- What the driver knows about the device before it selects the configuration. -/
structure DeviceKnown (D : Described) (d : UsbDevice) : Prop where
  descriptor : d.descriptor = D.descriptor
  config : ∀ {o b}, D.config.header[o]? = some b → d.config.byte o = b
  size : (∀ ep ∈ D.config.endpoints, ep.bEndpointAddress &&& 0x0f ≠ 0) →
    ∀ isIn, d.maxPacketSize 0 isIn = (D.descriptor 7).toNat

theorem aboutSizes_deviceKnown : AboutSizes (DeviceKnown D) := by
  intro d d' hd h
  constructor
  . rw [hd.descriptor, h.descriptor]
  . rw [hd.config]
    exact h.config
  . intro hother isIn
    rw [← h.size hother isIn]
    unfold UsbDevice.maxPacketSize
    rw [hd.epmaxpacketin, hd.epmaxpacketout]

/-- The device is known and no endpoint other than 0 has its toggle set. -/
structure DeviceReady (D : Described) (d : UsbDevice) : Prop where
  known : DeviceKnown D d
  toggle : ∀ out ep, ep ≠ 0 → (d.toggle out).getLsbD ep = false

theorem aboutKept_deviceReady : AboutKept (DeviceReady D) := by
  intro d d' hd h
  refine ⟨aboutSizes_deviceKnown hd.sizes h.known, ?_⟩
  intro out ep hep
  rw [hd.toggle out ep hep]
  exact h.toggle out ep hep

theorem wp_usbSetConfiguration_compliant (h : OnBus num (DeviceKnown D) dev u s) (value : Byte)
    : wp (compliantWorld D dev reports) (usbSetConfiguration dev value)
        (fun r v t => r = 0 ∧ OnBus num (DeviceReady D) dev v t) (fun _ _ => False) u s := by
  unfold usbSetConfiguration
  rw [wp_bind, wp_getDev, wp_bind]
  refine wp_post (wp_usbControlMsg_onBus h aboutSizes_deviceKnown.aboutKept rfl (by decide) .snd ?_) ?_
  . exact fun hf => absurd hf.2 (show usbReqSetConfiguration ≠ usbReqSetAddress by decide)
  . rintro ⟨ret, bytes⟩ v t ⟨h, hret, available, -, hbytes⟩
    dsimp only at hret hbytes ⊢
    have hzero : ret = 0 := by
      rw [hret, hbytes]
      rfl
    have hsame : (v.usbDev dev).SameSizes { v.usbDev dev with toggle := fun _ => 0 } :=
      ⟨rfl, rfl, rfl, rfl, rfl⟩
    have hknown : DeviceKnown D _ := aboutSizes_deviceKnown hsame h.dev
    rw [hzero, if_neg (by decide), if_neg (by decide), wp_bind, wp_modifyDev]
    refine ⟨rfl, h.setSelf ?_ ⟨hknown, fun _ _ _ => BitVec.getLsbD_zero⟩⟩
    exact ⟨⟨h.reaches.fits.packetSize, h.reaches.fits.speed⟩, h.reaches.devnum, h.reaches.lt⟩

/-- What is known about the device before its configuration is read. -/
structure DescriptorKnown (D : Described) (c : Bytes 1002) (d : UsbDevice) : Prop where
  descriptor : d.descriptor = D.descriptor
  config : d.config = c
  size : ∀ isIn, d.maxPacketSize 0 isIn = (D.descriptor 7).toNat

theorem aboutSizes_descriptorKnown {c : Bytes 1002} : AboutSizes (DescriptorKnown D c) := by
  intro d d' hd h
  constructor
  . rw [hd.descriptor, h.descriptor]
  . rw [hd.config, h.config]
  . intro isIn
    rw [← h.size isIn]
    unfold UsbDevice.maxPacketSize
    rw [hd.epmaxpacketin, hd.epmaxpacketout]

theorem wp_usbParseConfig_compliant (h : OnBus num (DescriptorKnown D .zero) dev u s) {buffer : Bytes 512}
    (hbuffer : buffer.StartsWith D.config)
    : wp (compliantWorld D dev reports) (usbParseConfig dev buffer 0)
        (fun _ v t => ∃ c, ParsedAs D.config c ∧ configEndpoints strictMem c = .ok D.config.endpoints ∧
          OnBus num (DescriptorKnown D c) dev v t)
        (fun _ _ => False) u s := by
  obtain ⟨hfits, c, hparse, hc⟩ := hbuffer.parsed
  have hstored : parseConfig strictMem buffer (u.usbDev dev).config = .ok (1, c) := by
    rw [h.dev.config]
    exact hparse
  apply wp_usbParseConfig_ok hstored
  intro t
  refine ⟨?_, fun _ hf => hf⟩
  intro _ ht
  have ht : t = s := ht
  rw [ht]
  have heps := configEndpoints_parsedConfig hfits hparse
  unfold visitedEndpoints parsedConfig at heps
  rw [hparse] at heps
  dsimp only at heps
  rw [hc.endpoints] at heps
  refine ⟨rfl, c, hc, heps, h.setSelf ?_ ?_⟩
  . exact ⟨⟨h.reaches.fits.packetSize, h.reaches.fits.speed⟩, h.reaches.devnum, h.reaches.lt⟩
  . exact ⟨h.dev.descriptor, rfl, h.dev.size⟩

theorem wp_usbSetMaxpacket_compliant {c : Bytes 1002} (h : OnBus num (DescriptorKnown D c) dev u s)
    (hc : ParsedAs D.config c) (heps : configEndpoints strictMem c = .ok D.config.endpoints)
    : wp (compliantWorld D dev reports) (usbSetMaxpacket dev)
        (fun _ v t => OnBus num (DeviceKnown D) dev v t) (fun _ _ => False) u s := by
  apply wp_usbSetMaxpacket_ok (h.dev.config.symm ▸ heps)
  obtain ⟨epin, epout, hfold, -⟩ := foldl_usbSetMaxpacketEp (u.usbDev dev) (wMaxPacketSize_lt heps)
  apply h.setSelf
  . rw [hfold]
    exact ⟨⟨h.reaches.fits.packetSize, h.reaches.fits.speed⟩, h.reaches.devnum, h.reaches.lt⟩
  . constructor
    . rw [hfold]
      exact h.dev.descriptor
    . rw [hfold]
      show ∀ {o b}, D.config.header[o]? = some b → (u.usbDev dev).config.byte o = b
      rw [h.dev.config]
      exact hc.header
    . intro hother isIn
      obtain ⟨m, hm, hsize⟩ := maxPacketSize_foldl D.config.endpoints
        (List.maximum_singleton (D.descriptor 7).toNat) (h.dev.size isIn)
      have hcounted : (countedSizes isIn (D.descriptor 7) D.config.endpoints).maximum = m := hm
      rw [countedSizes_eq_singleton hother, List.maximum_singleton] at hcounted
      have hm : (D.descriptor 7).toNat = m := WithBot.coe_inj.mp hcounted
      rw [hsize, hm]

theorem wp_scanConfiguration_compliant (h : OnBus num (DescriptorKnown D .zero) dev u s) (tmpbuf : Bytes 512)
    : wp (compliantWorld D dev reports) (scanConfiguration dev tmpbuf)
        (fun r v t => r = 0 ∧ OnBus num (DeviceReady D) dev v t) (fun _ _ => False) u s := by
  unfold scanConfiguration
  rw [wp_bind]
  refine wp_post (wp_usbGetConfigurationNo_onBus h aboutSizes_descriptorKnown.aboutKept tmpbuf) ?_
  rintro ⟨_, buffer⟩ v t ⟨h, hbuffer⟩
  dsimp only at hbuffer ⊢
  rw [wp_bind]
  refine wp_post (wp_usbParseConfig_compliant h hbuffer) ?_
  rintro _ v t ⟨c, hc, heps, h⟩
  rw [wp_bind]
  refine wp_post (wp_usbSetMaxpacket_compliant h hc heps) fun _ v t h => ?_
  rw [wp_bind, wp_getDev, wp_bind]
  refine wp_post (wp_usbSetConfiguration_compliant h _) ?_
  rintro err v t ⟨herr, h⟩
  rw [herr, if_neg (not_not.mpr rfl), wp_bind]
  have htexts : ∀ {d : UsbDevice} mf prod serial haveLangid stringLangid, DeviceReady D d →
      DeviceReady D (d.withTexts mf prod serial haveLangid stringLangid) :=
    fun _ _ _ _ _ hd => ⟨⟨hd.known.descriptor, hd.known.config, hd.known.size⟩, hd.toggle⟩
  exact wp_post ((frame_onBus aboutKept_deviceReady htexts).scansStrings h) fun _ _ _ h => ⟨rfl, h⟩

theorem wp_usbScanDevice_compliant (hfresh : FreshSlot dev u)
    : wp (compliantWorld D dev fun portsts => PortEnabled portsts ∧ PortStable portsts) (usbScanDevice dev)
        (fun r v t => r = 0 ∧ OnBus (dev + 1) (DeviceReady D) dev v t) (fun _ _ => False) u 0 := by
  have hstack : wp (compliantWorld D dev fun portsts => PortEnabled portsts ∧ PortStable portsts)
      (Stateful.ask (HcdOp.stack 512)) (fun _ v t => v = u ∧ t = 0) (fun _ _ => False) u 0 :=
    fun _ => ⟨fun _ ht => ⟨rfl, ht⟩, fun _ hf => hf⟩
  unfold usbScanDevice
  rw [wp_bind]
  refine wp_post hstack ?_
  rintro tmpbuf _ _ ⟨rfl, rfl⟩
  rw [wp_bind, wp_getDev, wp_bind, wp_modifyDev, wp_bind, hfresh.devnum]
  refine wp_post (wp_scanDefault_compliant hfresh tmpbuf) ?_
  rintro ⟨err, tmpbuf⟩ v t ⟨herr, h⟩
  dsimp only at herr ⊢
  rw [herr, if_neg (by decide), wp_bind, wp_modifyDev, wp_bind]
  have ht : t = 0 := BitVec.eq_of_toNat_eq h.address
  subst ht
  generalize hw : Usb.setDev v dev _ = w
  have hdev : (w.usbDev dev).Reaches (dev + 1) ∧ SizesAre (packetSize (D.descriptor 7) packetSize64)
      (fun _ => (D.descriptor 7).toNat) .zero (w.usbDev dev) := by
    rw [← hw, Usb.setDev_same]
    exact ⟨⟨⟨h.reaches.fits.packetSize, h.reaches.fits.speed⟩, rfl, by omega⟩, h.dev.encoded, h.dev.noted,
      h.dev.config⟩
  refine wp_post (wp_usbSetAddress_compliant hdev.1 aboutSizes_sizesAre.aboutKept hdev.2) ?_
  rintro err v t ⟨herr, h⟩
  rw [herr, if_neg (by decide), wp_bind]
  refine wp_post (wp_usbGetDescriptor_onBus h aboutSizes_sizesAre.aboutKept (by decide) rfl) ?_
  rintro ⟨err, bytes⟩ v t ⟨h, herr, hbytes⟩
  dsimp only at herr hbytes ⊢
  rw [List.take_of_length_le (Nat.le_of_eq List.length_ofFn)] at hbytes
  subst hbytes
  rw [List.length_ofFn] at herr
  rw [wp_bind, wp_modifyDev, herr, if_neg (by decide), Bytes.write_ofFn]
  apply wp_scanConfiguration_compliant
  apply h.setSelf
  . exact ⟨⟨h.reaches.fits.packetSize, h.reaches.fits.speed⟩, h.reaches.devnum, h.reaches.lt⟩
  . exact ⟨rfl, h.dev.config, h.dev.noted⟩

end

/-!
### Devices that comply in every run
-/

/-- One way to comply, for a hub that always reports `portsts`. -/
def compliantHandler (D : Described) (dev : Fin 32) (portsts : Bytes 4) (o : HcdOp) (address : BitVec 16)
    : Except Stop (HcdAns o) × BitVec 16 :=
  match o with
  | .submit x =>
    match x.setup with
    | none => (.ok (x.sends []), address)
    | some setup =>
      if x.dev ≠ dev then
        (.ok (x.sends (List.ofFn portsts)),
          if setup.requesttype = usbRtPort ∧ setup.request = usbReqSetFeature ∧
            setup.value = usbPortFeatReset then 0 else address)
      else if (usbPipedevice x.pipe).toNat = address.toNat then
        (.ok (x.sends ((D.available setup).getD [])), if setup.SetsAddress then setup.value else address)
      else
        (.ok x.stalls, address)
  | .stack _ => (.ok .zero, address)
  | .parsing _ _ => (.ok (), address)
  | .copyingHub _ _ => (.ok (), address)

theorem Transfer.sends_succeeds (x : Transfer) (data : List Byte) : x.Succeeds data (x.sends data) :=
  ⟨x.sends_allowed data, Int.le_refl 0, rfl, rfl, rfl⟩

theorem compliantHandler_serves {D : Described} {dev : Fin 32} {reports : Bytes 4 → Prop} {portsts : Bytes 4}
    (h : reports portsts)
    : Prog.Serves (compliantHandler D dev portsts) (compliantWorld D dev reports) := by
  intro o address
  cases o with
  | submit x =>
    unfold compliantHandler
    dsimp only
    split
    . next hnone => exact ⟨x.sends_allowed [], fun setup hsetup => by simp [hnone] at hsetup⟩
    . next setup hsome =>
      have hsetup : ∀ setup' ∈ x.setup, setup' = setup := by
        intro setup' hsetup'
        rw [hsome] at hsetup'
        cases hsetup'
        rfl
      split
      . next hp =>
        refine ⟨x.sends_allowed _, ?_⟩
        intro setup' hsetup'
        rw [hsetup setup' hsetup', if_pos hp]
        exact ⟨⟨_, x.sends_succeeds _, fun _ => ⟨portsts, rfl, h⟩⟩, rfl⟩
      . next hp =>
        split
        . next hdevice =>
          refine ⟨x.sends_allowed _, ?_⟩
          intro setup' hsetup'
          rw [hsetup setup' hsetup', if_neg hp, if_pos hdevice]
          refine ⟨⟨_, x.sends_succeeds _, fun l hl => ?_⟩, rfl⟩
          rw [Option.mem_def.mp hl]
          rfl
        . next hdevice =>
          refine ⟨x.stalls_allowed, ?_⟩
          intro setup' hsetup'
          rw [if_neg hp, if_neg hdevice]
  | stack n => rfl
  | parsing dev buffer => rfl
  | copyingHub dev buffer => rfl

/--
A device that complies is enumerated, if the second reset of its port reports that it is enabled, and
no change of the connection: some run of `usb_scan_device` ends, and all that end return 0 and leave
what the device said.
-/
theorem usbScanDevice_enumerates (D : Described) {dev : Fin 32} {u : Usb} (hfresh : FreshSlot dev u)
    : (∃ v t, (usbScanDevice dev).Run
        (compliantWorld D dev fun portsts => PortEnabled portsts ∧ PortStable portsts) u 0 (.ok (0, v)) t) ∧
      ∀ r t, (usbScanDevice dev).Run
          (compliantWorld D dev fun portsts => PortEnabled portsts ∧ PortStable portsts) u 0 r t →
        ∃ v, r = .ok (0, v) ∧ Enumerated D dev (v.usbDev dev) t := by
  have hscan := wp_usbScanDevice_compliant (D := D) hfresh
  constructor
  . have hports : ∃ portsts : Bytes 4, PortEnabled portsts ∧ PortStable portsts :=
      ⟨fun i => if i = 0 then 3 else 0, by decide⟩
    obtain ⟨portsts, hports⟩ := hports
    obtain ⟨_, v, t, hrun, rfl, -⟩ := exists_run (compliantHandler_serves hports) hscan
    exact ⟨v, t, hrun⟩
  . intro r t hrun
    match r with
    | .error e => exact absurd (wp_run_error hscan hrun) id
    | .ok (a, v) =>
      obtain ⟨rfl, h⟩ := wp_run hscan hrun
      have haddress : (t.toNat : Int) = (v.usbDev dev).devnum := by
        rw [h.address, h.reaches.devnum]
      exact ⟨v, rfl, h.reaches.devnum, haddress, h.dev.known.descriptor, h.dev.known.config, h.dev.known.size,
        h.dev.toggle⟩

def plainConfiguration : Configuration where
  bConfigurationValue := 1
  iConfiguration := 0
  bmAttributes := 0xc0
  bMaxPower := 0
  classes := []
  interfaces := [⟨0, ⟨0, 0xff, 0, 0, 0, [.endpoint 0x81 2 64 0]⟩, []⟩]
  numbers := by decide
  interfaces_le := by decide
  endpoints_le := by decide
  size_le := by decide

def plainDescribed : Described where
  descriptor := Bytes.zero.write 0 plainDevice
  config := plainConfiguration
  length := by decide
  type := by decide
  size := by decide

theorem freshSlot_attachedUsb : FreshSlot 1 attachedUsb where
  devnum := rfl
  config := rfl
  speed := by decide
  parent := .inr ⟨0, 0, rfl, by decide, rfl, by decide⟩

theorem usbScanDevice_enumerates_plain
    : ∃ v t, (usbScanDevice 1).Run
        (compliantWorld plainDescribed 1 fun portsts => PortEnabled portsts ∧ PortStable portsts) attachedUsb 0
        (.ok (0, v)) t ∧
      Enumerated plainDescribed 1 (v.usbDev 1) t := by
  obtain ⟨⟨v, t, hrun⟩, hall⟩ := usbScanDevice_enumerates plainDescribed freshSlot_attachedUsb
  obtain ⟨v', hv, h⟩ := hall _ t hrun
  cases hv
  exact ⟨v, t, hrun, h⟩

/-- A port that is enabled after its reset, and was connected since the last look at it. -/
theorem changed_port_not_enumerated
    : ¬∀ (D : Described) (dev : Fin 32) (u : Usb) (r : Except Stop (Int × Usb)) (t : BitVec 16),
        FreshSlot dev u →
        (usbScanDevice dev).Run (compliantWorld D dev PortEnabled) u 0 r t →
        ∃ v, r = .ok (0, v) ∧ Enumerated D dev (v.usbDev dev) t := by
  intro h
  have hports : PortEnabled fun i => if i = 0 then 3 else if i = 2 then 1 else 0 := by decide
  have hserves : Prog.Serves _ (compliantWorld plainDescribed 1 PortEnabled) := compliantHandler_serves hports
  obtain ⟨r, v, t, hr, hp⟩ :=
    exists_run_of_check hserves.offers (m := usbScanDevice 1) (u := attachedUsb) (s := 0)
      (p := fun r _ _ => r = -1) (by decide +kernel)
  obtain ⟨v', hv, -⟩ := h plainDescribed 1 attachedUsb _ t freshSlot_attachedUsb hr
  have hret : r = -1 := of_decide_eq_true hp
  cases hv
  exact absurd hret (by decide)
