import PureUsb.Usb.Lemmas.Control

/-!
This module contains the functions of `usb.c` that only send requests which are not about the
address or the configuration of a device: they keep every invariant that such requests keep.
-/

open Stateful

/-- The pipes to endpoint 0 of a device. -/
inductive UsbDevice.Addresses (d : UsbDevice) : BitVec 32 → Prop where
  | snd : Addresses d (usbSndctrlpipe d 0)
  | rcv : Addresses d (usbRcvctrlpipe d 0)

namespace DevRequest

def ReadsConfig (setup : DevRequest) : Prop :=
  setup.requesttype = usbDirIn ∧ setup.request = usbReqGetDescriptor ∧
  (setup.value >>> 8).setWidth 8 = usbDtConfig

instance (setup : DevRequest) : Decidable setup.ReadsConfig :=
  inferInstanceAs (Decidable (_ ∧ _))

def Routine (setup : DevRequest) : Prop :=
  setup.requesttype ≠ 0 ∧ ¬setup.ReadsConfig

instance (setup : DevRequest) : Decidable setup.Routine :=
  inferInstanceAs (Decidable (_ ∧ _))

theorem Routine.hub {requesttype request : Byte} {value index length : BitVec 16}
    (h : requesttype ≠ 0) (hin : requesttype ≠ usbDirIn)
    : Routine ⟨requesttype, request, value, index, length⟩ :=
  ⟨h, fun hr => hin hr.1⟩

theorem high_descriptorValue (type index : Byte)
    : ((((type.setWidth 16 <<< 8) + index.setWidth 16 : BitVec 16) >>> 8).setWidth 8 : Byte) = type := by
  apply BitVec.eq_of_toNat_eq
  simp only [BitVec.toNat_setWidth, BitVec.toNat_ushiftRight, BitVec.toNat_add, BitVec.toNat_shiftLeft,
    Nat.shiftRight_eq_div_pow, Nat.shiftLeft_eq]
  omega

theorem Routine.descriptor {type index : Byte} {langid length : BitVec 16} (h : type ≠ usbDtConfig)
    : Routine ⟨usbDirIn, usbReqGetDescriptor, (type.setWidth 16 <<< 8) + index.setWidth 16, langid,
        length⟩ := by
  refine ⟨(by decide : usbDirIn ≠ 0), fun hr => h ?_⟩
  rw [← high_descriptorValue type index]
  exact hr.2.2

end DevRequest

def UsbDevice.withTexts (d : UsbDevice) (mf prod serial : Bytes 32) (haveLangid stringLangid : Int)
    : UsbDevice :=
  { d with mf, prod, serial, haveLangid, stringLangid }

/--
An invariant that is kept by routine requests to `dev`, and does not depend on the texts in its
structure.
-/
structure Frame {σ : Type} (w : HcdWorld σ) (I : Usb → σ → Prop) (E : Stop → σ → Prop)
    (dev : Fin 32) : Prop where
  stack : ∀ {u s n}, I u s →
    wp w (Stateful.ask (HcdOp.stack n)) (fun _ v t => I v t) E u s
  msg : ∀ {u s pipe request requesttype value index data} {size : BitVec 16} {timeout},
    I u s → (u.usbDev dev).Addresses pipe → timeout ≠ 0 →
    DevRequest.Routine ⟨requesttype, request, value, index, size⟩ →
    wp w (usbControlMsg dev pipe request requesttype value index data size timeout)
      (fun r v t => I v t ∧ r.1 ≤ size.toNat) E u s
  texts : ∀ {u s} mf prod serial haveLangid stringLangid, I u s →
    I (u.setDev dev ((u.usbDev dev).withTexts mf prod serial haveLangid stringLangid)) s

/-!
### What is done to strings
-/

theorem workaroundLength_ok (buf : Bytes 512) {oldlength : Int} (h : oldlength ≤ 512)
    {fuel newlength : Nat}
    (hpos : 0 < fuel) (hfuel : oldlength + 1 ≤ newlength + 2 * fuel)
    : ∃ n, workaroundLength buf oldlength fuel newlength = .ok n := by
  induction fuel generalizing newlength with
  | zero => exact absurd hpos (by decide)
  | succ fuel ih =>
    unfold workaroundLength
    split
    . next hlt =>
      obtain ⟨lo, hlo⟩ : ∃ b, rd buf newlength = .ok b := by
        unfold rd
        rw [Bytes.get?_of_lt buf (by omega)]
        exact ⟨_, rfl⟩
      obtain ⟨hi, hhi⟩ : ∃ b, rd buf (newlength + 1) = .ok b := by
        unfold rd
        rw [Bytes.get?_of_lt buf (by omega)]
        exact ⟨_, rfl⟩
      rw [hlo, hhi]
      dsimp only [Bind.bind, Except.bind]
      split
      . exact ⟨_, rfl⟩
      . exact ih (by omega) (by push_cast; omega)
    . exact ⟨_, rfl⟩

theorem usbTryStringWorkarounds_ok (buf : Bytes 512) {length : Int} (h : length ≤ 512)
    : ∃ r, usbTryStringWorkarounds buf length = .ok r := by
  have hlength : ∃ n, workaroundLength buf length usbBufsiz 2 = .ok n :=
    workaroundLength_ok buf h (by decide) (by simp only [usbBufsiz]; omega)
  obtain ⟨n, hn⟩ := hlength
  unfold usbTryStringWorkarounds
  rw [hn]
  dsimp only [Bind.bind, Except.bind]
  split <;> exact ⟨_, rfl⟩

theorem fixString_ok (buf : Bytes 512) {rc : Int} (h : rc ≤ 512) : ∃ r, fixString buf rc = .ok r := by
  unfold fixString
  split
  . exact usbTryStringWorkarounds_ok buf h
  . exact ⟨_, rfl⟩

theorem stringChars_ok (tbuf : Bytes 512) {err : Nat} (h : err ≤ 255) (size fuel : Nat) (u idx : Nat)
    : ∃ l, stringChars tbuf err size fuel u idx = .ok l := by
  induction fuel generalizing u idx with
  | zero => exact ⟨_, rfl⟩
  | succ fuel ih =>
    unfold stringChars
    split
    . next hlt =>
      split
      . exact ⟨_, rfl⟩
      . obtain ⟨hi, hhi⟩ : ∃ b, rd tbuf (u + 1) = .ok b := by
          unfold rd
          rw [Bytes.get?_of_lt tbuf (by omega)]
          exact ⟨_, rfl⟩
        obtain ⟨lo, hlo⟩ : ∃ b, rd tbuf u = .ok b := by
          unfold rd
          rw [Bytes.get?_of_lt tbuf (by omega)]
          exact ⟨_, rfl⟩
        obtain ⟨rest, hrest⟩ := ih (u + 2) (idx + 1)
        rw [hhi, hlo, hrest]
        exact ⟨_, rfl⟩
    . exact ⟨_, rfl⟩

namespace Frame

variable {σ : Type} {w : HcdWorld σ} {I : Usb → σ → Prop} {E : Stop → σ → Prop} {dev : Fin 32}
variable {u : Usb} {s : σ}

/-!
### Ports
-/

theorem setPortFeature (h : Frame w I E dev) (hI : I u s) (port : Int) (feature : BitVec 16)
    : wp w (usbSetPortFeature dev port feature) (fun _ v t => I v t) E u s := by
  unfold usbSetPortFeature
  rw [wp_bind, wp_getDev, wp_bind]
  refine wp_post (h.msg hI .snd (by decide) (.hub (by decide) (by decide))) ?_
  exact fun _ _ _ hI => hI.1

theorem clearPortFeature (h : Frame w I E dev) (hI : I u s) (port : Int) (feature : BitVec 16)
    : wp w (usbClearPortFeature dev port feature) (fun _ v t => I v t) E u s := by
  unfold usbClearPortFeature
  rw [wp_bind, wp_getDev, wp_bind]
  refine wp_post (h.msg hI .snd (by decide) (.hub (by decide) (by decide))) ?_
  exact fun _ _ _ hI => hI.1

theorem getPortStatus (h : Frame w I E dev) (hI : I u s) (port : Int)
    : wp w (usbGetPortStatus dev port) (fun _ v t => I v t) E u s := by
  unfold usbGetPortStatus
  rw [wp_bind, wp_getDev]
  refine wp_post (h.msg hI .rcv (by decide) (.hub (by decide) (by decide))) ?_
  exact fun _ _ _ hI => hI.1

theorem getHubDescriptor (h : Frame w I E dev) (hI : I u s) (size : Nat)
    : wp w (usbGetHubDescriptor dev size) (fun _ v t => I v t) E u s := by
  unfold usbGetHubDescriptor
  rw [wp_bind, wp_getDev]
  refine wp_post (h.msg hI .rcv (by decide) (.hub (by decide) (by decide))) ?_
  exact fun _ _ _ hI => hI.1

theorem getHubStatus (h : Frame w I E dev) (hI : I u s)
    : wp w (usbGetHubStatus dev) (fun _ v t => I v t) E u s := by
  unfold usbGetHubStatus
  rw [wp_bind, wp_getDev]
  refine wp_post (h.msg hI .rcv (by decide) (.hub (by decide) (by decide))) ?_
  exact fun _ _ _ hI => hI.1

theorem portResetTries (h : Frame w I E dev) (port : Int) (tries : Nat) {portsts : Bytes 4}
    {u : Usb} {s : σ} (hI : I u s)
    : wp w (hubPortResetTries dev port portsts tries) (fun _ v t => I v t) E u s := by
  induction tries generalizing u s portsts with
  | zero => exact hI
  | succ tries ih =>
    unfold hubPortResetTries
    rw [wp_bind]
    refine wp_post (h.setPortFeature hI _ _) fun _ v t hI => ?_
    rw [wp_bind]
    refine wp_post (h.getPortStatus hI _) fun r v t hI => ?_
    dsimp only
    split
    . exact hI
    . split
      . exact hI
      . split
        . exact hI
        . exact ih hI

theorem portReset (h : Frame w I E dev) (hI : I u s) (port : Int)
    : wp w (hubPortReset dev port) (fun _ v t => I v t) E u s := by
  unfold hubPortReset
  rw [wp_bind]
  refine wp_post (h.stack hI) fun portsts v t hI => ?_
  rw [wp_bind]
  refine wp_post (h.portResetTries port maxTries hI) ?_
  rintro (_ | status) v t hI
  . exact hI
  . rw [wp_bind]
    exact wp_post (h.clearPortFeature hI _ _) fun _ _ _ hI => hI

theorem powerOn (h : Frame w I E dev) (n i : Nat) {u : Usb} {s : σ} (hI : I u s)
    : wp w (powerOnPorts dev n i) (fun _ v t => I v t) E u s := by
  induction n generalizing i u s with
  | zero => exact hI
  | succ n ih =>
    unfold powerOnPorts
    rw [wp_bind]
    exact wp_post (h.setPortFeature hI _ _) fun _ v t hI => ih _ hI

theorem hubPowerOn (h : Frame w I E dev) (hI : I u s)
    : wp w (usbHubPowerOn dev) (fun _ v t => I v t) E u s := by
  unfold usbHubPowerOn
  rw [wp_bind, wp_getDev]
  exact h.powerOn _ _ hI

/-!
### Strings
-/

theorem getStringTries (h : Frame w I E dev) (langid : BitVec 16) (index : Byte) (size tries : Nat)
    (hsize : size < 65536) {buf : Bytes 512} {u : Usb} {s : σ} (hI : I u s)
    : wp w (usbGetStringTries dev langid index size buf tries)
        (fun r v t => I v t ∧ r.1 ≤ size) E u s := by
  have hle : (BitVec.ofNat 16 size).toNat = size := by
    rw [BitVec.toNat_ofNat]
    exact Nat.mod_eq_of_lt hsize
  induction tries generalizing u s buf with
  | zero =>
    unfold usbGetStringTries
    rw [wp_bind, wp_getDev, wp_bind]
    refine wp_post (h.msg hI .rcv (by decide) (.descriptor (by decide))) fun r v t hr => ?_
    rw [hle] at hr
    dsimp only
    split <;> exact hr
  | succ tries ih =>
    unfold usbGetStringTries
    rw [wp_bind, wp_getDev, wp_bind]
    refine wp_post (h.msg hI .rcv (by decide) (.descriptor (by decide))) fun r v t hr => ?_
    rw [hle] at hr
    dsimp only
    split
    . exact hr
    . exact ih hr.1

theorem getString (h : Frame w I E dev) (langid : BitVec 16) (index : Byte) {size : Nat}
    (hsize : size < 65536) {buf : Bytes 512} (hI : I u s)
    : wp w (usbGetString dev langid index buf size) (fun r v t => I v t ∧ r.1 ≤ size) E u s :=
  h.getStringTries langid index size 2 hsize hI

theorem readStringAttempts (h : Frame w I E dev) (langid : BitVec 16) (index : Byte)
    {buf : Bytes 512} (hI : I u s)
    : wp w (readString dev langid index buf) (fun r v t => I v t ∧ r.1 ≤ 255) E u s := by
  unfold readString
  rw [wp_bind]
  refine wp_post (h.getString langid index (by decide) hI) ?_
  rintro ⟨rc, buf⟩ v t ⟨hI, hrc⟩
  dsimp only
  split
  . rw [wp_bind]
    refine wp_post (h.getString langid index (by decide) hI) ?_
    rintro ⟨rc, buf⟩ v t ⟨hI, hrc⟩
    dsimp only at hrc ⊢
    split
    . have hlt := (buf 0).isLt
      refine wp_post (h.getString langid index (by omega) hI) fun r v t hr => ⟨hr.1, ?_⟩
      have := hr.2
      omega
    . exact ⟨hI, by show rc ≤ 255; omega⟩
  . exact ⟨hI, hrc⟩

theorem stringSub (h : Frame w I E dev) (langid : BitVec 16) (index : Byte) {buf : Bytes 512}
    (hI : I u s)
    : wp w (usbStringSub dev langid index buf) (fun r v t => I v t ∧ r.1 ≤ 255) E u s := by
  unfold usbStringSub
  rw [wp_bind]
  refine wp_post (h.readStringAttempts langid index hI) ?_
  rintro ⟨rc, buf⟩ v t ⟨hI, hrc⟩
  dsimp only at hrc ⊢
  split
  . obtain ⟨⟨buf, rc⟩, hr⟩ := fixString_ok buf (show rc ≤ 512 by omega)
    rw [hr, wp_bind, wp_ofExcept_ok]
    have hlt := (buf 0).isLt
    refine ⟨hI, ?_⟩
    dsimp only
    omega
  . exact ⟨hI, by show (-1 : Int) ≤ 255; decide⟩

theorem readsLangid (h : Frame w I E dev) {tbuf : Bytes 512} (hI : I u s)
    : wp w (readLangid dev tbuf) (fun _ v t => I v t) E u s := by
  unfold readLangid
  rw [wp_bind, wp_getDev]
  split
  . rw [wp_bind]
    refine wp_post (h.stringSub 0 0 hI) ?_
    rintro ⟨err, tbuf⟩ v t ⟨hI, -⟩
    dsimp only
    split
    . exact hI
    . split
      . exact hI
      . exact h.texts _ _ _ _ _ hI
  . exact hI

theorem string (h : Frame w I E dev) (index : Int) {size : Nat} {buf : Bytes size} (hI : I u s)
    : wp w (usbString dev index buf) (fun _ v t => I v t) E u s := by
  unfold usbString usbStringAt
  split
  . exact hI
  . rw [wp_bind]
    refine wp_post (h.stack hI) fun tbuf v t hI => ?_
    rw [wp_bind]
    refine wp_post (h.readsLangid hI) ?_
    rintro ⟨known, tbuf⟩ v t hI
    dsimp only
    split
    . rw [wp_bind, wp_getDev, wp_bind]
      refine wp_post (h.stringSub _ _ hI) ?_
      rintro ⟨err, tbuf⟩ v t ⟨hI, herr⟩
      dsimp only at herr ⊢
      split
      . exact hI
      . obtain ⟨l, hl⟩ := stringChars_ok tbuf (show err.toNat ≤ 255 by omega) (size - 1) err.toNat 2 0
        rw [hl]
        exact hI
    . exact hI

theorem scansString (h : Frame w I E dev) {index : UsbDevice → Byte} {get : UsbDevice → Bytes 32}
    {set : UsbDevice → Bytes 32 → UsbDevice}
    (hset : ∀ d buf, ∃ mf prod serial,
      set d buf = d.withTexts mf prod serial d.haveLangid d.stringLangid)
    (hI : I u s)
    : wp w (scanString dev index get set) (fun _ v t => I v t) E u s := by
  unfold scanString
  rw [wp_bind, wp_getDev]
  split
  . rw [wp_bind]
    refine wp_post (h.string _ hI) ?_
    rintro ⟨_, buf⟩ v t hI
    rw [wp_modifyDev]
    obtain ⟨mf, prod, serial, hd⟩ := hset (v.usbDev dev) buf
    rw [hd]
    exact h.texts _ _ _ _ _ hI
  . exact hI

theorem scansStrings (h : Frame w I E dev) (hI : I u s)
    : wp w (scanStrings dev) (fun _ v t => I v t) E u s := by
  unfold scanStrings
  rw [wp_bind, wp_modifyDev, wp_bind]
  refine wp_post (h.scansString (fun d buf => ⟨buf, d.prod, d.serial, rfl⟩) ?_) fun _ v t hI => ?_
  . exact h.texts _ _ _ _ _ hI
  . rw [wp_bind]
    refine wp_post (h.scansString (fun d buf => ⟨d.mf, buf, d.serial, rfl⟩) hI) fun _ v t hI => ?_
    exact h.scansString (fun d buf => ⟨d.mf, d.prod, buf, rfl⟩) hI

end Frame
