import PureUsb.Prog.Sim
import PureUsb.Usb.Lemmas.Frame

/-!
This module contains proof rules for the enumeration of a device and for the hub driver: what has to
be shown of an invariant so that it survives them.
-/

open Stateful

def UsbDevice.withPackets (d : UsbDevice) (descriptor : Bytes 18) (maxpacketsize : Int)
    (epmaxpacketin epmaxpacketout : Fin 16 → Int) : UsbDevice :=
  { d with descriptor, maxpacketsize, epmaxpacketin, epmaxpacketout }

/-- The values that `usb_scan_device` gives `maxpacketsize`. -/
def IsPacketSize (x : Int) : Prop := 0 ≤ x ∧ x ≤ 3

instance : DecidablePred IsPacketSize := fun x => inferInstanceAs (Decidable (0 ≤ x ∧ x ≤ 3))

theorem isPacketSize_packetSize (b : Byte) {x : Int} (h : IsPacketSize x)
    : IsPacketSize (packetSize b x) := by
  unfold packetSize
  split
  . decide
  . split
    . decide
    . split
      . decide
      . split
        . decide
        . exact h

/-- The packet sizes of endpoints that `usb.c` replaces are those of descriptors. -/
def SizesFrom (old new : Fin 16 → Int) : Prop :=
  ∀ ep, new ep = old ep ∨ (0 ≤ new ep ∧ new ep < 65536)

theorem SizesFrom.refl (sizes : Fin 16 → Int) : SizesFrom sizes sizes := fun _ => .inl rfl

theorem SizesFrom.trans {sizes sizes' sizes'' : Fin 16 → Int} (h : SizesFrom sizes sizes')
    (h' : SizesFrom sizes' sizes'')
    : SizesFrom sizes sizes'' := by
  intro ep
  rcases h' ep with heq | hlt
  . rw [heq]
    exact h ep
  . exact .inr hlt

theorem SizesFrom.update (sizes : Fin 16 → Int) (ep : Fin 16) {size : Int} (h : 0 ≤ size ∧ size < 65536)
    : SizesFrom sizes (Function.update sizes ep size) := by
  intro ep'
  by_cases hep : ep' = ep
  . subst hep
    rw [Function.update_self]
    exact .inr h
  . exact .inl (Function.update_of_ne hep ..)

/--
`A` holds while `dev` is at the default address, `B` once it has the address `addr`.
-/
structure ScanRule {σ : Type} (w : HcdWorld σ) (E : Stop → σ → Prop) (dev : Fin 32) (addr : Int)
    (A B : Usb → σ → Prop) : Prop where
  frameA : Frame w A E dev
  frameB : Frame w B E dev
  parent : ∀ {u s p}, A u s → (u.usbDev dev).parent = .dev p → Frame w A E p
  fault : ∀ {u s} x, A u s → E x s
  packetsA : ∀ {u s} descriptor maxpacketsize epmaxpacketin epmaxpacketout, A u s →
    (IsPacketSize (u.usbDev dev).maxpacketsize → IsPacketSize maxpacketsize) →
    SizesFrom (u.usbDev dev).epmaxpacketin epmaxpacketin →
    SizesFrom (u.usbDev dev).epmaxpacketout epmaxpacketout →
    A (u.setDev dev ((u.usbDev dev).withPackets descriptor maxpacketsize epmaxpacketin
      epmaxpacketout)) s
  address : ∀ {u s}, A u s →
    wp w (usbSetAddress dev) (fun _ v t => B v t) E
      (u.setDev dev { u.usbDev dev with devnum := addr }) s
  descriptorB : ∀ {u s} descriptor, B u s →
    B (u.setDev dev { u.usbDev dev with descriptor }) s

namespace Frame

variable {σ : Type} {w : HcdWorld σ} {I : Usb → σ → Prop} {E : Stop → σ → Prop} {dev : Fin 32}
variable {u : Usb} {s : σ}

theorem getDescriptor (h : Frame w I E dev) (hI : I u s) {type index : Byte} {buf : Buffer}
    {size : Nat} (htype : type ≠ usbDtConfig)
    : wp w (usbGetDescriptor dev type index buf size) (fun _ v t => I v t) E u s := by
  unfold usbGetDescriptor
  rw [wp_bind, wp_getDev]
  refine wp_post (h.msg hI .rcv (by decide) (.descriptor htype)) ?_
  exact fun _ _ _ hI => hI.1

end Frame

theorem wp_resetParentPort {σ : Type} {w : HcdWorld σ} {I : Usb → σ → Prop} {E : Stop → σ → Prop}
    {dev : Fin 32} {u : Usb} {s : σ}
    (hparent : ∀ {p}, (u.usbDev dev).parent = .dev p → Frame w I E p) (hfault : ∀ x, E x s) (hI : I u s)
    : wp w (resetParentPort dev) (fun _ v t => I v t) E u s := by
  unfold resetParentPort
  rw [wp_bind, wp_getDev]
  split
  . exact hI
  . rw [wp_bind]
    cases hp : (u.usbDev dev).parent with
    | dev p =>
      rw [wp_deref_dev, wp_bind, wp_getDev, wp_bind]
      cases findPort (u.usbDev p) dev (u.usbDev p).maxchild.toNat 0 with
      | error x => exact hfault x
      | ok port =>
        rw [wp_ofExcept_ok]
        cases port with
        | none => exact hI
        | some port =>
          rw [wp_bind]
          refine wp_post ((hparent hp).portReset hI port) fun r v t hI => ?_
          dsimp only
          split <;> exact hI
    | _ => exact hfault .fault

namespace ScanRule

variable {σ : Type} {w : HcdWorld σ} {E : Stop → σ → Prop} {dev : Fin 32} {addr : Int}
variable {A B : Usb → σ → Prop} {u : Usb} {s : σ}

theorem parentPort (h : ScanRule w E dev addr A B) (hA : A u s)
    : wp w (resetParentPort dev) (fun _ v t => A v t) E u s :=
  wp_resetParentPort (h.parent hA) (h.fault · hA) hA

theorem default (h : ScanRule w E dev addr A B) (hA : A u s) (tmpbuf : Bytes 512)
    : wp w (scanDefault dev tmpbuf) (fun _ v t => A v t) E u s := by
  unfold scanDefault
  rw [wp_bind, wp_modifyDev, wp_bind]
  have hA1 := h.packetsA ((u.usbDev dev).descriptor.write 7 [64]) packetSize64
    (Function.update (u.usbDev dev).epmaxpacketin 0 64)
    (Function.update (u.usbDev dev).epmaxpacketout 0 64) hA (fun _ => by decide)
    (.update _ 0 (by decide)) (.update _ 0 (by decide))
  refine wp_post (h.frameA.getDescriptor hA1 (by decide)) ?_
  rintro ⟨err, bytes⟩ v t hA
  dsimp only
  split
  . exact hA
  . rw [wp_bind, wp_modifyDev, wp_bind]
    have hA2 := h.packetsA ((v.usbDev dev).descriptor.write 7 [tmpbuf.write 0 bytes 7])
      (v.usbDev dev).maxpacketsize (v.usbDev dev).epmaxpacketin (v.usbDev dev).epmaxpacketout hA id
      (.refl _) (.refl _)
    refine wp_post (h.parentPort hA2) fun err v t hA => ?_
    split
    . exact hA
    . rw [wp_bind, wp_modifyDev]
      have hsize : 0 ≤ ((v.usbDev dev).bMaxPacketSize0.toNat : Int) ∧
          ((v.usbDev dev).bMaxPacketSize0.toNat : Int) < 65536 := by
        have hlt := (v.usbDev dev).bMaxPacketSize0.isLt
        omega
      exact h.packetsA _ _ _ _ hA (isPacketSize_packetSize _) (.update _ 0 hsize) (.update _ 0 hsize)

theorem scanDevice (h : ScanRule w E dev addr A B) {Q : Int → Usb → σ → Prop}
    (haddr : (u.usbDev dev).devnum = addr)
    (hstart : wp w (Stateful.ask (HcdOp.stack 512)) (fun _ v t =>
      v.usbDev dev = u.usbDev dev ∧ A (v.setDev dev { v.usbDev dev with devnum := 0 }) t) E u s)
    (hfailA : ∀ {v t}, A v t → Q (-1) v t) (hfailB : ∀ {v t}, B v t → Q (-1) v t)
    (hconf : ∀ {v t} tmpbuf, B v t → wp w (scanConfiguration dev tmpbuf) Q E v t)
    : wp w (usbScanDevice dev) Q E u s := by
  unfold usbScanDevice
  rw [wp_bind]
  refine wp_post hstart ?_
  rintro tmpbuf v t ⟨hv, hA⟩
  rw [wp_bind, wp_getDev, wp_bind, wp_modifyDev, wp_bind]
  refine wp_post (h.default hA tmpbuf) ?_
  rintro ⟨err, tmpbuf⟩ v' t hA
  dsimp only
  split
  . exact hfailA hA
  . rw [wp_bind, wp_modifyDev, wp_bind, hv, haddr]
    refine wp_post (h.address hA) fun err v t hB => ?_
    split
    . exact hfailB hB
    . rw [wp_bind]
      refine wp_post (h.frameB.getDescriptor hB (by decide)) ?_
      rintro ⟨err, bytes⟩ v t hB
      rw [wp_bind, wp_modifyDev]
      have hB := h.descriptorB ((v.usbDev dev).descriptor.write 0 bytes) hB
      dsimp only
      split
      . exact hfailB hB
      . exact hconf tmpbuf hB

end ScanRule

/-!
### The configuration
-/

/-- `B` holds until the configuration is parsed, `C` afterwards. -/
structure ConfigRule {σ : Type} (w : HcdWorld σ) (E : Stop → σ → Prop) (dev : Fin 32)
    (B C : Usb → σ → Prop) : Prop where
  frame : Frame w C E dev
  read : ∀ {u s index size}, B u s →
    wp w (usbGetDescriptor dev usbDtConfig index .tmpbuf size) (fun _ v t => B v t) E u s
  parse : ∀ {u s} buffer, B u s →
    wp w (usbParseConfig dev buffer 0) (fun _ v t => C v t) E u s
  fault : ∀ {u s} x, C u s → E x s
  packets : ∀ {u s} epmaxpacketin epmaxpacketout, C u s →
    SizesFrom (u.usbDev dev).epmaxpacketin epmaxpacketin →
    SizesFrom (u.usbDev dev).epmaxpacketout epmaxpacketout →
    C (u.setDev dev { u.usbDev dev with epmaxpacketin, epmaxpacketout }) s
  setConfiguration : ∀ {u s value timeout}, C u s → timeout ≠ 0 →
    wp w (usbControlMsg dev (usbSndctrlpipe (u.usbDev dev) 0) usbReqSetConfiguration 0 value 0 .null 0
      timeout) (fun _ v t => C v t) E u s
  toggle : ∀ {u s}, C u s → C (u.setDev dev { u.usbDev dev with toggle := fun _ => 0 }) s

theorem usbSetMaxpacketEp_sizes (d : UsbDevice) {ep : EndpointDescriptor} (hep : ep.wMaxPacketSize < 65536)
    : ∃ epmaxpacketin epmaxpacketout,
        usbSetMaxpacketEp d ep = { d with epmaxpacketin, epmaxpacketout } ∧
        SizesFrom d.epmaxpacketin epmaxpacketin ∧ SizesFrom d.epmaxpacketout epmaxpacketout := by
  have hsize : 0 ≤ (ep.wMaxPacketSize : Int) ∧ (ep.wMaxPacketSize : Int) < 65536 := by omega
  unfold usbSetMaxpacketEp
  dsimp only
  split
  . exact ⟨_, _, rfl, .update _ _ hsize, .update _ _ hsize⟩
  . split
    . split
      . exact ⟨_, _, rfl, .refl _, .update _ _ hsize⟩
      . exact ⟨_, _, rfl, .refl _, .refl _⟩
    . split
      . exact ⟨_, _, rfl, .update _ _ hsize, .refl _⟩
      . exact ⟨_, _, rfl, .refl _, .refl _⟩

theorem foldl_usbSetMaxpacketEp {eps : List EndpointDescriptor} (d : UsbDevice)
    (heps : ∀ ep ∈ eps, ep.wMaxPacketSize < 65536)
    : ∃ epmaxpacketin epmaxpacketout,
        eps.foldl usbSetMaxpacketEp d = { d with epmaxpacketin, epmaxpacketout } ∧
        SizesFrom d.epmaxpacketin epmaxpacketin ∧ SizesFrom d.epmaxpacketout epmaxpacketout := by
  induction eps generalizing d with
  | nil => exact ⟨_, _, rfl, .refl _, .refl _⟩
  | cons ep eps ih =>
    obtain ⟨epin, epout, hep, hin, hout⟩ := usbSetMaxpacketEp_sizes d (heps ep List.mem_cons_self)
    obtain ⟨epin', epout', h, hin', hout'⟩ := ih { d with epmaxpacketin := epin, epmaxpacketout := epout }
      fun ep hep => heps ep (List.mem_cons_of_mem _ hep)
    rw [List.foldl_cons, hep, h]
    exact ⟨_, _, rfl, hin.trans hin', hout.trans hout'⟩

theorem loadEndpoint_lt {M : Type} {m : ConfigMem M} {mem : M} {i e : Nat} {ep : EndpointDescriptor}
    (h : loadEndpoint m mem i e = .ok ep)
    : ep.wMaxPacketSize < 65536 := by
  obtain ⟨_, -, h⟩ := Except.bind_eq_ok.mp h
  obtain ⟨_, -, h⟩ := Except.bind_eq_ok.mp h
  obtain ⟨lo, -, h⟩ := Except.bind_eq_ok.mp h
  obtain ⟨hi, -, h⟩ := Except.bind_eq_ok.mp h
  cases h
  have hlo := lo.isLt
  have hhi := hi.isLt
  unfold le16
  dsimp only
  omega

theorem wMaxPacketSize_lt {M : Type} {m : ConfigMem M} {mem : M} {eps : List EndpointDescriptor}
    (h : configEndpoints m mem = .ok eps)
    : ∀ ep ∈ eps, ep.wMaxPacketSize < 65536 := by
  obtain ⟨n, -, h⟩ := Except.bind_eq_ok.mp h
  obtain ⟨epss, hepss, h⟩ := Except.bind_eq_ok.mp h
  cases h
  intro ep hep
  obtain ⟨eps, heps, hep⟩ := List.mem_flatten.mp hep
  refine Except.forall_of_mapM (P := fun eps => ∀ ep ∈ eps, ep.wMaxPacketSize < 65536) hepss ?_ eps heps ep hep
  intro i eps h
  obtain ⟨n, -, h⟩ := Except.bind_eq_ok.mp h
  exact Except.forall_of_mapM (P := fun ep => ep.wMaxPacketSize < 65536) h fun _ _ => loadEndpoint_lt

section

variable {σ : Type} {w : HcdWorld σ} {I : Usb → σ → Prop} {E : Stop → σ → Prop} {dev : Fin 32}
variable {u : Usb} {s : σ}

theorem wp_usbGetConfigurationNo
    (hread : ∀ {u s index size}, I u s →
      wp w (usbGetDescriptor dev usbDtConfig index .tmpbuf size) (fun _ v t => I v t) E u s)
    (hI : I u s) (buffer : Bytes 512) (cfgno : Byte)
    : wp w (usbGetConfigurationNo dev buffer cfgno) (fun _ v t => I v t) E u s := by
  unfold usbGetConfigurationNo
  rw [wp_bind]
  refine wp_post (hread hI) ?_
  rintro ⟨result, bytes⟩ v t hI
  dsimp only
  split
  . exact hI
  . split
    . exact hI
    . rw [wp_bind]
      exact wp_post (hread hI) fun _ _ _ hI => hI

theorem wp_usbSetConfiguration {configuration : Byte}
    (hmsg : wp w (usbControlMsg dev (usbSndctrlpipe (u.usbDev dev) 0) usbReqSetConfiguration 0
      (configuration.setWidth 16) 0 .null 0 usbCntlTimeout) (fun _ v t => I v t) E u s)
    (htoggle : ∀ {u s}, I u s → I (u.setDev dev { u.usbDev dev with toggle := fun _ => 0 }) s)
    : wp w (usbSetConfiguration dev configuration) (fun _ v t => I v t) E u s := by
  unfold usbSetConfiguration
  rw [wp_bind, wp_getDev, wp_bind]
  refine wp_post hmsg ?_
  rintro ⟨ret, _⟩ v t hI
  dsimp only
  split
  . exact hI
  . split
    . exact hI
    . exact htoggle hI

end

namespace ConfigRule

variable {σ : Type} {w : HcdWorld σ} {E : Stop → σ → Prop} {dev : Fin 32}
variable {B C : Usb → σ → Prop} {u : Usb} {s : σ}

theorem getConfiguration (h : ConfigRule w E dev B C) (hB : B u s) (buffer : Bytes 512) (cfgno : Byte)
    : wp w (usbGetConfigurationNo dev buffer cfgno) (fun _ v t => B v t) E u s :=
  wp_usbGetConfigurationNo h.read hB buffer cfgno

theorem setMaxpacket (h : ConfigRule w E dev B C) (hC : C u s)
    : wp w (usbSetMaxpacket dev) (fun _ v t => C v t) E u s := by
  unfold usbSetMaxpacket
  rw [wp_bind, wp_get, wp_bind]
  cases hvisited : configEndpoints (tableMem dev u.usbDevAddr) u.usbDev with
  | error x => exact h.fault x hC
  | ok eps =>
    rw [wp_ofExcept_ok, wp_bind, wp_modifyDev]
    obtain ⟨epin, epout, heps, hin, hout⟩ :=
      foldl_usbSetMaxpacketEp (u.usbDev dev) (wMaxPacketSize_lt hvisited)
    rw [heps]
    exact h.packets _ _ hC hin hout

theorem configure (h : ConfigRule w E dev B C) (hC : C u s) (configuration : Byte)
    : wp w (usbSetConfiguration dev configuration) (fun _ v t => C v t) E u s :=
  wp_usbSetConfiguration (h.setConfiguration hC (by decide)) h.toggle

theorem scan (h : ConfigRule w E dev B C) (hB : B u s) (tmpbuf : Bytes 512)
    : wp w (scanConfiguration dev tmpbuf) (fun _ v t => C v t) E u s := by
  unfold scanConfiguration
  rw [wp_bind]
  refine wp_post (h.getConfiguration hB tmpbuf 0) ?_
  rintro ⟨_, tmpbuf⟩ v t hB
  dsimp only
  rw [wp_bind]
  refine wp_post (h.parse tmpbuf hB) fun _ v t hC => ?_
  rw [wp_bind]
  refine wp_post (h.setMaxpacket hC) fun _ v t hC => ?_
  rw [wp_bind, wp_getDev, wp_bind]
  refine wp_post (h.configure hC _) fun err v t hC => ?_
  split
  . exact hC
  . rw [wp_bind]
    exact wp_post (h.frame.scansStrings hC) fun _ _ _ hC => hC

end ConfigRule

/-!
### The hub driver
-/

theorem Frame.scanClear {σ : Type} {w : HcdWorld σ} {E : Stop → σ → Prop} {dev : Fin 32} {i : Int}
    {I : Usb → σ → Prop} {u : Usb} {s : σ} (h : Frame w I E dev) (hI : I u s) (cond : Prop)
    [Decidable cond] (feature : BitVec 16)
    : wp w (hubScanClear dev i cond feature) (fun _ v t => I v t) E u s := by
  unfold hubScanClear
  split
  . rw [wp_bind]
    exact wp_post (h.clearPortFeature hI _ _) fun _ _ _ hI => hI
  . exact hI

theorem Frame.scanOverCurrent {σ : Type} {w : HcdWorld σ} {E : Stop → σ → Prop} {dev : Fin 32} {i : Int}
    {I : Usb → σ → Prop} {u : Usb} {s : σ} (h : Frame w I E dev) (hI : I u s) (portchange : BitVec 16)
    : wp w (hubScanOverCurrent dev i portchange) (fun _ v t => I v t) E u s := by
  unfold hubScanOverCurrent
  split
  . rw [wp_bind]
    refine wp_post (h.clearPortFeature hI _ _) fun ret v t hI => ?_
    split
    . exact hI
    . rw [wp_bind]
      exact wp_post (h.hubPowerOn hI) fun _ _ _ hI => hI
  . exact hI

/-- `I` holds whenever no device is being enumerated; `i` is a port of the hub `dev`. -/
structure HubRule {σ : Type} (w : HcdWorld σ) (E : Stop → σ → Prop) (dev : Fin 32) (i : Int)
    (I : Usb → σ → Prop) : Prop where
  frame : Frame w I E dev
  port : 0 ≤ i ∧ i < usbMaxchildren
  enumerate : ∀ {u s} portstatus, I u s →
    wp w (enumeratePort dev i portstatus) (fun _ v t => I v t) E u s

namespace HubRule

variable {σ : Type} {w : HcdWorld σ} {E : Stop → σ → Prop} {dev : Fin 32} {i : Int}
variable {I : Usb → σ → Prop} {u : Usb} {s : σ}

theorem child (h : HubRule w E dev i I) (hI : I u s)
    : wp w (hasChild dev i) (fun _ v t => I v t) E u s := by
  unfold hasChild
  rw [wp_bind, wp_getDev, dif_pos h.port]
  exact hI

theorem stale (h : HubRule w E dev i I) (hI : I u s) (portstatus : BitVec 16)
    : wp w (portIsStale dev i portstatus) (fun _ v t => I v t) E u s := by
  unfold portIsStale
  split
  . exact hI
  . exact h.child hI

theorem connectChange (h : HubRule w E dev i I) (hI : I u s)
    : wp w (usbHubPortConnectChange dev i) (fun _ v t => I v t) E u s := by
  unfold usbHubPortConnectChange
  rw [wp_bind]
  refine wp_post (h.frame.stack hI) fun portsts v t hI => ?_
  rw [wp_bind]
  refine wp_post (h.frame.getPortStatus hI _) ?_
  rintro ⟨ret, bytes⟩ v t hI
  dsimp only
  split
  . exact hI
  . rw [wp_bind]
    refine wp_post (h.frame.clearPortFeature hI _ _) fun _ v t hI => ?_
    rw [wp_bind]
    refine wp_post (h.stale hI _) fun stale v t hI => ?_
    split
    . exact hI
    . rw [wp_bind]
      refine wp_post (h.frame.portReset hI _) ?_
      rintro ⟨ret, _ | status⟩ v t hI
      . exact hI
      . exact h.enumerate status hI

theorem connection (h : HubRule w E dev i I) (hI : I u s) (portchange : BitVec 16)
    : wp w (hubScanConnection dev i portchange) (fun _ v t => I v t) E u s := by
  unfold hubScanConnection
  split
  . exact h.connectChange hI
  . exact hI

theorem enable (h : HubRule w E dev i I) (hI : I u s) (portstatus portchange : BitVec 16)
    (new : Option (Fin 32))
    : wp w (hubScanEnable dev i portstatus portchange new) (fun _ v t => I v t) E u s := by
  unfold hubScanEnable
  split
  . rw [wp_bind]
    refine wp_post (h.frame.clearPortFeature hI _ _) fun _ v t hI => ?_
    split
    . rw [wp_bind]
      refine wp_post (h.child hI) fun c v t hI => ?_
      split
      . exact h.connectChange hI
      . exact hI
    . exact hI
  . exact hI

theorem hubScan (h : HubRule w E dev i I) (hI : I u s)
    : wp w (usbHubScan dev i) (fun _ v t => I v t) E u s := by
  unfold usbHubScan
  rw [wp_bind]
  refine wp_post (h.frame.stack hI) fun portsts v t hI => ?_
  rw [wp_bind]
  refine wp_post (h.frame.getPortStatus hI _) ?_
  rintro ⟨ret, bytes⟩ v t hI
  dsimp only
  split
  . exact hI
  . rw [wp_bind]
    refine wp_post (h.connection hI _) ?_
    rintro ⟨ret, new⟩ v t hI
    dsimp only
    split
    . exact hI
    . rw [wp_bind]
      refine wp_post (h.enable hI _ _ new) ?_
      rintro ⟨ret, new⟩ v t hI
      dsimp only
      split
      . exact hI
      . rw [wp_bind]
        refine wp_post (h.frame.scanClear hI _ _) fun c v t hI => ?_
        split
        . exact hI
        . rw [wp_bind]
          refine wp_post (h.frame.scanOverCurrent hI _) fun c v t hI => ?_
          split
          . exact hI
          . rw [wp_bind]
            refine wp_post (h.frame.scanClear hI _ _) fun c v t hI => ?_
            split <;> exact hI

end HubRule

theorem Frame.hubInit {σ : Type} {w : HcdWorld σ} {E : Stop → σ → Prop} {dev : Fin 32}
    {I : Usb → σ → Prop} {u : Usb} {s : σ} (h : Frame w I E dev)
    (hstore : ∀ {u s} buffer, I u s →
      wp w (storeHubDescriptor dev buffer) (fun _ v t => I v t) E u s)
    (hI : I u s)
    : wp w (usbHubInit dev) (fun _ v t => I v t) E u s := by
  unfold usbHubInit
  rw [wp_bind]
  refine wp_post (h.stack hI) fun buffer u s hI => ?_
  rw [wp_bind]
  refine wp_post (h.getHubDescriptor hI _) ?_
  rintro ⟨ret, bytes⟩ u s hI
  dsimp only
  split
  . exact hI
  . rw [wp_bind]
    refine wp_post (h.getHubDescriptor hI _) ?_
    rintro ⟨ret, bytes⟩ u s hI
    dsimp only
    split
    . exact hI
    . rw [wp_bind]
      refine wp_post (hstore _ hI) fun _ u s hI => ?_
      rw [wp_bind]
      refine wp_post (h.getHubStatus hI) ?_
      rintro ⟨ret, _⟩ u s hI
      dsimp only
      split
      . exact hI
      . rw [wp_bind]
        exact wp_post (h.hubPowerOn hI) fun _ _ _ hI => hI
