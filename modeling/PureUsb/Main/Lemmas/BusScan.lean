import PureUsb.Main.Lemmas.Addressing
import PureUsb.Usb.Lemmas.Children

/-!
This module contains the enumeration of a device and the hub driver on a bus.
-/

open Stateful

/-!
### The scan of a device
-/

section

variable {σ : Type} {w : EhciWorld σ} {place : Placement} {fits : Bytes 512 → Prop} {dev : Fin 32} {addr : Int}
variable {A B : Usb → MainState σ → Prop} {J K : BusTrace σ → Prop} {u : Usb} {s : BusTrace σ}

theorem ScanRule.default_bus (h : ScanRule (mainWorld w place fits) (fun _ t => Routed t) dev addr A B)
    (hJ : Undisturbed w place fits J)
    (hreset : ∀ {u s}, A u (forgetBus s) → J s →
      wp (listeningWorld w place fits).traced (resetParentPort dev) (fun _ v t => A v (forgetBus t) ∧ J t)
        (fun _ t => Routed (forgetBus t) ∧ Peaceful t) u s)
    (hA : A u (forgetBus s)) (hs : J s) (tmpbuf : Bytes 512)
    : wp (listeningWorld w place fits).traced (scanDefault dev tmpbuf) (fun _ v t => A v (forgetBus t) ∧ J t)
        (fun _ t => Routed (forgetBus t) ∧ Peaceful t) u s := by
  unfold scanDefault
  rw [wp_bind, wp_modifyDev, wp_bind]
  have hA1 := h.packetsA ((u.usbDev dev).descriptor.write 7 [64]) packetSize64
    (Function.update (u.usbDev dev).epmaxpacketin 0 64)
    (Function.update (u.usbDev dev).epmaxpacketout 0 64) hA (fun _ => by decide)
    (.update _ 0 (by decide)) (.update _ 0 (by decide))
  apply wp_post (hJ.and (Sends.usbGetDescriptor (by decide)).isHarmless hs
    (h.frameA.getDescriptor hA1 (by decide)))
  rintro ⟨err, bytes⟩ v t ⟨hA, hs⟩
  dsimp only
  split
  . exact ⟨hA, hs⟩
  . rw [wp_bind, wp_modifyDev, wp_bind]
    have hA2 := h.packetsA ((v.usbDev dev).descriptor.write 7 [tmpbuf.write 0 bytes 7])
      (v.usbDev dev).maxpacketsize (v.usbDev dev).epmaxpacketin (v.usbDev dev).epmaxpacketout hA id
      (.refl _) (.refl _)
    apply wp_post (hreset hA2 hs)
    rintro err v t ⟨hA, hs⟩
    split
    . exact ⟨hA, hs⟩
    . rw [wp_bind, wp_modifyDev]
      have hsize : 0 ≤ ((v.usbDev dev).bMaxPacketSize0.toNat : Int) ∧
          ((v.usbDev dev).bMaxPacketSize0.toNat : Int) < 65536 := by
        have hlt := (v.usbDev dev).bMaxPacketSize0.isLt
        omega
      exact ⟨h.packetsA _ _ _ _ hA (isPacketSize_packetSize _) (.update _ 0 hsize) (.update _ 0 hsize), hs⟩

/-- `J` holds until SET_ADDRESS is sent, `K` afterwards. -/
theorem ScanRule.scanDevice_bus (h : ScanRule (mainWorld w place fits) (fun _ t => Routed t) dev addr A B)
    {C : Int → Usb → MainState σ → Prop} {Q : Int → Usb → BusTrace σ → Prop}
    (hJ : Undisturbed w place fits J) (hK : Undisturbed w place fits K)
    (hreset : ∀ {u s}, A u (forgetBus s) → J s →
      wp (listeningWorld w place fits).traced (resetParentPort dev) (fun _ v t => A v (forgetBus t) ∧ J t)
        (fun _ t => Routed (forgetBus t) ∧ Peaceful t) u s)
    (haddress : ∀ {u s}, A u (forgetBus s) → J s →
      wp (listeningWorld w place fits).traced (usbSetAddress dev) (fun _ _ t => K t) (fun _ t => Peaceful t)
        (u.setDev dev { u.usbDev dev with devnum := addr }) s)
    (hconf : ∀ {v t} tmpbuf, B v t →
      wp (mainWorld w place fits) (scanConfiguration dev tmpbuf) C (fun _ t => Routed t) v t)
    (hfailA : ∀ {v t}, A v (forgetBus t) → J t → Q (-1) v t)
    (hfailB : ∀ {v t}, B v (forgetBus t) → K t → Q (-1) v t)
    (hQ : ∀ {r v t}, C r v (forgetBus t) → K t → Q r v t)
    (haddr : (u.usbDev dev).devnum = addr)
    (hstart : wp (mainWorld w place fits) (Stateful.ask (HcdOp.stack 512)) (fun _ v t =>
      v.usbDev dev = u.usbDev dev ∧ A (v.setDev dev { v.usbDev dev with devnum := 0 }) t)
      (fun _ t => Routed t) u (forgetBus s))
    (hs : J s)
    : wp (listeningWorld w place fits).traced (usbScanDevice dev) Q
        (fun _ t => Routed (forgetBus t) ∧ Peaceful t) u s := by
  unfold usbScanDevice
  rw [wp_bind]
  apply wp_post (hJ.and (Sends.stack _).isHarmless hs hstart)
  rintro tmpbuf v t ⟨⟨hv, hA⟩, hs⟩
  rw [wp_bind, wp_getDev, wp_bind, wp_modifyDev, wp_bind]
  apply wp_post (h.default_bus hJ hreset hA hs tmpbuf)
  rintro ⟨err, tmpbuf⟩ v' t ⟨hA, hs⟩
  dsimp only
  split
  . exact hfailA hA hs
  . rw [wp_bind, wp_modifyDev, wp_bind, hv, haddr]
    apply wp_post (wp_and (wp_forget (h.address hA)) (haddress hA hs))
    rintro err v t ⟨hB, hs⟩
    split
    . exact hfailB hB hs
    . rw [wp_bind]
      apply wp_post (hK.and (Sends.usbGetDescriptor (Nat.le_refl 18)).isHarmless hs
        (h.frameB.getDescriptor hB (by decide)))
      rintro ⟨err, bytes⟩ v t ⟨hB, hs⟩
      rw [wp_bind, wp_modifyDev]
      have hB := h.descriptorB ((v.usbDev dev).descriptor.write 0 bytes) hB
      dsimp only
      split
      . exact hfailB hB hs
      . apply wp_post (hK.and (Sends.scanConfiguration _).isHarmless hs (hconf tmpbuf hB))
        rintro r v t ⟨hC, hs⟩
        exact hQ hC hs

end

/-!
### What a scan keeps of the other devices
-/

section

variable {σ : Type} {w : HcdWorld σ} {D : UsbDevice → Prop} {old new : Fin 32} {u : Usb} {s : σ}

/-- A property of a device that does not depend on what transfers change. -/
def Linked (D : UsbDevice → Prop) : Prop := ∀ {d d'}, D d → d.SameLinks d' → D d'

theorem Linked.setDev (hD : Linked D) {k : Fin 32} {d : UsbDevice} (h : D (u.usbDev old))
    (hd : (u.usbDev k).SameLinks d)
    : D ((u.setDev k d).usbDev old) := by
  by_cases hk : old = k
  . subst hk
    rw [Usb.setDev_same]
    exact hD h hd
  . rw [Usb.setDev_ne _ _ hk]
    exact h

theorem Linked.frame (hD : Linked D) (hw : Lawful w) (k : Fin 32)
    : Frame w (fun v _ => D (v.usbDev old)) (fun _ _ => True) k :=
  frame_table hw (fun _ _ h => h) fun _ _ h hd => hD.setDev h hd

theorem Linked.controlMsg (hD : Linked D) (hw : Lawful w) {k : Fin 32} {pipe : BitVec 32}
    {request requesttype : Byte} {value index size : BitVec 16} {data : Buffer} {timeout : Nat}
    (h : D (u.usbDev old)) (htimeout : timeout ≠ 0)
    : wp w (usbControlMsg k pipe request requesttype value index data size timeout)
        (fun _ v _ => D (v.usbDev old)) (fun _ _ => True) u s :=
  wp_post (wp_usbControlMsg_table (I := fun v => D (v.usbDev old)) hw (fun _ => h)
    (fun _ _ h hd => hD.setDev h hd) htimeout) fun _ _ _ h => h.1

theorem old_setDev_new (hlt : old < new) (h : D (u.usbDev old)) (d : UsbDevice)
    : D ((u.setDev new d).usbDev old) := by
  rw [Usb.setDev_ne _ _ (Fin.ne_of_lt hlt)]
  exact h

theorem Linked.scanRule (hD : Linked D) (hw : Lawful w) (hlt : old < new) (addr : Int)
    : ScanRule w (fun _ _ => True) new addr (fun v _ => D (v.usbDev old)) (fun v _ => D (v.usbDev old)) where
  frameA := hD.frame hw new
  frameB := hD.frame hw new
  parent _ _ := hD.frame hw _
  fault _ _ := trivial
  packetsA _ _ _ _ h _ _ _ := old_setDev_new hlt h _
  address h := by
    unfold usbSetAddress
    rw [wp_bind, wp_getDev, wp_bind]
    exact hD.controlMsg hw (old_setDev_new hlt h _) (by decide)
  descriptorB _ h := old_setDev_new hlt h _

theorem Linked.configRule (hD : Linked D) (hw : Lawful w) (hlt : old < new)
    : ConfigRule w (fun _ _ => True) new (fun v _ => D (v.usbDev old)) (fun v _ => D (v.usbDev old)) where
  frame := hD.frame hw new
  read h := by
    unfold usbGetDescriptor
    rw [wp_bind, wp_getDev]
    exact hD.controlMsg hw h (by decide)
  parse {u s} buffer h := by
    unfold usbParseConfig
    rw [wp_bind, wp_ask]
    intro t
    constructor
    . intro _ _
      rw [wp_bind, wp_modifyDev, wp_bind, wp_get, wp_bind]
      have h := old_setDev_new hlt h { u.usbDev new with configno := 0 }
      generalize u.setDev new { u.usbDev new with configno := 0 } = v at h
      cases hparse : parseConfig (tableMem new v.usbDevAddr) buffer v.usbDev with
      | error e => trivial
      | ok r =>
        rw [wp_ofExcept_ok, wp_bind, wp_set, wp_pure]
        have hsame := parseConfig_before hparse old hlt
        show D (r.2 old)
        rw [hsame]
        exact h
    . intro _ _
      trivial
  fault _ _ := trivial
  packets _ _ h _ _ := old_setDev_new hlt h _
  setConfiguration h htimeout := hD.controlMsg hw h htimeout
  toggle h := old_setDev_new hlt h _

theorem Linked.scanDevice (hD : Linked D) (hw : Lawful w) (hlt : old < new) (h : D (u.usbDev old))
    : wp w (usbScanDevice new) (fun _ v _ => D (v.usbDev old)) (fun _ _ => True) u s := by
  apply (hD.scanRule hw hlt _).scanDevice rfl
  . exact fun t => ⟨fun _ _ => ⟨rfl, old_setDev_new hlt h _⟩, fun _ _ => trivial⟩
  . exact id
  . exact id
  . exact fun tmpbuf h => (hD.configRule hw hlt).scan h tmpbuf

end

/-!
### A device behind a port
-/

/-- `new` is the child of the hub behind this port, and of no other. -/
structure Behind (hub new : Fin 32) (port : Nat) (a : Nat) (u : Usb) : Prop where
  parent : (u.usbDev new).parent = .dev hub
  child : ∀ j, (u.usbDev hub).children j = .dev new → (j : Nat) = port
  devnum : (u.usbDev hub).devnum = (a : Int)

namespace Behind

variable {hub new k : Fin 32} {port : Nat} {a : Nat} {u : Usb} {d : UsbDevice}

theorem setDev_links (h : Behind hub new port a u) (hd : (u.usbDev k).SameLinks d)
    : Behind hub new port a (u.setDev k d) := by
  have hsame : ∀ j, ((u.setDev k d).usbDev j).parent = (u.usbDev j).parent ∧
      ((u.setDev k d).usbDev j).children = (u.usbDev j).children ∧
      ((u.setDev k d).usbDev j).devnum = (u.usbDev j).devnum := by
    intro j
    by_cases hj : j = k
    . subst hj
      rw [Usb.setDev_same]
      exact ⟨hd.parent, hd.children, hd.devnum⟩
    . rw [Usb.setDev_ne _ _ hj]
      exact ⟨rfl, rfl, rfl⟩
  constructor
  . rw [(hsame new).1]
    exact h.parent
  . rw [(hsame hub).2.1]
    exact h.child
  . rw [(hsame hub).2.2]
    exact h.devnum

theorem setupPacket (h : Behind hub new port a u) (p : DevRequest)
    : Behind hub new port a { u with setupPacket := p } :=
  ⟨h.parent, h.child, h.devnum⟩

theorem address (h : Behind hub new port a u) (hne : hub ≠ new) (num : Int)
    : Behind hub new port a (u.setDev new { u.usbDev new with devnum := num }) := by
  constructor
  . rw [Usb.setDev_same]
    exact h.parent
  . rw [Usb.setDev_ne _ _ hne]
    exact h.child
  . rw [Usb.setDev_ne _ _ hne]
    exact h.devnum

end Behind

theorem behind_alloc {hub new : Fin 32} {port : Fin 8} {a : Nat} {u : Usb} (h : TableState u)
    (hnew : (new : Nat) = u.gDevIndex) (hlt : hub < u.gDevIndex) (hnum : (u.usbDev hub).devnum = (a : Int))
    : Behind hub new port a (u.alloc new (some hub) port) := by
  have hne : hub ≠ new := TableState.ne_new hnew hlt
  constructor
  . rw [Usb.alloc_new]
    rfl
  . intro j hj
    rw [Usb.alloc_parent hne rfl] at hj
    have hj : Function.update (u.usbDev hub).children port (.dev new) j = .dev new := hj
    by_cases hport : j = port
    . rw [hport]
    . rw [Function.update_of_ne hport] at hj
      rcases h.child hub hlt j with hnull | ⟨k, hk, hklt, -⟩
      . rw [hnull] at hj
        cases hj
      . rw [hk] at hj
        cases hj
        exact absurd hklt (by omega)
  . rw [Usb.devnum_alloc hne]
    exact hnum

theorem findPort_child {parent : UsbDevice} {dev : Fin 32} {n j k : Nat}
    (h : findPort parent dev n j = .ok (some k))
    : ∃ hk : k < 8, parent.children ⟨k, hk⟩ = .dev dev := by
  induction n generalizing j with
  | zero => cases h
  | succ n ih =>
    unfold findPort at h
    split at h
    . next hlt =>
      split at h
      . next hchild =>
        cases h
        exact ⟨hlt, hchild⟩
      . exact ih h
    . cases h

section

variable {σ : Type} {w : EhciWorld σ} {place : Placement} {n m a : Nat} {hub new : Fin 32} {i : Int}
variable {spot : Option (List Nat)} {u : Usb} {s : BusTrace σ}

def Fresh (n : Nat) (hub new : Fin 32) (i : Int) (a : Nat) (u : Usb) : Prop :=
  Scanning n new 0 u ∧ Behind hub new i.toNat a u

theorem Fresh.setDev_links {k : Fin 32} {d : UsbDevice} (h : Fresh n hub new i a u) (hk : k < n)
    (hd : (u.usbDev k).SameLinks d)
    : Fresh n hub new i a (u.setDev k d) :=
  ⟨h.1.setDev_links hk hd, h.2.setDev_links hd⟩

theorem frame_fresh {fits : Bytes 512 → Prop} {k : Fin 32} (hk : k < n)
    : Frame (mainWorld w place fits) (Main (Fresh n hub new i a)) (fun _ t => Routed t) k := by
  apply frame_main
  . exact fun _ h => h.1.index.symm ▸ hk
  . exact fun _ p h => ⟨h.1.setupPacket p, h.2.setupPacket p⟩
  . exact fun _ _ h hd => h.setDev_links hk hd

theorem hubFrame_fresh {fits : Bytes 512 → Prop} (hlt : hub < n)
    : HubFrame w place fits hub a (Fresh n hub new i a) :=
  ⟨frame_fresh hlt, fun h => h.1.index.symm ▸ hlt, fun h => h.2.devnum⟩

theorem scanRule_fresh (hnew : new ≠ 0) (hlt : new < n) (hhub : hub < new)
    : ScanRule (mainWorld w place ConfigFits) (fun _ t => Routed t) new ((new : Int) + 1)
        (Main (Fresh n hub new i a)) (Main (Scanning n new ((new : Int) + 1))) where
  frameA := frame_fresh hlt
  frameB := frame_main_scanning hlt
  parent h hp := by
    rw [h.1.2.2.parent] at hp
    cases hp
    exact frame_fresh (Nat.lt_trans (Fin.lt_def.mp hhub) hlt)
  fault _ h := h.2
  packetsA {u s} _ _ _ _ h hpacket _ _ := by
    refine h.packets (h.1.2.1.index.symm ▸ hlt) ⟨rfl, rfl, rfl, rfl, rfl⟩ rfl hpacket ?_
    exact h.1.2.setDev_links hlt ⟨rfl, rfl, rfl, rfl, rfl⟩
  address h := (scanRule_main hnew hlt).address ⟨⟨h.1.1, h.1.2.1⟩, h.2⟩
  descriptorB {u s} _ h := by
    refine h.packets (h.1.2.index.symm ▸ hlt) ⟨rfl, rfl, rfl, rfl, rfl⟩ rfl id ?_
    exact h.1.2.setDev_links hlt ⟨rfl, rfl, rfl, rfl, rfl⟩

/-- The reset in `usb_scan_device` is one of the port that the device was found at. -/
theorem wp_resetParentPort_fresh (hi : 0 ≤ i ∧ i < usbMaxchildren) (hlt : hub < n)
    (h : Main (Fresh n hub new i a) u (forgetBus s)) (hs : Busy m a (i.toNat + 1) spot s)
    : wp (listeningWorld w place ConfigFits).traced (resetParentPort new)
        (fun _ v t => Main (Fresh n hub new i a) v (forgetBus t) ∧ Busy m a (i.toNat + 1) spot t)
        (fun _ t => Routed (forgetBus t) ∧ Peaceful t) u s := by
  have hbehind := h.1.2.2
  have hparent : DevPtr.dev hub ≠ .null := fun hf => nomatch hf
  unfold resetParentPort
  rw [wp_bind, wp_getDev, hbehind.parent, if_neg hparent, wp_bind, wp_deref_dev, wp_bind, wp_getDev, wp_bind]
  cases hfound : findPort (u.usbDev hub) new (u.usbDev hub).maxchild.toNat 0 with
  | error x => exact ⟨h.2, hs.peaceful⟩
  | ok found =>
    rw [wp_ofExcept_ok]
    cases found with
    | none => exact ⟨h, hs⟩
    | some k =>
      obtain ⟨hk, hchild⟩ := findPort_child hfound
      have hport : (k : Int) = i := by
        have hk : k = i.toNat := hbehind.child _ hchild
        omega
      rw [wp_bind, hport]
      apply wp_post ((hubFrame_fresh hlt).portReset hi h hs)
      rintro r v t hIs
      dsimp only
      split <;> exact hIs

theorem wp_usbScanDevice_busy (hi : 0 ≤ i ∧ i < usbMaxchildren) (hnew : (new : Nat) = n) (hhub : hub < new)
    (han : a ≤ n) (h : Main (Scanning (n + 1) new ((new : Int) + 1)) u (forgetBus s))
    (hbehind : Behind hub new i.toNat a u) (hs : Busy n a (i.toNat + 1) spot s)
    : wp (listeningWorld w place ConfigFits).traced (usbScanDevice new)
        (fun _ v t => Main (Allocated (n + 1) new) v (forgetBus t) ∧ Busy (n + 1) a (i.toNat + 1) spot t)
        (fun _ t => Routed (forgetBus t) ∧ Peaceful t) u s := by
  have hpos : new ≠ 0 := fun hf => absurd (hf ▸ hhub) (Fin.not_lt_zero _)
  have hlt : (new : Nat) < n + 1 := by omega
  have hhublt : (hub : Nat) < n + 1 := by
    have := Fin.lt_def.mp hhub
    omega
  have hbefore : Undisturbed w place ConfigFits (Busy n a (i.toNat + 1) spot) := undisturbed_busy
  have hafter : Undisturbed w place ConfigFits (Busy (n + 1) a (i.toNat + 1) spot) := undisturbed_busy
  apply (scanRule_fresh (i := i) (a := a) hpos hlt hhub).scanDevice_bus
    (C := fun _ v t => Main (Allocated (n + 1) new) v t) hbefore hafter
  . exact fun h hs => wp_resetParentPort_fresh hi hhublt h hs
  . intro u s h hs
    have hn := new.isLt
    have hfits := (h.1.1.pipes new)
    refine wp_usbSetAddress_busy ?_ ?_ han ?_ ?_ hs
    . have := Fin.lt_def.mp hhub
      omega
    . omega
    . rw [Usb.setDev_same]
      exact ⟨hfits.packetSize, hfits.speed⟩
    . rw [Usb.setDev_same, hnew]
  . exact fun tmpbuf hB => (configRule_main hlt).scan hB tmpbuf
  . rintro v t hA hs
    exact ⟨⟨⟨hA.1.1, hA.1.2.1.toAllocated⟩, hA.2⟩, hs.mono (Nat.le_succ n)⟩
  . rintro v t hB hs
    exact ⟨⟨⟨hB.1.1, hB.1.2.toAllocated⟩, hB.2⟩, hs⟩
  . exact fun hC hs => ⟨hC, hs⟩
  . exact h.1.2.devnum
  . apply wp_post (wp_stack_routed h.2)
    rintro _ v t ⟨rfl, ht, hrouted⟩
    refine ⟨rfl, ⟨?_, h.1.2.address (.inl rfl), ?_⟩, hrouted⟩
    . rw [ht]
      exact h.1.1.address hpos (h.1.2.index.symm ▸ hlt) (.inl rfl)
    . exact hbehind.address (Fin.ne_of_lt hhub) 0
  . exact hs

end

/-!
### The hub driver
-/

section

variable {σ : Type} {w : EhciWorld σ} {place : Placement} {n a : Nat} {hub : Fin 32} {i : Int}
variable {spot : Option (List Nat)} {u : Usb} {s : BusTrace σ}

def HubIn (n : Nat) (hub : Fin 32) (a : Nat) (u : Usb) : Prop :=
  Allocated n hub u ∧ (u.usbDev hub).devnum = (a : Int)

theorem hubFrame_hubIn {fits : Bytes 512 → Prop} : HubFrame w place fits hub a (HubIn n hub a) where
  frame := by
    apply frame_main
    . exact fun _ h => h.1.index.symm ▸ h.1.lt
    . exact fun _ p h => ⟨h.1.setupPacket p, h.2⟩
    . intro u d h hd
      refine ⟨h.1.setDev_links h.1.lt hd, ?_⟩
      rw [Usb.setDev_same, hd.devnum]
      exact h.2
  lt h := h.1.index.symm ▸ h.1.lt
  devnum h := h.2

theorem mainWorld_lawful (w : EhciWorld σ) (place : Placement) (fits : Bytes 512 → Prop)
    : Lawful (mainWorld w place fits) :=
  ⟨fun h => (hcdWorld_lawful w place).submit h.1.2⟩

/-- What holds of the table and the bus while a port of `hub` is scanned. -/
def AtPort (hub : Fin 32) (a port : Nat) (spot : Option (List Nat)) (u : Usb) (s : BusTrace σ) : Prop :=
  ∃ n, Main (HubIn n hub a) u (forgetBus s) ∧ Busy n a port spot s

theorem wp_enumeratePort_bus (hi : 0 ≤ i ∧ i < usbMaxchildren) (portstatus : BitVec 16)
    (h : Main (HubIn n hub a) u (forgetBus s)) (hs : Busy n a (i.toNat + 1) spot s)
    : wp (listeningWorld w place ConfigFits).traced (enumeratePort hub i portstatus)
        (fun _ v t => AtPort hub a (i.toNat + 1) spot v t) (fun _ t => Routed (forgetBus t) ∧ Peaceful t)
        u s := by
  obtain ⟨⟨hmain, hhub⟩, hrouted⟩ := id h
  have hindex := hhub.1.index
  have hlt : hub < u.gDevIndex := hindex.symm ▸ hhub.1.lt
  have hlinks : ∀ p ∈ some hub, p < u.gDevIndex := by
    rintro _ ⟨⟩
    exact hlt
  unfold enumeratePort
  rw [wp_bind]
  apply wp_usbAllocNewDevice hmain.index_le hlinks
  . exact fun _ => ⟨n, h, hs⟩
  . intro new port hnew hport
    have halloc := hmain.alloc port hnew hlt
    have hscan := scanning_alloc port hmain.toTableState hnew hlinks
    have hbehind : Behind hub new port a (u.alloc new (some hub) port) :=
      behind_alloc hmain.toTableState hnew hlt hhub.2
    have hporti : (port : Nat) = i.toNat := by
      rw [hport, BitVec.toNat_ofInt]
      have hbound := hi
      simp only [usbMaxchildren] at hbound
      omega
    rw [hporti] at hbehind
    generalize u.alloc new (some hub) port = v at halloc hscan hbehind
    have hhubnew : hub < new := Fin.lt_def.mpr (by omega)
    have hspeed : 0 ≤ portSpeed portstatus ∧ portSpeed portstatus ≤ 2 := by
      unfold portSpeed
      split
      . decide
      . split <;> decide
    have hd : (v.usbDev new).SameLinks { v.usbDev new with speed := portSpeed portstatus } :=
      ⟨rfl, rfl, rfl, rfl, rfl⟩
    rw [hindex] at hscan hnew
    have hstart : Main (Scanning (n + 1) new ((new : Int) + 1))
        (v.setDev new { v.usbDev new with speed := portSpeed portstatus }) (forgetBus s) := by
      refine ⟨⟨?_, hscan.setDev_links hscan.lt hd⟩, hrouted⟩
      exact halloc.setDev_links (hscan.index.symm ▸ hscan.lt) hd fun h => ⟨h.packetSize, hspeed⟩
    have hbehind := hbehind.setDev_links hd
    have han : a ≤ n := by
      have := hmain.devnum hub hlt
      have := hhub.1.lt
      have := hhub.2
      omega
    dsimp only
    rw [wp_bind, wp_modifyDev, wp_bind]
    have hold : Linked fun d : UsbDevice => d.devnum = (a : Int) := by
      intro d d' hd hlinks
      rw [hlinks.devnum]
      exact hd
    apply wp_mono (wp_and (wp_usbScanDevice_busy hi hnew hhubnew han hstart hbehind hs)
      (wp_forget (hold.scanDevice (mainWorld_lawful w place ConfigFits) hhubnew hbehind.devnum)))
    . rintro ret v' t ⟨⟨hmain, hs⟩, hdevnum⟩
      have hin : AtPort hub a (i.toNat + 1) spot v' t := by
        refine ⟨n + 1, ⟨⟨hmain.1.1, ⟨hmain.1.2.table, hmain.1.2.index, ?_⟩, hdevnum⟩, hmain.2⟩, hs⟩
        exact Nat.lt_succ_of_lt hhub.1.lt
      split <;> exact hin
    . exact fun _ _ h => h.1

variable {port : Nat}

theorem AtPort.call {α : Type} {m : UsbM α} (hm : IsHarmless m)
    (hcall : ∀ n, Main (HubIn n hub a) u (forgetBus s) →
      wp (mainWorld w place ConfigFits) m (fun _ v t => Main (HubIn n hub a) v t) (fun _ t => Routed t) u
        (forgetBus s))
    (h : AtPort hub a port spot u s)
    : wp (listeningWorld w place ConfigFits).traced m (fun _ v t => AtPort hub a port spot v t)
        (fun _ t => Routed (forgetBus t) ∧ Peaceful t) u s := by
  obtain ⟨n, hmain, hs⟩ := h
  apply wp_post (undisturbed_busy.and hm hs (hcall n hmain))
  exact fun _ _ _ h => ⟨n, h⟩

theorem wp_hasChild_bus (hi : 0 ≤ i ∧ i < usbMaxchildren) (h : AtPort hub a port spot u s)
    : wp (listeningWorld w place ConfigFits).traced (hasChild hub i) (fun _ v t => AtPort hub a port spot v t)
        (fun _ t => Routed (forgetBus t) ∧ Peaceful t) u s := by
  unfold hasChild
  rw [wp_bind, wp_getDev, dif_pos hi]
  exact h

theorem wp_usbHubPortConnectChange_bus (hi : 0 ≤ i ∧ i < usbMaxchildren)
    (h : AtPort hub a (i.toNat + 1) spot u s)
    : wp (listeningWorld w place ConfigFits).traced (usbHubPortConnectChange hub i)
        (fun _ v t => AtPort hub a (i.toNat + 1) spot v t)
        (fun _ t => Routed (forgetBus t) ∧ Peaceful t) u s := by
  unfold usbHubPortConnectChange
  rw [wp_bind]
  apply wp_post (h.call (Sends.stack _).isHarmless fun n h => hubFrame_hubIn.frame.stack h)
  intro portsts v t h
  rw [wp_bind]
  apply wp_post (h.call (Sends.usbGetPortStatus _).isHarmless fun n h => hubFrame_hubIn.frame.getPortStatus h _)
  rintro ⟨ret, bytes⟩ v t h
  dsimp only
  split
  . exact h
  . rw [wp_bind]
    apply wp_post (h.call (Sends.usbClearPortFeature _ _).isHarmless fun n h =>
      hubFrame_hubIn.frame.clearPortFeature h _ _)
    intro _ v t h
    rw [wp_bind]
    have hstale : wp (listeningWorld w place ConfigFits).traced
        (portIsStale hub i (portStatus (portsts.write 0 bytes)))
        (fun _ v t => AtPort hub a (i.toNat + 1) spot v t)
        (fun _ t => Routed (forgetBus t) ∧ Peaceful t) v t := by
      unfold portIsStale
      split
      . exact h
      . exact wp_hasChild_bus hi h
    apply wp_post hstale
    rintro stale v t ⟨n, h, hs⟩
    split
    . exact ⟨n, h, hs⟩
    . rw [wp_bind]
      apply wp_post (hubFrame_hubIn.portReset hi h hs)
      rintro ⟨ret, _ | status⟩ v t ⟨h, hs⟩
      . exact ⟨n, h, hs⟩
      . exact wp_enumeratePort_bus hi status h hs

theorem wp_hubScanConnection_bus (hi : 0 ≤ i ∧ i < usbMaxchildren) (portchange : BitVec 16)
    (h : AtPort hub a (i.toNat + 1) spot u s)
    : wp (listeningWorld w place ConfigFits).traced (hubScanConnection hub i portchange)
        (fun _ v t => AtPort hub a (i.toNat + 1) spot v t)
        (fun _ t => Routed (forgetBus t) ∧ Peaceful t) u s := by
  unfold hubScanConnection
  split
  . exact wp_usbHubPortConnectChange_bus hi h
  . exact h

theorem wp_hubScanEnable_bus (hi : 0 ≤ i ∧ i < usbMaxchildren) (portstatus portchange : BitVec 16)
    (new : Option (Fin 32)) (h : AtPort hub a (i.toNat + 1) spot u s)
    : wp (listeningWorld w place ConfigFits).traced (hubScanEnable hub i portstatus portchange new)
        (fun _ v t => AtPort hub a (i.toNat + 1) spot v t)
        (fun _ t => Routed (forgetBus t) ∧ Peaceful t) u s := by
  unfold hubScanEnable
  split
  . rw [wp_bind]
    apply wp_post (h.call (Sends.usbClearPortFeature _ _).isHarmless fun n h =>
      hubFrame_hubIn.frame.clearPortFeature h _ _)
    intro _ v t h
    split
    . rw [wp_bind]
      apply wp_post (wp_hasChild_bus hi h)
      intro c v t h
      split
      . exact wp_usbHubPortConnectChange_bus hi h
      . exact h
    . exact h
  . exact h

theorem wp_usbHubScan_bus (hi : 0 ≤ i ∧ i < usbMaxchildren) (h : AtPort hub a (i.toNat + 1) spot u s)
    : wp (listeningWorld w place ConfigFits).traced (usbHubScan hub i)
        (fun _ v t => AtPort hub a (i.toNat + 1) spot v t)
        (fun _ t => Routed (forgetBus t) ∧ Peaceful t) u s := by
  unfold usbHubScan
  rw [wp_bind]
  apply wp_post (h.call (Sends.stack _).isHarmless fun n h => hubFrame_hubIn.frame.stack h)
  intro portsts v t h
  rw [wp_bind]
  apply wp_post (h.call (Sends.usbGetPortStatus _).isHarmless fun n h => hubFrame_hubIn.frame.getPortStatus h _)
  rintro ⟨ret, bytes⟩ v t h
  dsimp only
  split
  . exact h
  . rw [wp_bind]
    apply wp_post (wp_hubScanConnection_bus hi _ h)
    rintro ⟨ret, new⟩ v t h
    dsimp only
    split
    . exact h
    . rw [wp_bind]
      apply wp_post (wp_hubScanEnable_bus hi _ _ new h)
      rintro ⟨ret, new⟩ v t h
      dsimp only
      split
      . exact h
      . rw [wp_bind]
        apply wp_post (h.call (Sends.hubScanClear _ _ _).isHarmless fun n h =>
          hubFrame_hubIn.frame.scanClear h _ _)
        intro c v t h
        split
        . exact h
        . rw [wp_bind]
          apply wp_post (h.call (Sends.hubScanOverCurrent _ _).isHarmless fun n h =>
            hubFrame_hubIn.frame.scanOverCurrent h _)
          intro c v t h
          split
          . exact h
          . rw [wp_bind]
            apply wp_post (h.call (Sends.hubScanClear _ _ _).isHarmless fun n h =>
              hubFrame_hubIn.frame.scanClear h _ _)
            intro c v t h
            split <;> exact h

end
