import PureUsb.Main.Lemmas.Invariant

/-!
This module contains the calls that `main` makes, and how the invariant survives them.
-/

open Stateful

/-!
### Enumeration
-/

section

variable {σ : Type} {w : EhciWorld σ} {place : Placement} {n : Nat} {dev : Fin 32} {num : Int}
variable {u : Usb} {s : MainState σ}

theorem wp_usbControlMsg_main {fits : Bytes 512 → Prop} {I : Usb → Prop} {pipe : BitVec 32}
    {request requesttype : Byte} {value index size : BitVec 16} {data : Buffer} {timeout : Nat}
    (hlt : ∀ u, I u → dev < u.gDevIndex)
    (hpacket : ∀ u p, I u → I { u with setupPacket := p })
    (hlinks : ∀ u d, I u → (u.usbDev dev).SameLinks d → I (u.setDev dev d))
    (h : Main I u s) (hpipe : (u.usbDev dev).Addresses pipe) (htimeout : timeout ≠ 0)
    (hrequest : request ≠ 5)
    : wp (mainWorld w place fits)
        (usbControlMsg dev pipe request requesttype value index data size timeout)
        (fun _ v t => Main I v t) (fun _ t => Routed t) u s := by
  obtain ⟨⟨hmain, hI⟩, hs⟩ := h
  have hlt := hlt u hI
  refine wp_post (wp_usbControlMsg_routed (K := fun v k => MainInv v k ∧ I v) htimeout hs
    (hmain.routes hlt hpipe) fun d hd hfits => ?_) fun _ _ _ hr => hr.1
  rw [rootdevNext_of_ne fun hf => hrequest (DevRequest.requesttype_of_typeReq hf).2]
  refine ⟨?_, hlinks _ _ (hpacket u _ hI) hd⟩
  exact (hmain.setupPacket _).setDev_links hlt hd hfits

theorem Main.parsed (h : Main (Scanning n dev num) u s) (c : Bytes 1002)
    : Main (Allocated n dev) (u.setDev dev ((u.usbDev dev).withParsed c)) s := by
  obtain ⟨⟨hmain, hI⟩, hs⟩ := h
  have hlt : dev < u.gDevIndex := hI.index.symm ▸ hI.lt
  have hd : MainInv (u.setDev dev ((u.usbDev dev).withParsed c)) s.1.1.rootdev := by
    refine hmain.setDev hlt (hmain.devnum dev hlt) ?_ rfl rfl (hmain.ports dev) ?_
    . rintro rfl
      exact hmain.root
    . exact ⟨(hmain.pipes dev).packetSize, (hmain.pipes dev).speed⟩
  exact ⟨⟨hd, hd.toTableState, hI.index, hI.lt⟩, hs⟩

theorem Main.packets {I : Usb → Prop} (h : Main I u s) (hlt : dev < u.gDevIndex)
    {d : UsbDevice} (hd : (u.usbDev dev).SameLinks d) (hspeed : d.speed = (u.usbDev dev).speed)
    (hpacket : IsPacketSize (u.usbDev dev).maxpacketsize → IsPacketSize d.maxpacketsize)
    (hI : I (u.setDev dev d))
    : Main I (u.setDev dev d) s := by
  refine ⟨⟨h.1.1.setDev_links hlt hd fun hfits => ⟨hpacket hfits.packetSize, ?_⟩, hI⟩, h.2⟩
  rw [hspeed]
  exact hfits.speed

theorem configRule_main (hlt : dev < n)
    : ConfigRule (mainWorld w place ConfigFits) (fun _ t => Routed t) dev (Main (Scanning n dev num))
        (Main (Allocated n dev)) where
  frame := frame_main_allocated hlt
  read h := by
    unfold usbGetDescriptor
    rw [wp_bind, wp_getDev]
    refine wp_usbControlMsg_main ?_ ?_ ?_ h .rcv (by decide) (by decide)
    . exact fun _ h => h.index.symm ▸ hlt
    . exact fun _ p h => h.setupPacket p
    . exact fun _ _ h hd => h.setDev_links hlt hd
  parse {u s} buffer h := by
    apply wp_usbParseConfig_fits h.1.2.config
    intro t
    constructor
    . rintro x ⟨⟨hfits, ht⟩, htrace⟩
      have ht : t.1 = s.1 := ht
      have hevent : Event.Routed (⟨s.1, .parsing dev buffer, .ok x⟩ : HcdEvent (Ehci × σ)) := trivial
      have hrouted : Routed t := h.2.append hevent htrace
      refine ⟨rfl, hfits, fun _ => hrouted, fun _ c _ => ?_⟩
      have hparsed := h.parsed c
      refine ⟨?_, hrouted⟩
      rw [ht]
      exact hparsed.1
    . rintro e ⟨⟨-, hf⟩, -⟩
      exact hf.elim
  fault _ h := h.2
  packets {u s} _ _ h _ _ := by
    refine h.packets (h.1.2.index.symm ▸ hlt) ⟨rfl, rfl, rfl, rfl, rfl⟩ rfl id ?_
    exact h.1.2.setDev_links hlt ⟨rfl, rfl, rfl, rfl, rfl⟩
  setConfiguration h htimeout := by
    refine wp_usbControlMsg_main ?_ ?_ ?_ h .snd htimeout (by decide)
    . exact fun _ h => h.index.symm ▸ hlt
    . exact fun _ p h => h.setupPacket p
    . exact fun _ _ h hd => h.setDev_links hlt hd
  toggle {u s} h := by
    refine h.packets (h.1.2.index.symm ▸ hlt) ⟨rfl, rfl, rfl, rfl, rfl⟩ rfl id ?_
    exact h.1.2.setDev_links hlt ⟨rfl, rfl, rfl, rfl, rfl⟩

theorem scanRule_main (hdev : dev ≠ 0) (hlt : dev < n)
    : ScanRule (mainWorld w place ConfigFits) (fun _ t => Routed t) dev ((dev : Int) + 1)
        (Main (Scanning n dev 0)) (Main (Scanning n dev ((dev : Int) + 1))) where
  frameA := frame_main_scanning hlt
  frameB := frame_main_scanning hlt
  parent h hp := by
    have := h.1.2.table.lt_of_parentOf hp
    apply frame_main_scanning
    omega
  fault _ h := h.2
  packetsA {u s} _ _ _ _ h hpacket _ _ := by
    refine h.packets (h.1.2.index.symm ▸ hlt) ⟨rfl, rfl, rfl, rfl, rfl⟩ rfl hpacket ?_
    exact h.1.2.setDev_links hlt ⟨rfl, rfl, rfl, rfl, rfl⟩
  address {u s} h := by
    have hlt' : dev < u.gDevIndex := h.1.2.index.symm ▸ hlt
    have hmain := h.1.1.address hdev hlt' (.inr rfl)
    have hscan := h.1.2.address (.inr rfl)
    unfold usbSetAddress
    rw [wp_bind, wp_getDev, wp_bind]
    have hpipe := controlPipe_snddefctrl (hmain.pipes dev)
    refine wp_post (wp_usbControlMsg_routed
      (K := fun v k => MainInv v k ∧ Scanning n dev ((dev : Int) + 1) v) (by decide) h.2
      ⟨hpipe.type, fun hf => absurd hf hdev, fun _ => ?_⟩ fun d hd hfits => ?_) fun _ _ _ hr => hr.1
    . refine ⟨?_, hmain.parents dev hdev hlt'⟩
      unfold backend
      rw [hpipe.device (by decide), h.1.1.rootdev]
      rfl
    . have hnext : ∀ setup, rootdevNext dev setup s.1.1.rootdev = s.1.1.rootdev :=
        fun _ => if_neg fun hf => hdev hf.1
      rw [hnext]
      exact ⟨(hmain.setupPacket _).setDev_links hlt' hd hfits, (hscan.setupPacket _).setDev_links hlt hd⟩
  descriptorB {u s} _ h := by
    refine h.packets (h.1.2.index.symm ▸ hlt) ⟨rfl, rfl, rfl, rfl, rfl⟩ rfl id ?_
    exact h.1.2.setDev_links hlt ⟨rfl, rfl, rfl, rfl, rfl⟩

end

section

variable {σ : Type} {w : EhciWorld σ} {place : Placement} {n : Nat} {dev : Fin 32}
variable {u : Usb} {s : MainState σ}

/-- The root hub is being scanned and has no address yet. -/
structure RootScan (u : Usb) (rootdev : Int) : Prop where
  rootdev : rootdev = 0
  scanning : Scanning 1 0 0 u
  pipes : ∀ i, (u.usbDev i).PipeFits

namespace RootScan

variable {rootdev : Int} {d : UsbDevice}

theorem routes (h : RootScan u rootdev) {pipe : BitVec 32} (hpipe : (u.usbDev 0).Addresses pipe)
    : Routes (u.usbDev 0) 0 rootdev pipe := by
  have hnum : 0 ≤ (u.usbDev 0).devnum ∧ (u.usbDev 0).devnum < 128 := by
    rw [h.scanning.devnum]
    decide
  refine ⟨(hpipe.controlPipe (h.pipes 0) hnum).type, fun _ => ?_, fun hf => absurd rfl hf⟩
  unfold backend
  rw [hpipe.device (h.pipes 0) hnum, h.scanning.devnum, h.rootdev]
  rfl

theorem setDev_links (h : RootScan u rootdev) (hd : (u.usbDev 0).SameLinks d)
    (hpipe : (u.usbDev 0).PipeFits → d.PipeFits)
    : RootScan (u.setDev 0 d) rootdev := by
  refine ⟨h.rootdev, h.scanning.setDev_links (by decide) hd, fun i => ?_⟩
  by_cases hi : i = 0
  . rw [hi, Usb.setDev_same]
    exact hpipe (h.pipes 0)
  . rw [Usb.setDev_ne _ _ hi]
    exact h.pipes i

theorem setupPacket (h : RootScan u rootdev) (p : DevRequest)
    : RootScan { u with setupPacket := p } rootdev :=
  ⟨h.rootdev, h.scanning.setupPacket p, h.pipes⟩

theorem addressed (h : RootScan u rootdev)
    : MainInv (u.setDev 0 { u.usbDev 0 with devnum := 1 }) 1 ∧
      Scanning 1 0 1 (u.setDev 0 { u.usbDev 0 with devnum := 1 }) := by
  have hscan : Scanning 1 0 1 (u.setDev 0 { u.usbDev 0 with devnum := 1 }) :=
    h.scanning.address (.inr rfl)
  refine ⟨⟨hscan.table, rfl, hscan.devnum, ?_, fun i => ?_⟩, hscan⟩
  . intro i hi hlt
    rw [hscan.index] at hlt
    exact absurd (Fin.ext (Nat.lt_one_iff.mp hlt)) hi
  . by_cases hi : i = 0
    . rw [hi, Usb.setDev_same]
      exact ⟨(h.pipes 0).packetSize, (h.pipes 0).speed⟩
    . rw [Usb.setDev_ne _ _ hi]
      exact h.pipes i

end RootScan

theorem rootdevNext_setAddress (rootdev : Int)
    : rootdevNext 0 ⟨0, usbReqSetAddress, BitVec.ofInt 16 1, 0, 0⟩ rootdev = 1 := rfl

theorem frame_rootScan {fits : Bytes 512 → Prop}
    : Frame (mainWorld w place fits) (fun v t => RootScan v t.1.1.rootdev ∧ Routed t)
        (fun _ t => Routed t) 0 := by
  apply frame_routed
  . exact fun _ _ p h => h.setupPacket p
  . exact fun _ _ _ h hd hfits => h.setDev_links hd hfits
  . exact fun h hpipe => h.routes hpipe

theorem scanRule_root
    : ScanRule (mainWorld w place ConfigFits) (fun _ t => Routed t) 0 1
        (fun v t => RootScan v t.1.1.rootdev ∧ Routed t) (Main (Scanning 1 0 1)) where
  frameA := frame_rootScan
  frameB := frame_main_scanning (by decide)
  parent h hp := by
    have := h.1.scanning.table.lt_of_parentOf hp
    exact absurd this (Fin.not_lt_zero _)
  fault _ h := h.2
  packetsA _ _ _ _ h hpacket _ _ :=
    ⟨h.1.setDev_links ⟨rfl, rfl, rfl, rfl, rfl⟩ fun hfits => ⟨hpacket hfits.packetSize, hfits.speed⟩,
      h.2⟩
  address {u s} h := by
    obtain ⟨hmain, hscan⟩ := h.1.addressed
    generalize u.setDev 0 { u.usbDev 0 with devnum := 1 } = v at hmain hscan
    unfold usbSetAddress
    rw [wp_bind, wp_getDev, wp_bind, hscan.devnum]
    have hpipe := controlPipe_snddefctrl (hmain.pipes 0)
    have hroute : Routes (v.usbDev 0) 0 s.1.1.rootdev (usbSnddefctrl (v.usbDev 0)) := by
      refine ⟨hpipe.type, fun _ => ?_, fun hf => absurd rfl hf⟩
      unfold backend
      rw [hpipe.device (by decide), h.1.rootdev]
      rfl
    refine wp_post (wp_usbControlMsg_routed (K := fun v k => MainInv v k ∧ Scanning 1 0 1 v)
      (by decide) h.2 hroute fun d hd hfits => ?_) fun _ _ _ hr => hr.1
    rw [rootdevNext_setAddress]
    have hlt : (0 : Fin 32) < v.gDevIndex := by
      rw [hscan.index]
      decide
    exact ⟨(hmain.setupPacket _).setDev_links hlt hd hfits, (hscan.setupPacket _).setDev_links hscan.lt hd⟩
  descriptorB {u s} _ h := by
    refine h.packets (by rw [h.1.2.index]; decide) ⟨rfl, rfl, rfl, rfl, rfl⟩ rfl id ?_
    exact h.1.2.setDev_links (by decide) ⟨rfl, rfl, rfl, rfl, rfl⟩

theorem wp_stack_routed {fits : Bytes 512 → Prop} {k : Nat} (hs : Routed s)
    : wp (mainWorld w place fits) (Stateful.ask (HcdOp.stack k))
        (fun _ v t => v = u ∧ t.1 = s.1 ∧ Routed t) (fun _ t => Routed t) u s := by
  intro t
  constructor
  . rintro x ⟨⟨-, ht⟩, htrace⟩
    have hevent : Event.Routed (⟨s.1, .stack k, .ok x⟩ : HcdEvent (Ehci × σ)) := trivial
    exact ⟨rfl, ht, hs.append hevent htrace⟩
  . rintro e ⟨⟨-, hf⟩, -⟩
    exact hf.elim

theorem wp_usbScanDevice_main (hdev : dev ≠ 0) (h : Main (Scanning n dev ((dev : Int) + 1)) u s)
    : wp (mainWorld w place ConfigFits) (usbScanDevice dev) (fun _ v t => Main (Allocated n dev) v t)
        (fun _ t => Routed t) u s := by
  have hlt := h.1.2.lt
  have hfailed : ∀ {num v} {t : MainState σ}, Main (Scanning n dev num) v t → Main (Allocated n dev) v t :=
    fun h => ⟨⟨h.1.1, h.1.2.toAllocated⟩, h.2⟩
  apply (scanRule_main hdev hlt).scanDevice h.1.2.devnum
  . apply wp_post (wp_stack_routed h.2)
    rintro _ v t ⟨rfl, ht, hrouted⟩
    refine ⟨rfl, ⟨?_, h.1.2.address (.inl rfl)⟩, hrouted⟩
    rw [ht]
    exact h.1.1.address hdev (h.1.2.index.symm ▸ hlt) (.inl rfl)
  . exact hfailed
  . exact hfailed
  . exact fun tmpbuf hB => (configRule_main hlt).scan hB tmpbuf

theorem wp_usbScanDevice_root (h : Scanning 1 0 1 u) (hpipes : ∀ i, (u.usbDev i).PipeFits)
    (hrootdev : s.1.1.rootdev = 0) (hs : Routed s)
    : wp (mainWorld w place ConfigFits) (usbScanDevice 0)
        (fun r v t => (0 ≤ r → Main (Allocated 1 0) v t) ∧ Routed t) (fun _ t => Routed t) u s := by
  have hneg : ¬(0 : Int) ≤ -1 := by decide
  apply scanRule_root.scanDevice h.devnum
  . apply wp_post (wp_stack_routed hs)
    rintro _ v t ⟨rfl, ht, hrouted⟩
    refine ⟨rfl, ⟨?_, h.address (.inl rfl), fun i => ?_⟩, hrouted⟩
    . rw [ht]
      exact hrootdev
    . by_cases hi : i = 0
      . rw [hi, Usb.setDev_same]
        exact ⟨(hpipes 0).packetSize, (hpipes 0).speed⟩
      . rw [Usb.setDev_ne _ _ hi]
        exact hpipes i
  . exact fun hA => ⟨fun hf => absurd hf hneg, hA.2⟩
  . exact fun hB => ⟨fun hf => absurd hf hneg, hB.2⟩
  . exact fun tmpbuf hB => wp_post ((configRule_main (by decide)).scan hB tmpbuf)
      fun _ _ _ hC => ⟨fun _ => hC, hC.2⟩

/-!
### Calls
-/

theorem wp_enumeratePort_main {port : Int} {portstatus : BitVec 16} (h : Main (InTable dev) u s)
    : wp (mainWorld w place ConfigFits) (enumeratePort dev port portstatus)
        (fun _ v t => Main (InTable dev) v t) (fun _ t => Routed t) u s := by
  obtain ⟨⟨hmain, htable, hlt⟩, hs⟩ := h
  unfold enumeratePort
  rw [wp_bind]
  have hlinks : ∀ p ∈ some dev, p < u.gDevIndex := by
    rintro _ ⟨⟩
    exact hlt
  apply wp_usbAllocNewDevice hmain.index_le hlinks
  . exact fun _ => ⟨⟨hmain, htable, hlt⟩, hs⟩
  . intro new i hnew _
    have halloc := hmain.alloc i hnew hlt
    have hscan := scanning_alloc i htable hnew hlinks
    have hnonzero : new ≠ 0 := by
      rintro rfl
      rw [← hnew] at hlt
      exact absurd hlt (Nat.not_lt_zero _)
    generalize u.alloc new (some dev) i = v at halloc hscan
    dsimp only
    rw [wp_bind, wp_modifyDev, wp_bind]
    have hspeed : 0 ≤ portSpeed portstatus ∧ portSpeed portstatus ≤ 2 := by
      unfold portSpeed
      split
      . decide
      . split <;> decide
    have hd : (v.usbDev new).SameLinks { v.usbDev new with speed := portSpeed portstatus } :=
      ⟨rfl, rfl, rfl, rfl, rfl⟩
    have hstart : Main (Scanning (u.gDevIndex + 1) new ((new : Int) + 1))
        (v.setDev new { v.usbDev new with speed := portSpeed portstatus }) s := by
      refine ⟨⟨?_, hscan.setDev_links hscan.lt hd⟩, hs⟩
      refine halloc.setDev_links (hscan.index.symm ▸ hscan.lt) hd fun h => ⟨h.packetSize, hspeed⟩
    apply wp_post (wp_usbScanDevice_main hnonzero hstart)
    intro ret v' t h
    have hin : Main (InTable dev) v' t := by
      refine ⟨⟨h.1.1, h.1.1.toTableState, ?_⟩, h.2⟩
      rw [h.1.2.index]
      exact Nat.lt_succ_of_lt hlt
    split <;> exact hin

theorem frame_main_inTable {fits : Bytes 512 → Prop}
    : Frame (mainWorld w place fits) (Main (InTable dev)) (fun _ t => Routed t) dev := by
  apply frame_main
  . exact fun _ h => h.2
  . intro u p h
    have h : Allocated u.gDevIndex dev u := ⟨h.1, rfl, h.2⟩
    exact ⟨(h.setupPacket p).table, h.lt⟩
  . exact fun _ _ h hd => ⟨h.1.setDev_links h.2 hd, h.2⟩

theorem wp_usbHubScan_main {i : Int} (hi : 0 ≤ i ∧ i < usbMaxchildren) (h : Main (InTable dev) u s)
    : wp (mainWorld w place ConfigFits) (usbHubScan dev i) (fun _ v t => Main (InTable dev) v t)
        (fun _ t => Routed t) u s := by
  have hrule : HubRule (mainWorld w place ConfigFits) (fun _ t => Routed t) dev i
      (Main (InTable dev)) :=
    ⟨frame_main_inTable, hi, fun _ h => wp_enumeratePort_main h⟩
  exact hrule.hubScan h

theorem wp_usbHubInit_main {fits : Bytes 512 → Prop} (h : Main (InTable dev) u s)
    : wp (mainWorld w place fits) (usbHubInit dev) (fun _ v t => Main (InTable dev) v t)
        (fun _ t => Routed t) u s := by
  refine frame_main_inTable.hubInit (fun {u s} buffer h => ?_) h
  obtain ⟨⟨hmain, htable, hlt⟩, hs⟩ := h
  apply wp_storeHubDescriptor_fits (hmain.ports dev)
  intro t
  constructor
  . rintro x ⟨⟨hfits, ht⟩, htrace⟩
    have ht : t.1 = s.1 := ht
    have hevent : Event.Routed (⟨s.1, .copyingHub dev buffer, .ok x⟩ : HcdEvent (Ehci × σ)) := trivial
    refine ⟨rfl, hfits, fun d hports => ?_⟩
    have hset : MainInv (u.setDev dev { u.usbDev dev with
        hubdescriptor := d, maxchild := (buffer 2).toNat }) t.1.1.rootdev := by
      rw [ht]
      refine hmain.setDev hlt (hmain.devnum dev hlt) ?_ rfl rfl hports ?_
      . rintro rfl
        exact hmain.root
      . exact ⟨(hmain.pipes dev).packetSize, (hmain.pipes dev).speed⟩
    exact ⟨⟨hset, hset.toTableState, hlt⟩, hs.append hevent htrace⟩
  . rintro e ⟨⟨-, hf⟩, -⟩
    exact hf.elim

theorem wp_usbScanRoothub_main (h : TableState u) (hindex : u.gDevIndex = 0)
    (hpipes : ∀ i, (u.usbDev i).PipeFits) (hrootdev : s.1.1.rootdev = 0) (hs : Routed s)
    : wp (mainWorld w place ConfigFits) usbScanRoothub
        (fun r v t => (0 ≤ r.1 → r.2.isSome → MainInv v t.1.1.rootdev) ∧ Routed t)
        (fun _ t => Routed t) u s := by
  have hlinks : ∀ p ∈ (none : Option (Fin 32)), p < u.gDevIndex := by
    rintro _ ⟨⟩
  unfold usbScanRoothub
  rw [wp_bind]
  apply wp_usbAllocNewDevice h.index_le hlinks
  . exact fun _ => ⟨fun hf => absurd (show (0 : Int) ≤ -1 from hf) (by decide), hs⟩
  . intro new i hnew _
    have hzero : new = 0 := Fin.ext (hnew.trans hindex)
    subst hzero
    have hscan := scanning_alloc i h hnew hlinks
    rw [hindex] at hscan
    have hfits : ∀ j, ((u.alloc 0 none i).usbDev j).PipeFits := by
      intro j
      by_cases hj : j = 0
      . subst hj
        rw [Usb.alloc_new]
        exact ⟨(hpipes 0).packetSize, (hpipes 0).speed⟩
      . rw [Usb.alloc_ne hj (Option.some_ne_none j).symm]
        exact hpipes j
    dsimp only
    rw [wp_bind]
    apply wp_post (wp_usbScanDevice_root hscan hfits hrootdev hs)
    rintro ret v t ⟨hmain, hrouted⟩
    split
    . next hneg => exact ⟨fun hf => absurd (show (0 : Int) ≤ ret from hf) (by omega), hrouted⟩
    . next hpos =>
      rw [wp_bind]
      apply wp_usbIsHub fun _ => hrouted
      intro hub
      split
      . exact ⟨(fun _ hf => nomatch hf), hrouted⟩
      . exact ⟨fun _ _ => (hmain (by omega)).1.1, hrouted⟩

end
