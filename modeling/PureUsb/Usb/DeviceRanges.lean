import PureUsb.Ehci.QueueHead
import PureUsb.Usb.DeviceTable
import PureUsb.Usb.Lemmas.Trace

/-!
This module contains the ranges of what enumeration leaves in the structures of devices, in every transfer that
is handed to the driver on the way.
-/

open Stateful

namespace UsbDevice

/-- What a queue head takes from the structure of a device, whether it is in use or not. -/
structure Bounded (d : UsbDevice) : Prop where
  portnr : d.portnr = 0
  fits : d.PipeFits
  sizeIn : ∀ ep, 0 ≤ d.epmaxpacketin ep ∧ d.epmaxpacketin ep < 65536
  sizeOut : ∀ ep, 0 ≤ d.epmaxpacketout ep ∧ d.epmaxpacketout ep < 65536

variable {d d' : UsbDevice}

theorem bounded_fresh : Bounded .fresh := by
  have hzero : (0 : Int) ≤ 0 ∧ (0 : Int) < 65536 := by decide
  exact ⟨rfl, by decide, fun _ => hzero, fun _ => hzero⟩

theorem Bounded.congr (h : d.Bounded) (hportnr : d'.portnr = d.portnr) (hspeed : d'.speed = d.speed)
    (hpacket : d'.maxpacketsize = d.maxpacketsize) (hin : d'.epmaxpacketin = d.epmaxpacketin)
    (hout : d'.epmaxpacketout = d.epmaxpacketout)
    : d'.Bounded := by
  refine ⟨hportnr.trans h.portnr, ⟨?_, ?_⟩, ?_, ?_⟩
  . rw [hpacket]
    exact h.fits.packetSize
  . rw [hspeed]
    exact h.fits.speed
  . rw [hin]
    exact h.sizeIn
  . rw [hout]
    exact h.sizeOut

theorem Bounded.ranges (h : d.Bounded) (hnum : 0 ≤ d.devnum ∧ d.devnum ≤ 32) : d.Ranges :=
  ⟨hnum, h.fits, h.sizeIn, h.sizeOut⟩

theorem Bounded.afterTransfer (h : d.Bounded) {pipe : BitVec 32} (hd : d.AfterTransfer pipe d') : d'.Bounded := by
  have hspeed : 0 ≤ d'.speed ∧ d'.speed ≤ 2 := by
    rcases hd.speed with hspeed | hspeed
    . rw [hspeed]
      exact h.fits.speed
    . rw [hspeed]
      decide
  have heq := hd.eq
  generalize d'.speed = speed at heq hspeed
  rw [heq]
  exact ⟨h.portnr, ⟨h.fits.packetSize, hspeed⟩, h.sizeIn, h.sizeOut⟩

theorem sizesFrom_bounded {sizes sizes' : Fin 16 → Int} (h : SizesFrom sizes sizes')
    (hsizes : ∀ ep, 0 ≤ sizes ep ∧ sizes ep < 65536)
    : ∀ ep, 0 ≤ sizes' ep ∧ sizes' ep < 65536 := by
  intro ep
  rcases h ep with heq | hlt
  . rw [heq]
    exact hsizes ep
  . exact hlt

theorem Bounded.withPackets (h : d.Bounded) (descriptor : Bytes 18) {maxpacketsize : Int}
    {epmaxpacketin epmaxpacketout : Fin 16 → Int}
    (hpacket : IsPacketSize d.maxpacketsize → IsPacketSize maxpacketsize)
    (hin : SizesFrom d.epmaxpacketin epmaxpacketin) (hout : SizesFrom d.epmaxpacketout epmaxpacketout)
    : (d.withPackets descriptor maxpacketsize epmaxpacketin epmaxpacketout).Bounded :=
  ⟨h.portnr, ⟨hpacket h.fits.packetSize, h.fits.speed⟩, sizesFrom_bounded hin h.sizeIn, sizesFrom_bounded hout h.sizeOut⟩

end UsbDevice

theorem portSpeed_range (portstatus : BitVec 16) : 0 ≤ portSpeed portstatus ∧ portSpeed portstatus ≤ 2 := by
  unfold portSpeed
  split
  . decide
  . split
    . decide
    . decide

def Usb.Bounded (u : Usb) : Prop := ∀ i, (u.usbDev i).Bounded

section

variable {u : Usb} {dev new : Fin 32} {d : UsbDevice}

theorem Usb.Bounded.setDev (h : u.Bounded) (hd : d.Bounded) : (u.setDev dev d).Bounded := by
  intro i
  by_cases hi : i = dev
  . subst hi
    rw [Usb.setDev_same]
    exact hd
  . rw [Usb.setDev_ne _ _ hi]
    exact h i

theorem Usb.Bounded.alloc (h : u.Bounded) (new : Fin 32) (parent : Option (Fin 32)) (port : Fin 8)
    : (u.alloc new parent port).Bounded := by
  intro i
  by_cases hi : i = new
  . subst hi
    rw [Usb.alloc_new]
    exact (h i).congr rfl rfl rfl rfl rfl
  . obtain ⟨_, heq⟩ : ∃ _, (u.alloc new parent port).usbDev i = _ := Usb.alloc_old hi
    rw [heq]
    exact (h i).congr rfl rfl rfl rfl rfl

/-- The table of a state in which no store has run over a structure. -/
def SoundTable (t : UsbTable) : Prop := ∃ u : Usb, TableState u ∧ u.Bounded ∧ u.usbDev = t

end

/-!
### Transfers
-/

section

variable {σ : Type} {fits : Bytes 512 → Prop} {K : Usb → Prop} {u : Usb} {s : σ × List (HcdEvent σ)}
variable {n : Nat} {dev : Fin 32} {num : Int}

def Sent (s : σ × List (HcdEvent σ)) : Prop :=
  ∀ e ∈ s.2, ∀ x, e.op = .submit x → SoundTable x.usbDev

/-- Every transfer was handed down with a table in order, and `K` holds. -/
structure Sending (K : Usb → Prop) (u : Usb) (s : σ × List (HcdEvent σ)) : Prop where
  table : K u
  bounded : u.Bounded
  sent : Sent s

theorem Sent.append (h : Sent s) {e : HcdEvent σ} {t : σ × List (HcdEvent σ)} (ht : t.2 = s.2 ++ [e])
    (he : ∀ x, e.op = .submit x → SoundTable x.usbDev)
    : Sent t := by
  intro e' he'
  rw [ht] at he'
  rcases List.mem_append.mp he' with he' | he'
  . exact h e' he'
  . rw [List.mem_singleton.mp he']
    exact he

theorem Sending.mono {K' : Usb → Prop} (h : Sending K u s) (hK : K u → K' u) : Sending K' u s :=
  ⟨hK h.table, h.bounded, h.sent⟩

theorem Sending.setDev (h : Sending K u s) {d : UsbDevice} (hd : (u.usbDev dev).Bounded → d.Bounded)
    (hK : K (u.setDev dev d))
    : Sending K (u.setDev dev d) s :=
  ⟨hK, h.bounded.setDev (hd (h.bounded dev)), h.sent⟩

theorem wp_usbControlMsg_sending {pipe : BitVec 32} {request requesttype : Byte}
    {value index size : BitVec 16} {data : Buffer} {timeout : Nat} (h : Sending K u s)
    (hK : ∀ v, K v → TableState v)
    (hpacket : ∀ p, K { u with setupPacket := p })
    (hlinks : ∀ v d, K v → (v.usbDev dev).SameLinks d → K (v.setDev dev d))
    (htimeout : timeout ≠ 0)
    : wp (deviceWorld σ fits).traced (usbControlMsg dev pipe request requesttype value index data size timeout)
        (fun r v t => Sending K v t ∧ r.1 ≤ size.toNat) (fun _ t => Sent t) u s := by
  rw [wp_usbControlMsg htimeout]
  intro setup x t
  have hwaiting : K (u.waiting dev setup) := hlinks _ _ (hpacket _) ⟨rfl, rfl, rfl, rfl, rfl⟩
  have hbounded : (u.waiting dev setup).Bounded := by
    have hd := (h.bounded dev).afterTransfer ((UsbDevice.AfterTransfer.refl pipe _).withResult usbStNotProc
      (u.usbDev dev).actLen)
    exact Usb.Bounded.setDev (u := { u with setupPacket := setup }) h.bounded hd
  have hsound : SoundTable x.usbDev := ⟨_, hK _ hwaiting, hbounded, rfl⟩
  have hsent : ∀ r, t.2 = s.2 ++ [⟨s.1, .submit x, r⟩] → Sent t := by
    intro r ht
    apply h.sent.append ht
    rintro y ⟨⟩
    exact hsound
  constructor
  . rintro r ⟨hr, ht⟩
    have hr : r.Allowed x := hr
    refine ⟨⟨?_, ?_, hsent _ ht⟩, hr.result_le⟩
    . exact hlinks _ _ hwaiting hr.dev.sameLinks
    . exact hbounded.setDev ((hbounded dev).afterTransfer hr.dev)
  . rintro r ⟨-, ht⟩
    exact hsent _ ht

theorem frame_sending (hK : ∀ v, K v → TableState v) (hpacket : ∀ v p, K v → K { v with setupPacket := p })
    (hlinks : ∀ v d, K v → (v.usbDev dev).SameLinks d → K (v.setDev dev d))
    : Frame (deviceWorld σ fits).traced (Sending K) (fun _ t => Sent t) dev where
  stack h := by
    intro t
    constructor
    . rintro _ ⟨-, ht⟩
      exact ⟨h.table, h.bounded, h.sent.append ht fun _ hx => nomatch hx⟩
    . rintro _ ⟨hf, -⟩
      exact hf.elim
  msg h _ htimeout _ := wp_usbControlMsg_sending h hK (fun p => hpacket _ p h.table) hlinks htimeout
  texts _ _ _ _ _ h := by
    apply h.setDev
    . exact fun hd => hd.congr rfl rfl rfl rfl rfl
    . exact hlinks _ _ h.table ⟨rfl, rfl, rfl, rfl, rfl⟩

theorem frame_sending_scanning {p : Fin 32} (hp : p < n)
    : Frame (deviceWorld σ fits).traced (Sending (Scanning n dev num)) (fun _ t => Sent t) p :=
  frame_sending (fun _ h => h.table) (fun _ p h => h.setupPacket p) fun _ _ h hd => h.setDev_links hp hd

theorem frame_sending_allocated {p : Fin 32} (hp : p < n)
    : Frame (deviceWorld σ fits).traced (Sending (Allocated n dev)) (fun _ t => Sent t) p :=
  frame_sending (fun _ h => h.table) (fun _ p h => h.setupPacket p) fun _ _ h hd => h.setDev_links hp hd

theorem Sending.address (h : Sending (Scanning n dev num) u s) {num' : Int}
    (hnum : num' = 0 ∨ num' = (dev : Int) + 1)
    : Sending (Scanning n dev num') (u.setDev dev { u.usbDev dev with devnum := num' }) s :=
  ⟨h.table.address hnum, h.bounded.setDev ((h.bounded dev).congr rfl rfl rfl rfl rfl), h.sent⟩

theorem scanRule_sending (hlt : dev < n)
    : ScanRule (deviceWorld σ fits).traced (fun _ t => Sent t) dev ((dev : Int) + 1)
        (Sending (Scanning n dev 0)) (Sending (Scanning n dev ((dev : Int) + 1))) where
  frameA := frame_sending_scanning hlt
  frameB := frame_sending_scanning hlt
  parent h hp := by
    have := h.table.table.lt_of_parentOf hp
    apply frame_sending_scanning
    omega
  fault _ h := h.sent
  packetsA _ _ _ _ h hpacket hin hout := by
    apply h.setDev
    . exact fun hd => hd.withPackets _ hpacket hin hout
    . exact h.table.setDev_links hlt ⟨rfl, rfl, rfl, rfl, rfl⟩
  address h := by
    unfold usbSetAddress
    rw [wp_bind, wp_getDev, wp_bind]
    apply wp_post (wp_usbControlMsg_sending (h.address (.inr rfl)) ?_ ?_ ?_ (by decide)) fun _ _ _ h => h.1
    . exact fun _ h => h.table
    . exact fun p => (h.table.address (.inr rfl)).setupPacket p
    . exact fun _ _ h hd => h.setDev_links hlt hd
  descriptorB _ h := by
    apply h.setDev
    . exact fun hd => hd.congr rfl rfl rfl rfl rfl
    . exact h.table.setDev_links hlt ⟨rfl, rfl, rfl, rfl, rfl⟩

theorem configRule_sending (hlt : dev < n)
    : ConfigRule (deviceWorld σ ConfigFits).traced (fun _ t => Sent t) dev
        (Sending (Scanning n dev num)) (Sending (Allocated n dev)) where
  frame := frame_sending_allocated hlt
  read h := by
    unfold usbGetDescriptor
    rw [wp_bind, wp_getDev]
    apply wp_post (wp_usbControlMsg_sending h ?_ ?_ ?_ (by decide)) fun _ _ _ h => h.1
    . exact fun _ h => h.table
    . exact fun p => h.table.setupPacket p
    . exact fun _ _ h hd => h.setDev_links hlt hd
  parse buffer h := by
    apply wp_usbParseConfig_fits h.table.config
    intro t
    constructor
    . rintro _ ⟨hfits, ht⟩
      have hsent : Sent t := h.sent.append ht fun _ hx => nomatch hx
      refine ⟨rfl, hfits, fun _ => hsent, fun _ c _ => ⟨h.table.parsed c, ?_, hsent⟩⟩
      exact h.bounded.setDev ((h.bounded dev).congr rfl rfl rfl rfl rfl)
    . rintro _ ⟨hf, -⟩
      exact hf.elim
  fault _ h := h.sent
  packets _ _ h hin hout := by
    apply h.setDev
    . exact fun hd => hd.withPackets _ id hin hout
    . exact h.table.setDev_links hlt ⟨rfl, rfl, rfl, rfl, rfl⟩
  setConfiguration h htimeout := by
    apply wp_post (wp_usbControlMsg_sending h ?_ ?_ ?_ htimeout) fun _ _ _ h => h.1
    . exact fun _ h => h.table
    . exact fun p => h.table.setupPacket p
    . exact fun _ _ h hd => h.setDev_links hlt hd
  toggle h := by
    apply h.setDev
    . exact fun hd => hd.congr rfl rfl rfl rfl rfl
    . exact h.table.setDev_links hlt ⟨rfl, rfl, rfl, rfl, rfl⟩

theorem wp_usbScanDevice_sending (h : Sending (Scanning n dev ((dev : Int) + 1)) u s)
    : wp (deviceWorld σ ConfigFits).traced (usbScanDevice dev) (fun _ v t => Sending (Allocated n dev) v t)
        (fun _ t => Sent t) u s := by
  have hlt := h.table.lt
  apply (scanRule_sending hlt).scanDevice h.table.devnum
  . intro t
    constructor
    . rintro _ ⟨-, ht⟩
      have h : Sending (Scanning n dev ((dev : Int) + 1)) u t :=
        ⟨h.table, h.bounded, h.sent.append ht fun _ hx => nomatch hx⟩
      exact ⟨rfl, h.address (.inl rfl)⟩
    . rintro _ ⟨hf, -⟩
      exact hf.elim
  . exact fun h => h.mono fun hscan => hscan.toAllocated
  . exact fun h => h.mono fun hscan => hscan.toAllocated
  . exact fun tmpbuf h => (configRule_sending hlt).scan h tmpbuf

theorem frame_sending_inTable
    : Frame (deviceWorld σ fits).traced (Sending (InTable dev)) (fun _ t => Sent t) dev := by
  apply frame_sending
  . exact fun _ h => h.1
  . exact fun _ p h => InTable.setupPacket h p
  . exact fun _ _ h hd => InTable.setDev_links h hd

theorem wp_usbAllocNewDevice_sending {parent : Option (Fin 32)} {port : Nat} (h : Sending TableState u s)
    (hparent : ∀ p ∈ parent, p < u.gDevIndex)
    : wp (deviceWorld σ fits).traced (usbAllocNewDevice parent port)
        (fun r v t => Sending TableState v t ∧ u.gDevIndex ≤ v.gDevIndex ∧
          ∀ new ∈ r, Sending (Scanning v.gDevIndex new ((new : Int) + 1)) v t)
        (fun _ t => Sent t) u s := by
  apply wp_usbAllocNewDevice h.table.index_le hparent fun _ => ⟨h, Nat.le_refl _, fun _ h => nomatch h⟩
  intro new i hnew _
  have hbounded := h.bounded.alloc new parent i
  refine ⟨⟨h.table.alloc hnew hparent, hbounded, h.sent⟩, Nat.le_succ _, ?_⟩
  rintro _ ⟨⟩
  exact ⟨scanning_alloc i h.table hnew hparent, hbounded, h.sent⟩

theorem wp_enumeratePort_sending {port : Int} {portstatus : BitVec 16} (h : Sending (InTable dev) u s)
    : wp (deviceWorld σ ConfigFits).traced (enumeratePort dev port portstatus)
        (fun _ v t => Sending (InTable dev) v t) (fun _ t => Sent t) u s := by
  have hlt := h.table.2
  unfold enumeratePort
  rw [wp_bind]
  apply wp_post (wp_usbAllocNewDevice_sending (h.mono And.left) ?_)
  . rintro (_ | new) v t ⟨htable, hle, hscan⟩
    . exact htable.mono fun htable => ⟨htable, Nat.lt_of_lt_of_le hlt hle⟩
    . have hscan := hscan new rfl
      rw [wp_bind, wp_modifyDev, wp_bind]
      have hspeed := hscan.setDev (d := { v.usbDev new with speed := portSpeed portstatus })
        (fun hd => ⟨hd.portnr, ⟨hd.fits.packetSize, portSpeed_range _⟩, hd.sizeIn, hd.sizeOut⟩)
        (hscan.table.setDev_links hscan.table.lt ⟨rfl, rfl, rfl, rfl, rfl⟩)
      apply wp_post (wp_usbScanDevice_sending hspeed)
      intro ret v' t' h'
      have hin : Sending (InTable dev) v' t' := by
        refine ⟨⟨h'.table.table, ?_⟩, h'.bounded, h'.sent⟩
        rw [h'.table.index]
        exact Nat.lt_of_lt_of_le hlt hle
      split
      . exact hin
      . exact hin
  . rintro _ ⟨⟩
    exact hlt

theorem wp_usbHubScan_sending {i : Int} (hi : 0 ≤ i ∧ i < usbMaxchildren) (h : Sending (InTable dev) u s)
    : wp (deviceWorld σ ConfigFits).traced (usbHubScan dev i) (fun _ v t => Sending (InTable dev) v t)
        (fun _ t => Sent t) u s := by
  have hrule : HubRule (deviceWorld σ ConfigFits).traced (fun _ t => Sent t) dev i (Sending (InTable dev)) :=
    ⟨frame_sending_inTable, hi, fun _ h => wp_enumeratePort_sending h⟩
  exact hrule.hubScan h

theorem wp_usbHubInit_sending (h : Sending (InTable dev) u s)
    : wp (deviceWorld σ fits).traced (usbHubInit dev) (fun _ v t => Sending (InTable dev) v t)
        (fun _ t => Sent t) u s := by
  apply frame_sending_inTable.hubInit ?_ h
  intro u s buffer h
  apply wp_storeHubDescriptor_fits (h.table.1.ports dev)
  intro t
  constructor
  . rintro _ ⟨hfits, ht⟩
    refine ⟨rfl, hfits, fun d hports => ⟨⟨?_, h.table.2⟩, ?_, h.sent.append ht fun _ hx => nomatch hx⟩⟩
    . exact h.table.1.setDev h.table.2 (h.table.1.devnum dev h.table.2) rfl rfl hports
    . exact h.bounded.setDev ((h.bounded dev).congr rfl rfl rfl rfl rfl)
  . rintro _ ⟨hf, -⟩
    exact hf.elim

theorem wp_usbScanRoothub_sending (h : Sending TableState u s)
    : wp (deviceWorld σ ConfigFits).traced usbScanRoothub (fun _ v t => Sending TableState v t)
        (fun _ t => Sent t) u s := by
  unfold usbScanRoothub
  rw [wp_bind]
  apply wp_post (wp_usbAllocNewDevice_sending h ?_)
  rintro (_ | root) v t ⟨htable, -, hscan⟩
  . exact htable
  . rw [wp_bind]
    apply wp_post (wp_usbScanDevice_sending (hscan root rfl))
    intro ret v t h
    have h : Sending TableState v t := h.mono fun halloc => halloc.table
    split
    . exact h
    . rw [wp_bind]
      apply wp_usbIsHub (fun _ => h.sent)
      intro hub
      split
      . exact h
      . exact h
  . rintro _ ⟨⟩

end

/-!
### Tables that a transfer can meet
-/

/-- The table between the calls of `TableRun`, and in the transfers of a call after them. -/
inductive TableSeen {σ : Type} (w : HcdWorld σ) : UsbTable → Prop where
  | between {u : Usb} {s : σ} : TableRun w u s → TableSeen w u.usbDev
  | scanRoothub {u : Usb} {s : σ} {r : Except Stop ((Int × Option (Fin 32)) × Usb)}
      {t : σ × List (HcdEvent σ)} {e : HcdEvent σ} {x : Transfer} :
      TableRun w u s → usbScanRoothub.Run w.traced u (s, []) r t → e ∈ t.2 → e.op = .submit x →
      TableSeen w x.usbDev
  | hubInit {u : Usb} {s : σ} {dev : Fin 32} {r : Except Stop (Int × Usb)} {t : σ × List (HcdEvent σ)}
      {e : HcdEvent σ} {x : Transfer} :
      TableRun w u s → dev < u.gDevIndex → (usbHubInit dev).Run w.traced u (s, []) r t → e ∈ t.2 →
      e.op = .submit x → TableSeen w x.usbDev
  | hubScan {u : Usb} {s : σ} {dev : Fin 32} {i : Int} {r : Except Stop ((Int × Option (Fin 32)) × Usb)}
      {t : σ × List (HcdEvent σ)} {e : HcdEvent σ} {x : Transfer} :
      TableRun w u s → dev < u.gDevIndex → 0 ≤ i ∧ i < usbMaxchildren →
      (usbHubScan dev i).Run w.traced u (s, []) r t → e ∈ t.2 → e.op = .submit x →
      TableSeen w x.usbDev

section

variable {σ : Type} {u : Usb} {s : σ} {t : UsbTable}

theorem sending_nil {K : Usb → Prop} (h : K u) (hu : u.Bounded) : Sending K u (s, []) :=
  ⟨h, hu, fun _ he => nomatch he⟩

theorem bounded_of_traced {K : Usb → Prop} {α : Type} {m : UsbM α} {a : α} {v : Usb} {s' : σ}
    (h : wp (deviceWorld σ ConfigFits).traced m (fun _ v t => Sending K v t) (fun _ t => Sent t) u (s, []))
    (hr : m.Run (deviceWorld σ ConfigFits) u s (.ok (a, v)) s')
    : v.Bounded := by
  obtain ⟨l, hr⟩ := World.exists_traced_run hr []
  exact (wp_run h hr).bounded

theorem TableRun.bounded (h : TableRun (deviceWorld σ ConfigFits) u s) : u.Bounded := by
  induction h with
  | init hr =>
    have hfresh := (wp_run (E := fun _ _ => True) wp_usbInit hr).2.2.1
    intro i
    rw [hfresh i]
    exact UsbDevice.bounded_fresh
  | alloc hu hparent hr ih =>
    apply bounded_of_traced (K := TableState) (wp_post (wp_usbAllocNewDevice_sending ?_ hparent) ?_) hr
    . exact sending_nil hu.state ih
    . exact fun _ _ _ h => h.1
  | scanRoothub hu hr ih => exact bounded_of_traced (wp_usbScanRoothub_sending (sending_nil hu.state ih)) hr
  | hubInit hu hlt hr ih => exact bounded_of_traced (wp_usbHubInit_sending (sending_nil ⟨hu.state, hlt⟩ ih)) hr
  | hubScan hu hlt hi hr ih =>
    exact bounded_of_traced (wp_usbHubScan_sending hi (sending_nil ⟨hu.state, hlt⟩ ih)) hr

theorem sent_of_traced {K : Usb → Prop} {α : Type} {m : UsbM α} {r : Except Stop (α × Usb)}
    {t : σ × List (HcdEvent σ)}
    (h : wp (deviceWorld σ ConfigFits).traced m (fun _ v t => Sending K v t) (fun _ t => Sent t) u (s, []))
    (hr : m.Run (deviceWorld σ ConfigFits).traced u (s, []) r t)
    : Sent t := by
  cases r with
  | ok r => exact (wp_run h hr).sent
  | error e => exact wp_run_error h hr

theorem TableSeen.sound (h : TableSeen (deviceWorld σ ConfigFits) t) : SoundTable t := by
  cases h with
  | between hu => exact ⟨_, hu.state, hu.bounded, rfl⟩
  | scanRoothub hu hr he hx =>
    exact sent_of_traced (wp_usbScanRoothub_sending (sending_nil hu.state hu.bounded)) hr _ he _ hx
  | hubInit hu hlt hr he hx =>
    exact sent_of_traced (wp_usbHubInit_sending (sending_nil ⟨hu.state, hlt⟩ hu.bounded)) hr _ he _ hx
  | hubScan hu hlt hi hr he hx =>
    exact sent_of_traced (wp_usbHubScan_sending hi (sending_nil ⟨hu.state, hlt⟩ hu.bounded)) hr _ he _ hx

end
