import PureUsb.Hcd
import PureUsb.Usb.DeviceRanges

/-!
This module contains the queue heads of devices that were enumerated.
-/

open Stateful

theorem decode_qhEndpt2 {d p : UsbDevice} (hportnr : d.portnr = 0) (hnum : 0 ≤ p.devnum ∧ p.devnum ≤ 32)
    : Endpt2.decode (qhEndpt2 d p) = ⟨0, 0, p.devnum.toNat, 0, 1⟩ := by
  have hhub : (BitVec.ofInt 32 p.devnum).toNat = p.devnum.toNat := by
    rw [BitVec.toNat_ofInt]
    omega
  unfold qhEndpt2
  rw [hportnr, decode_endpt2 (by decide) (by omega), hhub]
  rfl

/-- The word that tells the controller about the port of a hub that a device is behind. -/
def UsbDevice.endpt2 (hub : UsbDevice) (port : Fin 8) : Endpt2 where
  smask := 0
  cmask := 0
  hubAddress := hub.devnum.toNat
  port := port + 1
  multiplier := 1

section

variable {σ : Type} {t : UsbTable} {i p : Fin 32}

theorem SoundTable.parent_devnum (h : SoundTable t) (hp : (t i).parent = .dev p)
    : 0 ≤ (t p).devnum ∧ (t p).devnum ≤ 32 := by
  obtain ⟨u, hu, -, rfl⟩ := h
  have hlt := hu.lt_of_parentOf hp
  have hi : i < u.gDevIndex := by
    by_contra hge
    rw [hu.untouched i (by omega)] at hp
    cases hp
  have := hu.devnum p (by omega)
  omega

/--
The second endpoint word names the hub that a device is behind, but never the port: `portnr` stays at 0.
-/
theorem prepareAsync_endpt2_ne {pipe buffer : BitVec 32} {length : Nat} {req : Option (BitVec 32)} {e e' : Ehci}
    {m m' : Dma} {td : Fin 3} (h : TableSeen (deviceWorld σ ConfigFits) t) (hp : (t i).parent = .dev p)
    (hr : (prepareAsync (t i) (parentOf t (t i)) pipe buffer length req).Run memWorld e m
      (.ok (some td, e')) m')
    (port : Fin 8)
    : Endpt2.decode m'.qh.qhEndpt2 = ⟨0, 0, (t p).devnum.toNat, 0, 1⟩ ∧
      Endpt2.decode m'.qh.qhEndpt2 ≠ (t p).endpt2 port := by
  have hsound := h.sound
  have hnum := hsound.parent_devnum hp
  obtain ⟨-, q, hq, hendpt2⟩ := prepareAsync_endpts hr
  have hparent : parentOf t (t i) = some (t p) := by
    unfold parentOf
    rw [hp]
  rw [hparent] at hq
  cases hq
  obtain ⟨u, -, hu, rfl⟩ := hsound
  have hdecode := decode_qhEndpt2 (hu i).portnr hnum
  rw [hendpt2, hdecode]
  refine ⟨rfl, fun hf => ?_⟩
  exact absurd (congrArg Endpt2.port hf) (Nat.succ_ne_zero port).symm

theorem TableSeen.ranges (h : TableSeen (deviceWorld σ ConfigFits) t) (hi : (t i).devnum ≠ -1)
    : (t i).Ranges := by
  obtain ⟨u, htable, hu, rfl⟩ := h.sound
  apply (hu i).ranges
  by_cases hlt : i < u.gDevIndex
  . have := htable.devnum i hlt
    omega
  . rw [htable.untouched i (by omega)] at hi
    exact absurd rfl hi

end

/-!
### Runs with concrete devices
-/

def fastHandler (config : List Byte) (o : HcdOp) (changed : Bool) : Except Stop (HcdAns o) × Bool :=
  match o with
  | .submit x =>
    match plainHandler true config (.submit x) changed with
    | (.ok y, t) => (.ok (if x.dev = 0 then { y with dev := { y.dev with speed := usbSpeedHigh } } else y), t)
    | (.error e, t) => (.error e, t)
  | o => plainHandler true config o changed

theorem fastHandler_offers (config : List Byte)
    : Prog.Offers (fastHandler config) (deviceWorld Bool ConfigFits) := by
  have hplain : Prog.Offers (plainHandler true config) (deviceWorld Bool ConfigFits) :=
    plainHandler_offers true config fun _ h => h.resolve_left (by decide)
  intro o s y t h
  cases o with
  | submit x =>
    unfold fastHandler at h
    dsimp only at h
    generalize hr : plainHandler true config (.submit x) s = r at h
    obtain ⟨e | z, t'⟩ := r
    . obtain ⟨h, -⟩ := Prod.mk.inj h
      cases h
    . obtain ⟨h, -⟩ := Prod.mk.inj h
      cases h
      have hz : z.Allowed x := hplain _ _ _ _ hr
      show Submitted.Allowed x _
      split
      . refine ⟨hz.length_le, hz.actLen_le, ?_, .inr rfl, hz.dev.toggle⟩
        rw [hz.dev.eq]
      . exact hz
  | stack n => exact hplain _ _ _ _ h
  | parsing dev buffer => exact hplain _ _ _ _ h
  | copyingHub dev buffer => exact hplain _ _ _ _ h

theorem run_prepareAsync (d p : UsbDevice) (pipe : BitVec 32)
    : ∃ e m, (prepareAsync d (some p) pipe 0 0 none).Run memWorld .boot ⟨.zero, .zero, fun _ => .zero⟩
        (.ok (some 0, e)) m :=
  ⟨_, _, run_exec memHandler_serves (prepareAsync d (some p) pipe 0 0 none) _ _⟩

/-- A device with full speed behind the first port of the root hub. -/
theorem full_speed_port_is_zero
    : ∃ (u : Usb) (s : Bool) (e : Ehci) (m : Dma), TableRun (deviceWorld Bool ConfigFits) u s ∧
        (u.usbDev 0).speed = usbSpeedHigh ∧ (u.usbDev 1).speed = usbSpeedFull ∧
        (u.usbDev 0).children 0 = .dev 1 ∧ (u.usbDev 1).parent = .dev 0 ∧
        (prepareAsync (u.usbDev 1) (parentOf u.usbDev (u.usbDev 1)) (usbRcvbulkpipe (u.usbDev 1) 1) 0 0
          none).Run memWorld .boot ⟨.zero, .zero, fun _ => .zero⟩ (.ok (some 0, e)) m ∧
        Endpt2.decode m.qh.qhEndpt2 ≠ (u.usbDev 0).endpt2 0 := by
  obtain ⟨r, v, t, hr, hp⟩ :=
    exists_run_of_check (fastHandler_offers (interfaceList 1)) (m := enumerateFirst) (u := bootUsb) (s := true)
      (p := fun _ v _ => (v.usbDev 0).speed = usbSpeedHigh ∧ (v.usbDev 1).speed = usbSpeedFull ∧
        (v.usbDev 0).children 0 = .dev 1 ∧ (v.usbDev 1).parent = .dev 0 ∧ (v.usbDev 1).portnr = 0 ∧
        (v.usbDev 0).devnum = 1) (by decide +kernel)
  obtain ⟨hspeed0, hspeed1, hchild, hparent, hportnr, hnum⟩ := of_decide_eq_true hp
  obtain ⟨e, m, hprepare⟩ := run_prepareAsync (v.usbDev 1) (v.usbDev 0) (usbRcvbulkpipe (v.usbDev 1) 1)
  have hparentOf : parentOf v.usbDev (v.usbDev 1) = some (v.usbDev 0) := by
    unfold parentOf
    rw [hparent]
  rw [← hparentOf] at hprepare
  refine ⟨v, t, e, m, tableRun_enumerateFirst hr, hspeed0, hspeed1, hchild, hparent, hprepare, ?_⟩
  obtain ⟨-, q, hq, hendpt2⟩ := prepareAsync_endpts hprepare
  rw [hparentOf] at hq
  cases hq
  rw [hendpt2, decode_qhEndpt2 hportnr (by rw [hnum]; decide)]
  exact fun hf => absurd (congrArg Endpt2.port hf) (Nat.succ_ne_zero 0).symm

theorem prepareAsync_endpt2_ne_full_speed
    : ∃ (u : Usb) (s : Bool) (e : Ehci) (m : Dma), TableRun (deviceWorld Bool ConfigFits) u s ∧
        (prepareAsync (u.usbDev 1) (parentOf u.usbDev (u.usbDev 1)) 0 0 0 none).Run memWorld .boot
          ⟨.zero, .zero, fun _ => .zero⟩ (.ok (some 0, e)) m ∧
        Endpt2.decode m.qh.qhEndpt2 = ⟨0, 0, (u.usbDev 0).devnum.toNat, 0, 1⟩ ∧
        Endpt2.decode m.qh.qhEndpt2 ≠ (u.usbDev 0).endpt2 0 := by
  obtain ⟨r, v, t, hr, hp⟩ :=
    exists_run_of_check (fastHandler_offers (interfaceList 1)) (m := enumerateFirst) (u := bootUsb) (s := true)
      (p := fun _ v _ => (v.usbDev 1).parent = .dev 0) (by decide +kernel)
  have hparent := of_decide_eq_true hp
  have hrun := tableRun_enumerateFirst hr
  obtain ⟨e, m, hprepare⟩ := run_prepareAsync (v.usbDev 1) (v.usbDev 0) 0
  have hparentOf : parentOf v.usbDev (v.usbDev 1) = some (v.usbDev 0) := by
    unfold parentOf
    rw [hparent]
  rw [← hparentOf] at hprepare
  exact ⟨v, t, e, m, hrun, hprepare, prepareAsync_endpt2_ne (.between hrun) hparent hprepare 0⟩

/-- A configuration with one endpoint, a bulk one for IN with packets of `size` bytes. -/
def bulkConfig (size : BitVec 16) : List Byte :=
  [9, 2, 25, 0, 1, 1, 0, 0x80, 50, 9, 4, 0, 0, 1, 0xff, 0, 0, 0, 7, 5, 0x81, 2, size.setWidth 8,
    (size >>> 8).setWidth 8, 0]

theorem exists_prepared_bulk {size : Int}
    (h : ∃ (r : Int × Option (Fin 32)) (u : Usb) (s : Bool),
      enumerateFirst.Run (deviceWorld Bool ConfigFits) bootUsb true (.ok (r, u)) s ∧
        (u.usbDev 1).devnum = 2 ∧ (u.usbDev 1).maxPacketSize 1 true = size)
    : ∃ (u : Usb) (s : Bool) (e : Ehci) (m : Dma), TableRun (deviceWorld Bool ConfigFits) u s ∧
        (u.usbDev 1).Ranges ∧ (u.usbDev 1).maxPacketSize 1 true = size ∧
        (prepareAsync (u.usbDev 1) (some (u.usbDev 0)) (usbRcvbulkpipe (u.usbDev 1) 1) 0 0 none).Run memWorld
          .boot ⟨.zero, .zero, fun _ => .zero⟩ (.ok (some 0, e)) m ∧
        (u.usbDev 1).PipeTo 1 true (usbRcvbulkpipe (u.usbDev 1) 1) := by
  obtain ⟨r, u, s, hr, hnum, hsize⟩ := h
  have hrun := tableRun_enumerateFirst hr
  have hranges : (u.usbDev 1).Ranges := by
    apply TableSeen.ranges (.between hrun)
    rw [hnum]
    decide
  obtain ⟨e, m, hprepare⟩ := run_prepareAsync (u.usbDev 1) (u.usbDev 0) (usbRcvbulkpipe (u.usbDev 1) 1)
  exact ⟨u, s, e, m, hrun, hranges, hsize, hprepare, .rcvbulk⟩

/-- A device whose packets are announced with 4096 bytes: the size ends up in the reload value. -/
theorem wide_packets_spill
    : ∃ (u : Usb) (s : Bool) (e : Ehci) (m : Dma), TableRun (deviceWorld Bool ConfigFits) u s ∧
        (u.usbDev 1).Ranges ∧ (u.usbDev 1).maxPacketSize 1 true = 4096 ∧
        (prepareAsync (u.usbDev 1) (some (u.usbDev 0)) (usbRcvbulkpipe (u.usbDev 1) 1) 0 0 none).Run memWorld
          .boot ⟨.zero, .zero, fun _ => .zero⟩ (.ok (some 0, e)) m ∧
        Endpt1.decode m.qh.qhEndpt1 ≠ (u.usbDev 1).endpt1 1 true := by
  obtain ⟨r, v, t, hr, hp⟩ :=
    exists_run_of_check (fastHandler_offers (bulkConfig 0x1000)) (m := enumerateFirst) (u := bootUsb) (s := true)
      (p := fun _ v _ => (v.usbDev 1).devnum = 2 ∧ (v.usbDev 1).maxPacketSize 1 true = 4096)
      (by decide +kernel)
  obtain ⟨u, s, e, m, hrun, hranges, hsize, hprepare, hpipe⟩ :=
    exists_prepared_bulk ⟨r, v, t, hr, of_decide_eq_true hp⟩
  refine ⟨u, s, e, m, hrun, hranges, hsize, hprepare, ?_⟩
  rw [(prepareAsync_endpts hprepare).1]
  intro hf
  have hlt := (decode_qhEndpt1_iff hranges hpipe).mp hf
  rw [hsize] at hlt
  exact absurd hlt (by decide)

theorem prepareAsync_endpt1_iff_bulk
    : ∃ (u : Usb) (s : Bool) (e : Ehci) (m : Dma), TableRun (deviceWorld Bool ConfigFits) u s ∧
        (u.usbDev 1).maxPacketSize 1 true = 512 ∧
        (prepareAsync (u.usbDev 1) (some (u.usbDev 0)) (usbRcvbulkpipe (u.usbDev 1) 1) 0 0 none).Run memWorld
          .boot ⟨.zero, .zero, fun _ => .zero⟩ (.ok (some 0, e)) m ∧
        Endpt1.decode m.qh.qhEndpt1 = (u.usbDev 1).endpt1 1 true := by
  obtain ⟨r, v, t, hr, hp⟩ :=
    exists_run_of_check (fastHandler_offers (bulkConfig 512)) (m := enumerateFirst) (u := bootUsb) (s := true)
      (p := fun _ v _ => (v.usbDev 1).devnum = 2 ∧ (v.usbDev 1).maxPacketSize 1 true = 512)
      (by decide +kernel)
  obtain ⟨u, s, e, m, hrun, hranges, hsize, hprepare, hpipe⟩ :=
    exists_prepared_bulk ⟨r, v, t, hr, of_decide_eq_true hp⟩
  refine ⟨u, s, e, m, hrun, hsize, hprepare, ?_⟩
  apply (prepareAsync_endpt1_iff hranges hpipe hprepare).mpr
  rw [hsize]
  decide
