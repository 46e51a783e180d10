import PureUsb.Usb.ChangeNotes
import PureUsb.Usb.Lemmas.Children

/-!
This module contains what a call of `usb_hub_port_connect_change` does to the device table.
-/

open Stateful

def ChangePath.slots : ChangePath → Nat
  | .scanned _ => 1
  | _ => 0

/-- The hub `dev` has the children `c`, and `n` slots are in use. -/
structure HubAt (dev : Fin 32) (n : Nat) (c : Fin 8 → DevPtr) (u : Usb) : Prop extends
    HasChildren dev c u where
  index : u.gDevIndex = n

/--
With `n` slots in use and the children `c`: the way through the call, what it returns, what it stores in
`*child`, the slots in use and the children afterwards.
-/
inductive Connected (port : Int) (n : Nat) (c : Fin 8 → DevPtr)
    : ChangePath → Int → Option (Fin 32) → Nat → (Fin 8 → DevPtr) → Prop where
  | failed {path : ChangePath} {ret : Int} :
      path.slots = 0 → ret < 0 → Connected port n c path ret none n c
  | nothing : Connected port n c .nothing 0 none n c
  | lost {ret : Int} (new : Fin 32) (p : Fin 8) :
      (new : Nat) = n → (p : Int) = port → ret < 0 →
      Connected port n c (.scanned ret) ret none (n + 1) (Function.update c p (.dev new))
  | found {ret : Int} (new : Fin 32) (p : Fin 8) :
      (new : Nat) = n → (p : Int) = port → 0 ≤ ret →
      Connected port n c (.scanned ret) 1 (some new) (n + 1) (Function.update c p (.dev new))

section

variable {σ : Type} {w : HcdWorld σ} {dev new : Fin 32} {port : Int} {n : Nat} {c : Fin 8 → DevPtr}
variable {u : Usb} {s : σ}

theorem HubAt.setDev (h : HubAt dev n c u) {k : Fin 32} {d : UsbDevice}
    (hd : d.children = (u.usbDev k).children)
    : HubAt dev n c (u.setDev k d) :=
  ⟨h.toHasChildren.setDev hd, h.index⟩

theorem HubAt.alloc (h : HubAt dev n c u) (hnew : (new : Nat) = n) (p : Fin 8)
    : HubAt dev (n + 1) (Function.update c p (.dev new)) (u.alloc new (some dev) p) := by
  have hlt := h.lt
  have hindex := h.index
  have hne : dev ≠ new := Fin.ne_of_val_ne (by omega)
  refine ⟨⟨?_, Nat.lt_succ_of_lt hlt, ?_⟩, ?_⟩
  . have := new.isLt
    simp only [Usb.alloc_gDevIndex, usbMaxDevice]
    omega
  . rw [Usb.alloc_parent hne rfl]
    unfold Usb.withChild
    rw [h.children]
  . rw [Usb.alloc_gDevIndex, hindex]

theorem keptByScan_hubAt (hlt : dev < new) : KeptByScan new (HubAt dev n c) where
  packet p h := ⟨(keptByScan_hasChildren hlt).packet p h.toHasChildren, h.index⟩
  setDev h hd := h.setDev hd
  parsed h ht := ⟨(keptByScan_hasChildren hlt).parsed h.toHasChildren ht, h.index⟩

theorem frame_hubAt (hw : Lawful w) (p : Fin 32)
    : Frame w (fun v _ => HubAt dev n c v) (fun _ _ => True) p := by
  apply frame_table hw
  . intro u _ h
    exact ⟨⟨h.index_le, h.lt, h.children⟩, h.index⟩
  . intro u d h hd
    exact h.setDev hd.children

theorem wp_hasChild_port {I : Usb → Prop} (h : I u)
    : wp w (hasChild dev port) (fun _ v _ => I v ∧ 0 ≤ port ∧ port < usbMaxchildren) (fun _ _ => True) u s := by
  unfold hasChild
  rw [wp_bind, wp_getDev]
  split
  . next hport => exact ⟨h, hport⟩
  . trivial

theorem wp_portIsStale {I : Usb → Prop} (h : I u) (portstatus : BitVec 16)
    : wp w (portIsStale dev port portstatus)
        (fun stale v _ => I v ∧
          ((stale = true ∧ portstatus &&& usbPortStatConnection = 0) ∨ (0 ≤ port ∧ port < usbMaxchildren)))
        (fun _ _ => True) u s := by
  unfold portIsStale
  split
  . next hcond => exact ⟨h, .inl ⟨rfl, hcond.1⟩⟩
  . apply wp_post (wp_hasChild_port h)
    rintro _ _ _ ⟨h, hport⟩
    exact ⟨h, .inr hport⟩

theorem wp_hubPortReset_fails {I : Usb → σ → Prop} {E : Stop → σ → Prop} (hframe : Frame w I E dev)
    (h : I u s) (port : Int)
    : wp w (hubPortReset dev port) (fun r v t => I v t ∧ (r.2 = none → r.1 < 0)) E u s := by
  unfold hubPortReset
  rw [wp_bind]
  apply wp_post (hframe.stack h)
  intro portsts u s h
  rw [wp_bind]
  apply wp_post (hframe.portResetTries port maxTries h)
  rintro (_ | status) u s h
  . exact ⟨h, fun _ => show (-1 : Int) < 0 by decide⟩
  . rw [wp_bind]
    apply wp_post (hframe.clearPortFeature h _ _)
    intro _ _ _ h
    exact ⟨h, fun hf => nomatch hf⟩

theorem wp_pathedEnumerate (hw : Lawful w) (hport : 0 ≤ port ∧ port < usbMaxchildren)
    (h : HubAt dev n c u) (portstatus : BitVec 16)
    : wp w (pathedEnumerate dev port portstatus)
        (fun r v _ => ∃ m c', Connected port n c r.2 r.1.1 r.1.2 m c' ∧ HubAt dev m c' v)
        (fun _ _ => True) u s := by
  have hlt := h.lt
  have hindex := h.index
  unfold pathedEnumerate
  rw [wp_bind]
  apply wp_usbAllocNewDevice h.index_le
  . rintro _ ⟨⟩
    exact hlt
  . exact fun _ => ⟨n, c, .failed rfl (show (-1 : Int) < 0 by decide), h⟩
  . intro new p hnew hp
    have hp : (p : Int) = port := by
      simp only [usbMaxchildren] at hport
      rw [BitVec.toNat_ofInt] at hp
      omega
    have hnew : (new : Nat) = n := by omega
    rw [wp_bind, wp_modifyDev, wp_bind]
    have h := (h.alloc hnew p).setDev (k := new)
      (d := { (u.alloc new (some dev) p).usbDev new with speed := portSpeed portstatus }) rfl
    have hdev : dev < new := Fin.lt_def.mpr (by omega)
    apply wp_post ((keptByScan_hubAt hdev).scanDevice hw h)
    intro ret v t h
    split
    . next hret => exact ⟨_, _, .lost new p hnew hp hret, h⟩
    . next hret => exact ⟨_, _, .found new p hnew hp (by omega), h⟩

theorem wp_pathedChange (hw : Lawful w) (h : HubAt dev n c u)
    : wp w (pathedChange dev port)
        (fun r v _ => ∃ m c', Connected port n c r.2 r.1.1 r.1.2 m c' ∧ HubAt dev m c' v)
        (fun _ _ => True) u s := by
  have hframe : Frame w (fun v _ => HubAt dev n c v) (fun _ _ => True) dev := frame_hubAt hw dev
  unfold pathedChange
  rw [wp_bind]
  apply wp_post (hframe.stack h)
  intro portsts u s h
  rw [wp_bind]
  apply wp_post (hframe.getPortStatus h _)
  rintro ⟨ret, bytes⟩ u s h
  dsimp only
  split
  . next hret => exact ⟨n, c, .failed rfl hret, h⟩
  . rw [wp_bind]
    apply wp_post (hframe.clearPortFeature h _ _)
    intro _ u s h
    rw [wp_bind]
    apply wp_post (wp_portIsStale h _)
    rintro stale u s ⟨h, hstale⟩
    split
    . exact ⟨n, c, .nothing, h⟩
    . next hgo =>
      have hport := hstale.resolve_left hgo
      rw [wp_bind]
      apply wp_post (wp_hubPortReset_fails hframe h _)
      rintro ⟨ret, _ | portstatus⟩ u s ⟨h, hret⟩
      . exact ⟨n, c, .failed rfl (hret rfl), h⟩
      . apply wp_pathedEnumerate hw hport h

/-!
### Connections that fail
-/

/--
What a call that failed leaves of the table: all of it, unless `usb_scan_device` failed. Then a slot is
used for good and is the child at the port.
-/
def LeftByFailure (dev : Fin 32) (port : Int) (u : Usb) (path : ChangePath) (v : Usb) : Prop :=
  v.gDevIndex = u.gDevIndex + path.slots ∧
  ∀ p : Fin 8, (v.usbDev dev).children p =
    if (p : Int) = port ∧ path.slots = 1 then .dev (Fin.ofNat 32 u.gDevIndex)
    else (u.usbDev dev).children p

theorem Connected.left {path : ChangePath} {ret : Int} {child : Option (Fin 32)} {m : Nat}
    {c' : Fin 8 → DevPtr} (h : Connected port n c path ret child m c') (hret : ret < 0)
    : child = none ∧ m = n + path.slots ∧
      ∀ p : Fin 8, c' p = if (p : Int) = port ∧ path.slots = 1 then .dev (Fin.ofNat 32 n) else c p := by
  cases h with
  | failed hslots =>
    simp [hslots]
  | nothing => exact absurd hret (by decide)
  | lost new q hnew hq =>
    have hdev : Fin.ofNat 32 n = new := by
      apply Fin.ext
      simp [← hnew]
    simp only [ChangePath.slots, hdev, and_true, true_and]
    intro p
    have hport : (p : Int) = port ↔ p = q := by omega
    simp only [Function.update_apply, hport]
  | found => exact absurd hret (by decide)

/--
A failed connection leaves the table as it was, but for the slot that was allocated if it was
`usb_scan_device` that failed.
-/
theorem pathedChange_failed (hw : Lawful w) {v : Usb} {t : σ} {ret : Int} {child : Option (Fin 32)}
    {path : ChangePath} (hle : u.gDevIndex ≤ usbMaxDevice) (hlt : dev < u.gDevIndex)
    (h : (pathedChange dev port).Run w u s (.ok (((ret, child), path), v)) t) (hret : ret < 0)
    : child = none ∧ LeftByFailure dev port u path v := by
  obtain ⟨m, c', hconnected, hv⟩ := wp_run (wp_pathedChange hw ⟨⟨hle, hlt, rfl⟩, rfl⟩) h
  obtain ⟨hchild, hm, hc⟩ := hconnected.left hret
  refine ⟨hchild, hv.index.trans hm, ?_⟩
  rw [hv.children]
  exact hc

end

def emptyHubUsb : Usb :=
  { bootUsb with
    gDevIndex := 1
    usbDev := fun i => if i = 0 then { UsbDevice.zero with devnum := 1, maxchild := 2 } else .fresh }

/-- The hub reports a device at its ports that does not answer. -/
def deafScript (x : Transfer) (s : Unit) : Option (List Byte) × Unit :=
  match x.setup with
  | none => (none, s)
  | some setup =>
    if x.dev ≠ 0 then (none, s)
    else if setup.requesttype = usbDirIn ||| usbRtPort then (some [3, 0, 0, 0], s)
    else (some [], s)

/-- The slot of a device that does not answer is not given back. -/
theorem deaf_device_keeps_slot
    : ¬∀ (port : Fin 8) (u v : Usb) (ret : Int) (child : Option (Fin 32)) (path : ChangePath),
        u.gDevIndex ≤ usbMaxDevice → 0 < u.gDevIndex →
        (pathedChange 0 port).Run (scriptWorld 0 deafScript) u () (.ok (((ret, child), path), v)) () →
        ret < 0 → v.gDevIndex = u.gDevIndex ∧ (v.usbDev 0).children port = (u.usbDev 0).children port := by
  intro h
  obtain ⟨⟨⟨ret, child⟩, path⟩, v, t, hr, hp⟩ :=
    exists_run_of_check (Prog.ofHandler_serves (scriptHandler 0 deafScript)).offers (m := pathedChange 0 0)
      (u := emptyHubUsb) (s := ())
      (p := fun r v _ => r.1.1 < 0 ∧ v.gDevIndex = 2) (by decide +kernel)
  obtain ⟨hret, hindex⟩ := of_decide_eq_true hp
  have hsame := (h 0 emptyHubUsb v ret child path (by decide) (by decide) hr hret).1
  rw [hindex] at hsame
  exact absurd hsame (by decide)

theorem pathedChange_failed_deaf
    : ∃ v path, (v.usbDev 0).children 0 = .dev 1 ∧ (v.usbDev 1).devnum = 0 ∧
        LeftByFailure 0 0 emptyHubUsb path v := by
  obtain ⟨⟨⟨ret, child⟩, path⟩, v, t, hr, hp⟩ :=
    exists_run_of_check (Prog.ofHandler_serves (scriptHandler 0 deafScript)).offers (m := pathedChange 0 0)
      (u := emptyHubUsb) (s := ())
      (p := fun r v _ => r.1.1 < 0 ∧ (v.usbDev 0).children 0 = .dev 1 ∧ (v.usbDev 1).devnum = 0)
      (by decide +kernel)
  obtain ⟨hret, hchild, hnum⟩ := of_decide_eq_true hp
  exact ⟨v, path, hchild, hnum,
    (pathedChange_failed (scriptWorld_lawful _ _) (by decide) (by decide) hr hret).2⟩
