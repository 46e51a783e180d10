import PureUsb.PacketSizes
import Mathlib.Data.List.FinRange
import Mathlib.Data.List.Perm.Basic
import Mathlib.Order.Bounds.Basic

/-!
This module contains what `usb_set_maxpacket` makes of the packet sizes: each becomes the largest that is
described, and the order of the descriptors does not matter.
-/

open Stateful

namespace EndpointDescriptor

def number (ep : EndpointDescriptor) : Fin 16 := Fin.ofNat 16 (ep.bEndpointAddress &&& 0x0f).toNat

def IsControl (ep : EndpointDescriptor) : Prop := ep.bmAttributes &&& 0x03 = 0

instance : DecidablePred IsControl := fun _ => inferInstanceAs (Decidable (_ = _))

def isIn (ep : EndpointDescriptor) : Bool := decide (ep.bEndpointAddress &&& 0x80 ≠ 0)

/-- The descriptor is about endpoint `k` in this direction. Control endpoints have both. -/
def Touches (ep : EndpointDescriptor) (k : Fin 16) (isIn : Bool) : Prop :=
  ep.number = k ∧ (ep.IsControl ∨ ep.isIn = isIn)

/-- The size of endpoint `k` after the descriptor was looked at. -/
def resize (k : Fin 16) (isIn : Bool) (size : Int) (ep : EndpointDescriptor) : Int :=
  if ep.number ≠ k then size
  else if ep.IsControl then ep.wMaxPacketSize
  else if ep.isIn = isIn then max (ep.wMaxPacketSize : Int) size
  else size

variable {ep ep' : EndpointDescriptor} {k : Fin 16} {isIn : Bool} {size : Int}

theorem resize_of_not_touches (h : ¬ep.Touches k isIn) : resize k isIn size ep = size := by
  unfold Touches at h
  unfold resize
  split
  . rfl
  . next hnumber =>
    rw [if_neg fun hc => h ⟨not_not.mp hnumber, .inl hc⟩, if_neg fun hi => h ⟨not_not.mp hnumber, .inr hi⟩]

theorem resize_of_touches (h : ep.Touches k isIn) (hcontrol : ¬ep.IsControl)
    : resize k isIn size ep = max (ep.wMaxPacketSize : Int) size := by
  unfold resize
  rw [if_neg (not_not.mpr h.1), if_neg hcontrol, if_pos (h.2.resolve_left hcontrol)]

theorem resize_comm (h : ep.number = ep'.number → ¬ep.IsControl ∧ ¬ep'.IsControl)
    : resize k isIn (resize k isIn size ep) ep' = resize k isIn (resize k isIn size ep') ep := by
  by_cases hep : ep.Touches k isIn
  . by_cases hep' : ep'.Touches k isIn
    . obtain ⟨hc, hc'⟩ := h (hep.1.trans hep'.1.symm)
      rw [resize_of_touches hep hc, resize_of_touches hep' hc', resize_of_touches hep' hc',
        resize_of_touches hep hc, max_left_comm]
    . rw [resize_of_not_touches hep', resize_of_not_touches hep']
  . rw [resize_of_not_touches hep, resize_of_not_touches hep]

end EndpointDescriptor

open EndpointDescriptor (resize)

/-- The sizes of endpoint `k` in the descriptors that are about it. -/
def describedSizes (eps : List EndpointDescriptor) (k : Fin 16) (isIn : Bool) : Set Int :=
  { size | ∃ ep ∈ eps, ep.Touches k isIn ∧ size = ep.wMaxPacketSize }

/-- Each control endpoint is described once, and nothing else is said about its number. -/
def ControlOnce (eps : List EndpointDescriptor) : Prop :=
  ∀ (i j : Nat) (ep ep' : EndpointDescriptor), eps[i]? = some ep → eps[j]? = some ep' → ep.IsControl →
    ep'.number = ep.number → i = j

section

variable {eps eps' : List EndpointDescriptor} {k : Fin 16} {isIn : Bool}

theorem maxPacketSize_foldl_eq (eps : List EndpointDescriptor) (d : UsbDevice)
    : (eps.foldl usbSetMaxpacketEp d).maxPacketSize k isIn =
        eps.foldl (resize k isIn) (d.maxPacketSize k isIn) := by
  induction eps generalizing d with
  | nil => rfl
  | cons ep eps ih =>
    rw [List.foldl_cons, List.foldl_cons, ih, maxPacketSize_usbSetMaxpacketEp]
    rfl

theorem foldl_resize_of_untouched (h : ∀ ep ∈ eps, ¬ep.Touches k isIn) (size : Int)
    : eps.foldl (resize k isIn) size = size := by
  induction eps with
  | nil => rfl
  | cons ep eps ih =>
    rw [List.foldl_cons, EndpointDescriptor.resize_of_not_touches (h ep List.mem_cons_self)]
    exact ih fun ep hep => h ep (List.mem_cons_of_mem _ hep)

theorem describedSizes_cons_of_touches {ep : EndpointDescriptor} (h : ep.Touches k isIn)
    : describedSizes (ep :: eps) k isIn = insert (ep.wMaxPacketSize : Int) (describedSizes eps k isIn) := by
  ext x
  constructor
  . rintro ⟨ep', hep', htouches, rfl⟩
    rcases List.mem_cons.mp hep' with rfl | hep'
    . exact .inl rfl
    . exact .inr ⟨ep', hep', htouches, rfl⟩
  . rintro (rfl | ⟨ep', hep', htouches, rfl⟩)
    . exact ⟨ep, List.mem_cons_self, h, rfl⟩
    . exact ⟨ep', List.mem_cons_of_mem _ hep', htouches, rfl⟩

theorem describedSizes_cons_of_not_touches {ep : EndpointDescriptor} (h : ¬ep.Touches k isIn)
    : describedSizes (ep :: eps) k isIn = describedSizes eps k isIn := by
  ext x
  constructor
  . rintro ⟨ep', hep', htouches, rfl⟩
    rcases List.mem_cons.mp hep' with rfl | hep'
    . exact absurd htouches h
    . exact ⟨ep', hep', htouches, rfl⟩
  . rintro ⟨ep', hep', htouches, rfl⟩
    exact ⟨ep', List.mem_cons_of_mem _ hep', htouches, rfl⟩

theorem isGreatest_insert_max {a b x : Int} {S : Set Int} (h : IsGreatest (insert (max a b) S) x)
    : IsGreatest (insert b (insert a S)) x := by
  obtain ⟨hmem, hupper⟩ := h
  have hmax : max a b ≤ x := hupper (.inl rfl)
  constructor
  . rcases hmem with rfl | hx
    . rcases max_choice a b with heq | heq
      . exact .inr (.inl heq)
      . exact .inl heq
    . exact .inr (.inr hx)
  . rintro y (rfl | rfl | hy)
    . exact le_trans (le_max_right a y) hmax
    . exact le_trans (le_max_left y b) hmax
    . exact hupper (.inr hy)

theorem isGreatest_foldl_resize (h : ∀ ep ∈ eps, ep.Touches k isIn → ¬ep.IsControl) (size : Int)
    : IsGreatest (insert size (describedSizes eps k isIn)) (eps.foldl (resize k isIn) size) := by
  induction eps generalizing size with
  | nil =>
    refine ⟨.inl rfl, ?_⟩
    rintro x (rfl | ⟨_, hep, -⟩)
    . exact Int.le_refl x
    . cases hep
  | cons ep eps ih =>
    have hgreatest := ih (fun ep hep => h ep (List.mem_cons_of_mem _ hep)) (resize k isIn size ep)
    rw [List.foldl_cons]
    by_cases htouches : ep.Touches k isIn
    . rw [EndpointDescriptor.resize_of_touches htouches (h ep List.mem_cons_self htouches)] at hgreatest ⊢
      rw [describedSizes_cons_of_touches htouches]
      exact isGreatest_insert_max hgreatest
    . rw [EndpointDescriptor.resize_of_not_touches htouches] at hgreatest ⊢
      rw [describedSizes_cons_of_not_touches htouches]
      exact hgreatest

theorem foldl_resize_perm (hperm : eps.Perm eps') (h : ControlOnce eps) (size : Int)
    : eps.foldl (resize k isIn) size = eps'.foldl (resize k isIn) size := by
  apply hperm.foldl_eq'
  intro ep hep ep' hep' size
  obtain ⟨i, hi⟩ := List.mem_iff_getElem?.mp hep
  obtain ⟨j, hj⟩ := List.mem_iff_getElem?.mp hep'
  by_cases heq : ep = ep'
  . rw [heq]
  . apply EndpointDescriptor.resize_comm
    intro hnumber
    constructor
    . intro hcontrol
      cases h i j ep ep' hi hj hcontrol hnumber.symm
      exact heq (Option.some.inj (hi.symm.trans hj))
    . intro hcontrol
      cases h j i ep' ep hj hi hcontrol hnumber
      exact heq (Option.some.inj (hi.symm.trans hj))

end

/-!
### The configuration
-/

/-- There are no more interfaces and endpoints than the tables have room for. -/
structure TablesFit (d : UsbDevice) : Prop where
  interfaces : d.bNumInterfaces.toNat ≤ 8
  endpoints : ∀ j < d.bNumInterfaces.toNat, endpointCount d.config j ≤ 16

/--
The interfaces of `d'` are those of `d` in another order, and so are the endpoints of each.
-/
structure Reordered (d d' : UsbDevice) : Prop where
  count : d'.bNumInterfaces = d.bNumInterfaces
  interfaces : ∃ order : Equiv.Perm (Fin d.bNumInterfaces.toNat), ∀ j : Fin _,
    endpointCount d'.config j = endpointCount d.config (order j) ∧
    ∃ order' : Equiv.Perm (Fin (endpointCount d.config (order j))), ∀ e : Fin _,
      endpointAt d'.config j e = endpointAt d.config (order j) (order' e)

abbrev UsbDevice.considered (d : UsbDevice) : List EndpointDescriptor := endpointsOf d.config

/-- The sizes for the endpoints that no control descriptor is about, and for those that nothing is about. -/
structure SizesLargest (d d' : UsbDevice) : Prop where
  largest : ∀ k isIn, (∀ ep ∈ d.considered, ep.Touches k isIn → ¬ep.IsControl) →
    IsGreatest (insert (d.maxPacketSize k isIn) (describedSizes d.considered k isIn)) (d'.maxPacketSize k isIn)
  untouched : ∀ k isIn, (∀ ep ∈ d.considered, ¬ep.Touches k isIn) →
    d'.maxPacketSize k isIn = d.maxPacketSize k isIn

section

variable {d d' : UsbDevice}

theorem range_map_eq {α : Type} (n : Nat) (f : Nat → α)
    : (List.range n).map f = (List.finRange n).map fun j : Fin n => f j := by
  rw [← List.map_coe_finRange_eq_range, List.map_map]
  rfl

theorem perm_map_finRange {α : Type} {n : Nat} (order : Equiv.Perm (Fin n)) (f : Fin n → α)
    : ((List.finRange n).map fun j => f (order j)).Perm ((List.finRange n).map f) := by
  have := (Equiv.Perm.map_finRange_perm order).map f
  rwa [List.map_map] at this

theorem perm_endpointAt {c c' : Bytes 1002} {j j' : Nat} (hcount : endpointCount c' j' = endpointCount c j)
    (order : Equiv.Perm (Fin (endpointCount c j)))
    (h : ∀ e : Fin (endpointCount c j), endpointAt c' j' e = endpointAt c j (order e))
    : ((List.range (endpointCount c' j')).map (endpointAt c' j')).Perm
        ((List.range (endpointCount c j)).map (endpointAt c j)) := by
  rw [hcount, range_map_eq, range_map_eq, List.map_congr_left fun e _ => h e]
  exact perm_map_finRange order fun e => endpointAt c j e

theorem UsbDevice.config_byte_four (d : UsbDevice) : (d.config.byte 4).toNat = d.bNumInterfaces.toNat := by
  rw [Bytes.byte_of_lt _ (by decide)]
  rfl

theorem UsbDevice.considered_eq (d : UsbDevice)
    : d.considered = (List.finRange d.bNumInterfaces.toNat).flatMap fun j : Fin _ =>
        (List.range (endpointCount d.config j)).map (endpointAt d.config j) := by
  unfold considered endpointsOf
  rw [d.config_byte_four, List.flatMap_def, range_map_eq, List.flatMap_def]

theorem Reordered.perm (h : Reordered d d') : d'.considered.Perm d.considered := by
  obtain ⟨hcount, order, horder⟩ := h
  rw [d'.considered_eq, d.considered_eq, hcount]
  have hinner : ∀ j : Fin d.bNumInterfaces.toNat,
      ((List.range (endpointCount d'.config j)).map (endpointAt d'.config j)).Perm
        ((List.range (endpointCount d.config (order j))).map (endpointAt d.config (order j))) := by
    intro j
    obtain ⟨hnum, order', heps⟩ := horder j
    exact perm_endpointAt hnum order' heps
  apply (List.Perm.flatMap_left _ fun j _ => hinner j).trans
  have houter := perm_map_finRange order fun j : Fin _ =>
    (List.range (endpointCount d.config j)).map (endpointAt d.config j)
  exact houter.flatten

theorem TablesFit.configEndpoints (h : TablesFit d) : configEndpoints strictMem d.config = .ok d.considered := by
  rw [configEndpoints_strict, d.config_byte_four, if_pos ⟨h.interfaces, h.endpoints⟩]

theorem Reordered.tablesFit (h : Reordered d d') (hfits : TablesFit d) : TablesFit d' := by
  obtain ⟨hcount, order, horder⟩ := h
  constructor
  . rw [hcount]
    exact hfits.interfaces
  . intro j hj
    rw [hcount] at hj
    obtain ⟨hnum, -⟩ := horder ⟨j, hj⟩
    rw [hnum]
    exact hfits.endpoints _ (order ⟨j, hj⟩).isLt

end

/-- `usb_set_maxpacket` returns, and the sizes are those that the endpoints are looked at for. -/
structure SizesFolded (d d' : UsbDevice) : Prop where
  sizes : ∀ k isIn, d'.maxPacketSize k isIn = d.considered.foldl (resize k isIn) (d.maxPacketSize k isIn)

theorem SizesFolded.largest {d d' : UsbDevice} (h : SizesFolded d d') : SizesLargest d d' := by
  constructor
  . intro k isIn hcontrol
    rw [h.sizes]
    exact isGreatest_foldl_resize hcontrol _
  . intro k isIn huntouched
    rw [h.sizes]
    exact foldl_resize_of_untouched huntouched _

theorem wp_usbSetMaxpacket_folded {σ : Type} {w : HcdWorld σ} {dev : Fin 32} {u : Usb} {s : σ}
    (h : TablesFit (u.usbDev dev))
    : wp w (usbSetMaxpacket dev)
        (fun ret v _ => ret = 0 ∧ SizesFolded (u.usbDev dev) (v.usbDev dev)) (fun _ _ => False) u s := by
  apply wp_usbSetMaxpacket_ok h.configEndpoints
  refine ⟨rfl, ⟨fun k isIn => ?_⟩⟩
  rw [Usb.setDev_same, maxPacketSize_foldl_eq]

/--
Every size becomes the largest that is described, and the order of interfaces and endpoints makes no
difference.
-/
theorem usbSetMaxpacket_largest {σ : Type} {w : HcdWorld σ} {dev : Fin 32} {u : Usb} {s t : σ}
    {r : Except Stop (Int × Usb)} (h : TablesFit (u.usbDev dev)) (hr : (usbSetMaxpacket dev).Run w u s r t)
    : ∃ v, r = .ok (0, v) ∧ SizesLargest (u.usbDev dev) (v.usbDev dev) ∧
        (ControlOnce (u.usbDev dev).considered →
          ∀ u' s' r' t', Reordered (u.usbDev dev) (u'.usbDev dev) →
            (∀ k isIn, (u'.usbDev dev).maxPacketSize k isIn = (u.usbDev dev).maxPacketSize k isIn) →
            (usbSetMaxpacket dev).Run w u' s' r' t' →
            ∃ v', r' = .ok (0, v') ∧
              ∀ k isIn, (v'.usbDev dev).maxPacketSize k isIn = (v.usbDev dev).maxPacketSize k isIn) := by
  have hreturns : ∀ {u s r t}, TablesFit (u.usbDev dev) → (usbSetMaxpacket dev).Run w u s r t →
      ∃ v, r = .ok (0, v) ∧ SizesFolded (u.usbDev dev) (v.usbDev dev) := by
    intro u s r t h hr
    match r with
    | .ok (ret, v) =>
      obtain ⟨rfl, hv⟩ := wp_run (wp_usbSetMaxpacket_folded h) hr
      exact ⟨v, rfl, hv⟩
    | .error e => exact absurd (wp_run_error (wp_usbSetMaxpacket_folded h) hr) id
  obtain ⟨v, rfl, hv⟩ := hreturns h hr
  refine ⟨v, rfl, hv.largest, ?_⟩
  intro honce u' s' r' t' hreordered hsizes hr'
  obtain ⟨v', rfl, hv'⟩ := hreturns (hreordered.tablesFit h) hr'
  refine ⟨v', rfl, fun k isIn => ?_⟩
  rw [hv.sizes, hv'.sizes, hsizes]
  exact (foldl_resize_perm hreordered.perm.symm honce _).symm

/-- A device whose only interface has two descriptors for the same endpoint, with these sizes. -/
def twiceDescribed (size size' : Byte) : UsbDevice :=
  { UsbDevice.zero with
    config := ((Bytes.zero.write 4 [1]).write 14 [2]).write 22
      [7, 5, 0x81, 2, size, 0, 0, 7, 5, 0x81, 2, size', 0, 0] }

theorem reordered_twiceDescribed : Reordered (twiceDescribed 64 32) (twiceDescribed 32 64) := by
  refine ⟨rfl, Equiv.refl _, fun j => ?_⟩
  have hj : j = (⟨0, by decide⟩ : Fin _) := Fin.ext (Nat.lt_one_iff.mp j.isLt)
  subst hj
  exact ⟨by decide, Equiv.swap ⟨0, by decide⟩ ⟨1, by decide⟩, by decide +kernel⟩

theorem usbSetMaxpacket_largest_reordered
    : ∃ (u u' v v' : Usb) (t t' : Unit), Reordered (u.usbDev 1) (u'.usbDev 1) ∧
        (usbSetMaxpacket 1).Run (scriptWorld 0 fun _ s => (none, s)) u () (.ok (0, v)) t ∧
        (usbSetMaxpacket 1).Run (scriptWorld 0 fun _ s => (none, s)) u' () (.ok (0, v')) t' ∧
        SizesLargest (u.usbDev 1) (v.usbDev 1) ∧
        ∀ k isIn, (v'.usbDev 1).maxPacketSize k isIn = (v.usbDev 1).maxPacketSize k isIn := by
  have hfits : TablesFit (twiceDescribed 64 32) := ⟨by decide, by decide⟩
  have honce : ControlOnce (twiceDescribed 64 32).considered := by
    intro i j ep ep' hi _ hcontrol
    have hnone : ∀ ep ∈ (twiceDescribed 64 32).considered, ¬ep.IsControl := by decide +kernel
    exact absurd hcontrol (hnone ep (List.mem_of_getElem? hi))
  let u : Usb := attachedUsb.setDev 1 (twiceDescribed 64 32)
  let u' : Usb := attachedUsb.setDev 1 (twiceDescribed 32 64)
  have hu : u.usbDev 1 = twiceDescribed 64 32 := Usb.setDev_same ..
  have hu' : u'.usbDev 1 = twiceDescribed 32 64 := Usb.setDev_same ..
  have hserves := Prog.ofHandler_serves (scriptHandler 0 fun _ (s : Unit) => (none, s))
  have hr := run_exec hserves (usbSetMaxpacket 1) u ()
  have hr' := run_exec hserves (usbSetMaxpacket 1) u' ()
  obtain ⟨v, hv, hlargest, hsame⟩ := usbSetMaxpacket_largest (hu ▸ hfits) hr
  have hreordered : Reordered (u.usbDev 1) (u'.usbDev 1) := by
    rw [hu, hu']
    exact reordered_twiceDescribed
  obtain ⟨v', hv', hsizes⟩ := hsame (hu ▸ honce) u' () _ _ hreordered
    (fun k isIn => by rw [hu, hu']; rfl) hr'
  rw [hv] at hr
  rw [hv'] at hr'
  exact ⟨u, u', v, v', _, _, hreordered, hr, hr', hlargest, hsizes⟩
