import PureUsb.Main.Basic

/-!
This module contains what a control transfer does to `rootdev` and to the trace.
-/

open Stateful

def Routed {σ : Type} (t : MainState σ) : Prop := ∀ e ∈ t.2, e.Routed

namespace Routes

variable {d d' : UsbDevice} {dev : Fin 32} {rootdev : Int} {pipe : BitVec 32}

theorem congr (h : Routes d dev rootdev pipe) (hparent : d'.parent = d.parent)
    : Routes d' dev rootdev pipe := by
  refine ⟨h.control, h.root, fun hdev => ?_⟩
  rw [hparent]
  exact h.async hdev

end Routes

def rootdevNext (dev : Fin 32) (setup : DevRequest) (rootdev : Int) : Int :=
  if dev = 0 ∧ setup.index.toNat ≤ 2 then setup.rootdevAfter rootdev else rootdev

theorem Routes.rootdevAfter {x : Transfer} {setup : DevRequest} {rootdev : Int}
    (h : Routes (x.usbDev x.dev) x.dev rootdev x.pipe) (hsetup : x.setup = some setup)
    : x.rootdevAfter rootdev = rootdevNext x.dev setup rootdev := by
  unfold Transfer.rootdevAfter rootdevNext
  rw [hsetup]
  dsimp only
  by_cases hdev : x.dev = 0
  . simp only [h.control, h.root hdev, hdev, true_and]
  . have hne : ¬(usbPipetype x.pipe = pipeControl ∧ backend rootdev x.pipe = .root ∧
        setup.index.toNat ≤ 2) := by
      rw [(h.async hdev).1]
      rintro ⟨-, hf, -⟩
      cases hf
    rw [if_neg hne, if_neg fun hf => hdev hf.1]

theorem DevRequest.rootdevAfter_of_ne {setup : DevRequest} {rootdev : Int} (h : setup.typeReq ≠ 0x0005)
    : setup.rootdevAfter rootdev = rootdev := if_neg h

theorem rootdevNext_of_ne {dev : Fin 32} {setup : DevRequest} {rootdev : Int}
    (h : setup.typeReq ≠ 0x0005)
    : rootdevNext dev setup rootdev = rootdev := by
  unfold rootdevNext
  rw [DevRequest.rootdevAfter_of_ne h]
  exact ite_self _

theorem DevRequest.requesttype_of_typeReq {setup : DevRequest} (h : setup.typeReq = 0x0005)
    : setup.requesttype = 0 ∧ setup.request = 5 := by
  have hbit : ∀ i, setup.typeReq.getLsbD i = (0x0005 : BitVec 16).getLsbD i := fun i => by rw [h]
  unfold DevRequest.typeReq at hbit
  simp only [BitVec.getLsbD_or, BitVec.getLsbD_setWidth, BitVec.getLsbD_shiftLeft] at hbit
  constructor
  . apply BitVec.eq_of_getLsbD_eq
    intro i hi
    have := hbit (i + 8)
    rw [BitVec.getLsbD_of_ge setup.request (i + 8) (by omega)] at this
    simp only [Nat.add_sub_cancel] at this
    rw [show BitVec.getLsbD (0 : BitVec 8) i = false from BitVec.getLsbD_zero]
    have hfive : BitVec.getLsbD (0x0005 : BitVec 16) (i + 8) = false := by
      interval_cases i <;> rfl
    rw [hfive] at this
    simpa [show i + 8 < 16 by omega, show ¬i + 8 < 8 by omega, show i < 16 by omega] using this
  . apply BitVec.eq_of_getLsbD_eq
    intro i hi
    have := hbit i
    simp only [hi, show i < 16 by omega] at this
    have hfive : BitVec.getLsbD (0x0005 : BitVec 16) i = BitVec.getLsbD (5 : BitVec 8) i := by
      interval_cases i <;> rfl
    rw [hfive] at this
    simpa using this

section

variable {σ : Type} {w : EhciWorld σ} {place : Placement} {fits : Bytes 512 → Prop}
variable {K : Usb → Int → Prop} {u : Usb} {s : MainState σ} {dev : Fin 32}

theorem Routed.append {t : MainState σ} {e : HcdEvent (Ehci × σ)} (h : Routed s) (he : e.Routed)
    (ht : t.2 = s.2 ++ [e])
    : Routed t := by
  intro e' he'
  rw [ht, List.mem_append, List.mem_singleton] at he'
  rcases he' with hold | rfl
  . exact h e' hold
  . exact he

theorem wp_usbControlMsg_routed {pipe : BitVec 32} {request requesttype : Byte}
    {value index size : BitVec 16} {data : Buffer} {timeout : Nat} (htimeout : timeout ≠ 0)
    (hs : Routed s) (hroute : Routes (u.usbDev dev) dev s.1.1.rootdev pipe)
    (hnext : ∀ d, (u.usbDev dev).SameLinks d → ((u.usbDev dev).PipeFits → d.PipeFits) →
      K (Usb.setDev { u with setupPacket := ⟨requesttype, request, value, index, size⟩ } dev d)
        (rootdevNext dev ⟨requesttype, request, value, index, size⟩ s.1.1.rootdev))
    : wp (mainWorld w place fits)
        (usbControlMsg dev pipe request requesttype value index data size timeout)
        (fun r v t => (K v t.1.1.rootdev ∧ Routed t) ∧ r.1 ≤ size.toNat) (fun _ t => Routed t) u s := by
  rw [wp_usbControlMsg htimeout]
  dsimp only
  generalize hsetup : (⟨requesttype, request, value, index, size⟩ : DevRequest) = setup at *
  generalize hx : (⟨(u.waiting dev setup).usbDev, dev, pipe, data, size.toNat, some setup⟩ : Transfer) = x
  have hdev : x.usbDev x.dev = { u.usbDev dev with status := usbStNotProc } := by
    rw [← hx]
    exact Usb.setDev_same _ _ _
  have hxroute : Routes (x.usbDev x.dev) x.dev s.1.1.rootdev x.pipe := by
    rw [hdev, ← hx]
    exact hroute.congr rfl
  have hevent : ∀ r, Event.Routed (⟨s.1, .submit x, r⟩ : HcdEvent (Ehci × σ)) := fun _ _ => hxroute
  intro t
  constructor
  . rintro r ⟨⟨-, hrun⟩, htrace⟩
    have hallowed : r.Allowed x := (hcdWorld_lawful w place).submit hrun
    refine ⟨⟨?_, hs.append (hevent _) htrace⟩, ?_⟩
    . obtain ⟨bytes, hr, -⟩ := hrun
      have hrootdev := (wp_run (wp_submitTransfer x) hr).2
      rw [hrootdev, hxroute.rootdevAfter (by rw [← hx])]
      have hafter := hallowed.dev
      rw [hdev] at hafter
      have hlinks : (u.usbDev dev).SameLinks r.dev :=
        ⟨hafter.sameLinks.devnum, hafter.sameLinks.parent, hafter.sameLinks.children,
          hafter.sameLinks.config, hafter.sameLinks.hubdescriptor⟩
      have hfits : (u.usbDev dev).PipeFits → r.dev.PipeFits := by
        intro h
        refine ⟨?_, ?_⟩
        . rw [hafter.eq]
          exact h.packetSize
        . rcases hafter.speed with heq | heq
          . rw [heq]
            exact h.speed
          . rw [heq]
            decide
      have hK := hnext r.dev hlinks hfits
      unfold Usb.waiting
      rw [Usb.setDev_setDev, ← hx]
      exact hK
    . rw [← hx] at hallowed
      exact hallowed.result_le
  . rintro x' ⟨-, htrace⟩
    exact hs.append (hevent _) htrace

theorem frame_routed (hpacket : ∀ u k p, K u k → K { u with setupPacket := p } k)
    (hlinks : ∀ u k d, K u k → (u.usbDev dev).SameLinks d →
      ((u.usbDev dev).PipeFits → d.PipeFits) → K (u.setDev dev d) k)
    (hroute : ∀ {u k pipe}, K u k → (u.usbDev dev).Addresses pipe → Routes (u.usbDev dev) dev k pipe)
    : Frame (mainWorld w place fits) (fun v t => K v t.1.1.rootdev ∧ Routed t) (fun _ t => Routed t)
        dev where
  stack := by
    rintro u s n ⟨hK, hs⟩ t
    constructor
    . rintro x ⟨⟨-, ht⟩, htrace⟩
      have ht : t.1 = s.1 := ht
      have hK : K u t.1.1.rootdev := by rwa [ht]
      have hevent : Event.Routed (⟨s.1, .stack n, .ok x⟩ : HcdEvent (Ehci × σ)) := trivial
      exact ⟨hK, hs.append hevent htrace⟩
    . rintro e ⟨⟨-, hf⟩, -⟩
      exact hf.elim
  msg := by
    rintro u s pipe request requesttype value index data size timeout ⟨hK, hs⟩ hpipe htimeout hroutine
    refine wp_usbControlMsg_routed htimeout hs (hroute hK hpipe) fun d hd hfits => ?_
    rw [rootdevNext_of_ne fun hf => hroutine.1 (DevRequest.requesttype_of_typeReq hf).1]
    exact hlinks _ _ _ (hpacket _ _ _ hK) hd hfits
  texts := by
    rintro u s mf prod serial haveLangid stringLangid ⟨hK, hs⟩
    exact ⟨hlinks _ _ _ hK ⟨rfl, rfl, rfl, rfl, rfl⟩ fun h => ⟨h.packetSize, h.speed⟩, hs⟩

end
