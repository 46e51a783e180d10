import PureUsb.Main.Lemmas.Transfer

/-!
This module contains the invariant of `main`: slot 0 is the root hub, all others have a parent.
-/

open Stateful

/-- Slot 0 is the root hub; every other device has a parent. -/
structure MainInv (u : Usb) (rootdev : Int) : Prop extends TableState u where
  rootdev : rootdev = 1
  root : (u.usbDev 0).devnum = 1
  parents : ∀ i : Fin 32, i ≠ 0 → i < u.gDevIndex → (u.usbDev i).parent ≠ .null
  pipes : ∀ i, (u.usbDev i).PipeFits

namespace MainInv

variable {u : Usb} {rootdev : Int} {dev : Fin 32} {d : UsbDevice} {pipe : BitVec 32}

theorem devnum_le (h : MainInv u rootdev) (hlt : dev < u.gDevIndex)
    : 0 ≤ (u.usbDev dev).devnum ∧ (u.usbDev dev).devnum < 128 := by
  have := h.devnum dev hlt
  omega

theorem routes (h : MainInv u rootdev) (hlt : dev < u.gDevIndex)
    (hpipe : (u.usbDev dev).Addresses pipe)
    : Routes (u.usbDev dev) dev rootdev pipe := by
  have hdevice := hpipe.device (h.pipes dev) (h.devnum_le hlt)
  constructor
  . exact (hpipe.controlPipe (h.pipes dev) (h.devnum_le hlt)).type
  . rintro rfl
    unfold backend
    rw [hdevice, h.root, h.rootdev]
    rfl
  . intro hdev
    refine ⟨?_, h.parents dev hdev hlt⟩
    unfold backend
    rw [hdevice, h.rootdev]
    have hval : (dev : Nat) ≠ 0 := fun hf => hdev (Fin.ext hf)
    apply if_neg
    rcases h.devnum dev hlt with hnum | hnum <;> omega

theorem setDev (h : MainInv u rootdev) (hlt : dev < u.gDevIndex)
    (hnum : d.devnum = 0 ∨ d.devnum = (dev : Int) + 1) (hroot : dev = 0 → d.devnum = 1)
    (hparent : d.parent = (u.usbDev dev).parent) (hchildren : d.children = (u.usbDev dev).children)
    (hports : (d.hubdescriptor 2).toNat ≤ 31) (hpipe : d.PipeFits)
    : MainInv (u.setDev dev d) rootdev := by
  refine ⟨h.toTableState.setDev hlt hnum hparent hchildren hports, h.rootdev, ?_, ?_, ?_⟩
  . by_cases hdev : 0 = dev
    . subst hdev
      rw [Usb.setDev_same]
      exact hroot rfl
    . rw [Usb.setDev_ne _ _ hdev]
      exact h.root
  . intro i hi hilt
    by_cases hdev : i = dev
    . subst hdev
      rw [Usb.setDev_same, hparent]
      exact h.parents i hi hilt
    . rw [Usb.setDev_ne _ _ hdev]
      exact h.parents i hi hilt
  . intro i
    by_cases hdev : i = dev
    . subst hdev
      rw [Usb.setDev_same]
      exact hpipe
    . rw [Usb.setDev_ne _ _ hdev]
      exact h.pipes i

theorem setDev_links (h : MainInv u rootdev) (hlt : dev < u.gDevIndex)
    (hd : (u.usbDev dev).SameLinks d) (hpipe : (u.usbDev dev).PipeFits → d.PipeFits)
    : MainInv (u.setDev dev d) rootdev := by
  refine h.setDev hlt ?_ ?_ hd.parent hd.children ?_ (hpipe (h.pipes dev))
  . rw [hd.devnum]
    exact h.devnum dev hlt
  . rintro rfl
    rw [hd.devnum]
    exact h.root
  . rw [hd.hubdescriptor]
    exact h.ports dev

theorem setupPacket (h : MainInv u rootdev) (p : DevRequest)
    : MainInv { u with setupPacket := p } rootdev :=
  ⟨⟨⟨h.index_le, h.untouched, h.devnum, h.parent, h.child⟩, h.ports⟩, h.rootdev, h.root, h.parents,
    h.pipes⟩

theorem address (h : MainInv u rootdev) (hdev : dev ≠ 0) (hlt : dev < u.gDevIndex) {num : Int}
    (hnum : num = 0 ∨ num = (dev : Int) + 1)
    : MainInv (u.setDev dev { u.usbDev dev with devnum := num }) rootdev :=
  h.setDev hlt hnum (fun hf => absurd hf hdev) rfl rfl (h.ports dev)
    ⟨(h.pipes dev).packetSize, (h.pipes dev).speed⟩

theorem alloc (h : MainInv u rootdev) {new parent : Fin 32} (port : Fin 8)
    (hnew : (new : Nat) = u.gDevIndex) (hparent : parent < u.gDevIndex)
    : MainInv (u.alloc new (some parent) port) rootdev := by
  have hlinks : ∀ p ∈ some parent, p < u.gDevIndex := by
    rintro _ ⟨⟩
    exact hparent
  have hcase : ∀ i : Fin 32, i ≠ new →
      ((u.alloc new (some parent) port).usbDev i).devnum = (u.usbDev i).devnum ∧
      ((u.alloc new (some parent) port).usbDev i).parent = (u.usbDev i).parent ∧
      ((u.usbDev i).PipeFits → ((u.alloc new (some parent) port).usbDev i).PipeFits) := by
    intro i hi
    obtain ⟨_, heq⟩ : ∃ _, (u.alloc new (some parent) port).usbDev i = _ := Usb.alloc_old hi
    rw [heq]
    exact ⟨rfl, rfl, fun h => ⟨h.packetSize, h.speed⟩⟩
  have hpos : (0 : Fin 32) ≠ new := by
    rintro rfl
    rw [← hnew] at hparent
    exact absurd hparent (Nat.not_lt_zero _)
  refine ⟨h.toTableState.alloc hnew hlinks, h.rootdev, ?_, ?_, ?_⟩
  . rw [(hcase 0 hpos).1]
    exact h.root
  . intro i hi hlt
    rw [Usb.alloc_gDevIndex] at hlt
    by_cases hinew : i = new
    . subst hinew
      rw [Usb.alloc_new]
      exact fun hf => nomatch hf
    . have hval : (i : Nat) ≠ new := fun hf => hinew (Fin.ext hf)
      rw [(hcase i hinew).2.1]
      exact h.parents i hi (by omega)
  . intro i
    by_cases hinew : i = new
    . subst hinew
      rw [Usb.alloc_new]
      exact ⟨(h.pipes i).packetSize, (h.pipes i).speed⟩
    . exact (hcase i hinew).2.2 (h.pipes i)

end MainInv

section

variable {σ : Type} {w : EhciWorld σ} {place : Placement} {n : Nat} {dev : Fin 32} {num : Int}
variable {u : Usb} {s : MainState σ}

def Main (I : Usb → Prop) (v : Usb) (t : MainState σ) : Prop :=
  (MainInv v t.1.1.rootdev ∧ I v) ∧ Routed t

theorem frame_main {fits : Bytes 512 → Prop} {I : Usb → Prop} {p : Fin 32}
    (hlt : ∀ u, I u → p < u.gDevIndex)
    (hpacket : ∀ u p, I u → I { u with setupPacket := p })
    (hlinks : ∀ u d, I u → (u.usbDev p).SameLinks d → I (u.setDev p d))
    : Frame (mainWorld w place fits) (Main I) (fun _ t => Routed t) p := by
  refine frame_routed (K := fun v k => MainInv v k ∧ I v) ?_ ?_ ?_
  . exact fun u k p h => ⟨h.1.setupPacket p, hpacket u p h.2⟩
  . exact fun u k d h hd hfits => ⟨h.1.setDev_links (hlt u h.2) hd hfits, hlinks u d h.2 hd⟩
  . exact fun h hpipe => h.1.routes (hlt _ h.2) hpipe

theorem frame_main_scanning {fits : Bytes 512 → Prop} {p : Fin 32} (hp : p < n)
    : Frame (mainWorld w place fits) (Main (Scanning n dev num)) (fun _ t => Routed t) p :=
  frame_main (fun _ h => h.index.symm ▸ hp) (fun _ p h => h.setupPacket p)
    fun _ _ h hd => h.setDev_links hp hd

theorem frame_main_allocated {fits : Bytes 512 → Prop} {p : Fin 32} (hp : p < n)
    : Frame (mainWorld w place fits) (Main (Allocated n dev)) (fun _ t => Routed t) p :=
  frame_main (fun _ h => h.index.symm ▸ hp) (fun _ p h => h.setupPacket p)
    fun _ _ h hd => h.setDev_links hp hd

end
