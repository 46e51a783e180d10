import PureUsb.Hcd
import PureUsb.Ehci.Lemmas.Effects

/-!
This module contains the proof that `ehci-hcd.c` does to a device structure no more than `usb.c` may
rely on, whatever the controller does, and what it does to `rootdev`.
-/

open Stateful

namespace Transfer

def rootdevAfter (x : Transfer) (rootdev : Int) : Int :=
  match x.setup with
  | some setup =>
    if usbPipetype x.pipe = pipeControl ∧ backend rootdev x.pipe = .root ∧ setup.index.toNat ≤ 2 then
      setup.rootdevAfter rootdev
    else
      rootdev
  | none => rootdev

/-- What comes back from the driver. -/
structure Result (x : Transfer) (r : Int × UsbDevice × Option (List Byte)) : Prop where
  length_le : ∀ bytes ∈ r.2.2, bytes.length ≤ x.length
  actLen_le : 0 ≤ r.1 → r.2.1.actLen ≤ x.length
  dev : (x.usbDev x.dev).AfterTransfer x.pipe r.2.1

end Transfer

section

variable {σ : Type} {w : EhciWorld σ} {place : Placement} {e : Ehci} {s : σ}

theorem keptByRoot_true (w : EhciWorld σ)
    : KeptByRoot w (fun _ => True) (fun _ => True) (fun _ _ => True) :=
  ⟨fun _ _ _ => trivial, fun _ _ _ _ => trivial, fun _ _ => trivial⟩

theorem wp_ehciSubmitRoot_result {x : Transfer} {setup : DevRequest} {dev : UsbDevice}
    (hdev : (x.usbDev x.dev).AfterTransfer x.pipe dev)
    : wp w (ehciSubmitRoot dev x.length setup)
        (fun r e' _ => x.Result (r.1, r.2.1, some r.2.2) ∧
          e'.rootdev = if setup.index.toNat > 2 then e.rootdev else setup.rootdevAfter e.rootdev)
        (fun _ _ => True) e s := by
  have hnil : ∀ bytes ∈ some ([] : List Byte), bytes.length ≤ x.length := by
    rintro _ ⟨⟩
    exact Nat.zero_le _
  rw [wp_ehciSubmitRoot]
  split
  . exact ⟨⟨hnil, fun h => absurd (show (0 : Int) ≤ -1 from h) (by decide), hdev⟩, rfl⟩
  . refine wp_post (wp_rootRequest_kept (keptByRoot_true w) trivial) ?_
    rintro (_ | src) e' t ⟨-, he⟩
    . refine ⟨⟨hnil, fun h => absurd (show (0 : Int) ≤ -1 from h) (by decide), ?_⟩, he⟩
      exact hdev.withResult usbStStalled 0
    . refine ⟨⟨?_, fun _ => ?_, ?_⟩, he⟩
      . rintro _ ⟨⟩
        simp
      . show ((min (min src.length setup.length.toNat) x.length : Nat) : Int) ≤ x.length
        omega
      . exact hdev.withResult 0 _

theorem wp_ehciSubmitAsync_result {x : Transfer} {parent : Option UsbDevice} {buffer : BitVec 32}
    (req : Option (BitVec 32))
    : wp w (ehciSubmitAsync (x.usbDev x.dev) parent x.pipe buffer x.length req)
        (fun r e' _ => x.Result (r.1, r.2, none) ∧ e'.rootdev = e.rootdev) (fun _ _ => True) e s := by
  refine wp_post ((keeps_ehciSubmitAsync _ _ req).spec w e s (show Rootdev e.rootdev e from rfl)) ?_
  rintro r e' t ⟨he, hr⟩
  refine ⟨⟨?_, hr.actLen_le, hr.afterTransfer⟩, he⟩
  intro bytes hbytes
  cases hbytes

theorem wp_submitTransfer (x : Transfer)
    : wp w (submitTransfer place x)
        (fun r e' _ => x.Result r ∧ e'.rootdev = x.rootdevAfter e.rootdev) (fun _ _ => True) e s := by
  have hrefused : x.Result (-1, x.usbDev x.dev, some []) := by
    refine ⟨?_, fun h => absurd (show (0 : Int) ≤ -1 from h) (by decide), .refl _ _⟩
    rintro _ ⟨⟩
    exact Nat.zero_le _
  unfold submitTransfer Transfer.rootdevAfter
  dsimp only
  cases x.setup with
  | none =>
    dsimp only
    unfold submitBulkMsg
    split
    . exact ⟨hrefused, rfl⟩
    . rw [wp_bind]
      exact wp_ehciSubmitAsync_result none
  | some setup =>
    dsimp only
    unfold submitControlMsg
    split
    . next htype =>
      have hcond : ¬(usbPipetype x.pipe = pipeControl ∧ backend e.rootdev x.pipe = .root ∧
          setup.index.toNat ≤ 2) := fun h => htype h.1
      rw [if_neg hcond]
      exact ⟨hrefused, rfl⟩
    . next htype =>
      rw [wp_bind, wp_get]
      cases hbackend : backend e.rootdev x.pipe with
      | async =>
        have hcond : ¬(usbPipetype x.pipe = pipeControl ∧ Backend.async = .root ∧
            setup.index.toNat ≤ 2) := fun h => absurd h.2.1 (by simp)
        rw [if_neg hcond]
        dsimp only
        rw [wp_bind]
        exact wp_ehciSubmitAsync_result _
      | root =>
        have hroot : ∀ dev, (x.usbDev x.dev).AfterTransfer x.pipe dev →
            wp w (ehciSubmitRoot dev x.length setup)
              (fun r e' _ => x.Result (r.1, r.2.1, some r.2.2) ∧ e'.rootdev =
                if usbPipetype x.pipe = pipeControl ∧ Backend.root = .root ∧ setup.index.toNat ≤ 2 then
                  setup.rootdevAfter e.rootdev
                else
                  e.rootdev)
              (fun _ _ => True) e s := by
          intro dev hdev
          refine wp_post (wp_ehciSubmitRoot_result hdev) ?_
          rintro r e' t ⟨hr, he⟩
          refine ⟨hr, he.trans ?_⟩
          by_cases hindex : setup.index.toNat ≤ 2
          . rw [if_neg (by omega), if_pos ⟨not_not.mp htype, rfl, hindex⟩]
          . rw [if_pos (by omega), if_neg fun h => hindex h.2.2]
        dsimp only
        rw [wp_bind]
        split
        . exact hroot _ ⟨rfl, .inr rfl, fun _ _ _ => rfl⟩
        . exact hroot _ (.refl _ _)

end

theorem hcdWorld_lawful {σ : Type} (w : EhciWorld σ) (place : Placement)
    : Lawful (hcdWorld w place) := by
  constructor
  rintro x s y t ⟨data, hrun, hdata⟩
  obtain ⟨hr, -⟩ := wp_run (wp_submitTransfer x) hrun
  refine ⟨?_, hr.actLen_le, hr.dev⟩
  cases data with
  | some bytes =>
    rw [show y.data = bytes from hdata]
    exact hr.length_le bytes rfl
  | none => exact hdata
