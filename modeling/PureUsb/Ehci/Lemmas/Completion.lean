import PureUsb.Prog.Only
import PureUsb.Ehci.Agent
import PureUsb.Ehci.Lemmas.Effects

/-!
This module contains what a transfer over the asynchronous schedule returns in terms of the token that
the driver found in the overlay, and the proof that it returns.
-/

open Stateful

abbrev EhciEvent (σ : Type) := Event EhciOp EhciAns Stop σ

section

variable {σ : Type}

/-- The token of the overlay, if looking at it was the last thing that happened. -/
def completion? (l : List (EhciEvent σ)) : Option (BitVec 32) :=
  match l.getLast? with
  | some ⟨_, .load, .ok m⟩ => some m.qh.qhOverlay.qtToken
  | _ => none

variable {l : List (EhciEvent σ)} {s : σ}

@[simp]
theorem completion?_load (m : Dma)
    : completion? (l ++ [⟨s, .load, .ok m⟩]) = some m.qh.qhOverlay.qtToken := by
  simp [completion?]

@[simp]
theorem completion?_store (f : Dma → Dma) (x : Except Stop Unit)
    : completion? (l ++ [⟨s, .store f, x⟩]) = none := by
  simp [completion?]

end

/-- A transfer that was given up, or one that ended with a token in the overlay. -/
inductive AsyncOutcome (dev : UsbDevice) (pipe : BitVec 32) (length : Nat) :
    Option (BitVec 32) → Int × UsbDevice → Prop where
  | failed : AsyncOutcome dev pipe length none (-1, dev)
  | completed (token : BitVec 32) :
      AsyncOutcome dev pipe length (some token)
        (if (completeAsync dev pipe length token).status ≠ usbStNotProc then 0 else -1,
          completeAsync dev pipe length token)

section

variable {σ : Type} {w : EhciWorld σ} {e : Ehci} {s : σ × List (EhciEvent σ)}
variable {dev : UsbDevice} {pipe : BitVec 32} {length : Nat}

theorem wp_failAsync_outcome
    : wp w.traced (failAsync dev) (fun r _ t => AsyncOutcome dev pipe length (completion? t.2) r)
        (fun _ _ => True) e s := by
  unfold failAsync
  rw [wp_bind]
  intro t
  constructor
  . intro x hx
    show AsyncOutcome dev pipe length (completion? t.2) (-1, dev)
    rw [hx.2, completion?_store]
    apply AsyncOutcome.failed
  . intro _ _
    trivial

theorem wp_ehciSubmitAsync_outcome (parent : Option UsbDevice) (buffer : BitVec 32)
    (req : Option (BitVec 32))
    : wp w.traced (ehciSubmitAsync dev parent pipe buffer length req)
        (fun r _ t => AsyncOutcome dev pipe length (completion? t.2) r) (fun _ _ => True) e s := by
  unfold ehciSubmitAsync
  apply wp_bind_any
  intro _ e s
  apply wp_bind_any
  intro _ e s
  cases parent with
  | none => trivial
  | some parent =>
    apply wp_bind_any
    intro _ e s
    apply wp_bind_any
    intro _ e s
    apply wp_bind_any
    rintro (_ | td) e s
    . apply wp_failAsync_outcome
    . apply wp_bind_any
      intro _ e s
      apply wp_bind_any
      intro ret e s
      rw [wp_ite]
      refine ⟨fun _ => wp_failAsync_outcome, fun _ => ?_⟩
      apply wp_bind_any
      intro _ e s
      apply wp_bind_any
      intro ret e s
      rw [wp_ite]
      refine ⟨fun _ => wp_failAsync_outcome, fun _ => ?_⟩
      apply wp_bind_any
      intro _ e s
      rw [wp_bind]
      intro t
      constructor
      . intro m hm
        show AsyncOutcome dev pipe length (completion? t.2) _
        rw [hm.2, completion?_load]
        apply AsyncOutcome.completed
      . intro _ _
        trivial

end

/-!
### Transfers return
-/

def EhciOp.Looks : EhciOp → Prop
  | .store _ => False
  | _ => True

/-- An operation on the shared structures that leaves the first endpoint word of the queue head alone. -/
def EhciOp.Builds : EhciOp → Prop
  | .store f => ∀ m, (f m).qh.qhEndpt1 = m.qh.qhEndpt1
  | .load => True
  | _ => False

/-- The function issues operations that satisfy `P`, and returns in a world that always answers. -/
abbrev ReturnsWith (P : EhciOp → Prop) {α : Type} (m : EhciM α) : Prop := Only P (fun _ => False) m

abbrev Returns {α : Type} (m : EhciM α) : Prop := ReturnsWith (fun _ => True) m

theorem ReturnsWith.returns {P : EhciOp → Prop} {α : Type} {m : EhciM α} (h : ReturnsWith P m)
    : Returns m :=
  h.mono (fun _ _ => trivial) fun _ he => he

section

variable {dev : UsbDevice} {pipe : BitVec 32} {length : Nat}

theorem looks_rawReadl (r : Reg) : ReturnsWith EhciOp.Looks (rawReadl r) := Only.ask trivial

theorem looks_loadDma : ReturnsWith EhciOp.Looks loadDma := Only.ask trivial

theorem looks_ehciReadl (r : Reg) : ReturnsWith EhciOp.Looks (ehciReadl r) := by
  apply Only.bind (looks_rawReadl _)
  intro v
  apply Only.bind (Only.modify _)
  intro _
  apply Only.pure

theorem looks_ehciWritel (r : Reg) (v : BitVec 32) : ReturnsWith EhciOp.Looks (ehciWritel r v) := by
  apply Only.bind (Only.ask trivial)
  intro _
  apply Only.modify

theorem looks_handshakeTries (r : Reg) (mask done : BitVec 32) (usec : Nat)
    : ReturnsWith EhciOp.Looks (handshakeTries r mask done usec) := by
  induction usec with
  | zero =>
    apply Only.bind (looks_rawReadl _)
    intro v
    apply Only.ite (fun _ => Only.pure _)
    intro _
    apply Only.ite (fun _ => Only.pure _)
    intro _
    exact Only.ite (fun _ => Only.pure _) fun _ => Only.pure _
  | succ usec ih =>
    apply Only.bind (looks_rawReadl _)
    intro v
    apply Only.ite (fun _ => Only.pure _)
    intro _
    apply Only.ite (fun _ => Only.pure _)
    intro _
    exact Only.ite (fun _ => Only.pure _) fun _ => ih

theorem looks_enableAsync : ReturnsWith EhciOp.Looks enableAsync := by
  apply Only.bind (looks_ehciReadl _)
  intro usbsts
  apply Only.bind (looks_ehciWritel _ _)
  intro _
  apply Only.bind (looks_ehciReadl _)
  intro cmd
  apply Only.bind (looks_ehciWritel _ _)
  intro _
  apply looks_handshakeTries

theorem looks_disableAsync : ReturnsWith EhciOp.Looks disableAsync := by
  apply Only.bind (looks_ehciReadl _)
  intro cmd
  apply Only.bind (looks_ehciWritel _ _)
  intro _
  apply looks_handshakeTries

theorem looks_pollTries (td : Fin 3) (attempts : Nat)
    : ReturnsWith EhciOp.Looks (pollTries td attempts) := by
  induction attempts with
  | zero =>
    apply Only.bind looks_loadDma
    intro m
    exact Only.ite (fun _ => Only.pure _) fun _ => Only.pure _
  | succ attempts ih =>
    apply Only.bind looks_loadDma
    intro m
    exact Only.ite (fun _ => Only.pure _) fun _ => ih

theorem builds_loadDma : ReturnsWith EhciOp.Builds loadDma := Only.ask trivial

theorem builds_setTd (i : Fin 3) (td : Dma → QTD)
    : ReturnsWith EhciOp.Builds (storeDma fun m => m.setTd i (td m)) :=
  Only.ask fun _ => rfl

theorem builds_allocTd : ReturnsWith EhciOp.Builds allocTd := by
  apply Only.bind Only.get
  intro e
  split
  . apply Only.pure
  . apply Only.bind (builds_setTd _ _)
    intro _
    apply Only.bind (Only.set _)
    intro _
    apply Only.pure

theorem builds_linkTd (prev : Option (Fin 3)) (i : Fin 3)
    : ReturnsWith EhciOp.Builds (storeDma (linkTd prev i)) := by
  apply Only.ask
  intro m
  cases prev <;> rfl

theorem builds_appendTd (prev : Option (Fin 3)) (token : BitVec 32) (buffer : Option (BitVec 32 × Nat))
    : ReturnsWith EhciOp.Builds (appendTd prev token buffer) := by
  apply Only.bind builds_allocTd
  rintro (_ | i)
  . apply Only.pure
  . apply Only.bind (builds_setTd _ _)
    intro _
    apply Only.bind builds_loadDma
    intro m
    apply Only.bind (builds_setTd _ _)
    intro _
    apply Only.ite (fun _ => Only.pure _)
    intro _
    apply Only.bind (builds_linkTd _ _)
    intro _
    apply Only.pure

theorem builds_appendData (setup : Fin 3) (buffer : BitVec 32)
    : ReturnsWith EhciOp.Builds (appendData setup pipe buffer length) :=
  Only.ite (fun _ => builds_appendTd _ _ _) fun _ => Only.pure _

theorem builds_buildChain (buffer : BitVec 32) (req : Option (BitVec 32))
    : ReturnsWith EhciOp.Builds (buildChain dev pipe buffer length req) := by
  cases req with
  | none => apply builds_appendTd
  | some req =>
    apply Only.bind (builds_appendTd _ _ _)
    rintro (_ | setup)
    . apply Only.pure
    . apply Only.bind (builds_appendData _ _)
      rintro (_ | last)
      . apply Only.pure
      . apply builds_appendTd

namespace Returns

theorem storeDma (f : Dma → Dma) : Returns (storeDma f) := Only.ask trivial

theorem failAsync : Returns (failAsync dev) := by
  apply Only.bind (storeDma _)
  intro _
  apply Only.pure

theorem ehciSubmitAsync (parent : UsbDevice) (buffer : BitVec 32) (req : Option (BitVec 32))
    : Returns (ehciSubmitAsync dev (some parent) pipe buffer length req) := by
  apply Only.bind (Only.bind (storeDma _) fun _ => Only.modify _)
  intro _
  apply Only.bind (storeDma _)
  intro _
  apply Only.bind (storeDma _)
  intro _
  apply Only.bind (storeDma _)
  intro _
  apply Only.bind (builds_buildChain _ _).returns
  rintro (_ | td)
  . apply failAsync
  . apply Only.bind (storeDma _)
    intro _
    apply Only.bind looks_enableAsync.returns
    intro ret
    apply Only.ite (fun _ => failAsync)
    intro _
    apply Only.bind (looks_pollTries _ _).returns
    intro _
    apply Only.bind looks_disableAsync.returns
    intro ret
    apply Only.ite (fun _ => failAsync)
    intro _
    apply Only.bind (storeDma _)
    intro _
    apply Only.bind looks_loadDma.returns
    intro m
    apply Only.pure

end Returns

end
