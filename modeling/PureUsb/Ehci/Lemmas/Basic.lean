import PureUsb.Ehci.Impl.Init

/-!
This module contains the rules for the accesses that `ehci-hcd.c` makes to registers and to shared
memory, in an arbitrary world.
-/

open Stateful

variable {σ : Type} {w : EhciWorld σ} {E : Stop → σ → Prop} {e : Ehci} {s : σ}

@[simp]
theorem wp_rawReadl (r : Reg) {Q : BitVec 32 → Ehci → σ → Prop}
    : wp w (rawReadl r) Q E e s
        ↔
      ∀ t, (∀ v, w (.readl r) s (.ok v) t → Q v e t) ∧ (∀ x, w (.readl r) s (.error x) t → E x t) :=
  Iff.rfl

@[simp]
theorem wp_rawWritel (r : Reg) (v : BitVec 32) {Q : Unit → Ehci → σ → Prop}
    : wp w (rawWritel r v) Q E e s
        ↔
      ∀ t, (∀ x, w (.writel r v) s (.ok x) t → Q x e t) ∧
        (∀ x, w (.writel r v) s (.error x) t → E x t) :=
  Iff.rfl

@[simp]
theorem wp_loadDma {Q : Dma → Ehci → σ → Prop}
    : wp w loadDma Q E e s
        ↔
      ∀ t, (∀ m, w .load s (.ok m) t → Q m e t) ∧ (∀ x, w .load s (.error x) t → E x t) :=
  Iff.rfl

@[simp]
theorem wp_storeDma (f : Dma → Dma) {Q : Unit → Ehci → σ → Prop}
    : wp w (storeDma f) Q E e s
        ↔
      ∀ t, (∀ x, w (.store f) s (.ok x) t → Q x e t) ∧
        (∀ x, w (.store f) s (.error x) t → E x t) :=
  Iff.rfl

@[simp]
theorem wp_ehciReadl (r : Reg) {Q : BitVec 32 → Ehci → σ → Prop}
    : wp w (ehciReadl r) Q E e s
        ↔
      ∀ t, (∀ v, w (.readl r) s (.ok v) t → Q v (e.record r 0 v) t) ∧
        (∀ x, w (.readl r) s (.error x) t → E x t) :=
  Iff.rfl

@[simp]
theorem wp_ehciWritel (r : Reg) (v : BitVec 32) {Q : Unit → Ehci → σ → Prop}
    : wp w (ehciWritel r v) Q E e s
        ↔
      ∀ t, (∀ x, w (.writel r v) s (.ok x) t → Q () (e.record r 1 v) t) ∧
        (∀ x, w (.writel r v) s (.error x) t → E x t) :=
  Iff.rfl

namespace Ehci

@[simp]
theorem record_rootdev (e : Ehci) (r : Reg) (d : Nat) (v : BitVec 32)
    : (e.record r d v).rootdev = e.rootdev := rfl

@[simp]
theorem record_portreset (e : Ehci) (r : Reg) (d : Nat) (v : BitVec 32)
    : (e.record r d v).portreset = e.portreset := rfl

@[simp]
theorem record_hub (e : Ehci) (r : Reg) (d : Nat) (v : BitVec 32)
    : (e.record r d v).hub = e.hub := rfl

@[simp]
theorem record_ntds (e : Ehci) (r : Reg) (d : Nat) (v : BitVec 32)
    : (e.record r d v).ntds = e.ntds := rfl

end Ehci

/-!
### `handshake`
-/

def Matches (mask done v : BitVec 32) : Prop :=
  v ≠ ~~~0#32 ∧ v &&& stsFatal = 0 ∧ v &&& mask = done

instance (mask done v : BitVec 32) : Decidable (Matches mask done v) :=
  inferInstanceAs (Decidable (_ ∧ _ ∧ _))

def EndsHandshake (mask done v : BitVec 32) : Prop :=
  v = ~~~0#32 ∨ v &&& stsFatal ≠ 0 ∨ v &&& mask = done

instance (mask done v : BitVec 32) : Decidable (EndsHandshake mask done v) :=
  inferInstanceAs (Decidable (_ ∨ _ ∨ _))

theorem Matches.ends {mask done v : BitVec 32} (h : Matches mask done v)
    : EndsHandshake mask done v :=
  .inr (.inr h.2.2)

theorem wp_handshakeAttempt {ptr : Reg} {mask done : BitVec 32} {rest : EhciM Int}
    {Q : Int → Ehci → σ → Prop} (hstop : ∀ t x, w (.readl ptr) s (.error x) t → E x t)
    (hret : ∀ t v ret, w (.readl ptr) s (.ok v) t → ret ≤ 0 → EndsHandshake mask done v →
      (ret = 0 ↔ Matches mask done v) → Q ret e t)
    (hrest : ∀ t v, w (.readl ptr) s (.ok v) t → ¬EndsHandshake mask done v → wp w rest Q E e t)
    : wp w
        (do
          let result ← rawReadl ptr
          if result = ~~~0#32 then
            return -1
          else if result &&& stsFatal ≠ 0 then
            return -16
          else if result &&& mask = done then
            return 0
          else
            rest)
        Q E e s := by
  rw [wp_bind, wp_rawReadl]
  intro t
  refine ⟨fun v hv => ?_, fun x hx => hstop t x hx⟩
  split
  . next h => exact hret t v _ hv (by omega) (.inl h) (by unfold Matches; tauto)
  . next h1 =>
    split
    . next h => exact hret t v _ hv (by omega) (.inr (.inl h)) (by unfold Matches; tauto)
    . next h2 =>
      split
      . next h => exact hret t v _ hv (by omega) (.inr (.inr h)) (by unfold Matches; tauto)
      . next h => exact hrest t v hv (by unfold EndsHandshake; tauto)

/--
A handshake only reads `ptr`. What every such read keeps, the handshake keeps, and it succeeds if
and only if the last value read was a match.
-/
theorem wp_handshakeTries {I : σ → Prop} {ptr : Reg} {mask done : BitVec 32} {usec : Nat}
    (hread : ∀ s t v, I s → w (.readl ptr) s (.ok v) t → I t)
    (hstop : ∀ s t x, I s → w (.readl ptr) s (.error x) t → E x t) (h : I s)
    : wp w (handshakeTries ptr mask done usec)
        (fun ret e' t =>
          e' = e ∧ I t ∧ ret ≤ 0 ∧
          ∃ t' v, I t' ∧ w (.readl ptr) t' (.ok v) t ∧ (ret = 0 ↔ Matches mask done v))
        E e s := by
  induction usec generalizing s with
  | zero =>
    unfold handshakeTries
    refine wp_handshakeAttempt (hstop s · · h) ?_ ?_
    . exact fun t v ret hv hret _ hm => ⟨rfl, hread _ _ _ h hv, hret, s, v, h, hv, hm⟩
    . intro t v hv hends
      have hm : ¬Matches mask done v := fun hm => hends hm.ends
      exact ⟨rfl, hread _ _ _ h hv, by omega, s, v, h, hv, by simp [hm]⟩
  | succ usec ih =>
    unfold handshakeTries
    refine wp_handshakeAttempt (hstop s · · h) ?_ ?_
    . exact fun t v ret hv hret _ hm => ⟨rfl, hread _ _ _ h hv, hret, s, v, h, hv, hm⟩
    . exact fun t v hv _ => ih (hread _ _ _ h hv)

/-!
### The state of the driver
-/

/-- `I` does not depend on what is noted about register accesses. -/
def Unrecorded (I : Ehci → Prop) : Prop := ∀ e r d v, I e → I (e.record r d v)

namespace Unrecorded

variable {I : Ehci → Prop}

theorem readl (h : Unrecorded I) (r : Reg) : Keeps I (fun _ => True) (ehciReadl r) := by
  apply Keeps.bind (.ask (EhciOp.readl r))
  intro v _
  apply Keeps.bind (.modify fun e he => h e r 0 v he)
  intro _ _
  exact .pure trivial

theorem writel (h : Unrecorded I) (r : Reg) (v : BitVec 32)
    : Keeps I (fun _ => True) (ehciWritel r v) := by
  apply Keeps.bind (.ask (EhciOp.writel r v))
  intro _ _
  exact .modify fun e he => h e r 1 v he

end Unrecorded

theorem keeps_handshakeTries {I : Ehci → Prop} (r : Reg) (mask done : BitVec 32) (usec : Nat)
    : Keeps I (fun _ => True) (handshakeTries r mask done usec) := by
  induction usec with
  | zero =>
    apply Keeps.bind (.ask (EhciOp.readl r))
    intro v _
    apply Keeps.ite (fun _ => .pure trivial)
    intro _
    apply Keeps.ite (fun _ => .pure trivial)
    intro _
    exact .ite (fun _ => .pure trivial) fun _ => .pure trivial
  | succ usec ih =>
    apply Keeps.bind (.ask (EhciOp.readl r))
    intro v _
    apply Keeps.ite (fun _ => .pure trivial)
    intro _
    apply Keeps.ite (fun _ => .pure trivial)
    intro _
    exact .ite (fun _ => .pure trivial) fun _ => ih
