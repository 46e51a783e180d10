import PureUsb.Ehci.Lemmas.Basic
import PureUsb.Ehci.Lemmas.Completion
import PureUsb.Word

/-!
This module contains what the driver told the controller about the asynchronous schedule, and what it saw of
it since then.
-/

open Stateful

/-- The schedule as the driver last told the controller, and what it last saw of it since then. -/
structure Told where
  /-- `CMD_ASE` -/
  ase : Bool
  /-- `USBSTS` -/
  sts : Option (BitVec 32)

namespace Told

variable {σ : Type}

def after (k : Told) (e : EhciEvent σ) : Told :=
  match e with
  | ⟨_, .writel .usbcmd v, _⟩ => ⟨decide (v &&& cmdAse ≠ 0), none⟩
  | ⟨_, .readl .usbsts, .ok v⟩ => { k with sts := some v }
  | _ => k

/-- The value of `STD_ASS` that goes with the last command. -/
def awaited (k : Told) : BitVec 32 := bif k.ase then stdAss else 0

/-- The last look did not find the schedule as it should be. -/
def GaveUp (k : Told) : Prop := ∃ v ∈ k.sts, ¬Matches stdAss k.awaited v

end Told

def told {σ : Type} (l : List (EhciEvent σ)) : Told := l.foldl Told.after ⟨false, none⟩

theorem told_concat {σ : Type} (l : List (EhciEvent σ)) (e : EhciEvent σ)
    : told (l ++ [e]) = (told l).after e := by
  unfold told
  rw [List.foldl_append]
  rfl

/-- An access that neither switches the schedule nor looks whether it is on. -/
def EhciOp.Aside : EhciOp → Prop
  | .readl r => r ≠ .usbsts
  | .writel r _ => r ≠ .usbcmd
  | _ => True

theorem EhciOp.Aside.after {σ : Type} {o : EhciOp} {x : EhciAns o} (ho : o.Aside) (k : Told) (a : σ)
    : k.after ⟨a, o, .ok x⟩ = k := by
  cases o with
  | readl r =>
    cases r with
    | usbsts => exact absurd rfl ho
    | _ => rfl
  | writel r v =>
    cases r with
    | usbcmd => exact absurd rfl ho
    | _ => rfl
  | _ => rfl

theorem EhciOp.Builds.aside {o : EhciOp} (h : o.Builds) : o.Aside := by
  cases o with
  | readl r => exact h.elim
  | writel r v => exact h.elim
  | _ => trivial

section

variable {σ : Type} {w : EhciWorld σ} {e : Ehci} {s t : σ × List (EhciEvent σ)} {k : Told}

theorem told_aside {o : EhciOp} {x : EhciAns o} (ho : o.Aside) (h : w.traced o s (.ok x) t)
    : told t.2 = told s.2 := by
  rw [h.2, told_concat, ho.after]

theorem wp_told_aside {α : Type} {m : EhciM α} {S : Stop → Prop} (h : Only EhciOp.Aside S m) (hs : told s.2 = k)
    : wp w.traced m (fun _ _ t => told t.2 = k) (fun _ _ => True) e s :=
  h.wp_invariant (fun _ _ _ _ ho hs hw => (told_aside ho hw).trans hs) hs

theorem wp_storeDma_told {f : Dma → Dma} (hs : told s.2 = k)
    : wp w.traced (storeDma f) (fun _ _ t => told t.2 = k) (fun _ _ => True) e s :=
  wp_told_aside (S := fun _ => False) (Only.ask trivial) hs

theorem wp_failAsync_told {dev : UsbDevice} (hs : (told s.2).GaveUp)
    : wp w.traced (failAsync dev) (fun r _ t => r.1 = -1 ∧ (told t.2).GaveUp) (fun _ _ => True) e s := by
  unfold failAsync
  rw [wp_bind]
  refine wp_post (wp_storeDma_told rfl) fun _ _ t ht => ⟨rfl, ?_⟩
  rw [ht]
  exact hs

theorem wp_command_told {v done : BitVec 32} {usec : Nat} {on : Bool}
    (hon : decide (v &&& cmdAse ≠ 0) = on) (hdone : done = bif on then stdAss else 0)
    : wp w.traced (do ehciWritel .usbcmd v; handshake .usbsts stdAss done usec)
        (fun ret _ t => ret ≤ 0 ∧ (ret = 0 ↔ ¬(told t.2).GaveUp)) (fun _ _ => True) e s := by
  have hread : ∀ (s t : σ × List (EhciEvent σ)) (v : BitVec 32), (told s.2).ase = on →
      w.traced (.readl .usbsts) s (.ok v) t → told t.2 = ⟨on, some v⟩ := by
    intro s t v hs h
    rw [h.2, told_concat, ← hs]
    rfl
  rw [wp_bind, wp_ehciWritel]
  intro t
  refine ⟨fun x h => ?_, fun _ _ => trivial⟩
  have hsaid : (told t.2).ase = on := by
    rw [h.2, told_concat]
    exact hon
  unfold handshake
  refine wp_post
    (wp_handshakeTries (I := fun t => (told t.2).ase = on) (E := fun _ _ => True) ?_ ?_ hsaid) ?_
  . intro s t v hs h
    rw [hread s t v hs h]
  . exact fun _ _ _ _ _ => trivial
  . rintro ret e' u ⟨-, -, hret, u', v', hu', h, hmatch⟩
    refine ⟨hret, hmatch.trans ?_⟩
    rw [hread u' u v' hu' h]
    unfold Told.GaveUp Told.awaited
    rw [← hdone]
    simp

theorem wp_enableAsync_told
    : wp w.traced enableAsync (fun ret _ t => ret ≤ 0 ∧ (ret = 0 ↔ ¬(told t.2).GaveUp)) (fun _ _ => True)
        e s := by
  unfold enableAsync
  apply wp_bind_any
  intro _ e s
  apply wp_bind_any
  intro _ e s
  apply wp_bind_any
  intro cmd e s
  have hon : (cmd ||| cmdAse) &&& cmdAse ≠ 0 := (BitVec.and_bit_ne_zero_iff (by decide)).mpr (by simp)
  exact wp_command_told (decide_eq_true hon) rfl

theorem wp_disableAsync_told
    : wp w.traced disableAsync (fun ret _ t => ret ≤ 0 ∧ (ret = 0 ↔ ¬(told t.2).GaveUp)) (fun _ _ => True)
        e s := by
  unfold disableAsync
  apply wp_bind_any
  intro cmd e s
  have hoff : (cmd &&& ~~~cmdAse) &&& cmdAse = 0 := by
    rw [BitVec.and_assoc, BitVec.not_and_self]
    exact BitVec.and_zero
  exact wp_command_told (decide_eq_false (not_not_intro hoff)) rfl

end
