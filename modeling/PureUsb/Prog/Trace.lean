import PureUsb.Prog.Stateful

/-!
This module contains worlds that keep a trace of what a program asked them for.
-/

/-- An operation that was issued in the state `state`, with its answer. -/
structure Event (Op : Type) (Ans : Op → Type) (ε σ : Type) where
  state : σ
  op : Op
  answer : Except ε (Ans op)

namespace World

variable {Op : Type} {Ans : Op → Type} {ε σ : Type}

/-- `w` with the trace of all events up to now, the oldest first. -/
def traced (w : World Op Ans ε σ) : World Op Ans ε (σ × List (Event Op Ans ε σ)) :=
  fun o s r t => w o s.1 r t.1 ∧ t.2 = s.2 ++ [⟨s.1, o, r⟩]

def tracedHandler (h : (o : Op) → σ → Except ε (Ans o) × σ) (o : Op)
    (s : σ × List (Event Op Ans ε σ)) : Except ε (Ans o) × (σ × List (Event Op Ans ε σ)) :=
  ((h o s.1).1, ((h o s.1).2, s.2 ++ [⟨s.1, o, (h o s.1).1⟩]))

theorem tracedHandler_serves {h : (o : Op) → σ → Except ε (Ans o) × σ} {w : World Op Ans ε σ}
    (hs : Prog.Serves h w)
    : Prog.Serves (tracedHandler h) w.traced :=
  fun o s => ⟨hs o s.1, rfl⟩

theorem tracedHandler_offers {h : (o : Op) → σ → Except ε (Ans o) × σ} {w : World Op Ans ε σ}
    (hs : Prog.Offers h w)
    : Prog.Offers (tracedHandler h) w.traced := by
  intro o s x t hx
  unfold tracedHandler at hx
  obtain ⟨hans, ht⟩ := Prod.mk.inj hx
  subst ht
  exact ⟨hs o s.1 x _ (Prod.ext hans rfl), by rw [← hans]⟩

theorem trace_grows (h : (o : Op) → σ → Except ε (Ans o) × σ) {α : Type} (p : Prog Op Ans ε α)
    (s : σ × List (Event Op Ans ε σ))
    : s.2 <+: (p.exec (tracedHandler h) s).2.2 := by
  induction p generalizing s with
  | ret a => apply List.prefix_refl
  | stop e => apply List.prefix_refl
  | op o k ih =>
    have hstep : s.2 <+: (tracedHandler h o s).2.2 := List.prefix_append ..
    unfold Prog.exec
    generalize tracedHandler h o s = res at hstep
    obtain ⟨e | x, t⟩ := res
    . exact hstep
    . exact hstep.trans (ih x t)

theorem wp_grows (w : World Op Ans ε σ) {α : Type} (p : Prog Op Ans ε α)
    (s : σ × List (Event Op Ans ε σ))
    : p.wp w.traced (fun _ t => s.2 <+: t.2) (fun _ t => s.2 <+: t.2) s := by
  induction p generalizing s with
  | ret a => apply List.prefix_refl
  | stop e => apply List.prefix_refl
  | op o k ih =>
    intro t
    constructor
    . rintro x ⟨-, ht⟩
      have hstep : s.2 <+: t.2 := by
        rw [ht]
        apply List.prefix_append
      apply Prog.wp_mono (ih x t)
      . exact fun _ _ h => hstep.trans h
      . exact fun _ _ h => hstep.trans h
    . rintro e ⟨-, ht⟩
      rw [ht]
      apply List.prefix_append

theorem exists_traced_run {w : World Op Ans ε σ} {α : Type} {p : Prog Op Ans ε α} {s t : σ} {r : Except ε α}
    (h : p.Run w s r t) (l : List (Event Op Ans ε σ))
    : ∃ l', p.Run w.traced (s, l) r (t, l') := by
  induction h generalizing l with
  | ret a s => exact ⟨l, .ret a _⟩
  | stop e s => exact ⟨l, .stop e _⟩
  | @op o k s t s' x r hw _ ih =>
    obtain ⟨l', hr⟩ := ih (l ++ [⟨s, o, .ok x⟩])
    exact ⟨l', .op ⟨hw, rfl⟩ hr⟩
  | opStop hw => exact ⟨_, .opStop ⟨hw, rfl⟩⟩

theorem run_of_traced {w : World Op Ans ε σ} {α : Type} {p : Prog Op Ans ε α}
    {s t : σ × List (Event Op Ans ε σ)} {r : Except ε α} (h : p.Run w.traced s r t)
    : p.Run w s.1 r t.1 := by
  induction h with
  | ret a s => exact .ret a _
  | stop e s => exact .stop e _
  | op hw _ ih => exact .op hw.1 ih
  | opStop hw => exact .opStop hw.1

/-- A run that was computed, if all operations that were issued in it satisfy `P`. -/
theorem run_exec_traced {h : (o : Op) → σ → Except ε (Ans o) × σ} {w : World Op Ans ε σ}
    (hs : Prog.Serves h w) {P : Op → Prop} {α : Type} (p : Prog Op Ans ε α)
    (s : σ × List (Event Op Ans ε σ))
    (hp : ∀ e ∈ (p.exec (tracedHandler h) s).2.2, P e.op)
    : Prog.Run (w.restrict P).traced p s (p.exec (tracedHandler h) s).1
        (p.exec (tracedHandler h) s).2 := by
  induction p generalizing s with
  | ret a => apply Prog.Run.ret
  | stop e => apply Prog.Run.stop
  | op o k ih =>
    have hserved := hs o s.1
    have hlast : (⟨s.1, o, (h o s.1).1⟩ : Event Op Ans ε σ) ∈ (tracedHandler h o s).2.2 :=
      List.mem_append_right _ (List.mem_singleton.mpr rfl)
    have hstep : (tracedHandler h o s).2.2 = s.2 ++ [⟨s.1, o, (h o s.1).1⟩] := rfl
    have hans : (tracedHandler h o s).1 = (h o s.1).1 := rfl
    have hstate : (tracedHandler h o s).2.1 = (h o s.1).2 := rfl
    unfold Prog.exec at hp ⊢
    generalize tracedHandler h o s = res at hp hlast hstep hans hstate
    obtain ⟨e | x, t⟩ := res
    . rw [← hans] at hstep hlast hserved
      rw [← hstate] at hserved
      exact Prog.Run.opStop ⟨⟨hp _ hlast, hserved⟩, hstep⟩
    . rw [← hans] at hstep hlast hserved
      rw [← hstate] at hserved
      have hmem := (trace_grows h (k x) t).subset hlast
      exact Prog.Run.op ⟨⟨hp _ hmem, hserved⟩, hstep⟩ (ih x t hp)

end World

namespace Stateful

theorem wp_grows {S : Type} {Op : Type} {Ans : Op → Type} {ε α σ : Type} (w : World Op Ans ε σ)
    (m : Stateful S Op Ans ε α) (u : S) (s : σ × List (Event Op Ans ε σ))
    : wp w.traced m (fun _ _ t => s.2 <+: t.2) (fun _ t => s.2 <+: t.2) u s :=
  World.wp_grows w (m.run u) s

/-- The world with its trace, seen without it. -/
theorem wp_traced {S : Type} {Op : Type} {Ans : Op → Type} {ε α σ : Type} {w : World Op Ans ε σ}
    {m : Stateful S Op Ans ε α} {Q : α → S → σ → Prop} {E : ε → σ → Prop} {u : S}
    {s : σ × List (Event Op Ans ε σ)} (h : wp w m Q E u s.1)
    : wp w.traced m (fun a v t => Q a v t.1) (fun x t => E x t.1) u s :=
  wp_map (f := Prod.fst) (fun _ _ _ _ hw => hw.1) h

/-- What holds of every run with its trace holds of every run. -/
theorem wp_of_traced {S : Type} {Op : Type} {Ans : Op → Type} {ε α σ : Type} {w : World Op Ans ε σ}
    {m : Stateful S Op Ans ε α} {Q : α → S → σ → Prop} {E : ε → σ → Prop} {u : S} {s : σ}
    {l : List (Event Op Ans ε σ)}
    (h : wp w.traced m (fun a v t => Q a v t.1) (fun x t => E x t.1) u (s, l))
    : wp w m Q E u s := by
  have hruns := wp_iff_run.mp h
  rw [wp_iff_run]
  constructor
  . intro a v t hr
    obtain ⟨l', hr⟩ := World.exists_traced_run hr l
    exact hruns.1 a v _ hr
  . intro x t hr
    obtain ⟨l', hr⟩ := World.exists_traced_run hr l
    exact hruns.2 x _ hr

end Stateful
