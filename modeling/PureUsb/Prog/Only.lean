import PureUsb.Prog.Trace

/-!
This module contains a syntactic bound on what a program does: the operations that it may issue and
the reasons for which it may stop, whatever the answers are.
-/

namespace Prog

variable {Op : Type} {Ans : Op → Type} {ε α β σ : Type} {P : Op → Prop} {S : ε → Prop}

/-- The program only issues operations that satisfy `P` and only stops for reasons in `S`. -/
inductive Only (P : Op → Prop) (S : ε → Prop) : Prog Op Ans ε α → Prop where
  | ret (a : α) : Only P S (.ret a)
  | stop {e : ε} : S e → Only P S (.stop e)
  | op {o : Op} {k : Ans o → Prog Op Ans ε α} : P o → (∀ x, Only P S (k x)) → Only P S (.op o k)

theorem Only.bind {p : Prog Op Ans ε α} {f : α → Prog Op Ans ε β} (h : Only P S p)
    (hf : ∀ a, Only P S (f a))
    : Only P S (p.bind f) := by
  induction h with
  | ret a => apply hf
  | stop he => exact .stop he
  | op ho _ ih => exact .op ho ih

/-- A world that never stops a program leaves only the reasons of the program itself. -/
theorem Only.wp {w : World Op Ans ε σ} {p : Prog Op Ans ε α} {Q : α → σ → Prop} {s : σ}
    (h : Only P S p) (hworld : ∀ o s e t, ¬w o s (.error e) t)
    (hp : p.wp w Q (fun _ _ => True) s)
    : p.wp w Q (fun e _ => S e) s := by
  induction h generalizing s with
  | ret a => exact hp
  | stop he => exact he
  | op _ _ ih =>
    intro t
    constructor
    . intro x hx
      exact ih x ((hp t).1 x hx)
    . intro e he
      exact absurd he (hworld _ _ _ _)

theorem Only.wp_invariant {w : World Op Ans ε σ} {p : Prog Op Ans ε α} {I : σ → Prop} {s : σ}
    (h : Only P S p) (hI : ∀ o s x t, P o → I s → w o s (.ok x) t → I t) (hs : I s)
    : p.wp w (fun _ t => I t) (fun _ _ => True) s := by
  induction h generalizing s with
  | ret a => exact hs
  | stop he => trivial
  | op ho _ ih =>
    intro t
    constructor
    . intro x hx
      exact ih x (hI _ _ _ _ ho hs hx)
    . intro _ _
      trivial

theorem Only.wp_stoppable {w : World Op Ans ε σ} {p : Prog Op Ans ε α} {I J : σ → Prop} {s : σ}
    (h : Only P S p) (hI : ∀ o s x t, P o → I s → w o s (.ok x) t → I t)
    (hJ : ∀ o s e t, P o → I s → w o s (.error e) t → J t) (hstop : ∀ s, I s → J s) (hs : I s)
    : p.wp w (fun _ t => I t) (fun _ t => J t) s := by
  induction h generalizing s with
  | ret a => exact hs
  | stop he => exact hstop s hs
  | op ho _ ih =>
    intro t
    constructor
    . intro x hx
      exact ih x (hI _ _ _ _ ho hs hx)
    . intro e he
      exact hJ _ _ _ _ ho hs he

theorem Only.mono {P' : Op → Prop} {S' : ε → Prop} {p : Prog Op Ans ε α} (h : Only P S p)
    (hP : ∀ o, P o → P' o) (hS : ∀ e, S e → S' e)
    : Only P' S' p := by
  induction h with
  | ret a => apply Only.ret
  | stop he => exact .stop (hS _ he)
  | op ho _ ih => exact .op (hP _ ho) ih

theorem Only.trace {w : World Op Ans ε σ} {p : Prog Op Ans ε α}
    {s t : σ × List (Event Op Ans ε σ)} {r : Except ε α} (h : Only P S p)
    (hr : Run w.traced p s r t)
    : ∀ e ∈ t.2, e ∈ s.2 ∨ (P e.op ∧ ∃ m, w e.op e.state e.answer m) := by
  have hevent : ∀ {s t : σ × List (Event Op Ans ε σ)} {o : Op} {x : Except ε (Ans o)}, P o →
      w.traced o s x t → ∀ e ∈ t.2, e ∈ s.2 ∨ (P e.op ∧ ∃ m, w e.op e.state e.answer m) := by
    intro s t o x ho hw e he
    rw [hw.2] at he
    rcases List.mem_append.mp he with he | he
    . exact .inl he
    . rw [List.mem_singleton.mp he]
      exact .inr ⟨ho, _, hw.1⟩
  induction hr with
  | ret =>
    intro e he
    exact .inl he
  | stop =>
    intro e he
    exact .inl he
  | op hw _ ih =>
    cases h with
    | op ho hk =>
      intro e he
      rcases ih (hk _) e he with hm | hm
      . exact hevent ho hw e hm
      . exact .inr hm
  | opStop hw =>
    cases h with
    | op ho _ => exact hevent ho hw

end Prog

namespace Stateful

variable {S : Type} {Op : Type} {Ans : Op → Type} {ε α β σ : Type} {P : Op → Prop} {E : ε → Prop}

/-- Whatever the state is, the program only issues `P` and only stops for reasons in `E`. -/
structure Only (P : Op → Prop) (E : ε → Prop) (m : Stateful S Op Ans ε α) : Prop where
  spec : ∀ u, Prog.Only P E (m.run u)

namespace Only

variable {m m' : Stateful S Op Ans ε α}

theorem pure (a : α) : Only P E (Pure.pure a : Stateful S Op Ans ε α) := ⟨fun _ => .ret _⟩

theorem bind {f : α → Stateful S Op Ans ε β} (h : Only P E m) (hf : ∀ a, Only P E (f a))
    : Only P E (m >>= f) :=
  ⟨fun u => (h.spec u).bind fun r => (hf r.1).spec r.2⟩

theorem ask {o : Op} (h : P o) : Only P E (ask o : Stateful S Op Ans ε (Ans o)) :=
  ⟨fun _ => .op h fun _ => .ret _⟩

theorem stop {e : ε} (h : E e) : Only P E (Stateful.stop e : Stateful S Op Ans ε α) :=
  ⟨fun _ => .stop h⟩

theorem ofExcept {x : Except ε α} (h : ∀ e, x = .error e → E e)
    : Only P E (Stateful.ofExcept x : Stateful S Op Ans ε α) := by
  cases x with
  | ok a => apply pure
  | error e => exact .stop (h e rfl)

theorem get : Only P E (get : Stateful S Op Ans ε S) := ⟨fun _ => .ret _⟩

theorem set (u : S) : Only P E (set u : Stateful S Op Ans ε PUnit) := ⟨fun _ => .ret _⟩

theorem modify (f : S → S) : Only P E (modify f : Stateful S Op Ans ε PUnit) := ⟨fun _ => .ret _⟩

theorem ite {c : Prop} [Decidable c] (h : c → Only P E m) (h' : ¬c → Only P E m')
    : Only P E (if c then m else m') := by
  split
  . next hc => exact h hc
  . next hc => exact h' hc

theorem wp {w : World Op Ans ε σ} {Q : α → S → σ → Prop} {u : S} {s : σ} (h : Only P E m)
    (hworld : ∀ o s e t, ¬w o s (.error e) t)
    (hm : Stateful.wp w m Q (fun _ _ => True) u s)
    : Stateful.wp w m Q (fun e _ => E e) u s :=
  (h.spec u).wp hworld hm

theorem wp_invariant {w : World Op Ans ε σ} {I : σ → Prop} {u : S} {s : σ} (h : Only P E m)
    (hI : ∀ o s x t, P o → I s → w o s (.ok x) t → I t) (hs : I s)
    : Stateful.wp w m (fun _ _ t => I t) (fun _ _ => True) u s :=
  (h.spec u).wp_invariant hI hs

theorem wp_stoppable {w : World Op Ans ε σ} {I J : σ → Prop} {u : S} {s : σ} (h : Only P E m)
    (hI : ∀ o s x t, P o → I s → w o s (.ok x) t → I t)
    (hJ : ∀ o s e t, P o → I s → w o s (.error e) t → J t) (hstop : ∀ s, I s → J s) (hs : I s)
    : Stateful.wp w m (fun _ _ t => I t) (fun _ t => J t) u s :=
  (h.spec u).wp_stoppable hI hJ hstop hs

theorem mono {P' : Op → Prop} {E' : ε → Prop} (h : Only P E m) (hP : ∀ o, P o → P' o)
    (hE : ∀ e, E e → E' e)
    : Only P' E' m :=
  ⟨fun u => (h.spec u).mono hP hE⟩

theorem trace {w : World Op Ans ε σ} {u : S} {s t : σ × List (Event Op Ans ε σ)}
    {r : Except ε (α × S)} (h : Only P E m) (hr : m.Run w.traced u s r t)
    : ∀ e ∈ t.2, e ∈ s.2 ∨ (P e.op ∧ ∃ m, w e.op e.state e.answer m) :=
  (h.spec u).trace hr

end Only

end Stateful
