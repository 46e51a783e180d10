import PureUsb.Prog.Stateful

/-!
This module contains relations between the ends of two runs.
-/

namespace Stateful

variable {S : Type} {Op : Type} {Ans : Op → Type} {ε α α' β β' σ : Type}

/--
Whenever `m` returns from `c` and `m'` returns from `c'`, they end in `Q`. The states of program and world
go together in a pair.
-/
structure Rel (w : World Op Ans ε σ) (m : Stateful S Op Ans ε α) (m' : Stateful S Op Ans ε α')
    (Q : α → S × σ → α' → S × σ → Prop) (c c' : S × σ) : Prop where
  ends : ∀ {a v t a' v' t'}, m.Run w c.1 c.2 (.ok (a, v)) t → m'.Run w c'.1 c'.2 (.ok (a', v')) t' →
    Q a (v, t) a' (v', t')

namespace Rel

variable {w : World Op Ans ε σ} {m : Stateful S Op Ans ε α} {m' : Stateful S Op Ans ε α'}
variable {Q R : α → S × σ → α' → S × σ → Prop} {c c' : S × σ}

theorem pure {a : α} {a' : α'} (h : Q a c a' c')
    : Rel w (Pure.pure a) (Pure.pure a') Q c c' := by
  constructor
  intro _ _ _ _ _ _ hr hr'
  cases hr
  cases hr'
  exact h

theorem bind {f : α → Stateful S Op Ans ε β} {f' : α' → Stateful S Op Ans ε β'}
    {Q : β → S × σ → β' → S × σ → Prop} (h : Rel w m m' R c c')
    (hf : ∀ a d a' d', R a d a' d' → Rel w (f a) (f' a') Q d d')
    : Rel w (m >>= f) (m' >>= f') Q c c' := by
  constructor
  intro b v t b' v' t' hr hr'
  obtain ⟨a, x, y, hm, hr⟩ | ⟨_, hf, -⟩ := run_bind.mp hr
  . obtain ⟨a', x', y', hm', hr'⟩ | ⟨_, hf, -⟩ := run_bind.mp hr'
    . exact (hf _ _ _ _ (h.ends hm hm')).ends hr hr'
    . cases hf
  . cases hf

theorem mono (h : Rel w m m' R c c') (hq : ∀ a d a' d', R a d a' d' → Q a d a' d')
    : Rel w m m' Q c c' :=
  ⟨fun hr hr' => hq _ _ _ _ (h.ends hr hr')⟩

theorem get {Q : S → S × σ → S → S × σ → Prop} (h : Q c.1 c c'.1 c')
    : Rel w (get : Stateful S Op Ans ε S) get Q c c' := by
  constructor
  intro _ _ _ _ _ _ hr hr'
  cases hr
  cases hr'
  exact h

theorem modify {f f' : S → S} {Q : PUnit → S × σ → PUnit → S × σ → Prop}
    (h : Q ⟨⟩ (f c.1, c.2) ⟨⟩ (f' c'.1, c'.2))
    : Rel w (modify f : Stateful S Op Ans ε PUnit) (modify f') Q c c' := by
  constructor
  intro _ _ _ _ _ _ hr hr'
  cases hr
  cases hr'
  exact h

theorem ask {o : Op} {o' : Op} {Q : Ans o → S × σ → Ans o' → S × σ → Prop}
    (h : ∀ x t x' t', w o c.2 (.ok x) t → w o' c'.2 (.ok x') t' → Q x (c.1, t) x' (c'.1, t'))
    : Rel w (ask o : Stateful S Op Ans ε (Ans o)) (ask o') Q c c' := by
  constructor
  intro a v t a' v' t' hr hr'
  cases hr with
  | op hw hret =>
    cases hret
    cases hr' with
    | op hw' hret' =>
      cases hret'
      exact h _ _ _ _ hw hw'

theorem ite {p p' : Prop} [Decidable p] [Decidable p'] {l : Stateful S Op Ans ε α}
    {l' : Stateful S Op Ans ε α'} (hp : p ↔ p') (h : p → Rel w m m' Q c c')
    (hl : ¬p → Rel w l l' Q c c')
    : Rel w (if p then m else l) (if p' then m' else l') Q c c' := by
  by_cases hc : p
  . rw [if_pos hc, if_pos (hp.mp hc)]
    exact h hc
  . rw [if_neg hc, if_neg fun hc' => hc (hp.mpr hc')]
    exact hl hc

theorem and (h : Rel w m m' Q c c') (h' : Rel w m m' R c c')
    : Rel w m m' (fun a d a' d' => Q a d a' d' ∧ R a d a' d') c c' :=
  ⟨fun hr hr' => ⟨h.ends hr hr', h'.ends hr hr'⟩⟩

end Rel

/-- From states in `J`, two runs of `m` return the same and end in `J`. -/
structure InStep (w : World Op Ans ε σ) (J : S × σ → S × σ → Prop) (m : Stateful S Op Ans ε α) : Prop where
  spec : ∀ c c', J c c' → Rel w m m (fun a d a' d' => a = a' ∧ J d d') c c'

namespace InStep

variable {w : World Op Ans ε σ} {J : S × σ → S × σ → Prop} {m : Stateful S Op Ans ε α}

theorem pure (a : α) : InStep w J (Pure.pure a : Stateful S Op Ans ε α) :=
  ⟨fun _ _ hJ => Rel.pure ⟨rfl, hJ⟩⟩

theorem bind {f : α → Stateful S Op Ans ε β} (h : InStep w J m) (hf : ∀ a, InStep w J (f a))
    : InStep w J (m >>= f) := by
  constructor
  intro c c' hJ
  apply Rel.bind (h.spec c c' hJ)
  rintro a d _ d' ⟨rfl, hJ⟩
  exact (hf a).spec d d' hJ

theorem ite {p : Prop} [Decidable p] {l : Stateful S Op Ans ε α} (h : InStep w J m) (hl : InStep w J l)
    : InStep w J (if p then m else l) := by
  split
  . exact h
  . exact hl

theorem ask {o : Op}
    (h : ∀ c c' x t x' t', J c c' → w o c.2 (.ok x) t → w o c'.2 (.ok x') t' →
      x = x' ∧ J (c.1, t) (c'.1, t'))
    : InStep w J (ask o : Stateful S Op Ans ε (Ans o)) :=
  ⟨fun c c' hJ => Rel.ask fun x t x' t' hx hx' => h c c' x t x' t' hJ hx hx'⟩

theorem modify {f : S → S} (h : ∀ c c', J c c' → J (f c.1, c.2) (f c'.1, c'.2))
    : InStep w J (modify f : Stateful S Op Ans ε PUnit) :=
  ⟨fun c c' hJ => Rel.modify ⟨rfl, h c c' hJ⟩⟩

theorem gets (f : S → α) (h : ∀ c c', J c c' → f c.1 = f c'.1)
    : InStep w J (get >>= fun u => Pure.pure (f u) : Stateful S Op Ans ε α) := by
  constructor
  intro c c' hJ
  exact Rel.bind (R := fun u d u' d' => u = d.1 ∧ u' = d'.1 ∧ J d d') (Rel.get ⟨rfl, rfl, hJ⟩)
    fun u d u' d' hd => by
      obtain ⟨rfl, rfl, hJ⟩ := hd
      exact Rel.pure ⟨h d d' hJ, hJ⟩

end InStep

end Stateful
