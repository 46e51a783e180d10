import PureUsb.Prog.Rel

/-!
This module contains programs of which the second has to do what the first did, as long as the first
one keeps to some condition on its world.
-/

namespace Stateful

variable {S : Type} {Op : Type} {Ans : Op → Type} {ε α α' β β' σ : Type}

/-- Once `G` is lost, it does not come back. -/
def Perishable (w : World Op Ans ε σ) (G : σ → Prop) : Prop :=
  ∀ o s x t, w o s (.ok x) t → G t → G s

theorem Perishable.run {w : World Op Ans ε σ} {G : σ → Prop} (hG : Perishable w G)
    {m : Stateful S Op Ans ε α} {u v : S} {s t : σ} {a : α} (h : m.Run w u s (.ok (a, v)) t) (ht : G t)
    : G s := by
  have hall : ∀ {p : Prog Op Ans ε (α × S)} {r : Except ε (α × S)} {s t : σ}, Prog.Run w p s r t →
      (∀ e, r ≠ .error e) → G t → G s := by
    intro p r s t h
    induction h with
    | ret a s => exact fun _ ht => ht
    | stop e s => exact fun hr _ => absurd rfl (hr e)
    | op hw _ ih => exact fun hr ht => hG _ _ _ _ hw (ih hr ht)
    | opStop hw => exact fun hr _ => absurd rfl (hr _)
  exact hall h (fun _ => nofun) ht

theorem Perishable.wp_lost {w : World Op Ans ε σ} {G : σ → Prop} (hG : Perishable w G)
    {m : Stateful S Op Ans ε α} {u : S} {s : σ} (hs : ¬G s)
    : wp w m (fun _ _ t => ¬G t) (fun _ _ => True) u s :=
  wp_iff_run.mpr ⟨fun _ _ _ hr ht => hs (hG.run hr ht), fun _ _ _ => trivial⟩

/--
When `m` returned from `c` and `G` holds then, `m'` returns from `c'` as well, if it ends at all, and
both end in `Q`.
-/
structure Follows (w : World Op Ans ε σ) (G : σ → Prop) (m : Stateful S Op Ans ε α)
    (m' : Stateful S Op Ans ε α') (Q : α → S × σ → α' → S × σ → Prop) (c c' : S × σ) : Prop where
  ends : ∀ {a v t r t'}, m.Run w c.1 c.2 (.ok (a, v)) t → G t → m'.Run w c'.1 c'.2 r t' →
    ∃ a' v', r = .ok (a', v') ∧ Q a (v, t) a' (v', t')

namespace Follows

variable {w : World Op Ans ε σ} {G : σ → Prop} {m : Stateful S Op Ans ε α}
variable {m' : Stateful S Op Ans ε α'} {Q R : α → S × σ → α' → S × σ → Prop} {c c' : S × σ}

theorem pure {a : α} {a' : α'} (h : Q a c a' c')
    : Follows w G (Pure.pure a) (Pure.pure a') Q c c' := by
  constructor
  intro _ _ _ _ _ hr _ hr'
  cases hr
  cases hr'
  exact ⟨_, _, rfl, h⟩

theorem bind (hG : Perishable w G) {f : α → Stateful S Op Ans ε β} {f' : α' → Stateful S Op Ans ε β'}
    {Q : β → S × σ → β' → S × σ → Prop} (h : Follows w G m m' R c c')
    (hf : ∀ a d a' d', R a d a' d' → G d.2 → Follows w G (f a) (f' a') Q d d')
    : Follows w G (m >>= f) (m' >>= f') Q c c' := by
  constructor
  intro b v t r t' hr ht hr'
  obtain ⟨a, x, y, hm, hr⟩ | ⟨_, hf, -⟩ := run_bind.mp hr
  . have hy := hG.run hr ht
    obtain ⟨a', x', y', hm', hr'⟩ | ⟨e, -, hm'⟩ := run_bind.mp hr'
    . obtain ⟨_, _, hret, hR⟩ := h.ends hm hy hm'
      cases hret
      exact (hf _ _ _ _ hR hy).ends hr ht hr'
    . obtain ⟨_, _, hret, -⟩ := h.ends hm hy hm'
      cases hret
  . cases hf

theorem mono (h : Follows w G m m' R c c') (hq : ∀ a d a' d', R a d a' d' → Q a d a' d')
    : Follows w G m m' Q c c' := by
  constructor
  intro a v t r t' hr ht hr'
  obtain ⟨a', v', hret, hR⟩ := h.ends hr ht hr'
  exact ⟨a', v', hret, hq _ _ _ _ hR⟩

theorem get_bind {f : S → Stateful S Op Ans ε α} {f' : S → Stateful S Op Ans ε α'}
    (h : Follows w G (f c.1) (f' c'.1) Q c c')
    : Follows w G (get >>= f) (get >>= f') Q c c' :=
  ⟨fun hr ht hr' => h.ends hr ht hr'⟩

theorem set {u u' : S} {Q : PUnit → S × σ → PUnit → S × σ → Prop} (h : Q ⟨⟩ (u, c.2) ⟨⟩ (u', c'.2))
    : Follows w G (set u : Stateful S Op Ans ε PUnit) (set u') Q c c' := by
  constructor
  intro _ _ _ _ _ hr _ hr'
  cases hr
  cases hr'
  exact ⟨_, _, rfl, h⟩

theorem modify {f f' : S → S} {Q : PUnit → S × σ → PUnit → S × σ → Prop}
    (h : Q ⟨⟩ (f c.1, c.2) ⟨⟩ (f' c'.1, c'.2))
    : Follows w G (modify f : Stateful S Op Ans ε PUnit) (modify f') Q c c' := by
  constructor
  intro _ _ _ _ _ hr _ hr'
  cases hr
  cases hr'
  exact ⟨_, _, rfl, h⟩

theorem ask {o o' : Op} {Q : Ans o → S × σ → Ans o' → S × σ → Prop}
    (h : ∀ x t r t', w o c.2 (.ok x) t → G t → w o' c'.2 r t' →
      ∃ x', r = .ok x' ∧ Q x (c.1, t) x' (c'.1, t'))
    : Follows w G (ask o : Stateful S Op Ans ε (Ans o)) (ask o') Q c c' := by
  constructor
  intro a v t r t' hr ht hr'
  cases hr with
  | op hw hret =>
    cases hret
    cases hr' with
    | op hw' hret' =>
      cases hret'
      obtain ⟨x', hx', hQ⟩ := h _ _ _ _ hw ht hw'
      cases hx'
      exact ⟨_, _, rfl, hQ⟩
    | opStop hw' =>
      obtain ⟨x', hx', -⟩ := h _ _ _ _ hw ht hw'
      cases hx'

theorem stop (e : ε) : Follows w G (Stateful.stop e) m' Q c c' := by
  constructor
  intro _ _ _ _ _ hr
  cases hr

theorem ofExcept {x : Except ε α} (h : ∀ a, x = .ok a → Follows w G (Pure.pure a) m' Q c c')
    : Follows w G (ofExcept x) m' Q c c' := by
  cases x with
  | ok a => exact h a rfl
  | error e => exact stop e

/-- Nothing has to be shown of runs that lose `G`. -/
theorem of_lost (h : wp w m (fun _ _ t => ¬G t) (fun _ _ => True) c.1 c.2)
    : Follows w G m m' Q c c' :=
  ⟨fun hr ht _ => absurd ht (wp_run h hr)⟩

theorem of_wp {P : α → S → σ → Prop} {P' : α' → S → σ → Prop} (h : wp w m P (fun _ _ => True) c.1 c.2)
    (h' : wp w m' P' (fun _ _ => False) c'.1 c'.2)
    (hQ : ∀ a d a' d', P a d.1 d.2 → G d.2 → P' a' d'.1 d'.2 → Q a d a' d')
    : Follows w G m m' Q c c' := by
  constructor
  intro a v t r t' hr ht hr'
  match r with
  | .ok (a', v') => exact ⟨a', v', rfl, hQ _ _ _ _ (wp_run h hr) ht (wp_run h' hr')⟩
  | .error e => exact absurd (wp_run_error h' hr') id

end Follows

/-- From states in `J`, a second run of `m` returns the same and ends in `J`. -/
structure Repeats (w : World Op Ans ε σ) (G : σ → Prop) (J : S × σ → S × σ → Prop)
    (m : Stateful S Op Ans ε α) : Prop where
  spec : ∀ {c c'}, J c c' → Follows w G m m (fun a d a' d' => a' = a ∧ J d d') c c'

namespace Repeats

variable {w : World Op Ans ε σ} {G : σ → Prop} {J : S × σ → S × σ → Prop} {m : Stateful S Op Ans ε α}

theorem pure (a : α) : Repeats w G J (Pure.pure a : Stateful S Op Ans ε α) := ⟨fun hJ => .pure ⟨rfl, hJ⟩⟩

theorem bind (hG : Perishable w G) {f : α → Stateful S Op Ans ε β} (h : Repeats w G J m)
    (hf : ∀ a, Repeats w G J (f a))
    : Repeats w G J (m >>= f) := by
  constructor
  intro c c' hJ
  apply (h.spec hJ).bind hG
  rintro a d _ d' ⟨rfl, hJ⟩ -
  exact (hf _).spec hJ

theorem ite {p : Prop} [Decidable p] {l : Stateful S Op Ans ε α} (h : Repeats w G J m)
    (hl : Repeats w G J l)
    : Repeats w G J (if p then m else l) := by
  split
  . exact h
  . exact hl

theorem stop (e : ε) : Repeats w G J (Stateful.stop e : Stateful S Op Ans ε α) := ⟨fun _ => .stop e⟩

theorem ofExcept (x : Except ε α) : Repeats w G J (Stateful.ofExcept x : Stateful S Op Ans ε α) := by
  cases x with
  | ok a => exact pure a
  | error e => exact stop e

theorem get_bind {f : S → Stateful S Op Ans ε α} (hJ : ∀ {c c'}, J c c' → c'.1 = c.1)
    (h : ∀ u, Repeats w G J (f u))
    : Repeats w G J (get >>= f) := by
  constructor
  intro c c' hc
  apply Follows.get_bind
  rw [hJ hc]
  exact (h _).spec hc

end Repeats

end Stateful
