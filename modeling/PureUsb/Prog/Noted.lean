import PureUsb.Prog.Stateful

/-!
This module contains programs that also return notes on what they did, and the programs they become
without them.
-/

namespace Stateful

variable {S : Type} {Op : Type} {Ans : Op → Type} {ε α β N σ : Type}

/-- `m'` is `m` with notes. -/
structure Notes (m' : Stateful S Op Ans ε (α × N)) (m : Stateful S Op Ans ε α) : Prop where
  erase : (m' >>= fun r => pure r.1) = m

namespace Notes

variable {N' : Type} {m' : Stateful S Op Ans ε (α × N)} {m : Stateful S Op Ans ε α}

theorem pure (a : α) (n : N) : Notes (Pure.pure (a, n) : Stateful S Op Ans ε (α × N)) (Pure.pure a) :=
  ⟨pure_bind _ _⟩

theorem add (m : Stateful S Op Ans ε α) (f : α → N)
    : Notes (m >>= fun a => Pure.pure (a, f a)) m := by
  constructor
  simp only [bind_assoc, pure_bind, bind_pure]

theorem bind {f' : α × N → Stateful S Op Ans ε (β × N')} {f : α → Stateful S Op Ans ε β}
    (h : Notes m' m) (hf : ∀ a n, Notes (f' (a, n)) (f a))
    : Notes (m' >>= f') (m >>= f) := by
  constructor
  rw [← h.erase]
  simp only [bind_assoc, pure_bind]
  congr
  funext r
  exact (hf r.1 r.2).erase

theorem after (m : Stateful S Op Ans ε α) {f' : α → Stateful S Op Ans ε (β × N)}
    {f : α → Stateful S Op Ans ε β} (hf : ∀ a, Notes (f' a) (f a))
    : Notes (m >>= f') (m >>= f) := by
  constructor
  rw [bind_assoc]
  congr
  funext a
  exact (hf a).erase

theorem map (h : Notes m' m) (f : α × N → N')
    : Notes (m' >>= fun r => Pure.pure (r.1, f r)) m := by
  constructor
  rw [← h.erase]
  simp only [bind_assoc, pure_bind]

theorem get {f' : S → Stateful S Op Ans ε (α × N)} (h : ∀ u, Notes (f' u) m)
    : Notes (get >>= f') m := by
  constructor
  funext u
  rw [← (h u).erase]
  rfl

theorem ite {c : Prop} [Decidable c] {l' : Stateful S Op Ans ε (α × N)} {l : Stateful S Op Ans ε α}
    (h : Notes m' m) (hl : Notes l' l)
    : Notes (if c then m' else l') (if c then m else l) := by
  split
  . exact h
  . exact hl

variable {w : World Op Ans ε σ} {u v : S} {s t : σ}

theorem wp_iff {Q : α → S → σ → Prop} {E : ε → σ → Prop} (h : Notes m' m)
    : wp w m Q E u s ↔ wp w m' (fun r v t => Q r.1 v t) E u s := by
  rw [← h.erase, wp_bind]
  rfl

theorem run_iff {a : α} (h : Notes m' m)
    : m.Run w u s (.ok (a, v)) t ↔ ∃ n, m'.Run w u s (.ok ((a, n), v)) t := by
  rw [← h.erase, run_bind]
  constructor
  . rintro (⟨⟨_, n⟩, _, _, hr, hret⟩ | ⟨_, hf, -⟩)
    . cases hret
      exact ⟨n, hr⟩
    . cases hf
  . rintro ⟨n, hr⟩
    exact .inl ⟨(a, n), v, t, hr, .ret _ _⟩

end Notes

end Stateful
