import PureUsb.Prog.Basic

/-!
This module contains programs with a state of their own next to the state of the world: what a
driver keeps in its static variables against what the hardware keeps.
-/

abbrev Stateful (S : Type) (Op : Type) (Ans : Op → Type) (ε : Type) := StateT S (Prog Op Ans ε)

namespace Stateful

variable {S : Type} {Op : Type} {Ans : Op → Type} {ε α β σ : Type}

def ask (o : Op) : Stateful S Op Ans ε (Ans o) :=
  fun u => (Prog.ask o).bind fun x => .ret (x, u)

def stop (e : ε) : Stateful S Op Ans ε α :=
  fun _ => .stop e

/-- A computation that needs neither the state nor the world but may stop. -/
def ofExcept (x : Except ε α) : Stateful S Op Ans ε α :=
  match x with
  | .ok a => pure a
  | .error e => stop e

/--
`m.Run w u s r s'`: started with private state `u` in world state `s`, the program `m` may end in
`r`, a value and a private state or the reason it stopped, and leave the world in `s'`.
-/
def Run (w : World Op Ans ε σ) (m : Stateful S Op Ans ε α) (u : S) (s : σ)
    (r : Except ε (α × S)) (s' : σ) : Prop :=
  Prog.Run w (m.run u) s r s'

/--
Every run of `m` that returns ends in `Q`, every run that stops ends in `E`.
-/
def wp (w : World Op Ans ε σ) (m : Stateful S Op Ans ε α) (Q : α → S → σ → Prop)
    (E : ε → σ → Prop) (u : S) (s : σ) : Prop :=
  (m.run u).wp w (fun r t => Q r.1 r.2 t) E s

variable {w : World Op Ans ε σ} {Q : α → S → σ → Prop} {E : ε → σ → Prop} {u : S} {s : σ}

@[simp]
theorem wp_pure (a : α) : wp w (pure a : Stateful S Op Ans ε α) Q E u s ↔ Q a u s := Iff.rfl

@[simp]
theorem wp_bind (m : Stateful S Op Ans ε α) (f : α → Stateful S Op Ans ε β) {Q : β → S → σ → Prop}
    : wp w (m >>= f) Q E u s ↔ wp w m (fun a u t => wp w (f a) Q E u t) E u s := by
  unfold wp
  rw [StateT.run_bind, Prog.bind_eq, Prog.wp_bind]

@[simp]
theorem wp_get {Q : S → S → σ → Prop}
    : wp w (get : Stateful S Op Ans ε S) Q E u s ↔ Q u u s := Iff.rfl

@[simp]
theorem wp_set (v : S) {Q : PUnit → S → σ → Prop}
    : wp w (set v : Stateful S Op Ans ε PUnit) Q E u s ↔ Q ⟨⟩ v s := Iff.rfl

@[simp]
theorem wp_modify (f : S → S) {Q : PUnit → S → σ → Prop}
    : wp w (modify f : Stateful S Op Ans ε PUnit) Q E u s ↔ Q ⟨⟩ (f u) s := Iff.rfl

@[simp]
theorem wp_ask (o : Op) {Q : Ans o → S → σ → Prop}
    : wp w (ask o : Stateful S Op Ans ε (Ans o)) Q E u s
        ↔
      ∀ t, (∀ x, w o s (.ok x) t → Q x u t) ∧ (∀ e, w o s (.error e) t → E e t) := Iff.rfl

@[simp]
theorem wp_stop (e : ε) : wp w (stop e : Stateful S Op Ans ε α) Q E u s ↔ E e s := Iff.rfl

@[simp]
theorem wp_ofExcept_ok (a : α)
    : wp w (ofExcept (.ok a) : Stateful S Op Ans ε α) Q E u s ↔ Q a u s := Iff.rfl

@[simp]
theorem wp_ofExcept_error (e : ε)
    : wp w (ofExcept (.error e) : Stateful S Op Ans ε α) Q E u s ↔ E e s := Iff.rfl

theorem wp_ite (c : Prop) [Decidable c] (m m' : Stateful S Op Ans ε α)
    : wp w (if c then m else m') Q E u s
        ↔
      (c → wp w m Q E u s) ∧ (¬c → wp w m' Q E u s) := by
  split <;> simp_all

theorem wp_mono {m : Stateful S Op Ans ε α} {Q' : α → S → σ → Prop} {E' : ε → σ → Prop}
    (h : wp w m Q E u s) (hq : ∀ a v t, Q a v t → Q' a v t) (he : ∀ e t, E e t → E' e t)
    : wp w m Q' E' u s :=
  Prog.wp_mono h (fun _ _ h => hq _ _ _ h) he

theorem wp_post {m : Stateful S Op Ans ε α} {Q' : α → S → σ → Prop}
    (h : wp w m Q E u s) (hq : ∀ a v t, Q a v t → Q' a v t)
    : wp w m Q' E u s :=
  wp_mono h hq (fun _ _ h => h)

theorem wp_true (w : World Op Ans ε σ) (m : Stateful S Op Ans ε α) (u : S) (s : σ)
    : wp w m (fun _ _ _ => True) (fun _ _ => True) u s :=
  Prog.wp_true w (m.run u) s

theorem wp_bind_any {m : Stateful S Op Ans ε α} {f : α → Stateful S Op Ans ε β}
    {Q : β → S → σ → Prop} (h : ∀ a v t, wp w (f a) Q (fun _ _ => True) v t)
    : wp w (m >>= f) Q (fun _ _ => True) u s := by
  rw [wp_bind]
  apply wp_post (wp_true w m u s)
  intro a v t _
  apply h

theorem wp_and {m : Stateful S Op Ans ε α} {Q' : α → S → σ → Prop} {E' : ε → σ → Prop}
    (h : wp w m Q E u s) (h' : wp w m Q' E' u s)
    : wp w m (fun a v t => Q a v t ∧ Q' a v t) (fun e t => E e t ∧ E' e t) u s :=
  Prog.wp_and h h'

theorem wp_both {m : Stateful S Op Ans ε α} {Q' : α → S → σ → Prop}
    (h : wp w m Q (fun _ _ => True) u s) (h' : wp w m Q' (fun _ _ => True) u s)
    : wp w m (fun a v t => Q a v t ∧ Q' a v t) (fun _ _ => True) u s :=
  Prog.wp_mono (Prog.wp_and h h') (fun _ _ h => h) fun _ _ _ => trivial

theorem wp_iff_run {m : Stateful S Op Ans ε α}
    : wp w m Q E u s
        ↔
      (∀ a v t, m.Run w u s (.ok (a, v)) t → Q a v t) ∧
      (∀ e t, m.Run w u s (.error e) t → E e t) := by
  unfold wp Run
  rw [Prog.wp_iff_run]
  simp only [Prod.forall]

theorem wp_self (w : World Op Ans ε σ) (m : Stateful S Op Ans ε α) (u : S) (s : σ)
    : wp w m (fun a v t => m.Run w u s (.ok (a, v)) t) (fun e t => m.Run w u s (.error e) t) u s :=
  wp_iff_run.mpr ⟨fun _ _ _ h => h, fun _ _ h => h⟩

theorem wp_run {m : Stateful S Op Ans ε α} {a : α} {v : S} {t : σ} (h : wp w m Q E u s)
    (hr : m.Run w u s (.ok (a, v)) t)
    : Q a v t :=
  (wp_iff_run.mp h).1 a v t hr

theorem wp_run_error {m : Stateful S Op Ans ε α} {e : ε} {t : σ} (h : wp w m Q E u s)
    (hr : m.Run w u s (.error e) t)
    : E e t :=
  (wp_iff_run.mp h).2 e t hr

theorem run_bind {m : Stateful S Op Ans ε α} {f : α → Stateful S Op Ans ε β}
    {r : Except ε (β × S)} {s' : σ}
    : (m >>= f).Run w u s r s'
        ↔
      (∃ a v t, m.Run w u s (.ok (a, v)) t ∧ (f a).Run w v t r s') ∨
      (∃ e, r = .error e ∧ m.Run w u s (.error e) s') := by
  unfold Run
  rw [StateT.run_bind, Prog.bind_eq, Prog.run_bind]
  simp only [Prod.exists]

theorem run_get_bind {f : S → Stateful S Op Ans ε β} {r : Except ε (β × S)} {s' : σ}
    : (get >>= f).Run w u s r s' ↔ (f u).Run w u s r s' := Iff.rfl

def exec (h : (o : Op) → σ → Except ε (Ans o) × σ) (m : Stateful S Op Ans ε α) (u : S) (s : σ)
    : Except ε (α × S) × σ :=
  (m.run u).exec h s

theorem run_exec {h : (o : Op) → σ → Except ε (Ans o) × σ} (hs : Prog.Serves h w)
    (m : Stateful S Op Ans ε α) (u : S) (s : σ)
    : m.Run w u s (m.exec h u s).1 (m.exec h u s).2 :=
  Prog.run_exec hs _ _

/-- A run that was computed, with a property of its end that was checked. -/
theorem exists_run_of_check {h : (o : Op) → σ → Except ε (Ans o) × σ} (hs : Prog.Offers h w)
    {m : Stateful S Op Ans ε α} {p : α → S → σ → Bool}
    (hp : (match m.exec h u s with | (.ok (a, v), t) => p a v t | _ => false) = true)
    : ∃ a v t, m.Run w u s (.ok (a, v)) t ∧ p a v t = true := by
  generalize hr : m.exec h u s = res at hp
  match res with
  | (.ok (a, v), t) => exact ⟨a, v, t, Prog.run_exec_ok hs hr, hp⟩
  | (.error e, t) => cases hp

theorem exists_run {h : (o : Op) → σ → Except ε (Ans o) × σ} (hs : Prog.Serves h w)
    {m : Stateful S Op Ans ε α} (hm : wp w m Q (fun _ _ => False) u s)
    : ∃ a v t, m.Run w u s (.ok (a, v)) t ∧ Q a v t := by
  have hr := run_exec hs m u s
  generalize m.exec h u s = res at hr
  match res with
  | (.ok (a, v), t) => exact ⟨a, v, t, hr, wp_run hm hr⟩
  | (.error e, t) => exact absurd (wp_run_error hm hr) id

theorem run_mono {w' : World Op Ans ε σ} (hw : ∀ o s x s', w o s x s' → w' o s x s')
    {m : Stateful S Op Ans ε α} {r : Except ε (α × S)} {s' : σ} (h : m.Run w u s r s')
    : m.Run w' u s r s' :=
  Prog.run_mono hw h

theorem wp_map {τ : Type} {w' : World Op Ans ε τ} {f : σ → τ}
    (hw : ∀ o s x t, w o s x t → w' o (f s) x (f t)) {m : Stateful S Op Ans ε α}
    {Q : α → S → τ → Prop} {E : ε → τ → Prop} (h : wp w' m Q E u (f s))
    : wp w m (fun a v t => Q a v (f t)) (fun e t => E e (f t)) u s :=
  Prog.wp_map hw h

/-!
### What a program does in every world
-/

/-- Whatever the world answers, `m` keeps `I` and returns only values that satisfy `P`. -/
structure Keeps (I : S → Prop) (P : α → Prop) (m : Stateful S Op Ans ε α) : Prop where
  spec : ∀ {σ : Type} (w : World Op Ans ε σ) (u : S) (s : σ), I u →
    wp w m (fun a v _ => I v ∧ P a) (fun _ _ => True) u s

namespace Keeps

variable {I : S → Prop} {P P' : α → Prop} {R : β → Prop} {m : Stateful S Op Ans ε α}

theorem pure {a : α} (h : P a) : Keeps I P (Pure.pure a : Stateful S Op Ans ε α) :=
  ⟨fun _ _ _ hu => ⟨hu, h⟩⟩

theorem bind {f : α → Stateful S Op Ans ε β} (h : Keeps I P m) (hf : ∀ a, P a → Keeps I R (f a))
    : Keeps I R (m >>= f) := by
  constructor
  intro σ w u s hu
  rw [wp_bind]
  exact wp_post (h.spec w u s hu) fun a v t hv => (hf a hv.2).spec w v t hv.1

theorem ask (o : Op) : Keeps I (fun _ => True) (ask o : Stateful S Op Ans ε (Ans o)) :=
  ⟨fun _ _ _ hu => fun _ => ⟨fun _ _ => ⟨hu, trivial⟩, fun _ _ => trivial⟩⟩

theorem stop (e : ε) : Keeps I P (Stateful.stop e : Stateful S Op Ans ε α) :=
  ⟨fun _ _ _ _ => trivial⟩

theorem get : Keeps I I (get : Stateful S Op Ans ε S) := ⟨fun _ _ _ hu => ⟨hu, hu⟩⟩

theorem set {u : S} (h : I u) : Keeps I (fun _ => True) (set u : Stateful S Op Ans ε PUnit) :=
  ⟨fun _ _ _ _ => ⟨h, trivial⟩⟩

theorem modify {f : S → S} (h : ∀ u, I u → I (f u))
    : Keeps I (fun _ => True) (modify f : Stateful S Op Ans ε PUnit) :=
  ⟨fun _ _ _ hu => ⟨h _ hu, trivial⟩⟩

theorem ite {c : Prop} [Decidable c] {m' : Stateful S Op Ans ε α} (h : c → Keeps I P m)
    (h' : ¬c → Keeps I P m')
    : Keeps I P (if c then m else m') := by
  split
  . next hc => exact h hc
  . next hc => exact h' hc

end Keeps

end Stateful
