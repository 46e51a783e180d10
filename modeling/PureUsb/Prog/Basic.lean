/-!
This module contains programs that interact with an environment: a program issues operations `Op`
one at a time, the environment answers `o : Op` with a value of `Ans o`. A program may also stop
abnormally with an `ε`. The environment is a `World`, a relation that says how an operation may be
answered and how the state of the environment changes with it.
-/

inductive Prog (Op : Type) (Ans : Op → Type) (ε α : Type) where
  | ret (a : α)
  | stop (e : ε)
  | op (o : Op) (k : Ans o → Prog Op Ans ε α)

/--
`w o s (.ok x) s'`: in state `s` the operation `o` may be answered with `x`, leaving `s'`.
`w o s (.error e) s'`: the operation itself may stop the program.
-/
abbrev World (Op : Type) (Ans : Op → Type) (ε σ : Type) :=
  (o : Op) → σ → Except ε (Ans o) → σ → Prop

/--
A world whose state moves by `env` before each answer and that never stops a program. `eff o s x t`:
the answer `x` to `o` takes it from `s` to `t`.
-/
def World.interleaved {Op : Type} {Ans : Op → Type} {ε σ : Type} (env : σ → σ → Prop)
    (eff : (o : Op) → σ → Ans o → σ → Prop) : World Op Ans ε σ :=
  fun o s r t => ∃ m x, env s m ∧ r = .ok x ∧ eff o m x t

def World.restrict {Op : Type} {Ans : Op → Type} {ε σ : Type} (w : World Op Ans ε σ)
    (P : Op → Prop) : World Op Ans ε σ :=
  fun o s r t => P o ∧ w o s r t

def World.ofHandler {Op : Type} {Ans : Op → Type} {ε σ : Type}
    (h : (o : Op) → σ → Except ε (Ans o) × σ) : World Op Ans ε σ :=
  fun o s r t => (r, t) = h o s

namespace World

variable {Op : Type} {Ans : Op → Type} {ε σ : Type} {env : σ → σ → Prop}
variable {eff : (o : Op) → σ → Ans o → σ → Prop} {o : Op} {s t : σ}

@[simp]
theorem interleaved_ok {x : Ans o}
    : (interleaved env eff : World Op Ans ε σ) o s (.ok x) t ↔ ∃ m, env s m ∧ eff o m x t := by
  simp [interleaved]

@[simp]
theorem interleaved_error {e : ε}
    : ¬(interleaved env eff : World Op Ans ε σ) o s (.error e) t := by
  simp [interleaved]

end World

namespace Prog

variable {Op : Type} {Ans : Op → Type} {ε α β γ σ : Type}

protected def bind (p : Prog Op Ans ε α) (f : α → Prog Op Ans ε β) : Prog Op Ans ε β :=
  match p with
  | .ret a => f a
  | .stop e => .stop e
  | .op o k => .op o (fun x => (k x).bind f)

instance : Monad (Prog Op Ans ε) where
  pure := .ret
  bind := Prog.bind

theorem bind_eq (p : Prog Op Ans ε α) (f : α → Prog Op Ans ε β) : p >>= f = p.bind f := rfl

theorem bind_ret (p : Prog Op Ans ε α) : p.bind .ret = p := by
  induction p with
  | ret => rfl
  | stop => rfl
  | op o k ih =>
    unfold Prog.bind
    congr
    funext x
    apply ih

theorem bind_assoc (p : Prog Op Ans ε α) (f : α → Prog Op Ans ε β) (g : β → Prog Op Ans ε γ)
    : (p.bind f).bind g = p.bind (fun a => (f a).bind g) := by
  induction p with
  | ret => rfl
  | stop => rfl
  | op o k ih =>
    simp only [Prog.bind]
    congr
    funext x
    apply ih

instance : LawfulMonad (Prog Op Ans ε) := by
  refine LawfulMonad.mk' _ ?_ ?_ ?_
  . intro _ p
    apply bind_ret
  . intro _ _ _ _
    rfl
  . intro _ _ _ p f g
    apply bind_assoc

def ask (o : Op) : Prog Op Ans ε (Ans o) :=
  .op o .ret

/-!
### Runs
-/

/-- `Run w p s r s'`: the program `p` may take the world from `s` to `s'` and end in `r`. -/
inductive Run (w : World Op Ans ε σ) : Prog Op Ans ε α → σ → Except ε α → σ → Prop where
  | ret (a : α) (s : σ) : Run w (.ret a) s (.ok a) s
  | stop (e : ε) (s : σ) : Run w (.stop e) s (.error e) s
  | op {o : Op} {k : Ans o → Prog Op Ans ε α} {s t s' : σ} {x : Ans o} {r : Except ε α} :
      w o s (.ok x) t → Run w (k x) t r s' → Run w (.op o k) s r s'
  | opStop {o : Op} {k : Ans o → Prog Op Ans ε α} {s s' : σ} {e : ε} :
      w o s (.error e) s' → Run w (.op o k) s (.error e) s'

/--
Every run of `p` from `s` that returns ends in `Q`, every run that stops ends in `E`.
-/
def wp (w : World Op Ans ε σ) (p : Prog Op Ans ε α) (Q : α → σ → Prop) (E : ε → σ → Prop) (s : σ)
    : Prop :=
  match p with
  | .ret a => Q a s
  | .stop e => E e s
  | .op o k =>
    ∀ t, (∀ x, w o s (.ok x) t → (k x).wp w Q E t) ∧ (∀ e, w o s (.error e) t → E e t)

def exec (h : (o : Op) → σ → Except ε (Ans o) × σ) (p : Prog Op Ans ε α) (s : σ) : Except ε α × σ :=
  match p with
  | .ret a => (.ok a, s)
  | .stop e => (.error e, s)
  | .op o k =>
    match h o s with
    | (.ok x, t) => (k x).exec h t
    | (.error e, t) => (.error e, t)

def Serves (h : (o : Op) → σ → Except ε (Ans o) × σ) (w : World Op Ans ε σ) : Prop :=
  ∀ o s, w o s (h o s).1 (h o s).2

theorem ofHandler_serves (h : (o : Op) → σ → Except ε (Ans o) × σ) : Serves h (.ofHandler h) :=
  fun _ _ => rfl

theorem run_exec {h : (o : Op) → σ → Except ε (Ans o) × σ} {w : World Op Ans ε σ} (hs : Serves h w)
    (p : Prog Op Ans ε α) (s : σ)
    : Run w p s (p.exec h s).1 (p.exec h s).2 := by
  induction p generalizing s with
  | ret a => apply Run.ret
  | stop e => apply Run.stop
  | op o k ih =>
    have step := hs o s
    unfold exec
    generalize hx : h o s = res
    rw [hx] at step
    match res with
    | (.ok x, t) => exact Run.op step (ih x t)
    | (.error e, t) => exact Run.opStop step

/-- `h` only gives answers that `w` allows, unless it stops the program. -/
def Offers (h : (o : Op) → σ → Except ε (Ans o) × σ) (w : World Op Ans ε σ) : Prop :=
  ∀ o s x t, h o s = (.ok x, t) → w o s (.ok x) t

theorem Serves.offers {h : (o : Op) → σ → Except ε (Ans o) × σ} {w : World Op Ans ε σ}
    (hs : Serves h w)
    : Offers h w := by
  intro o s x t hx
  have := hs o s
  rwa [hx] at this

theorem run_exec_ok {h : (o : Op) → σ → Except ε (Ans o) × σ} {w : World Op Ans ε σ}
    (hs : Offers h w) {p : Prog Op Ans ε α} {s t : σ} {a : α} (hp : p.exec h s = (.ok a, t))
    : Run w p s (.ok a) t := by
  induction p generalizing s with
  | ret a =>
    cases hp
    apply Run.ret
  | stop e => cases hp
  | op o k ih =>
    unfold exec at hp
    generalize hx : h o s = res at hp
    match res with
    | (.ok x, m) => exact Run.op (hs o s x m hx) (ih x hp)
    | (.error e, m) => cases hp

theorem run_bind {w : World Op Ans ε σ} {p : Prog Op Ans ε α} {f : α → Prog Op Ans ε β} {s s' : σ}
    {r : Except ε β}
    : Run w (p.bind f) s r s'
        ↔
      (∃ a t, Run w p s (.ok a) t ∧ Run w (f a) t r s') ∨
      (∃ e, r = .error e ∧ Run w p s (.error e) s') := by
  induction p generalizing s with
  | ret a =>
    constructor
    . intro h
      exact .inl ⟨a, s, .ret a s, h⟩
    . rintro (⟨a, t, h1, h2⟩ | ⟨e, -, h⟩)
      . cases h1
        exact h2
      . cases h
  | stop e =>
    constructor
    . intro h
      cases h
      exact .inr ⟨e, rfl, .stop e _⟩
    . rintro (⟨a, t, h1, h2⟩ | ⟨e, rfl, h⟩)
      . cases h1
      . cases h
        apply Run.stop
  | op o k ih =>
    constructor
    . intro h
      cases h with
      | op hw hr =>
        rcases (ih _).mp hr with ⟨a, t, h1, h2⟩ | ⟨e, he, h⟩
        . exact .inl ⟨a, t, .op hw h1, h2⟩
        . exact .inr ⟨e, he, .op hw h⟩
      | opStop hw => exact .inr ⟨_, rfl, .opStop hw⟩
    . rintro (⟨a, t, h1, h2⟩ | ⟨e, rfl, h⟩)
      . cases h1 with
        | op hw hr => exact .op hw ((ih _).mpr (.inl ⟨a, t, hr, h2⟩))
      . cases h with
        | op hw hr => exact .op hw ((ih _).mpr (.inr ⟨e, rfl, hr⟩))
        | opStop hw => exact .opStop hw

theorem run_mono {w w' : World Op Ans ε σ} (hw : ∀ o s x s', w o s x s' → w' o s x s')
    {p : Prog Op Ans ε α} {s s' : σ} {r : Except ε α} (h : Run w p s r s')
    : Run w' p s r s' := by
  induction h with
  | ret => apply Run.ret
  | stop => apply Run.stop
  | op h _ ih => exact .op (hw _ _ _ _ h) ih
  | opStop h => exact .opStop (hw _ _ _ _ h)

/-!
### Weakest preconditions
-/

section

variable (w : World Op Ans ε σ) (Q : α → σ → Prop) (E : ε → σ → Prop) (s : σ)

@[simp]
theorem wp_ret (a : α) : (ret a : Prog Op Ans ε α).wp w Q E s ↔ Q a s := Iff.rfl

@[simp]
theorem wp_stop (e : ε) : (stop e : Prog Op Ans ε α).wp w Q E s ↔ E e s := Iff.rfl

@[simp]
theorem wp_ask (o : Op) (Q : Ans o → σ → Prop)
    : (ask o : Prog Op Ans ε (Ans o)).wp w Q E s
        ↔
      ∀ t, (∀ x, w o s (.ok x) t → Q x t) ∧ (∀ e, w o s (.error e) t → E e t) := Iff.rfl

end

@[simp]
theorem wp_bind (w : World Op Ans ε σ) (p : Prog Op Ans ε α) (f : α → Prog Op Ans ε β)
    (Q : β → σ → Prop) (E : ε → σ → Prop) (s : σ)
    : (p.bind f).wp w Q E s ↔ p.wp w (fun a t => (f a).wp w Q E t) E s := by
  induction p generalizing s with
  | ret => rfl
  | stop => rfl
  | op o k ih => simp only [Prog.bind, wp, ih]

theorem wp_mono {w : World Op Ans ε σ} {p : Prog Op Ans ε α} {Q Q' : α → σ → Prop}
    {E E' : ε → σ → Prop} {s : σ} (h : p.wp w Q E s) (hq : ∀ a t, Q a t → Q' a t)
    (he : ∀ e t, E e t → E' e t)
    : p.wp w Q' E' s := by
  induction p generalizing s with
  | ret => exact hq _ _ h
  | stop => exact he _ _ h
  | op o k ih =>
    intro t
    exact ⟨fun x hx => ih x ((h t).1 x hx), fun e hx => he _ _ ((h t).2 e hx)⟩

theorem wp_true (w : World Op Ans ε σ) (p : Prog Op Ans ε α) (s : σ)
    : p.wp w (fun _ _ => True) (fun _ _ => True) s := by
  induction p generalizing s with
  | ret => trivial
  | stop => trivial
  | op o k ih => exact fun t => ⟨fun x _ => ih x t, fun _ _ => trivial⟩

theorem wp_and {w : World Op Ans ε σ} {p : Prog Op Ans ε α} {Q Q' : α → σ → Prop}
    {E E' : ε → σ → Prop} {s : σ} (h : p.wp w Q E s) (h' : p.wp w Q' E' s)
    : p.wp w (fun a t => Q a t ∧ Q' a t) (fun e t => E e t ∧ E' e t) s := by
  induction p generalizing s with
  | ret => exact ⟨h, h'⟩
  | stop => exact ⟨h, h'⟩
  | op o k ih =>
    intro t
    exact ⟨fun x hx => ih x ((h t).1 x hx) ((h' t).1 x hx),
      fun e hx => ⟨(h t).2 e hx, (h' t).2 e hx⟩⟩

/-- The postcondition speaks about exactly the runs. -/
theorem wp_iff_run {w : World Op Ans ε σ} {p : Prog Op Ans ε α} {Q : α → σ → Prop}
    {E : ε → σ → Prop} {s : σ}
    : p.wp w Q E s
        ↔
      (∀ a s', Run w p s (.ok a) s' → Q a s') ∧ (∀ e s', Run w p s (.error e) s' → E e s') := by
  induction p generalizing s with
  | ret a =>
    constructor
    . intro h
      constructor
      . intro a s' hr
        cases hr
        exact h
      . intro e s' hr
        cases hr
    . intro h
      exact h.1 a s (.ret a s)
  | stop e =>
    constructor
    . intro h
      constructor
      . intro a s' hr
        cases hr
      . intro e s' hr
        cases hr
        exact h
    . intro h
      exact h.2 e s (.stop e s)
  | op o k ih =>
    constructor
    . intro h
      constructor
      . intro a s' hr
        cases hr with
        | op hw hr => exact ((ih _).mp ((h _).1 _ hw)).1 a s' hr
      . intro e s' hr
        cases hr with
        | op hw hr => exact ((ih _).mp ((h _).1 _ hw)).2 e s' hr
        | opStop hw => exact (h _).2 e hw
    . intro h t
      constructor
      . intro x hx
        exact (ih x).mpr ⟨fun a s' hr => h.1 a s' (.op hx hr), fun e s' hr => h.2 e s' (.op hx hr)⟩
      . intro e hx
        exact h.2 e t (.opStop hx)

/-- A world that knows more about its state than `w'` does. -/
theorem wp_map {τ : Type} {w : World Op Ans ε σ} {w' : World Op Ans ε τ} {f : σ → τ}
    (hw : ∀ o s x t, w o s x t → w' o (f s) x (f t)) {p : Prog Op Ans ε α} {Q : α → τ → Prop}
    {E : ε → τ → Prop} {s : σ} (h : p.wp w' Q E (f s))
    : p.wp w (fun a t => Q a (f t)) (fun e t => E e (f t)) s := by
  induction p generalizing s with
  | ret a => exact h
  | stop e => exact h
  | op o k ih =>
    intro t
    constructor
    . intro x hx
      exact ih x ((h (f t)).1 x (hw o s _ t hx))
    . intro e hx
      exact (h (f t)).2 e (hw o s _ t hx)

end Prog
