import Mathlib.Tactic.Common

/-!
This module contains simulations between computations that may fail: the one on the left is checked
for an error `bad`, up to which the one on the right does the same.
-/

namespace Except

theorem ok_bind {ε α β : Type} (a : α) (f : α → Except ε β) : (Except.ok a >>= f) = f a := rfl

theorem error_bind {ε α β : Type} (e : ε) (f : α → Except ε β)
    : (Except.error e >>= f) = Except.error e := rfl

theorem bind_eq_ok {ε α β : Type} {x : Except ε α} {f : α → Except ε β} {b : β}
    : (x >>= f) = .ok b ↔ ∃ a, x = .ok a ∧ f a = .ok b := by
  cases x with
  | ok a => simp [ok_bind]
  | error e => simp [error_bind]

/-- `x` and `y` end in the same way, with related values, unless `x` ends in `bad`. -/
inductive Sim {ε α β : Type} (bad : ε) (R : α → β → Prop) : Except ε α → Except ε β → Prop where
  | ok {a : α} {b : β} : R a b → Sim bad R (.ok a) (.ok b)
  | error (e : ε) : Sim bad R (.error e) (.error e)
  | bad {y : Except ε β} : Sim bad R (.error bad) y

namespace Sim

variable {ε α β α' β' : Type} {bad : ε} {R : α → β → Prop} {S : α' → β' → Prop}
variable {x : Except ε α} {y : Except ε β}

theorem pure {a : α} {b : β} (h : R a b) : Sim bad R (Pure.pure a) (Pure.pure b) := .ok h

theorem bind {f : α → Except ε α'} {g : β → Except ε β'} (h : Sim bad R x y)
    (hfg : ∀ a b, R a b → Sim bad S (f a) (g b))
    : Sim bad S (x >>= f) (y >>= g) := by
  cases h with
  | ok h => exact hfg _ _ h
  | error e => exact .error e
  | bad => exact .bad

theorem eq_refl (x : Except ε α) : Sim bad Eq x x := by
  cases x with
  | ok a => exact .ok rfl
  | error e => exact .error e

theorem of_right {b : β} (h : Sim bad R x (.ok b)) (hx : x ≠ .error bad) : ∃ a, x = .ok a ∧ R a b := by
  cases h with
  | ok h => exact ⟨_, rfl, h⟩
  | bad => exact absurd rfl hx

theorem of_left {a : α} (h : Sim bad R (.ok a) y) : ∃ b, y = .ok b ∧ R a b := by
  cases h with
  | ok h => exact ⟨_, rfl, h⟩

theorem mapM {ι : Type} {f : ι → Except ε α} {g : ι → Except ε α} (l : List ι)
    (h : ∀ i ∈ l, Sim bad Eq (f i) (g i))
    : Sim bad Eq (l.mapM f) (l.mapM g) := by
  induction l with
  | nil => exact .ok rfl
  | cons i l ih =>
    rw [List.mapM_cons, List.mapM_cons]
    refine bind (h i List.mem_cons_self) ?_
    rintro a b rfl
    refine bind (ih fun j hj => h j (List.mem_cons_of_mem i hj)) ?_
    rintro as bs rfl
    exact pure rfl

end Sim

end Except

namespace Except

variable {ι ε α : Type} {f : ι → Except ε α} {g : ι → α} {e : ε} {l : List ι}

theorem mapM_ok (h : ∀ i ∈ l, f i = .ok (g i)) : l.mapM f = .ok (l.map g) := by
  induction l with
  | nil => rfl
  | cons i l ih =>
    rw [List.mapM_cons, h i List.mem_cons_self, ih fun j hj => h j (List.mem_cons_of_mem i hj)]
    rfl

theorem forall_of_mapM {P : α → Prop} {bs : List α} (h : l.mapM f = .ok bs) (hf : ∀ i b, f i = .ok b → P b)
    : ∀ b ∈ bs, P b := by
  induction l generalizing bs with
  | nil =>
    cases h
    exact fun _ hb => nomatch hb
  | cons i l ih =>
    rw [List.mapM_cons] at h
    obtain ⟨b, hb, h⟩ := bind_eq_ok.mp h
    obtain ⟨bs', hbs', h⟩ := bind_eq_ok.mp h
    cases h
    intro b' hb'
    rcases List.mem_cons.mp hb' with rfl | hb'
    . exact hf i _ hb
    . exact ih hbs' b' hb'

theorem mapM_error (h : ∀ i ∈ l, f i = .ok (g i) ∨ f i = .error e) {i : ι} (hi : i ∈ l)
    (he : f i = .error e)
    : l.mapM f = .error e := by
  induction l with
  | nil => cases hi
  | cons j l ih =>
    rw [List.mapM_cons]
    rcases h j List.mem_cons_self with hj | hj
    . have htail : l.mapM f = .error e := by
        rcases List.mem_cons.mp hi with rfl | hi
        . rw [he] at hj
          cases hj
        . exact ih (fun k hk => h k (List.mem_cons_of_mem j hk)) hi
      rw [hj, htail]
      rfl
    . rw [hj]
      rfl

end Except
