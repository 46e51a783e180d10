import PureUsb.Prog.Sim
import Mathlib.Logic.Relation

/-!
This module contains loops: a round goes on with another state, ends in a result, or fails.
-/

namespace Loop

open Relation (ReflTransGen)

variable {ε σ ρ : Type} (step : σ → Except ε (σ ⊕ ρ))

def Goes (s t : σ) : Prop := step s = .ok (.inl t)

/-- `n` rounds go on, and the next one ends in `r`. -/
inductive Exits : Nat → σ → ρ → Prop where
  | ends {s : σ} {r : ρ} : step s = .ok (.inr r) → Exits 0 s r
  | goes {n : Nat} {s t : σ} {r : ρ} : Goes step s t → Exits n t r → Exits (n + 1) s r

variable {step} {n : Nat} {s t : σ} {r : ρ}

theorem Exits.of_goes (h : Exits step n s r) (hgoes : Goes step s t) : ∃ n, Exits step n t r := by
  unfold Goes at hgoes
  cases h with
  | ends hends =>
    rw [hends] at hgoes
    cases hgoes
  | goes hgoes' h =>
    unfold Goes at hgoes'
    rw [hgoes'] at hgoes
    cases hgoes
    exact ⟨_, h⟩

theorem Exits.of_reached (h : Exits step n s r) (hreach : ReflTransGen (Goes step) s t)
    : ∃ n, Exits step n t r := by
  induction hreach with
  | refl => exact ⟨n, h⟩
  | tail _ hgoes ih =>
    obtain ⟨_, h⟩ := ih
    exact h.of_goes hgoes

theorem Exits.step_ok (h : Exits step n s r) : ∃ x, step s = .ok x := by
  cases h with
  | ends hends => exact ⟨_, hends⟩
  | goes hgoes _ => exact ⟨_, hgoes⟩

theorem not_exits {Stuck : σ → Prop}
    (hstuck : ∀ s x, Stuck s → step s = .ok x → ∃ t, x = .inl t ∧ Stuck t) (hs : Stuck s)
    : ¬Exits step n s r := by
  intro h
  induction h with
  | ends hends =>
    obtain ⟨t, ht, -⟩ := hstuck _ _ hs hends
    cases ht
  | goes hgoes _ ih =>
    obtain ⟨t, ht, hstuck⟩ := hstuck _ _ hs hgoes
    cases ht
    exact ih hstuck

theorem exists_exits {measure : σ → Nat}
    (h : ∀ t, ReflTransGen (Goes step) s t → ∃ x, step t = .ok x)
    (hmeasure : ∀ t t', ReflTransGen (Goes step) s t → Goes step t t' → measure t' < measure t)
    : ∃ n r, n ≤ measure s ∧ Exits step n s r := by
  generalize hn : measure s = n
  induction n using Nat.strongRecOn generalizing s with
  | ind n ih =>
    obtain ⟨x, hx⟩ := h s .refl
    cases x with
    | inr r => exact ⟨0, r, Nat.zero_le _, .ends hx⟩
    | inl t =>
      have hlt := hmeasure s t .refl hx
      rw [hn] at hlt
      have hreach : ∀ {t'}, ReflTransGen (Goes step) t t' → ReflTransGen (Goes step) s t' := .head hx
      obtain ⟨n', r, hle, hexits⟩ := ih _ hlt (fun _ ht => h _ (hreach ht))
        (fun _ _ ht hgoes => hmeasure _ _ (hreach ht) hgoes) rfl
      exact ⟨n' + 1, r, by omega, .goes hx hexits⟩

/--
A loop that makes progress outside of `Stuck` exits within `bound` rounds if and only if it never fails
and never comes to a state in `Stuck`.
-/
theorem exits_iff {Stuck : σ → Prop} (measure : σ → Nat) {bound : Nat} (hbound : measure s ≤ bound)
    (hstuck : ∀ s x, Stuck s → step s = .ok x → ∃ t, x = .inl t ∧ Stuck t)
    (hmeasure : ∀ s t, ¬Stuck s → Goes step s t → measure t < measure s)
    : (∃ n r, n ≤ bound ∧ Exits step n s r)
        ↔
      ∀ t, ReflTransGen (Goes step) s t → (∃ x, step t = .ok x) ∧ ¬Stuck t := by
  constructor
  . rintro ⟨n, r, -, h⟩ t hreach
    obtain ⟨n, h⟩ := h.of_reached hreach
    exact ⟨h.step_ok, fun hs => not_exits hstuck hs h⟩
  . intro h
    obtain ⟨n, r, hle, h⟩ := exists_exits (fun t ht => (h t ht).1)
      (fun t _ ht => hmeasure t _ (h t ht).2)
    exact ⟨n, r, Nat.le_trans hle hbound, h⟩

end Loop
