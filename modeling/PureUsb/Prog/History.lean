import PureUsb.Prog.Trace

/-!
This module contains properties of traces that say of each event what has to come before it.
-/

/-- Each element satisfies `P` with the elements before it. -/
def Always {α : Type} (P : List α → α → Prop) (l : List α) : Prop :=
  ∀ l₁ a l₂, l = l₁ ++ a :: l₂ → P l₁ a

namespace Always

variable {α : Type} {P : List α → α → Prop} {l l' : List α} {a : α}

theorem concat_iff : Always P (l ++ [a]) ↔ Always P l ∧ P l a := by
  constructor
  . intro h
    refine ⟨?_, h l a [] rfl⟩
    intro l₁ b l₂ hl
    apply h l₁ b (l₂ ++ [a])
    rw [hl, List.append_assoc]
    rfl
  . rintro ⟨h, ha⟩ l₁ b l₂ hl
    rcases List.eq_nil_or_concat l₂ with rfl | ⟨l₃, c, rfl⟩
    . obtain ⟨rfl, hb⟩ := List.append_inj' hl rfl
      cases hb
      exact ha
    . have hl : l ++ [a] = (l₁ ++ b :: l₃) ++ [c] := by simpa using hl
      exact h l₁ b l₃ (List.append_inj' hl rfl).1

theorem of_append (h : Always P (l ++ l')) : Always P l := by
  intro l₁ a l₂ hl
  apply h l₁ a (l₂ ++ l')
  rw [hl, List.append_assoc]
  rfl

theorem of_forall_mem (h : ∀ a ∈ l, ∀ l₁, P l₁ a) : Always P l := by
  intro l₁ a l₂ hl
  apply h a
  rw [hl]
  simp

end Always

namespace World

variable {Op : Type} {Ans : Op → Type} {ε σ : Type}

/-- `w` with its trace, followed only as long as the trace satisfies `P`. -/
def tracedIn (w : World Op Ans ε σ) (P : List (Event Op Ans ε σ) → Prop)
    : World Op Ans ε (σ × List (Event Op Ans ε σ)) :=
  fun o s r t => w.traced o s r t ∧ P t.2

theorem run_grows {w : World Op Ans ε σ} {α : Type} {p : Prog Op Ans ε α} {r : Except ε α}
    {s t : σ × List (Event Op Ans ε σ)} (h : p.Run w.traced s r t)
    : s.2 <+: t.2 := by
  have hgrows := Prog.wp_iff_run.mp (wp_grows w p s)
  cases r with
  | ok a => exact hgrows.1 a t h
  | error e => exact hgrows.2 e t h

theorem run_tracedIn {w : World Op Ans ε σ} {P : List (Event Op Ans ε σ) → Prop}
    (hP : ∀ {l l'}, P (l ++ l') → P l) {α : Type} {p : Prog Op Ans ε α} {r : Except ε α}
    {s t : σ × List (Event Op Ans ε σ)} (h : p.Run w.traced s r t) (ht : P t.2)
    : p.Run (w.tracedIn P) s r t := by
  induction h with
  | ret a s => exact .ret a s
  | stop e s => exact .stop e s
  | op hw hrun ih =>
    obtain ⟨l, hl⟩ := run_grows hrun
    exact .op ⟨hw, hP (hl ▸ ht)⟩ (ih ht)
  | opStop hw => exact .opStop ⟨hw, ht⟩

end World
