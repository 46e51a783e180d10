import Mathlib.Algebra.Group.Nat.Defs
import Mathlib.Logic.Function.Basic
import Mathlib.Tactic.Common

/-!
This module contains ring buffers: cells into which the elements of a list are stored one after the other,
and that are used again from the first one on when there are no more.
-/

namespace Ring

variable {α : Type} {n : Nat} {buf : Int → α} {l : List α}

/-- The first `n` cells of `buf` hold the last elements of `l`. -/
def Holds (n : Nat) (buf : Int → α) (l : List α) : Prop :=
  ∀ i x, l[i]? = some x → l.length ≤ i + n → buf ((i % n : Nat) : Int) = x

theorem holds_nil : Holds n buf [] := nofun

theorem mod_ne {i j : Nat} (hlt : i < j) (h : j < i + n) : i % n ≠ j % n := by
  intro heq
  have hmod : (j - i) % n = 0 := Nat.sub_mod_eq_zero_of_mod_eq heq.symm
  rw [Nat.mod_eq_of_lt (by omega)] at hmod
  omega

theorem Holds.push (h : Holds n buf l) (x : α)
    : Holds n (Function.update buf ((l.length % n : Nat) : Int) x) (l ++ [x]) := by
  intro i y hy hle
  rw [List.length_append, List.length_singleton] at hle
  obtain ⟨hi, -⟩ := List.getElem?_eq_some_iff.mp hy
  rw [List.length_append, List.length_singleton] at hi
  rcases Nat.lt_or_eq_of_le (Nat.le_of_lt_succ hi) with hlt | rfl
  . have hne : ((i % n : Nat) : Int) ≠ ((l.length % n : Nat) : Int) :=
      fun heq => mod_ne hlt (by omega) (Int.ofNat_inj.mp heq)
    rw [Function.update_of_ne hne]
    rw [List.getElem?_append_left hlt] at hy
    exact h i y hy (by omega)
  . rw [Function.update_self]
    rw [List.getElem?_concat_length] at hy
    exact Option.some.inj hy

end Ring
