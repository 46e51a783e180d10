import PureUsb.Ehci.Agent
import PureUsb.Ehci.Lemmas.Basic

/-!
This module contains the invariant of a transfer over the asynchronous schedule: how far the
controller got in the chain of qTDs that the driver built.
-/

open Stateful

/-- The link to element `k` of a chain of `n` qTDs. -/
def tdPtr (n k : Nat) : HcPtr :=
  if h : k < n ∧ k < 3 then .td ⟨k, h.2⟩ else .terminate

theorem tdPtr_of_lt {n : Nat} {i : Fin 3} (h : (i : Nat) < n) : tdPtr n i = .td i := by
  unfold tdPtr
  rw [dif_pos ⟨h, i.isLt⟩]

theorem tdPtr_self (n : Nat) : tdPtr n n = .terminate := by
  unfold tdPtr
  rw [dif_neg (by omega)]

theorem tdPtr_eq_td_iff {n k : Nat} {i : Fin 3} : tdPtr n k = .td i ↔ k < n ∧ k = i := by
  unfold tdPtr
  split
  . next h =>
    simp only [HcPtr.td.injEq, Fin.ext_iff]
    exact ⟨fun hi => ⟨h.1, hi⟩, fun hi => hi.2⟩
  . next h =>
    simp only [reduceCtorEq, false_iff]
    omega

theorem active_of_flags {token : BitVec 32} (h : token &&& tokenFlags = 0)
    : token &&& qtTokenActive = 0 := by
  have : qtTokenActive = tokenFlags &&& qtTokenActive := by decide
  rw [this, ← BitVec.and_assoc, h]
  exact BitVec.zero_and

theorem halted_of_flags {token : BitVec 32} (h : token &&& tokenFlags = 0)
    : token &&& qtTokenHalted = 0 := by
  have : qtTokenHalted = tokenFlags &&& qtTokenHalted := by decide
  rw [this, ← BitVec.and_assoc, h]
  exact BitVec.zero_and

/-!
### The invariant

`toks` are the tokens that the driver wrote into the chain.
-/

namespace Agent

variable {toks : List (BitVec 32)} {k : Nat} {s t : Agent}

/-- The first `k` qTDs of the chain were executed. -/
structure Chain (toks : List (BitVec 32)) (k : Nat) (s : Agent) : Prop where
  count : toks.length ≤ 3
  active : ∀ token ∈ toks, token &&& qtTokenActive ≠ 0
  le : k ≤ toks.length
  next : ∀ i : Fin 3, i < toks.length →
    (s.dma.td i).qtNext = tdPtr toks.length (i + 1) ∧ (s.dma.td i).qtAltnext = .terminate
  done : ∀ i : Fin 3, i < k →
    ∃ n, s.moved i = some n ∧ tokenBytes (s.dma.td i).qtToken + n = tokenBytes (toks.getD i 0)
  clean : s.erred = false ↔ ∀ i : Fin 3, i < k → (s.dma.td i).qtToken &&& tokenFlags = 0
  todo : ∀ i : Fin 3, k ≤ i → s.moved i = none
  ahead : ∀ i : Fin 3, k < i → i < toks.length → (s.dma.td i).qtToken = toks.getD i 0

/-- The overlay is through with what it had before element `k`. -/
structure IdleAt (toks : List (BitVec 32)) (k : Nat) (m : Dma) : Prop where
  inactive : m.qh.qhOverlay.qtToken &&& qtTokenActive = 0
  unhalted : m.qh.qhOverlay.qtToken &&& qtTokenHalted = 0
  advance : m.advance = tdPtr toks.length k
  token : ∀ i : Fin 3, i = k → k < toks.length → (m.td i).qtToken = toks.getD i 0
  last : ∀ i : Fin 3, i + 1 = k → m.qh.qhOverlay.qtToken = (m.td i).qtToken

/-- The overlay has element `k`. -/
structure BusyAt (toks : List (BitVec 32)) (k : Nat) (m : Dma) : Prop where
  lt : k < toks.length
  active : m.qh.qhOverlay.qtToken &&& qtTokenActive ≠ 0
  curtd : m.qh.qhCurtd = tdPtr toks.length k
  next : m.qh.qhOverlay.qtNext = tdPtr toks.length (k + 1)
  altnext : m.qh.qhOverlay.qtAltnext = .terminate
  token : ∀ i : Fin 3, i = k → (m.td i).qtToken = toks.getD i 0

/-- Element `k` halted the queue. -/
structure HaltedAt (toks : List (BitVec 32)) (k : Nat) (m : Dma) : Prop where
  lt : k < toks.length
  inactive : m.qh.qhOverlay.qtToken &&& qtTokenActive = 0
  halted : m.qh.qhOverlay.qtToken &&& qtTokenHalted ≠ 0

def Inv (toks : List (BitVec 32)) (s : Agent) : Prop :=
  ∃ k, Chain toks k s ∧ (IdleAt toks k s.dma ∨ BusyAt toks k s.dma ∨ HaltedAt toks k s.dma)

theorem Chain.active_getD (hc : Chain toks k s) {i : Nat} (h : i < toks.length)
    : toks.getD i 0 &&& qtTokenActive ≠ 0 := by
  apply hc.active
  rw [List.getD_eq_getElem?_getD, List.getElem?_eq_getElem h, Option.getD_some]
  exact List.getElem_mem h

theorem IdleAt.ready_eq_some_iff (hc : Chain toks k s) (h : IdleAt toks k s.dma) {i : Fin 3}
    : s.dma.ready = some i ↔ k < toks.length ∧ k = i := by
  unfold Dma.ready
  rw [h.inactive, h.unhalted, h.advance]
  simp only [ne_eq, not_true_eq_false, or_self, ↓reduceIte]
  by_cases hk : k < toks.length
  . have hcount := hc.count
    let j : Fin 3 := ⟨k, by omega⟩
    have hptr : tdPtr toks.length k = .td j := tdPtr_eq_td_iff.mpr ⟨hk, rfl⟩
    rw [hptr]
    simp only [h.token j rfl hk, hc.active_getD hk, not_false_eq_true, ↓reduceIte,
      Option.some.injEq, hk, true_and, Fin.ext_iff, j]
  . have hptr : tdPtr toks.length k = .terminate := by
      have hle := hc.le
      have : k = toks.length := by omega
      rw [this, tdPtr_self]
    rw [hptr]
    simp [hk]

theorem IdleAt.isSome_ready_iff (hc : Chain toks k s) (h : IdleAt toks k s.dma)
    : s.dma.ready.isSome = true ↔ k < toks.length := by
  rw [Option.isSome_iff_exists]
  constructor
  . rintro ⟨i, hi⟩
    exact ((h.ready_eq_some_iff hc).mp hi).1
  . intro hk
    have hcount := hc.count
    exact ⟨⟨k, by omega⟩, (h.ready_eq_some_iff hc).mpr ⟨hk, rfl⟩⟩

theorem BusyAt.ready_eq (h : BusyAt toks k s.dma) : s.dma.ready = none := by
  unfold Dma.ready
  rw [if_pos (.inl h.active)]

theorem HaltedAt.ready_eq (h : HaltedAt toks k s.dma) : s.dma.ready = none := by
  unfold Dma.ready
  rw [if_pos (.inr h.halted)]

theorem Inv.idle (h : Inv toks s) (hflags : s.dma.qh.qhOverlay.qtToken &&& tokenFlags = 0)
    : ∃ k, Chain toks k s ∧ IdleAt toks k s.dma := by
  obtain ⟨k, hc, hidle | hbusy | hhalted⟩ := h
  . exact ⟨k, hc, hidle⟩
  . exact absurd (active_of_flags hflags) hbusy.active
  . exact absurd (halted_of_flags hflags) hhalted.halted

/-!
### Steps
-/

theorem writeBack_token (m : Dma) (i j : Fin 3) (token : BitVec 32)
    : ((m.writeBack i token).td j).qtToken = if j = i then token else (m.td j).qtToken := by
  unfold Dma.writeBack Dma.setTd Dma.setOverlay
  by_cases h : j = i
  . subst h
    simp
  . simp [h]

theorem writeBack_next (m : Dma) (i j : Fin 3) (token : BitVec 32)
    : ((m.writeBack i token).td j).qtNext = (m.td j).qtNext ∧
      ((m.writeBack i token).td j).qtAltnext = (m.td j).qtAltnext := by
  unfold Dma.writeBack Dma.setTd Dma.setOverlay
  by_cases h : j = i
  . subst h
    simp
  . simp [h]

theorem working_iff {i : Fin 3} (hphase : IdleAt toks k s.dma ∨ BusyAt toks k s.dma ∨ HaltedAt toks k s.dma)
    (hw : s.dma.Working i)
    : BusyAt toks k s.dma ∧ k = i := by
  rcases hphase with h | h | h
  . exact absurd h.inactive hw.active
  . have hptr := h.curtd.symm.trans hw.curtd
    exact ⟨h, (tdPtr_eq_td_iff.mp hptr).2⟩
  . exact absurd h.inactive hw.active

theorem Inv.load {i : Fin 3} (h : Inv toks s) (hready : s.dma.ready = some i)
    : Inv toks { s with dma := s.dma.loadTd i } := by
  obtain ⟨k, hc, h | h | h⟩ := h
  . obtain ⟨hk, rfl⟩ := (h.ready_eq_some_iff hc).mp hready
    refine ⟨i, ⟨hc.count, hc.active, hc.le, hc.next, hc.done, hc.clean, hc.todo, hc.ahead⟩, .inr (.inl ?_)⟩
    refine ⟨hk, ?_, (tdPtr_of_lt hk).symm, (hc.next i hk).1, (hc.next i hk).2, ?_⟩
    . show (s.dma.td i).qtToken &&& qtTokenActive ≠ 0
      rw [h.token i rfl hk]
      exact hc.active_getD hk
    . exact fun j hj => h.token j hj hk
  . rw [h.ready_eq] at hready
    cases hready
  . rw [h.ready_eq] at hready
    cases hready

theorem Inv.progress {i : Fin 3} {o : QTD} (h : Inv toks s) (hw : s.dma.Working i)
    (hnext : o.qtNext = s.dma.qh.qhOverlay.qtNext)
    (halt : o.qtAltnext = s.dma.qh.qhOverlay.qtAltnext) (hact : o.qtToken &&& qtTokenActive ≠ 0)
    : Inv toks { s with dma := s.dma.setOverlay o } := by
  obtain ⟨k, hc, hphase⟩ := h
  obtain ⟨h, -⟩ := working_iff hphase hw
  refine ⟨k, ⟨hc.count, hc.active, hc.le, hc.next, hc.done, hc.clean, hc.todo, hc.ahead⟩, .inr (.inl ?_)⟩
  exact ⟨h.lt, hact, h.curtd, hnext.trans h.next, halt.trans h.altnext, h.token⟩

theorem Inv.retire {i : Fin 3} {token : BitVec 32} {n : Nat} (h : Inv toks s)
    (hw : s.dma.Working i) (hinactive : token &&& qtTokenActive = 0)
    (hunhalted : token &&& qtTokenHalted = 0)
    (hbytes : tokenBytes token + n = tokenBytes (s.dma.td i).qtToken)
    : Inv toks
        { s with
          dma := s.dma.writeBack i token
          moved := Function.update s.moved i (some n)
          erred := s.erred || decide (token &&& tokenFlags ≠ 0) } := by
  obtain ⟨k, hc, hphase⟩ := h
  obtain ⟨h, rfl⟩ := working_iff hphase hw
  refine ⟨i + 1, ⟨hc.count, hc.active, h.lt, ?_, ?_, ?_, ?_, ?_⟩,
    .inl ⟨hinactive, hunhalted, ?_, ?_, ?_⟩⟩
  . intro j hj
    obtain ⟨h1, h2⟩ := writeBack_next s.dma i j token
    exact ⟨h1.trans (hc.next j hj).1, h2.trans (hc.next j hj).2⟩
  . intro j hj
    rw [writeBack_token]
    by_cases hji : j = i
    . subst hji
      refine ⟨n, Function.update_self .., ?_⟩
      rw [if_pos rfl, hbytes, h.token j rfl]
    . have hlt : (j : Nat) < i := by omega
      rw [if_neg hji]
      obtain ⟨m, hm, hdone⟩ := hc.done j hlt
      exact ⟨m, (Function.update_of_ne hji ..).trans hm, hdone⟩
  . -- the record of errors is kept for the qTDs before, the new one is added
    have hkept : ∀ j : Fin 3, (j : Nat) < i →
        ((s.dma.writeBack i token).td j).qtToken = (s.dma.td j).qtToken := by
      intro j hj
      rw [writeBack_token, if_neg (by omega)]
    rw [Bool.or_eq_false_iff, hc.clean, decide_eq_false_iff_not, not_not]
    constructor
    . rintro ⟨hbefore, hflags⟩ j hj
      by_cases hji : j = i
      . rw [writeBack_token, if_pos hji]
        exact hflags
      . rw [hkept j (by omega)]
        exact hbefore j (by omega)
    . intro hall
      refine ⟨fun j hj => ?_, ?_⟩
      . rw [← hkept j hj]
        exact hall j (by omega)
      . have hflags := hall i (by omega)
        rw [writeBack_token, if_pos rfl] at hflags
        exact hflags
  . intro j hj
    have hji : j ≠ i := by omega
    exact (Function.update_of_ne hji ..).trans (hc.todo j (by omega))
  . intro j hj hlt
    rw [writeBack_token, if_neg (by omega)]
    exact hc.ahead j (by omega) hlt
  . -- the alternate pointer ends the list, so a short packet makes no difference
    unfold Dma.advance
    have haltnext : (s.dma.writeBack i token).qh.qhOverlay.qtAltnext = .terminate := h.altnext
    dsimp only
    rw [haltnext, if_neg (by simp)]
    exact h.next
  . intro j hj hlt
    rw [writeBack_token, if_neg (by omega)]
    exact hc.ahead j (by omega) (by omega)
  . intro j hj
    have hji : j = i := by omega
    rw [writeBack_token, if_pos hji]
    rfl

theorem Inv.halt {i : Fin 3} {token : BitVec 32} (h : Inv toks s) (hw : s.dma.Working i)
    (hinactive : token &&& qtTokenActive = 0) (hhalted : token &&& qtTokenHalted ≠ 0)
    : Inv toks { s with dma := s.dma.writeBack i token } := by
  obtain ⟨k, hc, hphase⟩ := h
  obtain ⟨h, rfl⟩ := working_iff hphase hw
  refine ⟨i, ⟨hc.count, hc.active, hc.le, ?_, ?_, ?_, hc.todo, ?_⟩,
    .inr (.inr ⟨h.lt, hinactive, hhalted⟩)⟩
  . intro j hj
    obtain ⟨h1, h2⟩ := writeBack_next s.dma i j token
    exact ⟨h1.trans (hc.next j hj).1, h2.trans (hc.next j hj).2⟩
  . intro j hj
    rw [writeBack_token, if_neg (by omega)]
    exact hc.done j hj
  . rw [hc.clean]
    apply forall₂_congr
    intro j hj
    rw [writeBack_token, if_neg (by omega)]
  . intro j hj hlt
    rw [writeBack_token, if_neg (by omega)]
    exact hc.ahead j hj hlt

/-- The invariant only looks at the queue head, the qTDs and what was executed. -/
theorem Inv.congr (hqh : t.dma.qh = s.dma.qh) (htd : t.dma.td = s.dma.td)
    (hmoved : t.moved = s.moved) (herred : t.erred = s.erred) (h : Inv toks s)
    : Inv toks t := by
  have hadvance : t.dma.advance = s.dma.advance := by
    unfold Dma.advance
    rw [hqh]
  obtain ⟨k, hc, hphase⟩ := h
  refine ⟨k, ⟨hc.count, hc.active, hc.le, ?_, ?_, ?_, ?_, ?_⟩, ?_⟩
  . rw [htd]
    exact hc.next
  . rw [htd, hmoved]
    exact hc.done
  . rw [htd, herred]
    exact hc.clean
  . rw [hmoved]
    exact hc.todo
  . rw [htd]
    exact hc.ahead
  . rcases hphase with h | h | h
    . refine .inl ⟨?_, ?_, hadvance.trans h.advance, ?_, ?_⟩
      . rw [hqh]
        exact h.inactive
      . rw [hqh]
        exact h.unhalted
      . rw [htd]
        exact h.token
      . rw [hqh, htd]
        exact h.last
    . refine .inr (.inl ⟨h.lt, ?_, ?_, ?_, ?_, ?_⟩)
      . rw [hqh]
        exact h.active
      . rw [hqh]
        exact h.curtd
      . rw [hqh]
        exact h.next
      . rw [hqh]
        exact h.altnext
      . rw [htd]
        exact h.token
    . refine .inr (.inr ⟨h.lt, ?_, ?_⟩)
      . rw [hqh]
        exact h.inactive
      . rw [hqh]
        exact h.halted

theorem Inv.ended {last : Fin 3} (h : Inv toks s) (hlast : last + 1 = toks.length)
    (hmoved : s.moved last ≠ none)
    : Chain toks toks.length s ∧ IdleAt toks toks.length s.dma := by
  obtain ⟨k, hc, hphase⟩ := h
  have hk : k = toks.length := by
    have hle := hc.le
    by_contra hne
    exact hmoved (hc.todo last (by omega))
  subst hk
  rcases hphase with hidle | hbusy | hhalted
  . exact ⟨hc, hidle⟩
  . exact absurd hbusy.lt (Nat.lt_irrefl _)
  . exact absurd hhalted.lt (Nat.lt_irrefl _)

theorem Step.inv (h : Step s t) (hs : Inv toks s) : Inv toks t := by
  cases h with
  | start _ => exact Inv.congr (s := s) rfl rfl rfl rfl hs
  | stop _ _ => exact Inv.congr (s := s) rfl rfl rfl rfl hs
  | load _ _ hready => exact hs.load hready
  | progress _ hw hnext halt hact => exact hs.progress hw hnext halt hact
  | retire _ hw hinactive hunhalted hbytes => exact hs.retire hw hinactive hunhalted hbytes
  | halt _ hw hinactive hhalted => exact hs.halt hw hinactive hhalted

end Agent
