import PureUsb.Ehci.Lemmas.Agent

/-!
This module contains the chain of qTDs that the driver builds while the schedule is off.
-/

open Stateful

namespace Agent

variable {E : Stop → Agent → Prop} {e : Ehci} {s t : Agent}

/-- The controller does nothing. -/
structure Quiet (s : Agent) : Prop where
  ase : s.ase = false
  ass : s.ass = false

theorem Quiet.not_step (h : Quiet s) : ¬Step s t := by
  intro hstep
  cases hstep with
  | start hase => simp [h.ase] at hase
  | stop _ hass => simp [h.ass] at hass
  | load hass => simp [h.ass] at hass
  | progress hass => simp [h.ass] at hass
  | retire hass => simp [h.ass] at hass
  | halt hass => simp [h.ass] at hass

theorem Quiet.eq_of_steps (h : Quiet s) (hsteps : Relation.ReflTransGen Step s t) : t = s := by
  induction hsteps with
  | refl => rfl
  | tail _ hstep ih =>
    subst ih
    exact absurd hstep h.not_step

theorem wp_storeDma_quiet {f : Dma → Dma} {Q : Unit → Ehci → Agent → Prop} (h : Quiet s)
    (hq : Q () e { s with dma := f s.dma })
    : wp agentWorld (storeDma f) Q E e s := by
  rw [wp_storeDma]
  intro t
  refine ⟨fun _ hw => ?_, fun _ hw => absurd hw World.interleaved_error⟩
  obtain ⟨m, hm, rfl⟩ := World.interleaved_ok.mp hw
  rw [h.eq_of_steps hm]
  exact hq

theorem wp_loadDma_quiet {Q : Dma → Ehci → Agent → Prop} (h : Quiet s) (hq : Q s.dma e s)
    : wp agentWorld loadDma Q E e s := by
  rw [wp_loadDma]
  intro t
  refine ⟨fun d hw => ?_, fun _ hw => absurd hw World.interleaved_error⟩
  obtain ⟨m, hm, rfl, rfl⟩ := World.interleaved_ok.mp hw
  rw [h.eq_of_steps hm]
  exact hq

end Agent

/-!
### Chains
-/

theorem tdBufferFrom_eq (td : QTD) (addr : BitVec 32) (sz n idx : Nat)
    : (tdBufferFrom td addr sz n idx).1.qtNext = td.qtNext ∧
      (tdBufferFrom td addr sz n idx).1.qtAltnext = td.qtAltnext ∧
      (tdBufferFrom td addr sz n idx).1.qtToken = td.qtToken := by
  induction n generalizing td addr sz idx with
  | zero => exact ⟨rfl, rfl, rfl⟩
  | succ n ih =>
    unfold tdBufferFrom
    dsimp only
    split
    . exact ⟨rfl, rfl, rfl⟩
    . exact ih ..

theorem fillBuffer_eq (td : QTD) (buffer : Option (BitVec 32 × Nat))
    : (fillBuffer td buffer).1.qtNext = td.qtNext ∧
      (fillBuffer td buffer).1.qtAltnext = td.qtAltnext ∧
      (fillBuffer td buffer).1.qtToken = td.qtToken := by
  unfold fillBuffer
  split
  . exact tdBufferFrom_eq ..
  . exact ⟨rfl, rfl, rfl⟩

/-- The memory holds a chain with the tokens `toks` that nobody has worked on. -/
structure Built (toks : List (BitVec 32)) (m : Dma) : Prop where
  overlay : m.qh.qhOverlay.qtToken = 0
  first : m.qh.qhOverlay.qtNext = tdPtr toks.length 0
  td : ∀ i : Fin 3, i < toks.length →
    (m.td i).qtNext = tdPtr toks.length (i + 1) ∧ (m.td i).qtAltnext = .terminate ∧
    (m.td i).qtToken = toks.getD i 0

/-- `prev` is the last element of a chain of `n` qTDs. -/
def IsLast (prev : Option (Fin 3)) (n : Nat) : Prop :=
  match prev with
  | none => n = 0
  | some j => j + 1 = n

theorem Built.setTd {toks : List (BitVec 32)} {m : Dma} {i : Fin 3} (h : Built toks m)
    (hi : toks.length ≤ i) (td : QTD)
    : Built toks (m.setTd i td) := by
  refine ⟨h.overlay, h.first, fun j hj => ?_⟩
  have hne : j ≠ i := by omega
  simp only [Dma.setTd, Function.update_of_ne hne]
  exact h.td j hj

theorem Built.append {toks : List (BitVec 32)} {m : Dma} {prev : Option (Fin 3)} {i : Fin 3}
    {token : BitVec 32} {td : QTD} (h : Built toks m) (hi : i = toks.length)
    (hprev : IsLast prev toks.length) (hnext : td.qtNext = .terminate)
    (haltnext : td.qtAltnext = .terminate) (htoken : td.qtToken = token)
    : Built (toks ++ [token]) (linkTd prev i (m.setTd i td)) := by
  have hlen : (toks ++ [token]).length = i + 1 := by simp [hi]
  have hself : tdPtr (toks ++ [token]).length i = .td i := tdPtr_of_lt (by omega)
  have hlast : tdPtr (toks ++ [token]).length (i + 1) = .terminate := by
    rw [hlen, tdPtr_self]
  have hother : ∀ j : Fin 3, j + 1 < toks.length →
      tdPtr toks.length (j + 1) = tdPtr (toks ++ [token]).length (j + 1) := by
    intro j hj
    unfold tdPtr
    rw [dif_pos (by omega), dif_pos (by omega)]
  have hnew : (toks ++ [token]).getD i 0 = token := by
    rw [List.getD_eq_getElem?_getD, hi, List.getElem?_concat_length, Option.getD_some]
  have hold : ∀ j : Nat, j < toks.length → (toks ++ [token]).getD j 0 = toks.getD j 0 := by
    intro j hj
    rw [List.getD_eq_getElem?_getD, List.getD_eq_getElem?_getD, List.getElem?_append_left hj]
  cases prev with
  | none =>
    have hzero : toks.length = 0 := hprev
    have hi0 : (i : Nat) = 0 := by omega
    refine ⟨h.overlay, ?_, ?_⟩
    . rw [← hi0, hself]
      rfl
    . intro j hj
      have hji : j = i := by omega
      subst hji
      simp only [linkTd, Dma.setOverlay, Dma.setTd, Function.update_self]
      exact ⟨hnext.trans hlast.symm, haltnext, htoken.trans hnew.symm⟩
  | some j =>
    have hj : (j : Nat) + 1 = toks.length := hprev
    have hij : i ≠ j := by omega
    refine ⟨h.overlay, ?_, ?_⟩
    . refine h.first.trans ?_
      unfold tdPtr
      rw [dif_pos (by omega), dif_pos (by omega)]
    . intro l hl
      simp only [linkTd, Dma.setTd]
      by_cases hlj : l = j
      . subst hlj
        obtain ⟨-, h2, h3⟩ := h.td l (by omega)
        rw [Function.update_self, Function.update_of_ne hij.symm]
        refine ⟨?_, h2, h3.trans (hold l (by omega)).symm⟩
        rw [← hself, hi, ← hj]
      . rw [Function.update_of_ne hlj]
        by_cases hli : l = i
        . subst hli
          rw [Function.update_self]
          exact ⟨hnext.trans hlast.symm, haltnext, htoken.trans hnew.symm⟩
        . rw [Function.update_of_ne hli]
          obtain ⟨h1, h2, h3⟩ := h.td l (by omega)
          exact ⟨h1.trans (hother l (by omega)), h2, h3.trans (hold l (by omega)).symm⟩

theorem Built.inv {toks : List (BitVec 32)} {s : Agent} (h : Built toks s.dma)
    (hcount : toks.length ≤ 3) (hactive : ∀ token ∈ toks, token &&& qtTokenActive ≠ 0)
    (hmoved : s.moved = fun _ => none) (herred : s.erred = false)
    : Agent.Inv toks s := by
  refine ⟨0, ⟨hcount, hactive, by omega, ?_, ?_, ?_, ?_, ?_⟩, .inl ⟨?_, ?_, ?_, ?_, ?_⟩⟩
  . exact fun i hi => ⟨(h.td i hi).1, (h.td i hi).2.1⟩
  . intro i hi
    omega
  . refine iff_of_true herred fun i hi => ?_
    omega
  . intro i _
    rw [hmoved]
  . exact fun i _ hi => (h.td i hi).2.2
  . rw [h.overlay]
    decide
  . rw [h.overlay]
    decide
  . unfold Dma.advance
    dsimp only
    have hzero : ¬tokenBytes 0 ≠ 0 := by decide
    rw [h.overlay, if_neg fun hn => hzero hn.1]
    exact h.first
  . exact fun i hi hlen => (h.td i (by omega)).2.2
  . intro i hi
    omega

/-!
### `ehci_submit_async`
-/

def chainTokens (dev : UsbDevice) (pipe : BitVec 32) (length : Nat) (req : Option (BitVec 32))
    : List (BitVec 32) :=
  match req with
  | none =>
    [dataToken (usbGettoggle dev (usbPipeendpoint pipe) (usbPipeout pipe)) length false pipe]
  | some _ =>
    if length > 0 then
      [setupToken, dataToken 1 length true pipe, statusToken 1 pipe]
    else
      [setupToken, statusToken 1 pipe]

section

variable {E : Stop → Agent → Prop} {e : Ehci} {s : Agent} {toks : List (BitVec 32)}

/-- `t` is `s` but for the shared memory, which holds a chain with the tokens `toks`. -/
structure BuiltFrom (s : Agent) (toks : List (BitVec 32)) (t : Agent) : Prop where
  ase : t.ase = s.ase
  ass : t.ass = s.ass
  moved : t.moved = s.moved
  stalled : t.stalled = s.stalled
  erred : t.erred = s.erred
  built : Built toks t.dma

theorem BuiltFrom.quiet {t : Agent} (h : BuiltFrom s toks t) (hs : s.Quiet) : t.Quiet :=
  ⟨h.ase.trans hs.ase, h.ass.trans hs.ass⟩

theorem BuiltFrom.trans {t u : Agent} {toks' : List (BitVec 32)} (h : BuiltFrom s toks t)
    (h' : BuiltFrom t toks' u)
    : BuiltFrom s toks' u where
  ase := h'.ase.trans h.ase
  ass := h'.ass.trans h.ass
  moved := h'.moved.trans h.moved
  stalled := h'.stalled.trans h.stalled
  erred := h'.erred.trans h.erred
  built := h'.built

theorem wp_appendTd_built {prev : Option (Fin 3)} {token : BitVec 32}
    {buffer : Option (BitVec 32 × Nat)} (hs : s.Quiet) (h : Built toks s.dma)
    (hntds : e.ntds = toks.length) (hprev : IsLast prev toks.length)
    : wp agentWorld (appendTd prev token buffer)
        (fun r e' t =>
          ∀ i, r = some i →
            IsLast (some i) (toks ++ [token]).length ∧ e'.ntds = (toks ++ [token]).length ∧
            BuiltFrom s (toks ++ [token]) t)
        E e s := by
  unfold appendTd allocTd
  rw [wp_bind, wp_bind, wp_get]
  split
  . rintro i ⟨⟩
  . next h3 =>
    have quiet : ∀ m, Agent.Quiet { s with dma := m } := fun m => ⟨hs.ase, hs.ass⟩
    rw [wp_bind]
    refine Agent.wp_storeDma_quiet hs ?_
    rw [wp_bind, wp_set, wp_pure]
    dsimp only
    rw [wp_bind]
    refine Agent.wp_storeDma_quiet (quiet _) ?_
    rw [wp_bind]
    refine Agent.wp_loadDma_quiet (quiet _) ?_
    rw [wp_bind]
    refine Agent.wp_storeDma_quiet (quiet _) ?_
    split
    . rintro i ⟨⟩
    . rw [wp_bind]
      refine Agent.wp_storeDma_quiet (quiet _) ?_
      rintro i ⟨⟩
      rw [List.length_append, List.length_singleton]
      have hi : toks.length ≤ e.ntds := by omega
      have hnext : ((e.ntds + 1 : Fin 4) : Nat) = toks.length + 1 := by omega
      refine ⟨by simp [IsLast, hntds], hnext, rfl, rfl, rfl, rfl, rfl, ?_⟩
      have htd : ∀ (m : Dma) (j : Fin 3) (td : QTD), (m.setTd j td).td j = td := fun m j td =>
        Function.update_self ..
      obtain ⟨h1, h2, h3⟩ := fillBuffer_eq
        { QTD.zero with qtNext := .terminate, qtAltnext := .terminate, qtToken := token } buffer
      refine Built.append ((h.setTd hi _).setTd hi _) hntds hprev ?_ ?_ ?_
      . simp only [htd]
        exact h1
      . simp only [htd]
        exact h2
      . simp only [htd]
        exact h3

theorem wp_buildChain_built {dev : UsbDevice} {pipe buffer : BitVec 32} {length : Nat}
    {req : Option (BitVec 32)} (hs : s.Quiet) (h : Built [] s.dma) (hntds : e.ntds = 0)
    : wp agentWorld (buildChain dev pipe buffer length req)
        (fun r _ t =>
          ∀ td, r = some td →
            IsLast (some td) (chainTokens dev pipe length req).length ∧
            BuiltFrom s (chainTokens dev pipe length req) t)
        E e s := by
  have h0 : (e.ntds : Nat) = ([] : List (BitVec 32)).length := by simp [hntds]
  unfold buildChain chainTokens
  split
  . refine wp_post (wp_appendTd_built hs h h0 rfl) fun r e' t hr td htd => ?_
    obtain ⟨hlast, -, hbuilt⟩ := hr td htd
    exact ⟨hlast, hbuilt⟩
  . rw [wp_bind]
    refine wp_post (wp_appendTd_built hs h h0 rfl) ?_
    rintro (_ | setup) e1 t1 h1
    . rintro td ⟨⟩
    . obtain ⟨hlast, hntds, hbuilt⟩ := h1 setup rfl
      dsimp only
      rw [wp_bind]
      unfold appendData
      split
      . refine wp_post (wp_appendTd_built (hbuilt.quiet hs) hbuilt.built hntds hlast) ?_
        rintro (_ | data) e2 t2 h2
        . rintro td ⟨⟩
        . obtain ⟨hlast, hntds, hbuilt2⟩ := h2 data rfl
          refine wp_post (wp_appendTd_built ((hbuilt.trans hbuilt2).quiet hs) hbuilt2.built hntds hlast)
            fun r e' t hr td htd => ?_
          obtain ⟨hlast, -, hbuilt3⟩ := hr td htd
          exact ⟨hlast, (hbuilt.trans hbuilt2).trans hbuilt3⟩
      . rw [wp_pure]
        refine wp_post (wp_appendTd_built (hbuilt.quiet hs) hbuilt.built hntds hlast)
          fun r e' t hr td htd => ?_
        obtain ⟨hlast, -, hbuilt2⟩ := hr td htd
        exact ⟨hlast, hbuilt.trans hbuilt2⟩

end
