import PureUsb.Ehci.Lemmas.Prepare
import PureUsb.Ehci.Told
import PureUsb.Word

/-!
This module contains a whole transfer over the asynchronous schedule, interleaved with the steps of
the controller.
-/

open Stateful

namespace Agent

variable {E : Stop → Agent → Prop} {e : Ehci} {s t : Agent} {I : Agent → Prop}
variable {toks : List (BitVec 32)}

def Closed (I : Agent → Prop) : Prop := ∀ {s t}, I s → Step s t → I t

theorem Closed.steps (hI : Closed I) (h : Relation.ReflTransGen Step s t) (hs : I s) : I t := by
  induction h with
  | refl => exact hs
  | tail _ hstep ih => exact hI ih hstep

/-!
### Accesses in the presence of the controller
-/

theorem wp_loadDma_closed (hI : Closed I) (hs : I s) {Q : Dma → Ehci → Agent → Prop}
    (hq : ∀ t, I t → Q t.dma e t)
    : wp agentWorld loadDma Q E e s := by
  rw [wp_loadDma]
  intro t
  refine ⟨fun d hw => ?_, fun _ hw => absurd hw World.interleaved_error⟩
  obtain ⟨m, hm, rfl, rfl⟩ := World.interleaved_ok.mp hw
  exact hq t (hI.steps hm hs)

theorem readl_closed (hI : Closed I) (hs : I s) {r : Reg} {v : BitVec 32}
    (hw : agentWorld (.readl r) s (.ok v) t)
    : I t ∧ (r = .usbsts → (v &&& stdAss ≠ 0 ↔ t.ass = true)) := by
  obtain ⟨m, hm, heff⟩ := World.interleaved_ok.mp hw
  cases r with
  | usbsts =>
    obtain ⟨hv, rfl⟩ := heff
    exact ⟨hI.steps hm hs, fun _ => hv⟩
  | _ =>
    cases heff
    exact ⟨hI.steps hm hs, by simp⟩

theorem wp_ehciReadl_closed (hI : Closed I) (hs : I s) {r : Reg} {Q : BitVec 32 → Ehci → Agent → Prop}
    (hq : ∀ v t, I t → Q v (e.record r 0 v) t)
    : wp agentWorld (ehciReadl r) Q E e s := by
  rw [wp_ehciReadl]
  intro t
  refine ⟨fun v hw => ?_, fun _ hw => absurd hw World.interleaved_error⟩
  exact hq v t (readl_closed hI hs hw).1

theorem wp_ehciWritel_usbsts (hI : Closed I) (hs : I s) {v : BitVec 32}
    {Q : Unit → Ehci → Agent → Prop} (hq : ∀ t, I t → Q () (e.record .usbsts 1 v) t)
    : wp agentWorld (ehciWritel .usbsts v) Q E e s := by
  rw [wp_ehciWritel]
  intro t
  refine ⟨fun _ hw => ?_, fun _ hw => absurd hw World.interleaved_error⟩
  obtain ⟨m, hm, rfl⟩ := World.interleaved_ok.mp hw
  exact hq t (hI.steps hm hs)

theorem wp_ehciWritel_usbcmd (hI : Closed I) (hs : I s) {v : BitVec 32}
    {Q : Unit → Ehci → Agent → Prop}
    (hq : ∀ t, I t → Q () (e.record .usbcmd 1 v) { t with ase := decide (v &&& cmdAse ≠ 0) })
    : wp agentWorld (ehciWritel .usbcmd v) Q E e s := by
  rw [wp_ehciWritel]
  intro t
  refine ⟨fun _ hw => ?_, fun _ hw => absurd hw World.interleaved_error⟩
  obtain ⟨m, hm, rfl⟩ := World.interleaved_ok.mp hw
  exact hq m (hI.steps hm hs)

theorem wp_handshake_closed (hI : Closed I) (hs : I s) {done : BitVec 32} {usec : Nat}
    : wp agentWorld (handshake .usbsts stdAss done usec)
        (fun ret e' t =>
          e' = e ∧ I t ∧ ret ≤ 0 ∧
          (ret = 0 → ∃ v, v &&& stdAss = done ∧ (v &&& stdAss ≠ 0 ↔ t.ass = true)))
        E e s := by
  unfold handshake
  refine wp_post (wp_handshakeTries (I := I) (E := E) ?_ ?_ hs) ?_
  . exact fun s t v hs hw => (readl_closed hI hs hw).1
  . exact fun s t x _ hw => absurd hw World.interleaved_error
  . rintro ret e' t ⟨he, ht, hret, t', v, ht', hw, hmatch⟩
    refine ⟨he, ht, hret, fun h0 => ⟨v, (hmatch.mp h0).2.2, ?_⟩⟩
    exact (readl_closed hI ht' hw).2 rfl

/-!
### The phases of a transfer
-/

/-- The schedule was switched on. -/
structure On (toks : List (BitVec 32)) (s : Agent) : Prop where
  ase : s.ase = true
  stalled : s.stalled = false
  inv : Inv toks s

/-- The schedule was switched off, and may have gone off. -/
structure Stopping (toks : List (BitVec 32)) (s : Agent) : Prop where
  ase : s.ase = false
  running : s.ass = true → s.stalled = false
  stopped : s.ass = false → s.stalled = s.dma.ready.isSome
  inv : Inv toks s

theorem Step.cases_control (h : Step s t)
    : t.ase = s.ase ∧
      ((s.ase = true ∧ t.ass = true ∧ t.stalled = s.stalled) ∨
        (s.ass = true ∧ t.ass = true ∧ t.stalled = s.stalled) ∨
        (s.ase = false ∧ s.ass = true ∧ t.ass = false ∧ t.dma = s.dma ∧
          t.stalled = (s.stalled || s.dma.ready.isSome))) := by
  cases h with
  | start hase => exact ⟨rfl, .inl ⟨hase, rfl, rfl⟩⟩
  | stop hase hass => exact ⟨rfl, .inr (.inr ⟨hase, hass, rfl, rfl, rfl⟩)⟩
  | load hass => exact ⟨rfl, .inr (.inl ⟨hass, hass, rfl⟩)⟩
  | progress hass => exact ⟨rfl, .inr (.inl ⟨hass, hass, rfl⟩)⟩
  | retire hass => exact ⟨rfl, .inr (.inl ⟨hass, hass, rfl⟩)⟩
  | halt hass => exact ⟨rfl, .inr (.inl ⟨hass, hass, rfl⟩)⟩

theorem On.closed : Closed (On toks) := by
  intro s t hs hstep
  obtain ⟨hase, h | h | h⟩ := hstep.cases_control
  . exact ⟨hase.trans hs.ase, h.2.2.trans hs.stalled, hstep.inv hs.inv⟩
  . exact ⟨hase.trans hs.ase, h.2.2.trans hs.stalled, hstep.inv hs.inv⟩
  . rw [hs.ase] at h
    cases h.1

theorem On.running_closed : Closed (fun s => On toks s ∧ s.ass = true) := by
  intro s t hs hstep
  refine ⟨On.closed hs.1 hstep, ?_⟩
  obtain ⟨-, h | h | h⟩ := hstep.cases_control
  . exact h.2.1
  . exact h.2.1
  . rw [hs.1.ase] at h
    cases h.1

theorem Stopping.closed : Closed (Stopping toks) := by
  intro s t hs hstep
  have hinv := hstep.inv hs.inv
  obtain ⟨hase, h | h | h⟩ := hstep.cases_control
  . rw [hs.ase] at h
    cases h.1
  . obtain ⟨hass, hass', hstalled⟩ := h
    refine ⟨hase.trans hs.ase, fun _ => hstalled.trans (hs.running hass), ?_, hinv⟩
    intro hf
    rw [hass'] at hf
    cases hf
  . obtain ⟨-, hass, hass', hdma, hstalled⟩ := h
    refine ⟨hase.trans hs.ase, ?_, ?_, hinv⟩
    . intro hf
      rw [hass'] at hf
      cases hf
    . intro _
      rw [hstalled, hs.running hass, hdma]
      rfl

theorem Quiet.eq_closed (h : Quiet s) : Closed (· = s) := by
  intro t u ht hstep
  subst ht
  exact absurd hstep h.not_step

theorem wp_enableAsync_agent (hq : Quiet s) (hstalled : s.stalled = false) (hinv : Inv toks s)
    : wp agentWorld enableAsync
        (fun ret _ t => On toks t ∧ ret ≤ 0 ∧ (ret = 0 → t.ass = true)) E e s := by
  unfold enableAsync
  rw [wp_bind]
  refine wp_ehciReadl_closed hq.eq_closed rfl fun usbsts t ht => ?_
  rw [ht, wp_bind]
  refine wp_ehciWritel_usbsts hq.eq_closed rfl fun t ht => ?_
  rw [ht, wp_bind]
  refine wp_ehciReadl_closed hq.eq_closed rfl fun cmd t ht => ?_
  rw [ht, wp_bind]
  refine wp_ehciWritel_usbcmd hq.eq_closed rfl fun t ht => ?_
  rw [ht]
  have hase : (cmd ||| cmdAse) &&& cmdAse ≠ 0 :=
    (BitVec.and_bit_ne_zero_iff (by decide)).mpr (by simp)
  have hon : On toks { s with ase := decide ((cmd ||| cmdAse) &&& cmdAse ≠ 0) } :=
    ⟨by simpa using hase, hstalled, Inv.congr (s := s) rfl rfl rfl rfl hinv⟩
  refine wp_post (wp_handshake_closed On.closed hon) ?_
  rintro ret e' t ⟨-, ht, hret, h⟩
  refine ⟨ht, hret, fun h0 => ?_⟩
  obtain ⟨v, hv, hass⟩ := h h0
  rw [← hass, hv]
  decide

theorem wp_pollTries_running {td : Fin 3} {attempts : Nat} (hs : On toks s ∧ s.ass = true)
    : wp agentWorld (pollTries td attempts) (fun _ _ t => On toks t ∧ t.ass = true) E e s := by
  induction attempts generalizing s with
  | zero =>
    unfold pollTries
    rw [wp_bind]
    refine wp_loadDma_closed On.running_closed hs fun t ht => ?_
    split <;> exact ht
  | succ attempts ih =>
    unfold pollTries
    rw [wp_bind]
    refine wp_loadDma_closed On.running_closed hs fun t ht => ?_
    split
    . exact ht
    . exact ih ht

theorem wp_disableAsync_agent (hs : On toks s ∧ s.ass = true)
    : wp agentWorld disableAsync
        (fun ret _ t => Stopping toks t ∧ ret ≤ 0 ∧ (ret = 0 → t.ass = false)) E e s := by
  unfold disableAsync
  rw [wp_bind]
  refine wp_ehciReadl_closed On.running_closed hs fun cmd t ht => ?_
  rw [wp_bind]
  refine wp_ehciWritel_usbcmd On.running_closed ht fun t ht => ?_
  have hase : (cmd &&& ~~~cmdAse) &&& cmdAse = 0 := by
    rw [BitVec.and_assoc, BitVec.not_and_self]
    exact BitVec.and_zero
  have hstopping : Stopping toks { t with ase := decide ((cmd &&& ~~~cmdAse) &&& cmdAse ≠ 0) } := by
    refine ⟨by simp [hase], fun _ => ht.1.stalled, ?_, Inv.congr (s := t) rfl rfl rfl rfl ht.1.inv⟩
    intro hf
    exact absurd (ht.2.symm.trans hf) (by simp)
  refine wp_post (wp_handshake_closed Stopping.closed hstopping) ?_
  rintro ret e' t ⟨-, ht, hret, h⟩
  refine ⟨ht, hret, fun h0 => ?_⟩
  obtain ⟨v, hv, hass⟩ := h h0
  rw [hv] at hass
  simpa using hass

end Agent

theorem dataToken_active (toggle : BitVec 32) (length : Nat) (control : Bool) (pipe : BitVec 32)
    : dataToken toggle length control pipe &&& qtTokenActive ≠ 0 := by
  have : qtTokenActive = 1#32 <<< 7 := by decide
  rw [this, BitVec.and_bit_ne_zero_iff (by decide)]
  simp [dataToken]

theorem statusToken_active (toggle pipe : BitVec 32)
    : statusToken toggle pipe &&& qtTokenActive ≠ 0 := by
  have : qtTokenActive = 1#32 <<< 7 := by decide
  rw [this, BitVec.and_bit_ne_zero_iff (by decide)]
  simp [statusToken]

theorem chainTokens_active {dev : UsbDevice} {pipe : BitVec 32} {length : Nat}
    {req : Option (BitVec 32)}
    : ∀ token ∈ chainTokens dev pipe length req, token &&& qtTokenActive ≠ 0 := by
  have hsetup : setupToken &&& qtTokenActive ≠ 0 := by decide
  have hdata := dataToken_active
  have hstatus := statusToken_active
  unfold chainTokens
  split
  . simpa using hdata _ _ _ _
  . split
    . simpa using ⟨hsetup, hdata _ _ _ _, hstatus _ _⟩
    . simpa using ⟨hsetup, hstatus _ _⟩

theorem chainTokens_length_le (dev : UsbDevice) (pipe : BitVec 32) (length : Nat)
    (req : Option (BitVec 32))
    : (chainTokens dev pipe length req).length ≤ 3 := by
  unfold chainTokens
  split
  . simp
  . split <;> simp

theorem wp_traced_agent {α : Type} {m : EhciM α} {e : Ehci} {s : Agent × List (EhciEvent Agent)}
    {Q : α → Ehci → Agent → Prop} (h : wp agentWorld m Q (fun _ _ => True) e s.1)
    : wp agentWorld.traced m (fun r e' t => Q r e' t.1) (fun _ _ => True) e s :=
  wp_traced h

/-- What becomes of a transfer. -/
inductive AgentOutcome (dev : UsbDevice) (pipe : BitVec 32) (length : Nat) (toks : List (BitVec 32))
    (r : Int × UsbDevice) (t : Agent × List (EhciEvent Agent)) : Prop where
  /-- there was no room for it -/
  | refused : r.1 = -1 → (t.1.moved = fun _ => none) → AgentOutcome dev pipe length toks r t
  /-- a handshake failed -/
  | gaveUp : r.1 = -1 → (told t.2).GaveUp → AgentOutcome dev pipe length toks r t
  /-- the controller is at rest, and what is returned was read off the overlay in the state it was left in -/
  | completed : ¬(told t.2).GaveUp → Agent.Inv toks t.1 → t.1.stalled = t.1.dma.ready.isSome →
      r.2 = completeAsync dev pipe length t.1.dma.qh.qhOverlay.qtToken →
      (r.1 = if r.2.status ≠ usbStNotProc then 0 else -1) → t.1.Quiet →
      AgentOutcome dev pipe length toks r t

section

variable {e : Ehci} {s : Agent × List (EhciEvent Agent)} {dev : UsbDevice} {parent : Option UsbDevice}
variable {pipe buffer : BitVec 32} {length : Nat} {req : Option (BitVec 32)}

theorem aside_prepareAsync
    : Only EhciOp.Aside (fun _ => True) (prepareAsync dev parent pipe buffer length req) := by
  have hstore : ∀ f, Only EhciOp.Aside (fun _ => True) (storeDma f) := fun f => Only.ask trivial
  unfold prepareAsync
  apply Only.bind (Only.bind (hstore _) fun _ => Only.modify _)
  intro _
  apply Only.bind (hstore _)
  intro _
  cases parent with
  | none => exact Only.stop trivial
  | some parent =>
    apply Only.bind (hstore _)
    intro _
    apply Only.bind (hstore _)
    intro _
    exact (builds_buildChain buffer req).mono (fun _ ho => ho.aside) fun _ _ => trivial

theorem Agent.Quiet.builds {o : EhciOp} {x : EhciAns o} {a b : Agent} (h : a.Quiet) (ho : o.Builds)
    (hw : agentWorld o a (.ok x) b)
    : b.Quiet ∧ b.moved = a.moved := by
  obtain ⟨m, hm, heff⟩ := World.interleaved_ok.mp hw
  rw [h.eq_of_steps hm] at heff
  cases o with
  | readl r => exact ho.elim
  | writel r v => exact ho.elim
  | load =>
    rw [heff.2]
    exact ⟨h, rfl⟩
  | store f =>
    cases heff
    exact ⟨⟨h.ase, h.ass⟩, rfl⟩

theorem wp_prepareAsync_agent {a : Agent} (hidle : a.Idle)
    : wp agentWorld (prepareAsync dev parent pipe buffer length req)
        (fun r _ t => t.Quiet ∧ (t.moved = fun _ => none) ∧
          (r ≠ none → t.stalled = false ∧ Agent.Inv (chainTokens dev pipe length req) t))
        (fun _ _ => True) e a := by
  have quiet : ∀ m, Agent.Quiet { a with dma := m } := fun m => ⟨hidle.ase, hidle.ass⟩
  unfold prepareAsync allocQh
  simp only [wp_bind]
  refine Agent.wp_storeDma_quiet ⟨hidle.ase, hidle.ass⟩ ?_
  rw [wp_modify]
  refine Agent.wp_storeDma_quiet (quiet _) ?_
  cases parent with
  | none => trivial
  | some parent =>
    simp only [wp_bind]
    refine Agent.wp_storeDma_quiet (quiet _) ?_
    refine Agent.wp_storeDma_quiet (quiet _) ?_
    have hempty : Built [] { a.dma with
        qh := { QH.zero with qhLink := .qhList, qhEndpt1 := qhEndpt1 dev pipe,
                             qhEndpt2 := qhEndpt2 dev parent,
                             qhOverlay := { QTD.zero with qtNext := .terminate } } } :=
      ⟨rfl, rfl, fun i hi => absurd hi (Nat.not_lt_zero i)⟩
    refine wp_post (wp_both (wp_buildChain_built (quiet _) hempty rfl)
      ((builds_buildChain buffer req).wp_invariant (I := fun t => t.Quiet ∧ t.moved = fun _ => none)
        (fun o b x t ho hb hw => (hb.1.builds ho hw).imp_right fun hmoved => hmoved.trans hb.2)
        ⟨quiet _, hidle.moved⟩)) ?_
    rintro r e' t ⟨hbuilt, hquiet, hmoved⟩
    refine ⟨hquiet, hmoved, fun hr => ?_⟩
    obtain ⟨td, rfl⟩ := Option.ne_none_iff_exists'.mp hr
    obtain ⟨-, hbuilt⟩ := hbuilt td rfl
    refine ⟨hbuilt.stalled.trans hidle.stalled, ?_⟩
    exact hbuilt.built.inv (chainTokens_length_le ..) chainTokens_active hmoved
      (hbuilt.erred.trans hidle.erred)

theorem wp_ehciSubmitAsync_outcome_agent (hidle : s.1.Idle)
    : wp agentWorld.traced (ehciSubmitAsync dev parent pipe buffer length req)
        (fun r _ t => AgentOutcome dev pipe length (chainTokens dev pipe length req) r t) (fun _ _ => True)
        e s := by
  rw [ehciSubmitAsync_eq_prepareAsync, wp_bind]
  refine wp_post (wp_both (wp_traced_agent (wp_prepareAsync_agent hidle))
    (wp_told_aside aside_prepareAsync rfl)) ?_
  rintro (_ | td) e1 t1 ⟨⟨hquiet, hmoved, hinv⟩, htold⟩
  . unfold failAsync
    rw [wp_bind]
    refine wp_post (wp_traced_agent (Agent.wp_storeDma_quiet
      (Q := fun _ _ t => t.moved = fun _ => none) hquiet hmoved)) ?_
    exact fun _ _ t ht => .refused rfl ht
  . obtain ⟨hstalled, hinv⟩ := hinv (Option.some_ne_none td)
    -- from here on a handshake that fails is noted
    have hfail : ∀ {e : Ehci} {t : Agent × List (EhciEvent Agent)}, (told t.2).GaveUp →
        wp agentWorld.traced (failAsync dev)
          (fun r _ t => AgentOutcome dev pipe length (chainTokens dev pipe length req) r t)
          (fun _ _ => True) e t := by
      intro e t ht
      refine wp_post (wp_failAsync_told ht) fun r _ t h => .gaveUp h.1 h.2
    dsimp only
    rw [wp_bind]
    refine wp_post (wp_traced_agent (Agent.wp_storeDma_quiet
      (Q := fun _ _ t => t.Quiet ∧ t.stalled = false ∧ Agent.Inv (chainTokens dev pipe length req) t) hquiet
      ⟨⟨hquiet.ase, hquiet.ass⟩, hstalled, Agent.Inv.congr (s := t1.1) rfl rfl rfl rfl hinv⟩)) ?_
    rintro _ e2 t2 ⟨hquiet, hstalled, hinv⟩
    rw [wp_bind]
    refine wp_post (wp_both (wp_traced_agent (Agent.wp_enableAsync_agent hquiet hstalled hinv))
      wp_enableAsync_told) ?_
    rintro ret e3 t3 ⟨⟨hon, hret, hass⟩, -, hgave⟩
    split
    . next hneg =>
      apply hfail
      by_contra hfree
      have := hgave.mpr hfree
      omega
    . rw [wp_bind]
      refine wp_post (wp_traced_agent (Agent.wp_pollTries_running ⟨hon, hass (by omega)⟩))
        fun _ e4 t4 h4 => ?_
      rw [wp_bind]
      refine wp_post (wp_both (wp_traced_agent (Agent.wp_disableAsync_agent h4)) wp_disableAsync_told) ?_
      rintro ret e5 t5 ⟨⟨hstop, hret, hass⟩, -, hgave⟩
      split
      . next hneg =>
        apply hfail
        by_contra hfree
        have := hgave.mpr hfree
        omega
      . have hass := hass (by omega)
        have hfree := hgave.mp (by omega)
        rw [wp_bind]
        refine wp_post (wp_both (wp_traced_agent (Agent.wp_storeDma_quiet
          (Q := fun _ _ t => t = { t5.1 with dma := t5.1.dma.setLink .qhList }) ⟨hstop.ase, hass⟩ rfl))
          (wp_storeDma_told rfl)) ?_
        rintro _ e6 t6 ⟨ht6, htold6⟩
        have hquiet : t6.1.Quiet := by
          rw [ht6]
          exact ⟨hstop.ase, hass⟩
        rw [wp_bind]
        refine wp_post (wp_both (wp_traced_agent (Agent.wp_loadDma_quiet
          (Q := fun m _ t => m = t6.1.dma ∧ t = t6.1) hquiet ⟨rfl, rfl⟩))
          (wp_told_aside (S := fun _ => False) (Only.ask trivial) htold6)) ?_
        rintro m e7 t7 ⟨⟨rfl, ht7⟩, htold7⟩
        rw [← ht7, wp_pure]
        refine .completed ?_ ?_ ?_ rfl rfl ?_
        . rw [htold7]
          exact hfree
        . rw [ht7, ht6]
          exact Agent.Inv.congr (s := t5.1) rfl rfl rfl rfl hstop.inv
        . rw [ht7, ht6]
          exact hstop.stopped hass
        . rw [ht7]
          exact hquiet

/--
When the transfer succeeds the controller is at rest, and what is returned was read off the overlay
in the state it was left in.
-/
theorem wp_ehciSubmitAsync_agent {E : Stop → Agent → Prop} {a : Agent} (hidle : a.Idle) (hE : ∀ x t, E x t)
    : wp agentWorld (ehciSubmitAsync dev parent pipe buffer length req)
        (fun r _ t =>
          0 ≤ r.1 →
            Agent.Inv (chainTokens dev pipe length req) t ∧ t.stalled = t.dma.ready.isSome ∧
            r.2 = completeAsync dev pipe length t.dma.qh.qhOverlay.qtToken ∧ t.Quiet)
        E e a := by
  refine wp_of_traced (l := []) ?_
  apply wp_mono (wp_ehciSubmitAsync_outcome_agent (s := (a, [])) hidle)
  . intro r e' t h hret
    cases h with
    | refused hr => omega
    | gaveUp hr => omega
    | completed _ hinv hstalled hdev _ hquiet => exact ⟨hinv, hstalled, hdev, hquiet⟩
  . exact fun x t _ => hE x t.1

end
