import PureUsb.Ehci.Schedule
import PureUsb.Ehci.Transfer
import PureUsb.Prog.History

/-!
This module contains how the driver and the controller take turns with the structures that they share.
-/

open Stateful

abbrev AgentEvent := Event EhciOp EhciAns Stop Agent

/-- `CMD_ASE` reads back as it was written. -/
def ReadsBack (o : EhciOp) (r : Except Stop (EhciAns o)) (s : Agent) : Prop :=
  match o, r with
  | .readl .usbcmd, .ok v => v &&& cmdAse ≠ 0 ↔ s.ase = true
  | _, _ => True

def commandWorld : EhciWorld Agent := fun o s r t => agentWorld o s r t ∧ ReadsBack o r t

def Event.Stores (e : AgentEvent) : Prop := ∃ f, e.op = .store f

/--
The driver only changes the shared structures when the controller can take no step, unless it gave up waiting
for the controller to stop.
-/
abbrev TakesTurns : List AgentEvent → Prop :=
  Always fun before e => e.Stores → (∀ t, ¬Agent.Step e.state t) ∨ (told before).GaveUp

/-- An initialisation of a controller at rest, and transfers one after the other. -/
inductive TurnRun : Ehci → Agent × List AgentEvent → Prop where
  | init {addr : BitVec 32} {e e' : Ehci} {s : Agent} {t : Agent × List AgentEvent} : s.Quiet →
      (ehciInit addr).Run commandWorld.traced e (s, []) (.ok (0, e')) t → TurnRun e' t
  | control {e e' : Ehci} {s t : Agent × List AgentEvent} {dev : UsbDevice} {parent : Option UsbDevice}
      {pipe bufAddr setupAddr : BitVec 32} {length : Nat} {setup : DevRequest}
      {r : Int × UsbDevice × Option (List Byte)} :
      TurnRun e s →
      (submitControlMsg dev parent pipe bufAddr length setup setupAddr).Run commandWorld.traced e s
        (.ok (r, e')) t →
      TurnRun e' t
  | bulk {e e' : Ehci} {s t : Agent × List AgentEvent} {dev : UsbDevice} {parent : Option UsbDevice}
      {pipe bufAddr : BitVec 32} {length : Nat} {r : Int × UsbDevice × Option (List Byte)} :
      TurnRun e s →
      (submitBulkMsg dev parent pipe bufAddr length).Run commandWorld.traced e s (.ok (r, e')) t →
      TurnRun e' t

/-! ### Accesses -/

theorem commandWorld_ok {o : EhciOp} {x : EhciAns o} {s t : Agent × List AgentEvent}
    (h : commandWorld.traced o s (.ok x) t)
    : (∃ m, Relation.ReflTransGen Agent.Step s.1 m ∧ Agent.Effect o m x t.1) ∧ ReadsBack o (.ok x) t.1 ∧
        t.2 = s.2 ++ [⟨s.1, o, .ok x⟩] :=
  ⟨World.interleaved_ok.mp h.1.1, h.1.2, h.2⟩

section

variable {o : EhciOp} {x : EhciAns o} {r : Reg} {v : BitVec 32} {s t : Agent × List AgentEvent} {e : Ehci}

/-- It is the turn of the driver. -/
structure Turn (s : Agent × List AgentEvent) : Prop where
  turns : TakesTurns s.2
  free : s.1.Quiet ∨ (told s.2).GaveUp

/-- It is the turn of the driver, and the controller is at rest. -/
structure Resting (s : Agent × List AgentEvent) : Prop where
  turns : TakesTurns s.2
  quiet : s.1.Quiet

theorem Resting.turn (h : Resting s) : Turn s := ⟨h.turns, .inl h.quiet⟩

theorem takesTurns_of_looks (hs : TakesTurns s.2) (h : commandWorld.traced o s (.ok x) t) (ho : o.Looks)
    : TakesTurns t.2 := by
  rw [(commandWorld_ok h).2.2]
  refine Always.concat_iff.mpr ⟨hs, ?_⟩
  rintro ⟨f, hf⟩
  subst hf
  exact ho.elim

theorem Turn.takesTurns (hs : Turn s) (h : commandWorld.traced o s (.ok x) t) : TakesTurns t.2 := by
  rw [(commandWorld_ok h).2.2]
  refine Always.concat_iff.mpr ⟨hs.turns, fun _ => ?_⟩
  rcases hs.free with hquiet | hgave
  . exact .inl fun _ => hquiet.not_step
  . exact .inr hgave

theorem EhciOp.Aside.quiet {a b : Agent} (ho : o.Aside) (h : Agent.Effect o a x b) (ha : a.Quiet) : b.Quiet := by
  cases o with
  | readl r =>
    cases r with
    | usbsts => exact absurd rfl ho
    | _ =>
      cases h
      exact ha
  | writel r v =>
    cases r with
    | usbcmd => exact absurd rfl ho
    | _ =>
      cases h
      exact ha
  | load =>
    rw [h.2]
    exact ha
  | store f =>
    cases h
    exact ⟨ha.ase, ha.ass⟩

theorem Turn.aside (hs : Turn s) (h : commandWorld.traced o s (.ok x) t) (ho : o.Aside) : Turn t := by
  obtain ⟨⟨m, hm, heff⟩, -, htrace⟩ := commandWorld_ok h
  refine ⟨hs.takesTurns h, ?_⟩
  rcases hs.free with hquiet | hgave
  . rw [hquiet.eq_of_steps hm] at heff
    exact .inl (ho.quiet heff hquiet)
  . right
    rw [htrace, told_concat, ho.after]
    exact hgave

theorem Resting.aside (hs : Resting s) (h : commandWorld.traced o s (.ok x) t) (ho : o.Aside) : Resting t := by
  obtain ⟨⟨m, hm, heff⟩, -, -⟩ := commandWorld_ok h
  rw [hs.quiet.eq_of_steps hm] at heff
  exact ⟨hs.turn.takesTurns h, ho.quiet heff hs.quiet⟩

theorem Resting.readSts (hs : Resting s) (h : commandWorld.traced (.readl .usbsts) s (.ok v) t) : Resting t := by
  obtain ⟨⟨m, hm, heff⟩, -, -⟩ := commandWorld_ok h
  rw [hs.quiet.eq_of_steps hm] at heff
  refine ⟨hs.turn.takesTurns h, ?_⟩
  rw [heff.2]
  exact hs.quiet

theorem Resting.writeCmd {u : Unit} (hs : Resting s) (hv : v &&& cmdAse = 0)
    (h : commandWorld.traced (.writel .usbcmd v) s (.ok u) t)
    : Resting t := by
  obtain ⟨⟨m, hm, heff⟩, -, -⟩ := commandWorld_ok h
  rw [hs.quiet.eq_of_steps hm] at heff
  refine ⟨hs.turn.takesTurns h, ?_⟩
  have ht : t.1 = { s.1 with ase := decide (v &&& cmdAse ≠ 0) } := heff
  rw [ht]
  exact ⟨decide_eq_false (not_not_intro hv), hs.quiet.ass⟩

theorem Resting.readCmd (hs : Resting s) (h : commandWorld.traced (.readl .usbcmd) s (.ok v) t)
    : Resting t ∧ v &&& cmdAse = 0 := by
  have ht := hs.aside h (show Reg.usbcmd ≠ Reg.usbsts by decide)
  refine ⟨ht, ?_⟩
  have hback : v &&& cmdAse ≠ 0 ↔ t.1.ase = true := (commandWorld_ok h).2.1
  rw [ht.quiet.ase] at hback
  by_contra hne
  exact absurd (hback.mp hne) (by decide)

theorem keptByRoot_turn : KeptByRoot commandWorld.traced (fun _ => True) Turn (fun _ _ => True) where
  read hr hs hw := hs.aside hw hr
  write hr _ hs hw := hs.aside hw hr
  stop _ _ := trivial

theorem keptByRoot_resting : KeptByRoot commandWorld.traced (fun _ => True) Resting (fun _ _ => True) where
  read hr hs hw := hs.aside hw hr
  write hr _ hs hw := hs.aside hw hr
  stop _ _ := trivial

theorem wp_storeDma_turn {f : Dma → Dma} {Q : Unit → Ehci → Agent × List AgentEvent → Prop} (hs : Turn s)
    (hq : ∀ t, Turn t → Q () e t)
    : wp commandWorld.traced (storeDma f) Q (fun _ _ => True) e s := by
  rw [wp_storeDma]
  exact fun t => ⟨fun _ h => hq t (hs.aside h trivial), fun _ _ => trivial⟩

theorem wp_loadDma_turn {Q : Dma → Ehci → Agent × List AgentEvent → Prop} (hs : Turn s)
    (hq : ∀ m t, Turn t → Q m e t)
    : wp commandWorld.traced loadDma Q (fun _ _ => True) e s := by
  rw [wp_loadDma]
  exact fun t => ⟨fun m h => hq m t (hs.aside h trivial), fun _ _ => trivial⟩

/-! ### A transfer -/

variable {dev : UsbDevice} {parent : Option UsbDevice} {pipe buffer : BitVec 32} {length : Nat}

theorem wp_failAsync_turn (hs : Turn s)
    : wp commandWorld.traced (failAsync dev) (fun _ _ t => Turn t) (fun _ _ => True) e s := by
  unfold failAsync
  rw [wp_bind]
  exact wp_storeDma_turn hs fun t ht => ht

theorem wp_buildChain_turn {req : Option (BitVec 32)} (hs : Turn s)
    : wp commandWorld.traced (buildChain dev pipe buffer length req) (fun _ _ t => Turn t) (fun _ _ => True)
        e s := by
  apply (builds_buildChain buffer req).wp_invariant ?_ hs
  intro o s x t ho hs hw
  cases o with
  | load => exact hs.aside hw trivial
  | store f => exact hs.aside hw trivial
  | _ => exact ho.elim

theorem wp_pollTries_turns {td : Fin 3} {attempts : Nat} (hs : TakesTurns s.2)
    : wp commandWorld.traced (pollTries td attempts) (fun _ _ t => TakesTurns t.2) (fun _ _ => True) e s :=
  (looks_pollTries td attempts).wp_invariant
    (fun _ _ _ _ ho hs hw => takesTurns_of_looks hs hw ho) hs

/-- The schedule was switched as `on` says. -/
structure Switched (on : Bool) (s : Agent × List AgentEvent) : Prop where
  turns : TakesTurns s.2
  ase : s.1.ase = on

theorem ase_steps {a b : Agent} (h : Relation.ReflTransGen Agent.Step a b) : b.ase = a.ase := by
  induction h with
  | refl => rfl
  | tail _ hstep ih =>
    rw [← ih]
    cases hstep <;> rfl

theorem Switched.readSts {on : Bool} (hs : Switched on s) (h : commandWorld.traced (.readl .usbsts) s (.ok v) t)
    : Switched on t ∧ (v &&& stdAss = 0 → t.1.ass = false) := by
  obtain ⟨⟨m, hm, heff⟩, -, htrace⟩ := commandWorld_ok h
  refine ⟨⟨takesTurns_of_looks hs.turns h trivial, ?_⟩, ?_⟩
  . rw [heff.2, ase_steps hm]
    exact hs.ase
  . intro hv
    have hass : ¬t.1.ass = true := by
      rw [heff.2, ← heff.1]
      exact not_not_intro hv
    simpa using hass

theorem wp_command_turns {done : BitVec 32} {usec : Nat} {on : Bool} (hs : TakesTurns s.2)
    (hon : decide (v &&& cmdAse ≠ 0) = on) (hdone : done = bif on then stdAss else 0)
    : wp commandWorld.traced (do ehciWritel .usbcmd v; handshake .usbsts stdAss done usec)
        (fun ret _ t => Switched on t ∧ ret ≤ 0 ∧ (ret < 0 → Turn t) ∧ (ret = 0 → done = 0 → t.1.ass = false))
        (fun _ _ => True) e s := by
  have hswitched : wp commandWorld.traced (do ehciWritel .usbcmd v; handshake .usbsts stdAss done usec)
      (fun ret _ t => Switched on t ∧ (ret = 0 → done = 0 → t.1.ass = false)) (fun _ _ => True) e s := by
    rw [wp_bind, wp_ehciWritel]
    intro t
    refine ⟨fun x h => ?_, fun _ _ => trivial⟩
    have hswitched : Switched on t := by
      obtain ⟨⟨m, hm, heff⟩, -, -⟩ := commandWorld_ok h
      refine ⟨takesTurns_of_looks hs h trivial, ?_⟩
      have ht : t.1 = { m with ase := decide (v &&& cmdAse ≠ 0) } := heff
      rw [ht]
      exact hon
    unfold handshake
    refine wp_post (wp_handshakeTries (I := Switched on) (E := fun _ _ => True) ?_ ?_ hswitched) ?_
    . exact fun _ _ _ hs hw => (hs.readSts hw).1
    . exact fun _ _ _ _ _ => trivial
    . rintro ret e' u ⟨-, hu, -, u', v', hu', hw, hmatch⟩
      refine ⟨hu, fun h0 hzero => (hu'.readSts hw).2 ?_⟩
      rw [(hmatch.mp h0).2.2, hzero]
  apply wp_mono (wp_and hswitched (wp_command_told hon hdone))
  . rintro ret _ t ⟨⟨hon, hass⟩, hret, hgave⟩
    refine ⟨hon, hret, fun hneg => ⟨hon.turns, .inr ?_⟩, hass⟩
    by_contra hfree
    have := hgave.mpr hfree
    omega
  . exact fun _ _ _ => trivial

theorem wp_enableAsync_turns (hs : TakesTurns s.2)
    : wp commandWorld.traced enableAsync (fun ret _ t => TakesTurns t.2 ∧ (ret < 0 → Turn t)) (fun _ _ => True)
        e s := by
  unfold enableAsync
  rw [wp_bind, wp_ehciReadl]
  intro t
  refine ⟨fun sts h => ?_, fun _ _ => trivial⟩
  replace hs := takesTurns_of_looks hs h trivial
  rw [wp_bind, wp_ehciWritel]
  intro t
  refine ⟨fun _ h => ?_, fun _ _ => trivial⟩
  replace hs := takesTurns_of_looks hs h trivial
  rw [wp_bind, wp_ehciReadl]
  intro t
  refine ⟨fun cmd h => ?_, fun _ _ => trivial⟩
  replace hs := takesTurns_of_looks hs h trivial
  have hon : (cmd ||| cmdAse) &&& cmdAse ≠ 0 := (BitVec.and_bit_ne_zero_iff (by decide)).mpr (by simp)
  refine wp_post (wp_command_turns hs (decide_eq_true hon) rfl) ?_
  rintro ret e' t ⟨hon, -, hneg, -⟩
  exact ⟨hon.turns, hneg⟩

theorem wp_disableAsync_turns (hs : TakesTurns s.2)
    : wp commandWorld.traced disableAsync (fun _ _ t => Turn t) (fun _ _ => True) e s := by
  unfold disableAsync
  rw [wp_bind, wp_ehciReadl]
  intro t
  refine ⟨fun cmd h => ?_, fun _ _ => trivial⟩
  replace hs := takesTurns_of_looks hs h trivial
  have hoff : (cmd &&& ~~~cmdAse) &&& cmdAse = 0 := by
    rw [BitVec.and_assoc, BitVec.not_and_self]
    exact BitVec.and_zero
  refine wp_post (wp_command_turns hs (decide_eq_false (not_not_intro hoff)) rfl) ?_
  rintro ret e' t ⟨hon, hret, hneg, hzero⟩
  by_cases h0 : ret = 0
  . exact ⟨hon.turns, .inl ⟨hon.ase, hzero h0 rfl⟩⟩
  . exact hneg (by omega)

/-- The driver keeps to its turn, and it is its turn again when a transfer is over. -/
theorem wp_ehciSubmitAsync_turn {req : Option (BitVec 32)} (hs : Turn s)
    : wp commandWorld.traced (ehciSubmitAsync dev parent pipe buffer length req) (fun _ _ t => Turn t)
        (fun _ _ => True) e s := by
  unfold ehciSubmitAsync allocQh
  simp only [wp_bind]
  refine wp_storeDma_turn hs fun t ht => ?_
  rw [wp_modify]
  refine wp_storeDma_turn ht fun t ht => ?_
  cases parent with
  | none => trivial
  | some parent =>
    simp only [wp_bind]
    refine wp_storeDma_turn ht fun t ht => ?_
    refine wp_storeDma_turn ht fun t ht => ?_
    refine wp_post (wp_buildChain_turn ht) ?_
    rintro (_ | td) e' t ht
    . exact wp_failAsync_turn ht
    . simp only [wp_bind]
      refine wp_storeDma_turn ht fun t ht => ?_
      refine wp_post (wp_enableAsync_turns ht.turns) ?_
      rintro ret e' t ⟨ht, hneg⟩
      split
      . next hret => exact wp_failAsync_turn (hneg hret)
      . rw [wp_bind]
        refine wp_post (wp_pollTries_turns ht) fun _ _ t ht => ?_
        rw [wp_bind]
        refine wp_post (wp_disableAsync_turns ht) fun ret _ t ht => ?_
        split
        . exact wp_failAsync_turn ht
        . rw [wp_bind]
          refine wp_storeDma_turn ht fun t ht => ?_
          rw [wp_bind]
          exact wp_loadDma_turn ht fun m t ht => ht

theorem wp_submitControlMsg_turn {bufAddr setupAddr : BitVec 32} {setup : DevRequest} (hs : Turn s)
    : wp commandWorld.traced (submitControlMsg dev parent pipe bufAddr length setup setupAddr)
        (fun _ _ t => Turn t) (fun _ _ => True) e s := by
  unfold submitControlMsg
  split
  . exact hs
  . rw [wp_bind, wp_get]
    split
    . rw [wp_bind]
      exact wp_post (wp_ehciSubmitRoot_kept keptByRoot_turn hs) fun _ _ _ h => h.1
    . rw [wp_bind]
      exact wp_post (wp_ehciSubmitAsync_turn hs) fun _ _ _ h => h

theorem wp_submitBulkMsg_turn {bufAddr : BitVec 32} (hs : Turn s)
    : wp commandWorld.traced (submitBulkMsg dev parent pipe bufAddr length) (fun _ _ t => Turn t)
        (fun _ _ => True) e s := by
  unfold submitBulkMsg
  split
  . exact hs
  . rw [wp_bind]
    exact wp_post (wp_ehciSubmitAsync_turn hs) fun _ _ _ h => h

/-! ### Initialisation -/

theorem wp_haltTries_resting {attempt : Nat} (hs : Resting s)
    : wp commandWorld.traced (haltTries attempt) (fun _ _ t => Resting t) (fun _ _ => True) e s := by
  induction attempt generalizing e s with
  | zero =>
    unfold haltTries
    rw [wp_bind, wp_ehciReadl]
    intro t
    refine ⟨fun v h => ?_, fun _ _ => trivial⟩
    split <;> exact hs.readSts h
  | succ attempt ih =>
    unfold haltTries
    rw [wp_bind, wp_ehciReadl]
    intro t
    refine ⟨fun v h => ?_, fun _ _ => trivial⟩
    split
    . exact hs.readSts h
    . exact ih (hs.readSts h)

theorem wp_ehciReset_resting (hs : Resting s)
    : wp commandWorld.traced ehciReset (fun _ _ t => Resting t) (fun _ _ => True) e s := by
  unfold ehciReset
  rw [wp_bind, wp_ehciWritel]
  intro t
  refine ⟨fun _ h => ?_, fun _ _ => trivial⟩
  have ht := hs.writeCmd (by decide) h
  rw [wp_bind]
  refine wp_post (wp_haltTries_resting ht) fun cmd e t ht => ?_
  split
  . exact ht
  . rw [wp_bind, wp_ehciReadl]
    intro u
    refine ⟨fun cmd h => ?_, fun _ _ => trivial⟩
    obtain ⟨hu, hcmd⟩ := ht.readCmd h
    have hreset : (cmd ||| cmdReset) &&& cmdAse = 0 := by
      rw [BitVec.and_or_distrib_right, hcmd]
      rfl
    rw [wp_bind, wp_rawWritel]
    intro t
    refine ⟨fun _ h => ?_, fun _ _ => trivial⟩
    have ht := hu.writeCmd hreset h
    unfold handshake
    refine wp_post (wp_handshakeTries (I := Resting) (E := fun _ _ => True) ?_ ?_ ht) fun _ _ _ h => h.2.1
    . exact fun _ _ _ hs hw => (hs.readCmd hw).1
    . exact fun _ _ _ _ _ => trivial

theorem wp_ehciInit_resting {addr : BitVec 32} (hs : Resting s)
    : wp commandWorld.traced (ehciInit addr) (fun _ _ t => Resting t) (fun _ _ => True) e s := by
  have kept := keptByRoot_resting
  unfold ehciInit ehciSpecificInit
  simp only [wp_bind, wp_modify, wp_pure]
  split
  . exact hs
  . simp only [wp_bind]
    refine wp_post (wp_ehciReset_resting hs) fun ret e t ht => ?_
    split
    . exact ht
    . simp only [wp_bind]
      rw [wp_storeDma]
      intro u
      refine ⟨fun _ h => ?_, fun _ _ => trivial⟩
      have hu := ht.aside h trivial
      refine kept.writel hu (by decide) trivial fun t ht => ?_
      refine kept.readl ht (by decide) fun reg t ht => ?_
      rw [wp_modify]
      refine kept.readl ht (by decide) fun cmd t ht => ?_
      rw [wp_ehciWritel]
      intro u
      refine ⟨fun _ h => ?_, fun _ _ => trivial⟩
      have hu := ht.writeCmd (ase_startCmd cmd) h
      refine kept.readl hu (by decide) fun flag t ht => ?_
      refine kept.writel ht (by decide) trivial fun t ht => ?_
      refine kept.readl ht (by decide) fun _ t ht => ?_
      exact kept.readl ht (by decide) fun _ t ht => ht

end

/-- The driver and the controller take turns, over any sequence of transfers. -/
theorem turnRun_takesTurns {e : Ehci} {s : Agent × List AgentEvent} (h : TurnRun e s) : TakesTurns s.2 := by
  suffices hturn : Turn s from hturn.turns
  induction h with
  | init hquiet hr =>
    have hstart : Resting (_, []) := ⟨Always.of_forall_mem (fun _ h => nomatch h), hquiet⟩
    exact (wp_run (wp_ehciInit_resting hstart) hr).turn
  | control _ hr ih => exact wp_run (wp_submitControlMsg_turn ih) hr
  | bulk _ hr ih => exact wp_run (wp_submitBulkMsg_turn ih) hr

/-! ### A run -/

/-- A controller that executes a qTD whenever the driver looks at the memory, and says that it is halted. -/
def commandHandler (o : EhciOp) (s : Agent) : Except Stop (EhciAns o) × Agent :=
  match o with
  | .readl .usbcmd => (.ok (bif s.ase then cmdAse else 0), s)
  | .readl .usbsts => (.ok (stsHalt ||| bif s.follow.ass then stdAss else 0), s.follow)
  | o => agentHandler (some fun _ => 64) o s

theorem commandHandler_serves : Prog.Serves commandHandler commandWorld := by
  intro o s
  have hagent := agentHandler_serves (some fun _ => 64)
  cases o with
  | readl r =>
    cases r with
    | usbcmd =>
      refine ⟨World.interleaved_ok.mpr ⟨s, .refl, rfl⟩, ?_⟩
      show (bif s.ase then cmdAse else 0) &&& cmdAse ≠ 0 ↔ s.ase = true
      cases s.ase <;> decide
    | usbsts =>
      refine ⟨World.interleaved_ok.mpr ⟨s.follow, s.follow_steps, ?_, rfl⟩, trivial⟩
      cases s.follow.ass <;> decide
    | _ => exact ⟨hagent _ s, trivial⟩
  | writel r v => exact ⟨hagent _ s, trivial⟩
  | load => exact ⟨hagent _ s, trivial⟩
  | store f => exact ⟨hagent _ s, trivial⟩

theorem turnRun_takesTurns_read : ∃ e s, TurnRun e s ∧ TakesTurns s.2 := by
  obtain ⟨⟨ret, r⟩, e, t, hr, hp⟩ :=
    exists_run_of_check (World.tracedHandler_serves commandHandler_serves).offers
      (m := do let ret ← ehciInit 0; let r ← readDeviceDescriptor; return (ret, r)) (u := .boot) (s := (.boot, []))
      (p := fun r _ _ => decide (r.1 = 0 ∧ r.2.1 = 0)) (by decide +kernel)
  obtain ⟨rfl, -⟩ := of_decide_eq_true hp
  rcases run_bind.mp hr with ⟨_, e₁, s₁, hinit, hr⟩ | ⟨_, hf, -⟩
  . rcases run_bind.mp hr with ⟨r', e₂, s₂, hread, hret⟩ | ⟨_, hf, -⟩
    . cases hret
      have hrun := TurnRun.control (.init ⟨rfl, rfl⟩ hinit) hread
      exact ⟨e, t, hrun, turnRun_takesTurns hrun⟩
    . cases hf
  . cases hf
