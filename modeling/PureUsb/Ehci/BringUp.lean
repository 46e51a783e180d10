import PureUsb.Prog.History
import PureUsb.Ehci.Lemmas.Basic

/-!
This module contains the order in which `ehci_init` brings the controller up, for any values of the registers.
-/

open Stateful

/-! ### Register accesses -/

abbrev InitEvent := Event EhciOp EhciAns Stop Dma

namespace Event

variable (e : InitEvent)

def read? (reg : Reg) (e : InitEvent) : Option (BitVec 32) :=
  match e with
  | ⟨_, .readl r, .ok v⟩ => if r = reg then some v else none
  | _ => none

def write? (reg : Reg) (e : InitEvent) : Option (BitVec 32) :=
  match e with
  | ⟨_, .writel r v, _⟩ => if r = reg then some v else none
  | _ => none

def WritesRun : Prop := ∃ v ∈ e.write? .usbcmd, v &&& cmdRun ≠ 0

def WritesReset : Prop := ∃ v ∈ e.write? .usbcmd, v &&& cmdReset ≠ 0

def SeesHalt : Prop := ∃ v ∈ e.read? .usbsts, v &&& stsHalt ≠ 0

def SeesReset : Prop := ∃ v ∈ e.read? .usbcmd, v &&& cmdReset = 0

/-- Nothing that starts the controller. -/
structure Harmless : Prop where
  asynclistaddr : e.write? .asynclistaddr = none
  configflag : e.write? .configflag = none
  run : ¬e.WritesRun

end Event

/-- The controller may change the structures in memory, but not the head of the reclaim list. -/
def initWorld : EhciWorld Dma := fun o m r m' =>
  match o, r with
  | .readl _, .ok _ => m'.qhList = m.qhList
  | .writel _ _, .ok _ => m'.qhList = m.qhList
  | .load, .ok x => m' = x ∧ x.qhList = m.qhList
  | .store f, .ok _ => ∃ x : Dma, x.qhList = m.qhList ∧ m' = f x
  | _, .error _ => False

/-- `USBCMD` is read with RUN clear, once it was written with 0, until RUN is written. -/
def StaysStopped : List InitEvent → Prop :=
  Always fun before e => ∀ v ∈ e.read? .usbcmd, (∃ d ∈ before, d.write? .usbcmd = some 0) →
    (∀ d ∈ before, ¬d.WritesRun) → v &&& cmdRun = 0

/-- An empty reclaim list: the head links to itself, and there is nothing to do for it. -/
structure ReclaimHead (qh : QH) : Prop where
  qhLink : qh.qhLink = .qhList
  head : qh.qhEndpt1.getLsbD 15 = true
  qtNext : qh.qhOverlay.qtNext = .terminate
  qtAltnext : qh.qhOverlay.qtAltnext = .terminate
  halted : qh.qhOverlay.qtToken &&& 0x40 ≠ 0
  inactive : qh.qhOverlay.qtToken &&& qtTokenActive = 0

def ResetDone (l : List InitEvent) : Prop :=
  ∃ l₁ d l₂, l = l₁ ++ d :: l₂ ∧ d.SeesReset ∧ ∃ c ∈ l₁, c.WritesReset

/-- The address of `qh_list` was written when it was an empty reclaim list. -/
def HeadSet (addr : BitVec 32) (l : List InitEvent) : Prop :=
  ∃ d ∈ l, d.write? .asynclistaddr = some addr ∧ ReclaimHead d.state.qhList

abbrev HaltThenReset : List InitEvent → Prop := Always fun before e => e.WritesReset → ∃ d ∈ before, d.SeesHalt

/-- The controller is only started after the reset, with an empty reclaim list. -/
abbrev ResetThenRun (addr : BitVec 32) : List InitEvent → Prop :=
  Always fun before e => e.WritesRun → ResetDone before ∧ HeadSet addr before ∧ ReclaimHead e.state.qhList

/-- What `ehci_init` returns, and its accesses. -/
structure BringUp (addr : BitVec 32) (ret : Int) (l : List InitEvent) : Prop where
  returns : ret = 0 ∨ ret = -1
  reset : HaltThenReset l
  run : ResetThenRun addr l
  failure : ret = -1 → ∀ e ∈ l, e.Harmless

/-!
### What each access keeps
-/

section

variable {l : List InitEvent} {m : Dma} {e : InitEvent}

theorem Event.harmless_read (m : Dma) (reg : Reg) (v : BitVec 32) : Harmless ⟨m, .readl reg, .ok v⟩ where
  asynclistaddr := rfl
  configflag := rfl
  run := by rintro ⟨_, ⟨⟩, -⟩

theorem Event.harmless_store (m : Dma) (f : Dma → Dma) : Harmless ⟨m, .store f, .ok ()⟩ where
  asynclistaddr := rfl
  configflag := rfl
  run := by rintro ⟨_, ⟨⟩, -⟩

theorem Event.harmless_writeCmd {m : Dma} {v : BitVec 32} (hv : v &&& cmdRun = 0)
    : Harmless ⟨m, .writel .usbcmd v, .ok ()⟩ where
  asynclistaddr := rfl
  configflag := rfl
  run := by
    rintro ⟨_, ⟨⟩, hrun⟩
    exact hrun hv

/-- Before the reset. -/
structure Halting (l : List InitEvent) : Prop where
  zeroed : ∃ d ∈ l, d.write? .usbcmd = some 0
  harmless : ∀ d ∈ l, d.Harmless
  unreset : ∀ d ∈ l, ¬d.WritesReset

theorem Halting.read (h : Halting l) (m : Dma) (reg : Reg) (v : BitVec 32)
    : Halting (l ++ [⟨m, .readl reg, .ok v⟩]) where
  zeroed := by
    obtain ⟨d, hd, hzero⟩ := h.zeroed
    exact ⟨d, List.mem_append_left _ hd, hzero⟩
  harmless := by
    rw [List.forall_mem_append, List.forall_mem_singleton]
    exact ⟨h.harmless, Event.harmless_read m reg v⟩
  unreset := by
    rw [List.forall_mem_append, List.forall_mem_singleton]
    refine ⟨h.unreset, ?_⟩
    rintro ⟨_, ⟨⟩, -⟩

/-- From the reset on, until memory is set up. -/
structure Resetting (l : List InitEvent) : Prop where
  harmless : ∀ d ∈ l, d.Harmless
  reset : HaltThenReset l
  begun : ∃ c ∈ l, c.WritesReset

theorem Resetting.other (h : Resetting l) (hharmless : e.Harmless) (hreset : ¬e.WritesReset)
    : Resetting (l ++ [e]) where
  harmless := by
    rw [List.forall_mem_append, List.forall_mem_singleton]
    exact ⟨h.harmless, hharmless⟩
  reset := Always.concat_iff.mpr ⟨h.reset, fun hf => absurd hf hreset⟩
  begun := by
    obtain ⟨c, hc, hreset⟩ := h.begun
    exact ⟨c, List.mem_append_left _ hc, hreset⟩

theorem ResetDone.concat (h : ResetDone l) (e : InitEvent) : ResetDone (l ++ [e]) := by
  obtain ⟨l₁, d, l₂, rfl, hd, hreset⟩ := h
  exact ⟨l₁, d, l₂ ++ [e], by simp, hd, hreset⟩

theorem HeadSet.concat {addr : BitVec 32} (h : HeadSet addr l) (e : InitEvent) : HeadSet addr (l ++ [e]) := by
  obtain ⟨d, hd, hset⟩ := h
  exact ⟨d, List.mem_append_left _ hd, hset⟩

/-- The head of the reclaim list is set, and the controller is not started yet. -/
structure Prepared (addr : BitVec 32) (l : List InitEvent) (m : Dma) : Prop where
  stopped : ∀ d ∈ l, ¬d.WritesRun
  reset : HaltThenReset l
  done : ResetDone l
  headSet : HeadSet addr l
  head : ReclaimHead m.qhList

theorem Prepared.read {addr : BitVec 32} (h : Prepared addr l m) {m' : Dma} (hm : m'.qhList = m.qhList) (reg : Reg)
    (v : BitVec 32)
    : Prepared addr (l ++ [⟨m, .readl reg, .ok v⟩]) m' where
  stopped := by
    rw [List.forall_mem_append, List.forall_mem_singleton]
    exact ⟨h.stopped, (Event.harmless_read m reg v).run⟩
  reset := Always.concat_iff.mpr ⟨h.reset, by rintro ⟨_, ⟨⟩, -⟩⟩
  done := h.done.concat _
  headSet := h.headSet.concat _
  head := hm ▸ h.head

/-- The controller was started. -/
structure Started (addr : BitVec 32) (l : List InitEvent) : Prop where
  reset : HaltThenReset l
  run : ResetThenRun addr l

theorem Started.other {addr : BitVec 32} (h : Started addr l) (he : e.write? .usbcmd = none)
    : Started addr (l ++ [e]) where
  reset := by
    refine Always.concat_iff.mpr ⟨h.reset, ?_⟩
    rintro ⟨v, hv, -⟩
    rw [he] at hv
    cases hv
  run := by
    refine Always.concat_iff.mpr ⟨h.run, ?_⟩
    rintro ⟨v, hv, -⟩
    rw [he] at hv
    cases hv

end

/-!
### The reset
-/

section

variable {e : Ehci} {s : Dma × List InitEvent}

theorem Halting.readsts (h : Halting s.2) {v : BitVec 32} {t : Dma × List InitEvent}
    (hv : initWorld.tracedIn StaysStopped (.readl .usbsts) s (.ok v) t)
    : Halting t.2 ∧ (v &&& stsHalt ≠ 0 → ∃ d ∈ t.2, d.SeesHalt) := by
  rw [hv.1.2]
  exact ⟨h.read _ _ _, fun hhalt => ⟨_, List.mem_concat_self, v, rfl, hhalt⟩⟩

theorem wp_haltTries_sees (attempt : Nat) (h : Halting s.2)
    : wp (initWorld.tracedIn StaysStopped) (haltTries attempt)
        (fun cmd _ t => Halting t.2 ∧ (cmd &&& stsHalt ≠ 0 → ∃ d ∈ t.2, d.SeesHalt)) (fun _ _ => False) e s := by
  induction attempt generalizing e s with
  | zero =>
    unfold haltTries
    rw [wp_bind, wp_ehciReadl]
    refine fun t => ⟨fun v hv => ?_, fun _ hf => hf.1.1⟩
    split <;> exact h.readsts hv
  | succ attempt ih =>
    unfold haltTries
    rw [wp_bind, wp_ehciReadl]
    refine fun t => ⟨fun v hv => ?_, fun _ hf => hf.1.1⟩
    split
    . exact h.readsts hv
    . exact ih (h.readsts hv).1

theorem Halting.stopped (h : Halting s.2) {v : BitVec 32} {t : Dma × List InitEvent}
    (hv : initWorld.tracedIn StaysStopped (.readl .usbcmd) s (.ok v) t)
    : v &&& cmdRun = 0 := by
  obtain ⟨⟨-, ht⟩, hstays⟩ := hv
  rw [ht] at hstays
  have hlast := (Always.concat_iff.mp hstays).2
  exact hlast v rfl h.zeroed fun d hd => (h.harmless d hd).run

theorem Halting.resets {l : List InitEvent} (h : Halting l) (hhalt : ∃ d ∈ l, d.SeesHalt) (m : Dma) {v : BitVec 32}
    (hrun : v &&& cmdRun = 0)
    : Resetting (l ++ [⟨m, .writel .usbcmd (v ||| cmdReset), .ok ()⟩]) where
  harmless := by
    rw [List.forall_mem_append, List.forall_mem_singleton]
    have hboth : (v ||| cmdReset) &&& cmdRun = 0 := by
      rw [BitVec.and_or_distrib_right, hrun]
      rfl
    exact ⟨h.harmless, Event.harmless_writeCmd hboth⟩
  reset := by
    refine Always.concat_iff.mpr ⟨.of_forall_mem ?_, fun _ => hhalt⟩
    exact fun d hd _ hf => absurd hf (h.unreset d hd)
  begun := by
    refine ⟨_, List.mem_concat_self, _, rfl, ?_⟩
    intro hclear
    have hbit := congrArg (BitVec.getLsbD · 1) hclear
    simp at hbit

/-- What is known about the accesses when `ehci_reset` returns. -/
structure AfterReset (ret : Int) (l : List InitEvent) : Prop where
  harmless : ∀ d ∈ l, d.Harmless
  reset : HaltThenReset l
  done : ret = 0 → ResetDone l

theorem AfterReset.resetting {ret : Int} {l : List InitEvent} (h : AfterReset ret l) (hdone : ResetDone l)
    : Resetting l := by
  obtain ⟨l₁, d, l₂, rfl, -, c, hc, hwrites⟩ := hdone
  exact ⟨h.harmless, h.reset, c, List.mem_append_left _ hc, hwrites⟩

theorem wp_ehciReset_after (hs : s.2 = [])
    : wp (initWorld.tracedIn StaysStopped) ehciReset (fun ret _ t => AfterReset ret t.2) (fun _ _ => False) e s := by
  unfold ehciReset
  rw [wp_bind, wp_ehciWritel]
  refine fun t => ⟨fun _ hwrite => ?_, fun _ hf => hf.1.1⟩
  have hstart : Halting t.2 := by
    rw [hwrite.1.2, hs, List.nil_append]
    refine ⟨⟨_, List.mem_singleton_self _, rfl⟩, ?_, ?_⟩
    . rw [List.forall_mem_singleton]
      exact Event.harmless_writeCmd (by decide)
    . rw [List.forall_mem_singleton]
      rintro ⟨_, ⟨⟩, hf⟩
      exact hf (by decide)
  rw [wp_bind]
  refine wp_post (wp_haltTries_sees 1000 hstart) fun cmd e t ⟨h, hhalt⟩ => ?_
  split
  . refine ⟨h.harmless, .of_forall_mem ?_, fun hf => absurd hf (show ¬(-1 : Int) = 0 by decide)⟩
    exact fun d hd _ hf => absurd hf (h.unreset d hd)
  . next hcmd =>
    rw [wp_bind, wp_ehciReadl]
    refine fun t' => ⟨fun v hv => ?_, fun _ hf => hf.1.1⟩
    have hrun := h.stopped hv
    have hread : Halting t'.2 := by
      rw [hv.1.2]
      exact h.read _ _ _
    have hsees : ∃ d ∈ t'.2, d.SeesHalt := by
      obtain ⟨d, hd, hsees⟩ := hhalt hcmd
      rw [hv.1.2]
      exact ⟨d, List.mem_append_left _ hd, hsees⟩
    rw [wp_bind, wp_rawWritel]
    refine fun t'' => ⟨fun _ hwrite => ?_, fun _ hf => hf.1.1⟩
    have hresets : Resetting t''.2 := by
      rw [hwrite.1.2]
      exact hread.resets hsees _ hrun
    have hkept : ∀ s t v, Resetting s.2 → (initWorld.tracedIn StaysStopped) (.readl .usbcmd) s (.ok v) t →
        Resetting t.2 := by
      intro s t v h hv
      rw [hv.1.2]
      exact h.other (Event.harmless_read ..) (by rintro ⟨_, ⟨⟩, -⟩)
    refine wp_post (wp_handshakeTries (I := fun s => Resetting s.2) hkept (fun _ _ _ _ hf => hf.1.1) hresets) ?_
    rintro ret e' t₁ ⟨-, h₁, -, t₂, v, h₂, hv, hret⟩
    refine ⟨h₁.harmless, h₁.reset, fun hzero => ?_⟩
    rw [hv.1.2]
    exact ⟨t₂.2, _, [], rfl, ⟨v, rfl, (hret.mp hzero).2.2⟩, h₂.begun⟩

end

/-!
### The start
-/

section

variable {addr : BitVec 32} {l : List InitEvent} {m : Dma} {e : Ehci} {s : Dma × List InitEvent}

theorem reclaimHead_init : ReclaimHead qhListInit := by constructor <;> decide

theorem Resetting.prepared (h : Resetting l) (hdone : ResetDone l) (hm : ReclaimHead m.qhList) {m' : Dma}
    (hm' : m'.qhList = m.qhList)
    : Prepared addr (l ++ [⟨m, .writel .asynclistaddr addr, .ok ()⟩]) m' where
  stopped := by
    rw [List.forall_mem_append, List.forall_mem_singleton]
    exact ⟨fun d hd => (h.harmless d hd).run, by rintro ⟨_, ⟨⟩, -⟩⟩
  reset := Always.concat_iff.mpr ⟨h.reset, by rintro ⟨_, ⟨⟩, -⟩⟩
  done := hdone.concat _
  headSet := ⟨_, List.mem_concat_self, rfl, hm⟩
  head := hm' ▸ hm

theorem ResetDone.sawHalt (h : ResetDone l) (hreset : HaltThenReset l) : ∃ d ∈ l, d.SeesHalt := by
  obtain ⟨l₁, d, l₂, rfl, -, c, hc, hwrites⟩ := h
  obtain ⟨l₃, l₄, rfl⟩ := List.append_of_mem hc
  obtain ⟨b, hb, hsees⟩ := hreset l₃ c (l₄ ++ d :: l₂) (by simp) hwrites
  exact ⟨b, by simp [hb], hsees⟩

theorem Prepared.starts (h : Prepared addr l m) (v : BitVec 32)
    : Started addr (l ++ [⟨m, .writel .usbcmd v, .ok ()⟩]) where
  reset := Always.concat_iff.mpr ⟨h.reset, fun _ => h.done.sawHalt h.reset⟩
  run := by
    refine Always.concat_iff.mpr ⟨.of_forall_mem ?_, fun _ => ⟨h.done, h.headSet, h.head⟩⟩
    exact fun d hd _ hf => absurd hf (h.stopped d hd)

theorem wp_ehciReadl_prepared (h : Prepared addr s.2 s.1) (reg : Reg)
    : wp (initWorld.tracedIn StaysStopped) (ehciReadl reg) (fun _ _ t => Prepared addr t.2 t.1)
        (fun _ _ => False) e s := by
  rw [wp_ehciReadl]
  refine fun t => ⟨fun v hv => ?_, fun _ hf => hf.1.1⟩
  rw [hv.1.2]
  exact h.read hv.1.1 reg v

theorem wp_ehciReadl_started (h : Started addr s.2) (reg : Reg)
    : wp (initWorld.tracedIn StaysStopped) (ehciReadl reg) (fun _ _ t => Started addr t.2) (fun _ _ => False) e
        s := by
  rw [wp_ehciReadl]
  refine fun t => ⟨fun v hv => ?_, fun _ hf => hf.1.1⟩
  rw [hv.1.2]
  exact h.other rfl

theorem wp_ehciWritel_started (h : Started addr s.2) {reg : Reg} (hreg : reg ≠ .usbcmd) (v : BitVec 32)
    : wp (initWorld.tracedIn StaysStopped) (ehciWritel reg v) (fun _ _ t => Started addr t.2) (fun _ _ => False) e
        s := by
  rw [wp_ehciWritel]
  refine fun t => ⟨fun _ hv => ?_, fun _ hf => hf.1.1⟩
  rw [hv.1.2]
  exact h.other (if_neg hreg)

theorem wp_ehciInit_bringUp (addr : BitVec 32) (hs : s.2 = [])
    : wp (initWorld.tracedIn StaysStopped) (ehciInit addr) (fun ret _ t => BringUp addr ret t.2)
        (fun _ _ => False) e s := by
  unfold ehciInit
  rw [wp_bind, wp_modify, wp_bind]
  unfold ehciSpecificInit
  rw [wp_pure, if_neg (not_not_intro rfl), wp_bind]
  refine wp_post (wp_ehciReset_after hs) fun ret e t h => ?_
  split
  . refine ⟨.inr rfl, h.reset, .of_forall_mem ?_, fun _ => h.harmless⟩
    exact fun d hd _ hf => absurd hf (h.harmless d hd).run
  . next hret =>
    have hdone := h.done (not_not.mp hret)
    rw [wp_bind, wp_storeDma]
    refine fun t₁ => ⟨fun _ hstore => ?_, fun _ hf => hf.1.1⟩
    obtain ⟨⟨⟨x, -, hx⟩, ht₁⟩, -⟩ := hstore
    rw [wp_bind, wp_ehciWritel]
    refine fun t₂ => ⟨fun _ hwrite => ?_, fun _ hf => hf.1.1⟩
    have hprepared : Prepared addr t₂.2 t₂.1 := by
      rw [hwrite.1.2, ht₁]
      apply Resetting.prepared
      . exact (h.resetting hdone).other (Event.harmless_store ..) (by rintro ⟨_, ⟨⟩, -⟩)
      . exact hdone.concat _
      . rw [hx]
        exact reclaimHead_init
      . exact hwrite.1.1
    rw [wp_bind]
    refine wp_post (wp_ehciReadl_prepared hprepared _) fun reg _ t hprepared => ?_
    rw [wp_bind, wp_modify, wp_bind]
    refine wp_post (wp_ehciReadl_prepared hprepared _) fun cmd _ t hprepared => ?_
    dsimp only
    rw [wp_bind, wp_ehciWritel]
    refine fun t' => ⟨fun _ hrun => ?_, fun _ hf => hf.1.1⟩
    have hstarted : Started addr t'.2 := by
      rw [hrun.1.2]
      exact hprepared.starts _
    rw [wp_bind]
    refine wp_post (wp_ehciReadl_started hstarted _) fun cmd _ t hstarted => ?_
    rw [wp_bind]
    refine wp_post (wp_ehciWritel_started hstarted (show Reg.configflag ≠ .usbcmd by decide) _) fun _ _ t hstarted => ?_
    rw [wp_bind]
    refine wp_post (wp_ehciReadl_started hstarted _) fun _ _ t hstarted => ?_
    rw [wp_bind]
    refine wp_post (wp_ehciReadl_started hstarted _) fun _ _ t hstarted => ?_
    exact ⟨.inl rfl, hstarted.reset, hstarted.run, fun hf => absurd hf (show ¬(0 : Int) = -1 by decide)⟩

/--
For any values of the registers, as long as USBCMD is read with RUN clear before it is set, the steps of
`ehci_init` come in the right order.
-/
theorem ehciInit_bringUp {r : Except Stop (Int × Ehci)} {m m' : Dma}
    (hr : (ehciInit addr).Run initWorld.traced e (m, []) r (m', l)) (hstays : StaysStopped l)
    : ∃ ret e', r = .ok (ret, e') ∧ BringUp addr ret l := by
  have hbring : wp _ (ehciInit addr) _ _ e (m, []) := wp_ehciInit_bringUp addr rfl
  have hrun := World.run_tracedIn (fun h => h.of_append) hr hstays
  match r with
  | .ok (ret, e') =>
    have hend := wp_run hbring hrun
    exact ⟨ret, e', rfl, hend⟩
  | .error x => exact absurd (wp_run_error hbring hrun) id

end

def steadyHandler (values : Reg → BitVec 32) (o : EhciOp) (m : Dma) : Except Stop (EhciAns o) × Dma :=
  match o with
  | .readl r => (.ok (values r), m)
  | .writel _ _ => (.ok (), m)
  | .load => (.ok m, m)
  | .store f => (.ok (), f m)

theorem steadyHandler_serves (values : Reg → BitVec 32) : Prog.Serves (steadyHandler values) initWorld := by
  intro o m
  cases o with
  | readl r => rfl
  | writel r v => rfl
  | load => exact ⟨rfl, rfl⟩
  | store f => exact ⟨m, rfl, rfl⟩

def haltedValues (r : Reg) : BitVec 32 :=
  match r with
  | .usbsts => stsHalt
  | .hcsparams => 2
  | _ => 0

theorem ehciInit_bringUp_halted
    : ∃ e' m' l, (ehciInit 0x1000).Run initWorld.traced .boot (.boot, []) (.ok (0, e')) (m', l) ∧
        StaysStopped l ∧ BringUp 0x1000 0 l := by
  obtain ⟨ret, e', ⟨m', l⟩, hr, hp⟩ := exists_run_of_check
    (World.tracedHandler_serves (steadyHandler_serves haltedValues)).offers
    (m := ehciInit 0x1000) (u := Ehci.boot) (s := (Dma.boot, []))
    (p := fun ret _ t => ret = 0 ∧ t.2.all fun e => (e.read? .usbcmd).all (· &&& cmdRun = 0)) (by decide +kernel)
  obtain ⟨rfl, hall⟩ := of_decide_eq_true hp
  have hstays : StaysStopped l := by
    refine .of_forall_mem fun e he _ v hv _ _ => ?_
    have hread := List.all_eq_true.mp hall e he
    rw [Option.mem_def.mp hv] at hread
    exact of_decide_eq_true hread
  obtain ⟨_, _, ⟨⟩, hbring⟩ := ehciInit_bringUp hr hstays
  exact ⟨e', m', l, hr, hstays, hbring⟩
