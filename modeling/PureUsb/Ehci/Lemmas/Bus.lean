import PureUsb.Ehci.Bus
import PureUsb.Ehci.Lemmas.Completion
import PureUsb.Ehci.Transfer
import Mathlib.Tactic.IntervalCases

/-!
This module contains what a transfer over the asynchronous schedule does to the data toggles of the device.
-/

open Stateful

namespace Toggles

variable (toggle : Toggles) (out : Fin 2) (ep : Fin 16)

@[simp]
theorem flip_false : toggle.flip out ep false = toggle := by
  funext out' ep'
  simp [flip]

theorem flip_self (odd : Bool) : toggle.flip out ep odd out ep = xor (toggle out ep) odd := by
  simp [flip]

theorem flip_other {out' : Fin 2} {ep' : Fin 16} (odd : Bool) (h : out' ≠ out ∨ ep' ≠ ep)
    : toggle.flip out ep odd out' ep' = toggle out' ep' := by
  have hne : ¬(out' = out ∧ ep' = ep) := not_and_or.mpr h
  simp [flip, hne]

@[simp]
theorem flip_flip (b c : Bool) : (toggle.flip out ep b).flip out ep c = toggle.flip out ep (xor b c) := by
  funext out' ep'
  unfold flip
  rw [Bool.xor_assoc, Bool.and_xor_distrib_right]

end Toggles

namespace Bus

variable {endpoints : InterfaceEndpoints} {req : Option DevRequest} {stall : Bool} {s t : Bus}

theorem exchanged_zero (h : s.agent.dma.endpoint = 0) (p : Nat) : s.exchanged p = s.toggle := by
  unfold exchanged
  rw [if_pos h]

theorem exchanged_even {p : Nat} (h : decide (p % 2 = 1) = false) : s.exchanged p = s.toggle := by
  unfold exchanged
  rw [h]
  split
  . rfl
  . apply Toggles.flip_false

/-- What a step does to the memory, to the qTDs that were executed and to the toggles of the device. -/
inductive Moves (endpoints : InterfaceEndpoints) (req : Option DevRequest) (stall : Bool) (s t : Bus)
    : Prop where
  | control : t.agent.dma = s.agent.dma → t.agent.moved = s.agent.moved →
      t.agent.erred = s.agent.erred → t.toggle = s.toggle → Moves endpoints req stall s t
  | load {i : Fin 3} : s.agent.dma.ready = some i → t.agent.dma = s.agent.dma.loadTd i →
      t.agent.moved = s.agent.moved → t.toggle = s.toggle → Moves endpoints req stall s t
  | progress {i : Fin 3} {o : QTD} {p : Nat} : s.agent.dma.Working i → s.Exchanges t p →
      o.qtToken &&& qtTokenActive ≠ 0 → t.agent.dma = s.agent.dma.setOverlay o →
      t.agent.moved = s.agent.moved → t.toggle = s.exchanged p → Moves endpoints req stall s t
  | retire {i : Fin 3} {token : BitVec 32} {n p : Nat} : s.agent.dma.Working i → s.Exchanges t p →
      token &&& qtTokenActive = 0 → token &&& qtTokenHalted = 0 →
      t.agent.dma = s.agent.dma.writeBack i token →
      t.agent.moved = Function.update s.agent.moved i (some n) →
      (s.agent.dma.qh.qhOverlay.qtNext ≠ .terminate → t.toggle = s.exchanged p) →
      (s.agent.dma.qh.qhOverlay.qtNext = .terminate →
        t.toggle = Toggles.after (s.exchanged p) endpoints req ∧ (req.isSome → stall = false)) →
      Moves endpoints req stall s t
  | halt {i : Fin 3} {token : BitVec 32} {p : Nat} : s.agent.dma.Working i → s.Exchanges t p →
      token &&& qtTokenActive = 0 → token &&& qtTokenHalted ≠ 0 →
      t.agent.dma = s.agent.dma.writeBack i token → t.agent.moved = s.agent.moved →
      t.toggle = s.exchanged p → Moves endpoints req stall s t

theorem Step.toggle_of_dma (h : Step endpoints req stall s t) (hdma : t.agent.dma = s.agent.dma)
    : t.toggle = s.toggle := by
  by_cases hactive : s.Active
  . obtain ⟨p, hp, htoggle⟩ := h.busy hactive
    have htactive : t.Active := by
      unfold Active
      rw [hdma]
      exact hactive
    rw [if_neg fun hc => hc.1 htactive] at htoggle
    have heven : decide (p % 2 = 1) = false := by
      have htoken := hp.toggle
      rw [hdma] at htoken
      have : ∀ b c : Bool, b = xor b c → c = false := by decide
      exact this _ _ htoken
    rw [htoggle, exchanged_even heven]
  . exact h.idle hactive

theorem not_active_of_ready {i : Fin 3} (h : s.agent.dma.ready = some i) : ¬s.Active := by
  intro hactive
  unfold Dma.ready at h
  rw [if_pos (.inl hactive)] at h
  cases h

theorem Step.moves (h : Step endpoints req stall s t) : Moves endpoints req stall s t := by
  obtain ⟨a, τ⟩ := s
  obtain ⟨b, τ'⟩ := t
  have hstep : Agent.Step a b := h.agent
  cases hstep with
  | start hase => exact .control rfl rfl rfl (h.toggle_of_dma rfl)
  | stop hase hass => exact .control rfl rfl rfl (h.toggle_of_dma rfl)
  | load hass hlink hready => exact .load hready rfl rfl (h.idle (not_active_of_ready hready))
  | progress hass hw hnext halt hact =>
    obtain ⟨p, hp, htoggle⟩ := h.busy hw.active
    rw [if_neg fun hc => hc.1 hact] at htoggle
    exact .progress hw hp hact rfl rfl htoggle
  | retire hass hw hinactive hunhalted hbytes =>
    obtain ⟨p, hp, htoggle⟩ := h.busy hw.active
    apply Moves.retire hw hp hinactive hunhalted rfl rfl
    . intro hnext
      rw [if_neg fun hc => hnext hc.2.2] at htoggle
      exact htoggle
    . intro hnext
      have hidle := not_not.mpr hinactive
      rw [if_pos ⟨hidle, hunhalted, hnext⟩] at htoggle
      exact ⟨htoggle, h.accepted hw.active ⟨hidle, hunhalted, hnext⟩⟩
  | halt hass hw hinactive hhalted =>
    obtain ⟨p, hp, htoggle⟩ := h.busy hw.active
    rw [if_neg fun hc => hhalted hc.2.1] at htoggle
    exact .halt hw hp hinactive hhalted rfl rfl htoggle

end Bus

/--
A property that the steps of the controller and the device keep, and that is about nothing but the queue
head, the qTDs and the toggles.
-/
structure Bus.Tracked (endpoints : InterfaceEndpoints) (req : Option DevRequest) (stall : Bool)
    (I : Bus → Prop) : Prop where
  step : ∀ {s t}, I s → Bus.Step endpoints req stall s t → I t
  congr : ∀ {s t : Bus}, t.agent.dma.qh = s.agent.dma.qh → t.agent.dma.td = s.agent.dma.td →
    t.agent.moved = s.agent.moved → t.agent.erred = s.agent.erred → t.toggle = s.toggle → I s → I t

theorem Bus.Tracked.and {endpoints : InterfaceEndpoints} {req : Option DevRequest} {stall : Bool}
    {I : Bus → Prop} (h : Tracked endpoints req stall I) (p : Prop)
    : Tracked endpoints req stall fun s => I s ∧ p where
  step hs hstep := ⟨h.step hs.1 hstep, hs.2⟩
  congr hqh htd hmoved herred htoggle hs := ⟨h.congr hqh htd hmoved herred htoggle hs.1, hs.2⟩

/-!
### Bulk transfers
-/

namespace Bus

variable {endpoints : InterfaceEndpoints} {req : Option DevRequest} {stall : Bool} {s t : Bus}
variable {token : BitVec 32} {out : Fin 2} {ep : Fin 16} {toggle : Toggles}

/-- The toggles are those of `toggle` with as many packets as the overlay counted. -/
def Counted (token : BitVec 32) (out : Fin 2) (ep : Fin 16) (toggle : Toggles) (s : Bus) : Prop :=
  s.toggle = if ep = 0 then toggle else
    toggle.flip out ep (xor (tokenToggle s.agent.dma.qh.qhOverlay.qtToken) (tokenToggle token))

/-- A transfer of one qTD to the endpoint `ep` that started with the toggles `toggle`. -/
structure Bulk (token : BitVec 32) (out : Fin 2) (ep : Fin 16) (toggle : Toggles) (s : Bus) : Prop where
  endpoint : s.agent.dma.endpoint = ep
  inv : Agent.Inv [token] s.agent
  fresh : s.agent.moved 0 = none → ¬s.Active →
    s.agent.dma.qh.qhOverlay.qtToken &&& qtTokenHalted = 0 → s.toggle = toggle
  active : s.Active → s.agent.dma.direction = out ∧ Counted token out ep toggle s
  done : s.agent.moved 0 ≠ none → Counted token out ep toggle s

theorem Counted.exchanged {p : Nat} (h : Counted token out ep toggle s) (hep : s.agent.dma.endpoint = ep)
    (hout : s.agent.dma.direction = out) (hp : s.Exchanges t p) (ht : t.toggle = s.exchanged p)
    : Counted token out ep toggle t := by
  unfold Counted at h ⊢
  rw [ht]
  by_cases hzero : ep = 0
  . rw [if_pos hzero] at h ⊢
    rw [exchanged_zero (hep.trans hzero), h]
  . rw [if_neg hzero] at h ⊢
    unfold Bus.exchanged
    rw [hep, if_neg hzero, hout, h, Toggles.flip_flip, hp.toggle]
    congr 1
    rw [Bool.xor_assoc, Bool.xor_assoc, Bool.xor_comm (tokenToggle token)]

theorem Bulk.congr (hqh : t.agent.dma.qh = s.agent.dma.qh) (htd : t.agent.dma.td = s.agent.dma.td)
    (hmoved : t.agent.moved = s.agent.moved) (herred : t.agent.erred = s.agent.erred)
    (htoggle : t.toggle = s.toggle) (h : Bulk token out ep toggle s)
    : Bulk token out ep toggle t := by
  refine ⟨?_, h.inv.congr hqh htd hmoved herred, ?_, ?_, ?_⟩
  . unfold Dma.endpoint
    rw [hqh]
    exact h.endpoint
  . unfold Active
    rw [hqh, hmoved, htoggle]
    exact h.fresh
  . unfold Active Counted Dma.direction
    rw [hqh, htoggle]
    exact h.active
  . unfold Counted
    rw [hqh, hmoved, htoggle]
    exact h.done

theorem Bulk.working (h : Bulk token out ep toggle s) {i : Fin 3} (hw : s.agent.dma.Working i)
    : i = 0 ∧ s.agent.moved 0 = none := by
  obtain ⟨k, hc, hphase⟩ := h.inv
  obtain ⟨hbusy, rfl⟩ := Agent.working_iff hphase hw
  have hlt : (i : Nat) < 1 := hbusy.lt
  have hi : i = 0 := by omega
  subst hi
  exact ⟨rfl, hc.todo 0 (Nat.le_refl 0)⟩

theorem Bulk.load (h : Bulk token out ep toggle s) (hinv : Agent.Inv [token] t.agent)
    (hout : out = if token.getLsbD 8 then 0 else 1) {i : Fin 3} (hready : s.agent.dma.ready = some i)
    (hdma : t.agent.dma = s.agent.dma.loadTd i) (hmoved : t.agent.moved = s.agent.moved)
    (htoggle : t.toggle = s.toggle)
    : Bulk token out ep toggle t := by
  obtain ⟨k, hc, hidle | hbusy | hhalted⟩ := h.inv
  . obtain ⟨hk, hi⟩ := (hidle.ready_eq_some_iff hc).mp hready
    have hk : k < 1 := hk
    have hzero : i = 0 := by omega
    subst hzero
    have hnone := hc.todo 0 (by omega)
    have hold := h.fresh hnone (not_active_of_ready hready) hidle.unhalted
    have htd : (s.agent.dma.td 0).qtToken = token := hidle.token 0 hi.symm hk
    have hnew : t.agent.dma.qh.qhOverlay.qtToken = token := by
      rw [hdma]
      exact htd
    have hact : t.Active := by
      unfold Active
      rw [hnew]
      exact hc.active _ (List.mem_singleton.mpr rfl)
    refine ⟨by rw [hdma]; exact h.endpoint, hinv, ?_, ?_, ?_⟩
    . exact fun _ hf => absurd hact hf
    . intro _
      constructor
      . unfold Dma.direction
        rw [hnew, hout]
      . unfold Counted
        rw [hnew, htoggle, hold, Bool.xor_self, Toggles.flip_false, ite_self]
    . rw [hmoved]
      exact fun hf => absurd hnone hf
  . rw [hbusy.ready_eq] at hready
    cases hready
  . rw [hhalted.ready_eq] at hready
    cases hready

theorem Bulk.step (h : Bulk token out ep toggle s) (hout : out = if token.getLsbD 8 then 0 else 1)
    (hstep : Step endpoints none stall s t)
    : Bulk token out ep toggle t := by
  have hinv := hstep.agent.inv h.inv
  cases hstep.moves with
  | control hdma hmoved herred htoggle =>
    exact h.congr (by rw [hdma]) (by rw [hdma]) hmoved herred htoggle
  | load hready hdma hmoved htoggle =>
    exact h.load hinv hout hready hdma hmoved htoggle
  | progress hw hp hact hdma hmoved htoggle =>
    obtain ⟨hdir, hcount⟩ := h.active hw.active
    obtain ⟨rfl, hnone⟩ := h.working hw
    have hact : t.Active := by
      unfold Active
      rw [hdma]
      exact hact
    refine ⟨by rw [hdma]; exact h.endpoint, hinv, ?_, ?_, ?_⟩
    . exact fun _ hf => absurd hact hf
    . intro _
      exact ⟨(hp.direction hact).trans hdir, hcount.exchanged h.endpoint hdir hp htoggle⟩
    . rw [hmoved]
      exact fun hf => absurd hnone hf
  | @retire i _ n p hw hp hinactive hunhalted hdma hmoved hnext hlast =>
    obtain ⟨hdir, hcount⟩ := h.active hw.active
    obtain ⟨rfl, hnone⟩ := h.working hw
    have htoggle : t.toggle = s.exchanged p := by
      by_cases hterm : s.agent.dma.qh.qhOverlay.qtNext = .terminate
      . exact (hlast hterm).1
      . exact hnext hterm
    refine ⟨by rw [hdma]; exact h.endpoint, hinv, ?_, ?_, ?_⟩
    . rw [hmoved, Function.update_self]
      exact fun hf => nomatch hf
    . unfold Active
      rw [hdma]
      exact fun hf => absurd hinactive hf
    . intro _
      exact hcount.exchanged h.endpoint hdir hp htoggle
  | halt hw hp hinactive hhalted hdma hmoved htoggle =>
    obtain ⟨rfl, hnone⟩ := h.working hw
    refine ⟨by rw [hdma]; exact h.endpoint, hinv, ?_, ?_, ?_⟩
    . rw [hdma]
      exact fun _ _ hf => absurd hf hhalted
    . unfold Active
      rw [hdma]
      exact fun hf => absurd hinactive hf
    . rw [hmoved]
      exact fun hf => absurd hnone hf

theorem Bulk.tracked (hout : out = if token.getLsbD 8 then 0 else 1)
    : Tracked endpoints none stall (Bulk token out ep toggle) :=
  ⟨fun h hstep => h.step hout hstep, Bulk.congr⟩

theorem Bulk.finished (h : Bulk token out ep toggle s) (hready : s.agent.dma.ready.isSome = false)
    (hflags : s.agent.dma.qh.qhOverlay.qtToken &&& tokenFlags = 0)
    : Counted token out ep toggle s := by
  obtain ⟨k, hc, hidle⟩ := h.inv.idle hflags
  rw [← Bool.not_eq_true, hidle.isSome_ready_iff hc, not_lt] at hready
  obtain ⟨n, hn, -⟩ := hc.done 0 hready
  exact h.done (by simp [hn])

end Bus

/-!
### Control transfers
-/

namespace Bus

variable {endpoints : InterfaceEndpoints} {req : DevRequest} {stall : Bool} {s t : Bus}
variable {toks : List (BitVec 32)} {last : Fin 3} {toggle : Toggles}

/-- A control transfer that started with the toggles `toggle`. -/
structure Control (endpoints : InterfaceEndpoints) (req : DevRequest) (stall : Bool) (toks : List (BitVec 32))
    (last : Fin 3) (toggle : Toggles) (s : Bus) : Prop where
  endpoint : s.agent.dma.endpoint = 0
  inv : Agent.Inv toks s.agent
  waiting : s.agent.moved last = none → s.toggle = toggle
  done : s.agent.moved last ≠ none →
    s.toggle = Toggles.after toggle endpoints (some req) ∧ stall = false

theorem Control.congr (hinv : Agent.Inv toks t.agent)
    (hendpoint : t.agent.dma.endpoint = s.agent.dma.endpoint) (hmoved : t.agent.moved = s.agent.moved)
    (htoggle : t.toggle = s.toggle) (h : Control endpoints req stall toks last toggle s)
    : Control endpoints req stall toks last toggle t := by
  refine ⟨hendpoint.trans h.endpoint, hinv, ?_, ?_⟩
  . rw [hmoved, htoggle]
    exact h.waiting
  . rw [hmoved, htoggle]
    exact h.done

theorem Control.step (h : Control endpoints req stall toks last toggle s) (hlast : last + 1 = toks.length)
    (hstep : Step endpoints (some req) stall s t)
    : Control endpoints req stall toks last toggle t := by
  have hinv := hstep.agent.inv h.inv
  have hexchanged := exchanged_zero h.endpoint
  cases hstep.moves with
  | control hdma hmoved _ htoggle =>
    exact h.congr hinv (by rw [hdma]) hmoved htoggle
  | load hready hdma hmoved htoggle =>
    exact h.congr hinv (by rw [hdma]; rfl) hmoved htoggle
  | progress hw hp hact hdma hmoved htoggle =>
    exact h.congr hinv (by rw [hdma]; rfl) hmoved (htoggle.trans (hexchanged _))
  | @retire i _ n p hw hp hinactive hunhalted hdma hmoved hnext hdone =>
    obtain ⟨k, hc, hphase⟩ := h.inv
    obtain ⟨hbusy, rfl⟩ := Agent.working_iff hphase hw
    have hend : s.agent.dma.qh.qhOverlay.qtNext = .terminate ↔ last = i := by
      rw [hbusy.next]
      have hlt := hbusy.lt
      constructor
      . intro hterm
        by_contra hne
        have hi : (i : Nat) + 1 < toks.length := by omega
        unfold tdPtr at hterm
        rw [dif_pos (by omega)] at hterm
        cases hterm
      . rintro rfl
        rw [hlast]
        apply tdPtr_self
    rw [hexchanged] at hnext hdone
    refine ⟨by rw [hdma]; exact h.endpoint, hinv, ?_, ?_⟩
    . intro hnone
      rw [hmoved] at hnone
      have hne : last ≠ i := by
        rintro rfl
        rw [Function.update_self] at hnone
        cases hnone
      rw [Function.update_of_ne hne] at hnone
      rw [hnext fun hterm => hne (hend.mp hterm), h.waiting hnone]
    . intro hsome
      rw [hmoved] at hsome
      by_cases heq : last = i
      . obtain ⟨htoggle, haccepted⟩ := hdone (hend.mpr heq)
        rw [htoggle, h.waiting (by rw [heq]; exact hc.todo i (Nat.le_refl _))]
        exact ⟨rfl, haccepted rfl⟩
      . rw [Function.update_of_ne heq] at hsome
        rw [hnext fun hterm => heq (hend.mp hterm)]
        exact h.done hsome
  | halt hw hp hinactive hhalted hdma hmoved htoggle =>
    exact h.congr hinv (by rw [hdma]; rfl) hmoved (htoggle.trans (hexchanged _))

theorem Control.tracked (hlast : last + 1 = toks.length)
    : Tracked endpoints (some req) stall (Control endpoints req stall toks last toggle) where
  step h hstep := h.step hlast hstep
  congr hqh htd hmoved herred htoggle h := by
    apply h.congr (h.inv.congr hqh htd hmoved herred) _ hmoved htoggle
    unfold Dma.endpoint
    rw [hqh]

end Bus

/-!
### `ehci_submit_async`
-/

namespace Bus

variable {endpoints : InterfaceEndpoints} {req : Option DevRequest} {stall : Bool} {s t : Bus}
variable {I : Bus → Prop} {e : Ehci}

theorem busWorld_agent {o : EhciOp} {x : Except Stop (EhciAns o)} (h : busWorld endpoints req stall o s x t)
    : agentWorld o s.agent x t.agent := by
  obtain ⟨m, y, hm, hx, heff⟩ := h
  exact ⟨m.agent, y, hm.lift Bus.agent fun _ _ h => h.agent, hx, heff.1⟩

theorem busWorld_error {o : EhciOp} {x : Stop} : ¬busWorld endpoints req stall o s (.error x) t :=
  World.interleaved_error

theorem not_step_of_quiet (h : s.agent.Quiet) : ¬Step endpoints req stall s t :=
  fun hstep => h.not_step hstep.agent

theorem eq_of_steps (h : s.agent.Quiet) (hsteps : Relation.ReflTransGen (Step endpoints req stall) s t)
    : t = s := by
  induction hsteps with
  | refl => rfl
  | tail _ hstep ih =>
    subst ih
    exact absurd hstep (not_step_of_quiet h)

theorem Tracked.steps (hI : Tracked endpoints req stall I)
    (hsteps : Relation.ReflTransGen (Step endpoints req stall) s t) (hs : I s)
    : I t := by
  induction hsteps with
  | refl => exact hs
  | tail _ hstep ih => exact hI.step ih hstep

theorem effect_looks {o : EhciOp} {a b : Agent} {x : EhciAns o} (ho : o.Looks) (h : Agent.Effect o a x b)
    : b.dma = a.dma ∧ b.moved = a.moved ∧ b.erred = a.erred := by
  cases o with
  | readl r =>
    cases r with
    | usbsts =>
      rw [h.2]
      exact ⟨rfl, rfl, rfl⟩
    | _ =>
      rw [show b = a from h]
      exact ⟨rfl, rfl, rfl⟩
  | writel r v =>
    cases r with
    | usbcmd =>
      rw [show b = { a with ase := decide (v &&& cmdAse ≠ 0) } from h]
      exact ⟨rfl, rfl, rfl⟩
    | _ =>
      rw [show b = a from h]
      exact ⟨rfl, rfl, rfl⟩
  | load =>
    rw [h.2]
    exact ⟨rfl, rfl, rfl⟩
  | store f => exact absurd ho id

theorem Tracked.looks (hI : Tracked endpoints req stall I) {o : EhciOp} {x : EhciAns o} (ho : o.Looks)
    (hs : I s) (hw : busWorld endpoints req stall o s (.ok x) t)
    : I t := by
  obtain ⟨m, hm, heff, htoggle⟩ := World.interleaved_ok.mp hw
  obtain ⟨hdma, hmoved, herred⟩ := effect_looks ho heff
  exact hI.congr (by rw [hdma]) (by rw [hdma]) hmoved herred htoggle (hI.steps hm hs)

theorem Tracked.wp_looks (hI : Tracked endpoints req stall I) {α : Type} {m : EhciM α}
    (hm : ReturnsWith EhciOp.Looks m) (hs : I s)
    : wp (busWorld endpoints req stall) m (fun _ _ t => I t) (fun _ _ => True) e s :=
  hm.wp_invariant (fun _ _ _ _ ho hs hw => hI.looks ho hs hw) hs

theorem Tracked.wp_setLink (hI : Tracked endpoints req stall I) {p : HcPtr} (hs : I s)
    : wp (busWorld endpoints req stall) (storeDma fun m => m.setLink p) (fun _ _ t => I t)
        (fun _ _ => True) e s := by
  rw [wp_storeDma]
  intro t
  constructor
  . intro _ hw
    obtain ⟨m, hm, heff, htoggle⟩ := World.interleaved_ok.mp hw
    have heff : t.agent = { m.agent with dma := m.agent.dma.setLink p } := heff
    refine hI.congr ?_ ?_ ?_ ?_ htoggle (hI.steps hm hs)
    . rw [heff]
      rfl
    . rw [heff]
      rfl
    . rw [heff]
    . rw [heff]
  . intro _ hw
    exact absurd hw busWorld_error

theorem wp_storeDma_quiet {f : Dma → Dma} {Q : Unit → Ehci → Bus → Prop} (h : s.agent.Quiet)
    (hq : Q () e ⟨{ s.agent with dma := f s.agent.dma }, s.toggle⟩)
    : wp (busWorld endpoints req stall) (storeDma f) Q (fun _ _ => True) e s := by
  rw [wp_storeDma]
  intro t
  constructor
  . intro _ hw
    obtain ⟨m, hm, heff, htoggle⟩ := World.interleaved_ok.mp hw
    rw [eq_of_steps h hm] at heff htoggle
    have heff : t.agent = { s.agent with dma := f s.agent.dma } := heff
    have ht : t = ⟨{ s.agent with dma := f s.agent.dma }, s.toggle⟩ := by
      rw [← heff, ← htoggle]
    rw [ht]
    exact hq
  . intro _ _
    trivial

theorem toNat_page (addr : BitVec 32) : (((addr + 4096) &&& ~~~4095#32) - addr).toNat ≤ 4096 := by
  have hmask : ∀ x : BitVec 32, (x &&& ~~~4095#32).toNat = x.toNat / 4096 * 4096 := by
    intro x
    have hshift : x &&& ~~~4095#32 = (x >>> 12) <<< 12 := by
      ext i hi
      interval_cases i <;> simp
    rw [hshift, BitVec.toNat_shiftLeft, BitVec.toNat_ushiftRight, Nat.shiftRight_eq_div_pow,
      Nat.shiftLeft_eq]
    omega
  have hpage : (4096 : BitVec 32).toNat = 4096 := rfl
  rw [BitVec.toNat_sub, hmask, BitVec.toNat_add]
  omega

theorem tdBufferFrom_fits (td : QTD) (addr : BitVec 32) (sz n idx : Nat)
    : (tdBufferFrom td addr sz n idx).2 = 0 → sz ≤ 4096 * n := by
  induction n generalizing td addr sz idx with
  | zero => exact fun hf => absurd (show (-1 : Int) = 0 from hf) (by decide)
  | succ n ih =>
    unfold tdBufferFrom
    dsimp only
    have hpage := toNat_page addr
    split
    . intro _
      omega
    . intro h
      have := ih _ _ _ _ h
      omega

theorem wp_appendTd_fits {σ : Type} {w : EhciWorld σ} {prev : Option (Fin 3)} {token buf : BitVec 32} {sz : Nat}
    {e : Ehci} {s : σ}
    : wp w (appendTd prev token (some (buf, sz))) (fun r _ _ => r ≠ none → sz ≤ 20480) (fun _ _ => True) e s := by
  unfold appendTd
  apply wp_bind_any
  rintro (_ | i) e t
  . exact fun hf => absurd rfl hf
  . apply wp_bind_any
    intro _ e t
    apply wp_bind_any
    intro m e t
    apply wp_bind_any
    intro _ e t
    rw [wp_ite]
    constructor
    . exact fun _ hf => absurd rfl hf
    . intro hfill
      apply wp_bind_any
      intro _ e t _
      exact tdBufferFrom_fits _ _ _ _ _ (not_not.mp hfill)

theorem wp_buildChain_fits {σ : Type} {w : EhciWorld σ} {dev : UsbDevice} {pipe buffer : BitVec 32}
    {length : Nat} (setup : Option (BitVec 32)) {e : Ehci} {s : σ}
    : wp w (buildChain dev pipe buffer length setup)
        (fun r _ _ => r ≠ none → setup = none → length ≤ 20480) (fun _ _ => True) e s := by
  cases setup with
  | none =>
    apply wp_post wp_appendTd_fits
    exact fun _ _ _ h hr _ => h hr
  | some req =>
    apply wp_post (wp_true _ _ _ _)
    exact fun _ _ _ _ _ hf => nomatch hf

/-- `t` is `s` but for the chain of qTDs in the shared memory. -/
structure Ready (s : Bus) (toks : List (BitVec 32)) (endpt1 : BitVec 32) (t : Bus) : Prop where
  built : BuiltFrom s.agent toks t.agent
  endpt1 : t.agent.dma.qh.qhEndpt1 = endpt1
  toggle : t.toggle = s.toggle

theorem wp_buildChain_ready {dev : UsbDevice} {pipe buffer : BitVec 32} {length : Nat}
    {setup : Option (BitVec 32)} (hs : s.agent.Quiet) (h : Built [] s.agent.dma) (hntds : e.ntds = 0)
    : wp (busWorld endpoints req stall) (buildChain dev pipe buffer length setup)
        (fun r _ t =>
          ∀ td, r = some td →
            Ready s (chainTokens dev pipe length setup) s.agent.dma.qh.qhEndpt1 t ∧
              (setup = none → length ≤ 20480))
        (fun _ _ => True) e s := by
  have hagent : wp agentWorld (buildChain dev pipe buffer length setup)
      (fun r _ t => ∀ td, r = some td →
        IsLast (some td) (chainTokens dev pipe length setup).length ∧
        BuiltFrom s.agent (chainTokens dev pipe length setup) t)
      (fun _ _ => True) e s.agent := wp_buildChain_built hs h hntds
  have hbuilt := wp_map (w := busWorld endpoints req stall) (f := Bus.agent) (u := e) (s := s)
    (fun _ _ _ _ hw => busWorld_agent hw) hagent
  have hbuilds : ReturnsWith EhciOp.Builds (buildChain dev pipe buffer length setup) :=
    builds_buildChain buffer setup
  have hkept := hbuilds.wp_invariant (w := busWorld endpoints req stall) (u := e) (s := s)
    (I := fun t => t.agent.Quiet ∧ t.agent.dma.qh.qhEndpt1 = s.agent.dma.qh.qhEndpt1 ∧ t.toggle = s.toggle)
    ?_ ⟨hs, rfl, rfl⟩
  . apply wp_mono (wp_and (wp_and hbuilt hkept) (wp_buildChain_fits _))
    . rintro r e' t ⟨⟨hr, -, hendpt1, htoggle⟩, hfits⟩ td htd
      refine ⟨⟨(hr td htd).2, hendpt1, htoggle⟩, hfits ?_⟩
      rw [htd]
      exact fun hf => nomatch hf
    . exact fun _ _ _ => trivial
  . rintro o a x b ho ⟨hquiet, hendpt1, htoggle⟩ hw
    obtain ⟨m, hm, heff, hm'⟩ := World.interleaved_ok.mp hw
    rw [eq_of_steps hquiet hm] at heff hm'
    cases o with
    | readl r => exact absurd ho id
    | writel r v => exact absurd ho id
    | load =>
      rw [heff.2]
      exact ⟨hquiet, hendpt1, hm'.trans htoggle⟩
    | store f =>
      have heff : b.agent = { a.agent with dma := f a.agent.dma } := heff
      rw [heff]
      exact ⟨⟨hquiet.ase, hquiet.ass⟩, (ho _).trans hendpt1, hm'.trans htoggle⟩

theorem wp_failAsync {σ : Type} {w : EhciWorld σ} {dev : UsbDevice} {Q : Int × UsbDevice → Ehci → σ → Prop}
    {e : Ehci} {s : σ}
    : wp w (failAsync dev) (fun r e t => 0 ≤ r.1 → Q r e t) (fun _ _ => True) e s := by
  unfold failAsync
  apply wp_bind_any
  intro _ e t hret
  exact absurd (show (0 : Int) ≤ -1 from hret) (by decide)

/-- Whatever is tracked from the moment the chain is ready on holds at the end of the transfer. -/
theorem wp_ehciSubmitAsync_tracked {dev : UsbDevice} {parent : Option UsbDevice} {pipe buffer : BitVec 32}
    {length : Nat} {setup : Option (BitVec 32)} (hs : s.agent.Quiet)
    (hI : Tracked endpoints req stall I)
    (hready : ∀ t, Ready s (chainTokens dev pipe length setup) (qhEndpt1 dev pipe) t →
      (setup = none → length ≤ 20480) → I t)
    : wp (busWorld endpoints req stall) (ehciSubmitAsync dev parent pipe buffer length setup)
        (fun r _ t => 0 ≤ r.1 → I t) (fun _ _ => True) e s := by
  have quiet : ∀ m, Agent.Quiet { s.agent with dma := m } := fun m => ⟨hs.ase, hs.ass⟩
  unfold ehciSubmitAsync allocQh
  simp only [wp_bind]
  apply wp_storeDma_quiet hs
  rw [wp_modify]
  refine wp_storeDma_quiet (quiet _) ?_
  cases parent with
  | none => trivial
  | some parent =>
    simp only [wp_bind]
    refine wp_storeDma_quiet (quiet _) ?_
    refine wp_storeDma_quiet (quiet _) ?_
    refine wp_post (wp_buildChain_ready (quiet _) ⟨rfl, rfl, fun i hi => absurd hi (Nat.not_lt_zero i)⟩ rfl) ?_
    rintro (_ | td) e1 t1 h1
    . apply wp_failAsync
    . have hfits := (h1 td rfl).2
      have h1 : Ready s (chainTokens dev pipe length setup) (qhEndpt1 dev pipe) t1 := by
        obtain ⟨⟨hbuilt, hendpt1, htoggle⟩, -⟩ := h1 td rfl
        exact ⟨⟨hbuilt.ase, hbuilt.ass, hbuilt.moved, hbuilt.stalled, hbuilt.erred, hbuilt.built⟩, hendpt1, htoggle⟩
      dsimp only
      rw [wp_bind]
      apply wp_post (hI.wp_setLink (hready t1 h1 hfits))
      intro _ e2 t2 h2
      rw [wp_bind]
      apply wp_post (hI.wp_looks looks_enableAsync h2)
      intro ret e3 t3 h3
      split
      . apply wp_failAsync
      . rw [wp_bind]
        apply wp_post (hI.wp_looks (looks_pollTries _ _) h3)
        intro _ e4 t4 h4
        rw [wp_bind]
        apply wp_post (hI.wp_looks looks_disableAsync h4)
        intro ret e5 t5 h5
        split
        . apply wp_failAsync
        . rw [wp_bind]
          apply wp_post (hI.wp_setLink h5)
          intro _ e6 t6 h6
          rw [wp_bind]
          apply wp_post (hI.wp_looks looks_loadDma h6)
          exact fun _ _ _ h7 _ => h7

end Bus
