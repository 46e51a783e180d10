import PureUsb.Ehci.Impl.Init
import Mathlib.Logic.Relation

/-!
This module contains the host controller as an agent of its own: while the asynchronous schedule is
on it may, at any moment or never, load the next qTD into the overlay of the queue head, work on it,
and retire or halt it.
-/

/-- The bits of a token that the driver takes for errors, and the Active bit. -/
abbrev tokenFlags : BitVec 32 := 0xfc

abbrev qtTokenHalted : BitVec 32 := 0x40

def tokenBytes (token : BitVec 32) : Nat := ((token >>> 16) &&& 0x7fff).toNat

/-- The controller, and what it did. -/
structure Agent where
  dma : Dma
  /-- `CMD_ASE` -/
  ase : Bool
  /-- `STD_ASS` -/
  ass : Bool
  /-- how many bytes each qTD moved that was executed -/
  moved : Fin 3 → Option Nat
  /-- the schedule went off while a qTD was ready to be loaded -/
  stalled : Bool
  /-- a qTD was retired with one of its error bits set -/
  erred : Bool

namespace Dma

def advance (m : Dma) : HcPtr :=
  let o := m.qh.qhOverlay
  if tokenBytes o.qtToken ≠ 0 ∧ o.qtAltnext ≠ .terminate then o.qtAltnext else o.qtNext

def ready (m : Dma) : Option (Fin 3) :=
  if m.qh.qhOverlay.qtToken &&& qtTokenActive ≠ 0 ∨ m.qh.qhOverlay.qtToken &&& qtTokenHalted ≠ 0 then
    none
  else
    match m.advance with
    | .td i => if (m.td i).qtToken &&& qtTokenActive ≠ 0 then some i else none
    | _ => none

def loadTd (m : Dma) (i : Fin 3) : Dma :=
  { m with qh := { m.qh with qhCurtd := .td i, qhOverlay := m.td i } }

/-- The memory once `token` was written to the overlay and back to `td[i]`. -/
def writeBack (m : Dma) (i : Fin 3) (token : BitVec 32) : Dma :=
  (m.setOverlay { m.qh.qhOverlay with qtToken := token }).setTd i { m.td i with qtToken := token }

/-- The controller works on `td[i]`. -/
structure Working (m : Dma) (i : Fin 3) : Prop where
  link : m.qhList.qhLink = .qh
  active : m.qh.qhOverlay.qtToken &&& qtTokenActive ≠ 0
  curtd : m.qh.qhCurtd = .td i

end Dma

namespace Agent

/-- One step of the controller. -/
inductive Step : Agent → Agent → Prop where
  | start {s : Agent} : s.ase = true → Step s { s with ass := true }
  | stop {s : Agent} : s.ase = false → s.ass = true →
      Step s { s with ass := false, stalled := s.stalled || s.dma.ready.isSome }
  | load {s : Agent} {i : Fin 3} : s.ass = true → s.dma.qhList.qhLink = .qh → s.dma.ready = some i →
      Step s { s with dma := s.dma.loadTd i }
  /-- work on the qTD that changes the overlay only -/
  | progress {s : Agent} {i : Fin 3} {o : QTD} : s.ass = true → s.dma.Working i →
      o.qtNext = s.dma.qh.qhOverlay.qtNext → o.qtAltnext = s.dma.qh.qhOverlay.qtAltnext →
      o.qtToken &&& qtTokenActive ≠ 0 →
      Step s { s with dma := s.dma.setOverlay o }
  /-- the qTD is through after it moved `n` bytes; an error that was recovered from leaves its bit set -/
  | retire {s : Agent} {i : Fin 3} {token : BitVec 32} {n : Nat} : s.ass = true → s.dma.Working i →
      token &&& qtTokenActive = 0 → token &&& qtTokenHalted = 0 →
      tokenBytes token + n = tokenBytes (s.dma.td i).qtToken →
      Step s
        { s with
          dma := s.dma.writeBack i token
          moved := Function.update s.moved i (some n)
          erred := s.erred || decide (token &&& tokenFlags ≠ 0) }
  /-- the queue is halted by an error -/
  | halt {s : Agent} {i : Fin 3} {token : BitVec 32} : s.ass = true → s.dma.Working i →
      token &&& qtTokenActive = 0 → token &&& qtTokenHalted ≠ 0 →
      Step s { s with dma := s.dma.writeBack i token }

/-- What the operation `o`, answered by `x`, does to the controller. -/
def Effect (o : EhciOp) (s : Agent) (x : EhciAns o) (t : Agent) : Prop :=
  match o, x with
  | .readl .usbsts, v => (v &&& stdAss ≠ 0 ↔ s.ass = true) ∧ t = s
  | .readl _, _ => t = s
  | .writel .usbcmd v, _ => t = { s with ase := decide (v &&& cmdAse ≠ 0) }
  | .writel _ _, _ => t = s
  | .load, m => m = s.dma ∧ t = s
  | .store f, _ => t = { s with dma := f s.dma }

/-- `td[i]` was executed and has neither the Active bit nor an error bit set. -/
def Executed (s : Agent) (i : Fin 3) : Prop :=
  s.moved i ≠ none ∧ (s.dma.td i).qtToken &&& tokenFlags = 0

instance (s : Agent) (i : Fin 3) : Decidable (s.Executed i) :=
  inferInstanceAs (Decidable (s.moved i ≠ none ∧ (s.dma.td i).qtToken &&& tokenFlags = 0))

/-- The schedule is off and no qTD was executed yet. -/
structure Idle (s : Agent) : Prop where
  ase : s.ase = false
  ass : s.ass = false
  moved : s.moved = fun _ => none
  stalled : s.stalled = false
  erred : s.erred = false

end Agent

/-- The controller takes any number of steps before each access of the driver. -/
def agentWorld : EhciWorld Agent :=
  World.interleaved (Relation.ReflTransGen Agent.Step) Agent.Effect
