import PureUsb.Ehci.Agent

/-!
This module contains the host controller together with the device that its transfers are for: the device
keeps a data toggle for each endpoint in each direction.
-/

/-- The data toggles of a device: `toggle 0` are those of the IN endpoints, `toggle 1` those of the others. -/
abbrev Toggles := Fin 2 → Fin 16 → Bool

abbrev InterfaceEndpoints := (interface alternate : BitVec 16) → Fin 2 → Fin 16 → Bool

/-- The toggles that a request sets to DATA0 when it is carried out. -/
def DevRequest.resets (endpoints : InterfaceEndpoints) (req : DevRequest) (out : Fin 2) (ep : Fin 16) : Bool :=
  if req.requesttype = usbRecipDevice ∧ req.request = usbReqSetConfiguration then
    true
  else if req.requesttype = usbRecipInterface ∧ req.request = usbReqSetInterface then
    endpoints req.index req.value out ep
  else if req.requesttype = usbRecipEndpoint ∧ req.request = usbReqClearFeature ∧ req.value = 0 then
    decide (out = (if req.index.getLsbD 7 then 0 else 1) ∧ ep = Fin.ofNat 16 (req.index &&& 0xf).toNat)
  else
    false

def Toggles.after (toggle : Toggles) (endpoints : InterfaceEndpoints) (req : Option DevRequest) : Toggles :=
  match req with
  | some req => fun out ep => !req.resets endpoints out ep && toggle out ep
  | none => toggle

/-- The toggles after an odd or even number of packets over an endpoint. -/
def Toggles.flip (toggle : Toggles) (out : Fin 2) (ep : Fin 16) (odd : Bool) : Toggles :=
  fun out' ep' => xor (toggle out' ep') (odd && decide (out' = out ∧ ep' = ep))

def tokenToggle (token : BitVec 32) : Bool := token.getLsbD 31

namespace Dma

def endpoint (m : Dma) : Fin 16 := Fin.ofNat 16 ((m.qh.qhEndpt1 >>> 8) &&& 0xf).toNat

/-- The direction of the packets of the overlay: bit 8 of the token is set for IN. -/
def direction (m : Dma) : Fin 2 := if m.qh.qhOverlay.qtToken.getLsbD 8 then 0 else 1

end Dma

/-- The controller and the device. -/
structure Bus where
  agent : Agent
  toggle : Toggles

namespace Bus

def Active (s : Bus) : Prop := s.agent.dma.qh.qhOverlay.qtToken &&& qtTokenActive ≠ 0

instance (s : Bus) : Decidable s.Active := inferInstanceAs (Decidable (_ ≠ _))

/--
The toggles of the device after `p` packets. Endpoint 0 is left out, each stage of a control transfer has a
toggle of its own.
-/
def exchanged (s : Bus) (p : Nat) : Toggles :=
  if s.agent.dma.endpoint = 0 then
    s.toggle
  else
    s.toggle.flip s.agent.dma.direction s.agent.dma.endpoint (decide (p % 2 = 1))

/-- `p` packets get through while the overlay goes from that of `s` to that of `t`. -/
structure Exchanges (s t : Bus) (p : Nat) : Prop where
  direction : t.Active → t.agent.dma.direction = s.agent.dma.direction
  toggle : tokenToggle t.agent.dma.qh.qhOverlay.qtToken =
    xor (tokenToggle s.agent.dma.qh.qhOverlay.qtToken) (decide (p % 2 = 1))
  /-- packets are only accepted with the toggle that is expected -/
  expected : p ≠ 0 → s.agent.dma.endpoint ≠ 0 →
    s.toggle s.agent.dma.direction s.agent.dma.endpoint = tokenToggle s.agent.dma.qh.qhOverlay.qtToken

/-- The last qTD of a transfer is through and did not halt the queue. -/
def Completes (s t : Bus) : Prop :=
  ¬t.Active ∧ t.agent.dma.qh.qhOverlay.qtToken &&& qtTokenHalted = 0 ∧
    s.agent.dma.qh.qhOverlay.qtNext = .terminate

instance (s t : Bus) : Decidable (s.Completes t) := inferInstanceAs (Decidable (_ ∧ _))

/--
One step of the controller, which the device follows: it advances the toggle with each packet, and it
carries out the request `req` with the last stage of the transfer, unless it stalls it.
-/
structure Step (endpoints : InterfaceEndpoints) (req : Option DevRequest) (stall : Bool) (s t : Bus)
    : Prop where
  agent : Agent.Step s.agent t.agent
  idle : ¬s.Active → t.toggle = s.toggle
  busy : s.Active → ∃ p, s.Exchanges t p ∧
    t.toggle = if s.Completes t then Toggles.after (s.exchanged p) endpoints req else s.exchanged p
  accepted : s.Active → s.Completes t → req.isSome → stall = false

/-- What the operation `o`, answered by `x`, does to the controller; the device takes no notice. -/
def Effect (o : EhciOp) (s : Bus) (x : EhciAns o) (t : Bus) : Prop :=
  Agent.Effect o s.agent x t.agent ∧ t.toggle = s.toggle

end Bus

/-- The controller and the device take any number of steps before each access of the driver. -/
def busWorld (endpoints : InterfaceEndpoints) (req : Option DevRequest) (stall : Bool) : EhciWorld Bus :=
  World.interleaved (Relation.ReflTransGen (Bus.Step endpoints req stall)) Bus.Effect
