import PureUsb.Ehci.RootPorts
import PureUsb.Ehci.RootHub

/-!
This module contains the reset of a port of the root hub: when the handshake that waits for its end
lets the driver note it.
-/

open Stateful

/-!
### A handshake over a sequence of values
-/

/-- What a register returns, one value after the other. -/
abbrev Reads := Nat → BitVec 32

def Reads.tail (s : Reads) : Reads := fun k => s (k + 1)

def Reads.const (v : BitVec 32) : Reads := fun _ => v

/-- Port `i` returns the values in `s`, all other registers return anything. -/
def readsWorld (i : Fin 2) : EhciWorld Reads := fun o s r t =>
  match o, r with
  | .readl (.portsc j), .ok v => if j = i then v = s 0 ∧ t = s.tail else t = s
  | _, .ok _ => t = s
  | _, .error _ => False

def readsHandler (i : Fin 2) (o : EhciOp) (s : Reads) : Except Stop (EhciAns o) × Reads :=
  match o with
  | .readl (.portsc j) => if j = i then (.ok (s 0), s.tail) else (.ok 0, s)
  | .readl _ => (.ok 0, s)
  | .writel _ _ => (.ok (), s)
  | .load => (.ok ⟨.zero, .zero, fun _ => .zero⟩, s)
  | .store _ => (.ok (), s)

/-- The first of the values that ends the handshake is one of the first `n`, and a match. -/
def HandshakeMatches (mask done : BitVec 32) (s : Reads) (n : Nat) : Prop :=
  ∃ k < n, (∀ j < k, ¬EndsHandshake mask done (s j)) ∧ Matches mask done (s k)

section

variable {i : Fin 2} {mask done : BitVec 32} {s t : Reads} {n : Nat} {E : Stop → Reads → Prop} {e : Ehci}

theorem readsHandler_serves : Prog.Serves (readsHandler i) (readsWorld i) := by
  intro o s
  cases o with
  | readl r =>
    cases r with
    | portsc j =>
      unfold readsHandler
      by_cases h : j = i
      . simp [readsWorld, h]
      . simp [readsWorld, h]
    | _ => rfl
  | _ => rfl

theorem readsWorld_error {o : EhciOp} {x : Stop} : ¬readsWorld i o s (.error x) t := by
  intro h
  cases o with
  | readl r => cases r <;> exact h
  | _ => exact h

theorem readsWorld_portsc {v : BitVec 32} (h : readsWorld i (.readl (.portsc i)) s (.ok v) t)
    : v = s 0 ∧ t = s.tail := by
  unfold readsWorld at h
  simpa using h

theorem readsWorld_writel {r : Reg} {v : BitVec 32} {x : Unit}
    (h : readsWorld i (.writel r v) s (.ok x) t)
    : t = s := h

theorem handshakeMatches_iff (hends : EndsHandshake mask done (s 0))
    : HandshakeMatches mask done s (n + 1) ↔ Matches mask done (s 0) := by
  constructor
  . rintro ⟨k, -, hbefore, hk⟩
    cases k with
    | zero => exact hk
    | succ k => exact absurd hends (hbefore 0 (by omega))
  . exact fun h => ⟨0, by omega, by omega, h⟩

theorem handshakeMatches_tail (hends : ¬EndsHandshake mask done (s 0))
    : HandshakeMatches mask done s (n + 1) ↔ HandshakeMatches mask done s.tail n := by
  constructor
  . rintro ⟨k, hk, hbefore, hmatch⟩
    cases k with
    | zero => exact absurd hmatch.ends hends
    | succ k => exact ⟨k, by omega, fun j hj => hbefore (j + 1) (by omega), hmatch⟩
  . rintro ⟨k, hk, hbefore, hmatch⟩
    refine ⟨k + 1, by omega, fun j hj => ?_, hmatch⟩
    cases j with
    | zero => exact hends
    | succ j => exact hbefore j (by omega)

theorem wp_handshakeTries_reads
    : wp (readsWorld i) (handshakeTries (.portsc i) mask done n)
        (fun ret e' _ => e' = e ∧ (ret = 0 ↔ HandshakeMatches mask done s (n + 1))) E e s := by
  have hret : ∀ {n : Nat} {s : Reads} t v (ret : Int),
      readsWorld i (.readl (.portsc i)) s (.ok v) t → ret ≤ 0 → EndsHandshake mask done v →
      (ret = 0 ↔ Matches mask done v) →
      e = e ∧ (ret = 0 ↔ HandshakeMatches mask done s (n + 1)) := by
    intro n s t v ret hv _ hends hret
    obtain ⟨rfl, -⟩ := readsWorld_portsc hv
    rw [handshakeMatches_iff hends]
    exact ⟨rfl, hret⟩
  induction n generalizing s with
  | zero =>
    unfold handshakeTries
    apply wp_handshakeAttempt (fun _ _ hx => absurd hx readsWorld_error) hret
    intro t v hv hends
    obtain ⟨rfl, rfl⟩ := readsWorld_portsc hv
    refine ⟨rfl, ?_⟩
    rw [handshakeMatches_tail hends]
    simp [HandshakeMatches]
  | succ n ih =>
    unfold handshakeTries
    apply wp_handshakeAttempt (fun _ _ hx => absurd hx readsWorld_error) hret
    intro t v hv hends
    obtain ⟨rfl, rfl⟩ := readsWorld_portsc hv
    apply wp_post ih
    intro ret e' t
    rw [handshakeMatches_tail hends]
    exact id

end

/-!
### The reset of a port
-/

namespace DevRequest

def ResetsPort (req : DevRequest) (i : Fin 2) : Prop :=
  req.typeReq = 0x2303 ∧ req.value = usbPortFeatReset ∧ req.index.toNat = i + 1

end DevRequest

/-- SET_FEATURE of PORT_RESET on port `i + 1` as `usb_set_port_feature` asks for it. -/
def setPortReset (i : Fin 2) : DevRequest :=
  ⟨usbRtPort, usbReqSetFeature, usbPortFeatReset, BitVec.ofNat 16 (i + 1), 0⟩

theorem setPortReset_resetsPort (i : Fin 2) : (setPortReset i).ResetsPort i := by
  refine ⟨?_, rfl, toNat_port i⟩
  unfold DevRequest.typeReq setPortReset
  dsimp only
  decide

/-- How often the driver looks whether the controller ended the reset. -/
abbrev resetTries : Nat := 2 * 1000

section

variable {i : Fin 2} {s : Reads} {E : Stop → Reads → Prop} {e : Ehci} {req : DevRequest}
variable {dev : UsbDevice} {length : Nat}

theorem lowspeed_masked {v : BitVec 32} (h : ¬ehciPsIsLowspeed v)
    : ¬ehciPsIsLowspeed (v &&& ~~~ehciPsClear) := by
  have hmask : ~~~ehciPsClear &&& ehciPsLs = ehciPsLs := by decide
  unfold ehciPsIsLowspeed at *
  rwa [BitVec.and_assoc, hmask]

theorem wp_resetRootPort_reads (hreg : statusReg req.index = .portsc i) {reg : BitVec 32}
    (hline : ¬ehciPsIsLowspeed reg)
    : wp (readsWorld i) (resetRootPort req reg)
        (fun _ e' _ =>
          (HandshakeMatches ehciPsPr 0 s resetTries →
            e'.portreset = e.portreset ||| (1#16 <<< req.index.toNat)) ∧
          (¬HandshakeMatches ehciPsPr 0 s resetTries → e'.portreset = e.portreset))
        E e s := by
  unfold resetRootPort
  rw [if_neg fun h => hline h.2.2, wp_bind, wp_ehciWritel]
  intro t
  refine ⟨fun x hx => ?_, fun x hx => absurd hx readsWorld_error⟩
  rw [readsWorld_writel hx, wp_bind, wp_ehciWritel]
  intro t
  refine ⟨fun x hx => ?_, fun x hx => absurd hx readsWorld_error⟩
  rw [readsWorld_writel hx, hreg, wp_bind]
  unfold handshake
  apply wp_post wp_handshakeTries_reads
  rintro ret e' t ⟨rfl, hret⟩
  split
  . next h =>
    have hmatch := hret.mp h
    exact ⟨fun _ => rfl, fun hno => absurd hmatch hno⟩
  . next h => exact ⟨fun hmatch => absurd (hret.mpr hmatch) h, fun _ => rfl⟩

theorem wp_ehciSubmitRoot_reset (hreq : req.ResetsPort i) (hline : ¬ehciPsIsLowspeed (s 0))
    : wp (readsWorld i) (ehciSubmitRoot dev length req)
        (fun r e' _ =>
          r.1 = 0 ∧
          (e'.portreset.getLsbD (i + 1) = true ↔
            e.portreset.getLsbD (i + 1) = true ∨ HandshakeMatches ehciPsPr 0 s.tail resetTries))
        E e s := by
  obtain ⟨htype, hvalue, hindex⟩ := hreq
  have hreg : statusReg req.index = .portsc i := (statusReg_eq_portsc_iff (by omega)).mpr hindex
  have hset : req.value ≠ usbPortFeatEnable ∧ req.value ≠ usbPortFeatPower := by
    rw [hvalue]
    decide
  have hbit : (1#16 <<< req.index.toNat).getLsbD (i + 1) = true := by
    rw [hindex, ← BitVec.twoPow_eq, BitVec.getLsbD_twoPow]
    simp
    omega
  rw [wp_ehciSubmitRoot, if_neg (by omega)]
  unfold rootRequest rootSetFeature
  rw [htype]
  simp only [BitVec.reduceEq, ↓reduceIte]
  rw [wp_bind, wp_bind, wp_ehciReadl, hreg]
  intro t
  refine ⟨fun v hv => ?_, fun x hx => absurd hx readsWorld_error⟩
  obtain ⟨rfl, rfl⟩ := readsWorld_portsc hv
  rw [if_neg hset.1, if_neg hset.2, if_pos hvalue, wp_bind]
  apply wp_post (wp_resetRootPort_reads hreg (lowspeed_masked hline))
  rintro _ e' t ⟨hyes, hno⟩
  rw [wp_bind, wp_pure]
  simp only [↓reduceIte]
  rw [wp_bind, wp_ehciReadl]
  intro t'
  refine ⟨fun v hv => ?_, fun x hx => absurd hx readsWorld_error⟩
  refine ⟨trivial, ?_⟩
  rw [Ehci.record_portreset]
  by_cases hmatch : HandshakeMatches ehciPsPr 0 s.tail resetTries
  . rw [hyes hmatch, BitVec.getLsbD_or, Bool.or_eq_true]
    exact ⟨fun _ => .inr hmatch, fun _ => .inr hbit⟩
  . rw [hno hmatch]
    exact ⟨.inl, fun h => h.resolve_right hmatch⟩

theorem handshakeMatches_reset_iff (hones : ∀ k, s k ≠ ~~~0#32) {n : Nat}
    (hend : ∃ k < n, s k &&& ehciPsPr = 0)
    : HandshakeMatches ehciPsPr 0 s n
        ↔
      ∀ k, (∀ j < k, s j &&& ehciPsPr ≠ 0) → s k &&& ehciPsOca = 0 := by
  constructor
  . rintro ⟨m, -, hbefore, -, hoca, hpr⟩ k hk
    rcases Nat.lt_trichotomy k m with hlt | rfl | hgt
    . by_contra hne
      exact hbefore k hlt (.inr (.inl hne))
    . exact hoca
    . exact absurd hpr (hk m hgt)
  . intro hoca
    have hex : ∃ k, s k &&& ehciPsPr = 0 := hend.imp fun _ h => h.2
    obtain ⟨m, hm, hpr⟩ := hend
    refine ⟨Nat.find hex, (Nat.find_min' hex hpr).trans_lt hm, fun j hj => ?_, ?_⟩
    . rintro (h | h | h)
      . exact hones j h
      . exact h (hoca j fun l hl => Nat.find_min hex (hl.trans hj))
      . exact Nat.find_min hex hj h
    . exact ⟨hones _, hoca _ fun l hl => Nat.find_min hex hl, Nat.find_spec hex⟩

end

/-!
### Resets that are noticed
-/

/-- Requests none of which sets or clears the reset change of port `i`. -/
inductive OtherRequests (i : Fin 2) : Ehci → Reads → Ehci → Reads → Prop where
  | nil (e : Ehci) (s : Reads) : OtherRequests i e s e s
  | request {e e' e'' : Ehci} {s t u : Reads} {dev : UsbDevice} {length : Nat} {req : DevRequest}
      {r : Int × UsbDevice × List Byte} :
      OtherRequests i e s e' t → ¬req.MovesReset (i + 1) →
      (ehciSubmitRoot dev length req).Run (readsWorld i) e' t (.ok (r, e'')) u →
      OtherRequests i e s e'' u

/--
Every SET_FEATURE of PORT_RESET returns 0, and the next GET_STATUS of the port reports the reset.
-/
def ResetNoticed (i : Fin 2) (e : Ehci) (s : Reads) : Prop :=
  ∀ dev length req, req.ResetsPort i →
    ∀ r e1 s1, (ehciSubmitRoot dev length req).Run (readsWorld i) e s (.ok (r, e1)) s1 →
      r.1 = 0 ∧
      ∀ e2 s2, OtherRequests i e1 s1 e2 s2 →
        ∀ dev r e3 s3,
          (ehciSubmitRoot dev 4 (getPortStatus i)).Run (readsWorld i) e2 s2 (.ok (r, e3)) s3 →
          StatusChange.reset.Reported r.2.2

section

variable {i : Fin 2} {e e' : Ehci} {s t : Reads}

theorem OtherRequests.portreset (h : OtherRequests i e s e' t)
    : e'.portreset.getLsbD (i + 1) = e.portreset.getLsbD (i + 1) := by
  induction h with
  | nil => rfl
  | request _ hmoves hr ih =>
    rw [← ih]
    exact (wp_run ((DevRequest.MovesReset.keptByRequest hmoves _).ehciSubmitRoot.spec _ _ _ rfl) hr).1

theorem wp_getPortStatus_reads {dev : UsbDevice} {E : Stop → Reads → Prop}
    : wp (readsWorld i) (ehciSubmitRoot dev 4 (getPortStatus i))
        (fun r _ _ => StatusChange.reset.Reported r.2.2 ↔ e.portreset.getLsbD (i + 1) = true)
        E e s := by
  apply wp_post (wp_getPortStatus_any fun _ _ hx => absurd hx readsWorld_error)
  rintro r e' t ⟨v, -, he, -, hrep⟩
  rw [hrep .reset]
  unfold StatusChange.Shows
  dsimp only
  rw [he]
  exact BitVec.and_bit_ne_zero_iff (by omega)

theorem resetNoticed_iff_matches (hline : ¬ehciPsIsLowspeed (s 0))
    : ResetNoticed i e s
        ↔
      e.portreset.getLsbD (i + 1) = true ∨ HandshakeMatches ehciPsPr 0 s.tail resetTries := by
  constructor
  . intro h
    obtain ⟨r, e1, s1, hr, -, hbit⟩ :=
      exists_run (m := ehciSubmitRoot .zero 0 (setPortReset i)) (u := e) (s := s) readsHandler_serves
        (wp_ehciSubmitRoot_reset (setPortReset_resetsPort i) hline)
    obtain ⟨r2, e2, s2, hr2, hrep⟩ :=
      exists_run (m := ehciSubmitRoot .zero 4 (getPortStatus i)) (u := e1) (s := s1)
        readsHandler_serves wp_getPortStatus_reads
    rw [← hbit, ← hrep]
    exact (h _ _ _ (setPortReset_resetsPort i) _ _ _ hr).2 _ _ (.nil _ _) _ _ _ _ hr2
  . intro h dev length req hreq r e1 s1 hr
    obtain ⟨hret, hbit⟩ :=
      wp_run (E := fun _ _ => True) (wp_ehciSubmitRoot_reset hreq hline) hr
    refine ⟨hret, fun e2 s2 hother dev r e3 s3 hr3 => ?_⟩
    rw [wp_run (E := fun _ _ => True) wp_getPortStatus_reads hr3, hother.portreset, hbit]
    exact h

/--
The end of a reset in time is noticed if and only if a reset was noted before, or over-current was
not active in a value up to the first one with PORT_RESET 0.
-/
theorem resetNoticed_iff (hones : ∀ k, s k ≠ ~~~0#32) (hline : ¬ehciPsIsLowspeed (s 0))
    (hend : ∃ k < resetTries, s (k + 1) &&& ehciPsPr = 0)
    : ResetNoticed i e s
        ↔
      e.portreset.getLsbD (i + 1) = true ∨
      ∀ k, (∀ j < k, s (j + 1) &&& ehciPsPr ≠ 0) → s (k + 1) &&& ehciPsOca = 0 := by
  rw [resetNoticed_iff_matches hline,
    handshakeMatches_reset_iff (s := s.tail) (fun k => hones (k + 1)) hend]
  rfl

end

/-- The end of the reset of a port with active over-current. -/
theorem overCurrent_not_noticed
    : (∀ k, Reads.const 0x1011 k ≠ ~~~0#32) ∧ ¬ehciPsIsLowspeed (Reads.const 0x1011 0) ∧
      (∃ k < resetTries, Reads.const 0x1011 (k + 1) &&& ehciPsPr = 0) ∧
      ¬ResetNoticed 0 .boot (.const 0x1011) := by
  have hones : (0x1011 : BitVec 32) ≠ ~~~0#32 := by decide
  have hline : ¬ehciPsIsLowspeed 0x1011 := by decide
  refine ⟨fun _ => hones, hline, ⟨0, by decide, rfl⟩, ?_⟩
  rw [resetNoticed_iff_matches hline]
  rintro (h | ⟨k, -, -, h⟩)
  . revert h
    decide
  . have hno : ¬Matches ehciPsPr 0 0x1011 := by decide
    exact hno h

theorem resetNoticed_iff_enabled : ResetNoticed 0 .boot (.const 0x1005) := by
  have hones : (0x1005 : BitVec 32) ≠ ~~~0#32 := by decide
  have hoca : (0x1005 : BitVec 32) &&& ehciPsOca = 0 := by decide
  have hiff : ResetNoticed 0 .boot (.const 0x1005) ↔ _ :=
    resetNoticed_iff (fun _ => hones) (by decide) ⟨0, by decide, rfl⟩
  rw [hiff]
  exact .inr fun _ _ => hoca
