import PureUsb.Prog.Only
import PureUsb.Ehci.Lemmas.Ports

/-!
This module contains which registers the requests to the root hub touch, and which bits of
`portreset`.
-/

open Stateful

def AccessesPort (index : BitVec 16) (o : EhciOp) : Prop :=
  match o with
  | .readl r => r = statusReg index ∨ r = .hcsparams ∨ r = .usbcmd
  | .writel r v => r = statusReg index ∨ (r = .configflag ∧ v = 1)
  | _ => False

namespace DevRequest

def AsksPort (req : DevRequest) : Prop :=
  req.typeReq = 0xa300 ∨ req.typeReq = 0x2303 ∨ req.typeReq = 0x2301

instance (req : DevRequest) : Decidable req.AsksPort :=
  inferInstanceAs (Decidable (_ ∨ _ ∨ _))

end DevRequest

/-!
### Registers
-/

section

variable {req : DevRequest} {E : Stop → Prop}

theorem only_ehciReadl {P : EhciOp → Prop} {r : Reg} (h : P (.readl r)) : Only P E (ehciReadl r) := by
  apply Only.bind (Only.ask h)
  intro v
  apply Only.bind (Only.modify _)
  intro _
  apply Only.pure

theorem only_ehciWritel {P : EhciOp → Prop} {r : Reg} {v : BitVec 32} (h : P (.writel r v))
    : Only P E (ehciWritel r v) := by
  apply Only.bind (Only.ask h)
  intro _
  apply Only.modify

theorem only_handshakeTries {P : EhciOp → Prop} {r : Reg} (h : P (.readl r)) (mask done : BitVec 32)
    (usec : Nat)
    : Only P E (handshakeTries r mask done usec) := by
  induction usec with
  | zero =>
    unfold handshakeTries
    apply Only.bind (Only.ask h)
    intro v
    apply Only.ite (fun _ => Only.pure _)
    intro _
    apply Only.ite (fun _ => Only.pure _)
    intro _
    exact Only.ite (fun _ => Only.pure _) fun _ => Only.pure _
  | succ usec ih =>
    unfold handshakeTries
    apply Only.bind (Only.ask h)
    intro v
    apply Only.ite (fun _ => Only.pure _)
    intro _
    apply Only.ite (fun _ => Only.pure _)
    intro _
    exact Only.ite (fun _ => Only.pure _) fun _ => ih

theorem only_statusReg_readl : Only (AccessesPort req.index) E (ehciReadl (statusReg req.index)) :=
  only_ehciReadl (.inl rfl)

theorem only_statusReg_writel (v : BitVec 32)
    : Only (AccessesPort req.index) E (ehciWritel (statusReg req.index) v) :=
  only_ehciWritel (.inl rfl)

theorem only_usbcmd_readl : Only (AccessesPort req.index) E (ehciReadl .usbcmd) :=
  only_ehciReadl (.inr (.inr rfl))

theorem only_hcsparams_readl : Only (AccessesPort req.index) E (ehciReadl .hcsparams) :=
  only_ehciReadl (.inr (.inl rfl))

theorem only_resetRootPort (reg : BitVec 32)
    : Only (AccessesPort req.index) E (resetRootPort req reg) := by
  unfold resetRootPort
  apply Only.ite
  . intro _
    apply only_statusReg_writel
  . intro _
    apply Only.bind (only_statusReg_writel _)
    intro _
    apply Only.bind (only_statusReg_writel _)
    intro _
    apply Only.bind (only_handshakeTries (.inl rfl) ..)
    intro ret
    exact Only.ite (fun _ => Only.modify _) fun _ => Only.pure _

theorem only_rootSetFeature : Only (AccessesPort req.index) E (rootSetFeature req) := by
  have hknown : ∀ known : Bool, Only (AccessesPort req.index) E
      (do
        let known ← pure known
        if known = true then
          let _ ← ehciReadl .usbcmd
          return true
        else
          return false : EhciM Bool) := by
    intro known
    apply Only.bind (Only.pure known)
    intro known
    apply Only.ite
    . intro _
      exact Only.bind only_usbcmd_readl fun _ => Only.pure _
    . intro _
      apply Only.pure
  unfold rootSetFeature
  apply Only.bind only_statusReg_readl
  intro reg
  apply Only.ite
  . intro _
    exact Only.bind (only_statusReg_writel _) fun _ => hknown true
  . intro _
    apply Only.ite
    . intro _
      apply Only.bind only_hcsparams_readl
      intro ppc
      apply Only.ite
      . intro _
        apply Only.bind (only_statusReg_writel _)
        intro _
        exact Only.bind (only_ehciWritel (.inr ⟨rfl, rfl⟩)) fun _ => hknown true
      . intro _
        apply hknown
    . intro _
      apply Only.ite
      . intro _
        exact Only.bind (only_resetRootPort _) fun _ => hknown true
      . intro _
        apply hknown

theorem only_rootClearFeatureValue (reg : BitVec 32)
    : Only (AccessesPort req.index) E (rootClearFeatureValue req reg) := by
  unfold rootClearFeatureValue
  apply Only.ite (fun _ => Only.pure _)
  intro _
  apply Only.ite (fun _ => Only.pure _)
  intro _
  apply Only.ite
  . intro _
    exact Only.bind only_hcsparams_readl fun _ => Only.pure _
  . intro _
    apply Only.ite (fun _ => Only.pure _)
    intro _
    apply Only.ite (fun _ => Only.pure _)
    intro _
    exact Only.ite (fun _ => Only.bind (Only.modify _) fun _ => Only.pure _) fun _ => Only.pure _

theorem only_rootClearFeature : Only (AccessesPort req.index) E (rootClearFeature req) := by
  unfold rootClearFeature
  apply Only.bind only_statusReg_readl
  intro reg
  apply Only.bind (only_rootClearFeatureValue reg)
  rintro (_ | v)
  . apply Only.pure
  . apply Only.bind (only_statusReg_writel _)
    intro _
    exact Only.bind only_usbcmd_readl fun _ => Only.pure _

theorem only_rootRequest
    : Only (fun o => req.AsksPort ∧ AccessesPort req.index o) E (rootRequest req) := by
  have hport : ∀ {α : Type} {m : EhciM α}, req.AsksPort → Only (AccessesPort req.index) E m →
      Only (fun o => req.AsksPort ∧ AccessesPort req.index o) E m :=
    fun h hm => hm.mono (fun _ ho => ⟨h, ho⟩) fun _ he => he
  have hdone : ∀ known : Bool, Only (fun o => req.AsksPort ∧ AccessesPort req.index o) E
      (if known = true then return some [] else return none : EhciM (Option (List Byte))) :=
    fun known => Only.ite (fun _ => Only.pure _) fun _ => Only.pure _
  unfold rootRequest
  apply Only.ite (fun _ => Only.pure _)
  intro _
  apply Only.ite
  . intro _
    exact Only.ite (fun _ => Only.bind Only.get fun _ => Only.pure _) fun _ => Only.pure _
  . intro _
    apply Only.ite (fun _ => Only.bind (Only.modify _) fun _ => Only.pure _)
    intro _
    apply Only.ite (fun _ => Only.pure _)
    intro _
    apply Only.ite (fun _ => Only.pure _)
    intro _
    apply Only.ite
    . intro h
      apply hport (.inl h)
      exact Only.bind only_statusReg_readl fun _ => Only.bind Only.get fun _ => Only.pure _
    . intro _
      apply Only.ite
      . intro h
        exact Only.bind (hport (.inr (.inl h)) only_rootSetFeature) hdone
      . intro _
        apply Only.ite
        . intro h
          exact Only.bind (hport (.inr (.inr h)) only_rootClearFeature) hdone
        . intro _
          apply Only.pure

theorem only_ehciSubmitRoot {dev : UsbDevice} {length : Nat}
    : Only (fun o => req.AsksPort ∧ AccessesPort req.index o) E (ehciSubmitRoot dev length req) := by
  unfold ehciSubmitRoot
  apply Only.ite (fun _ => Only.pure _)
  intro _
  apply Only.bind only_rootRequest
  rintro (_ | src) <;> apply Only.pure

end

/-!
### `portreset`
-/

/-- The changes of `portreset` and `rootdev` that the request may make keep `I`. -/
structure KeptByRequest (req : DevRequest) (I : Ehci → Prop) : Prop where
  unrecorded : Unrecorded I
  address : ∀ e, req.typeReq = 0x0005 → I e → I { e with rootdev := req.value.toNat }
  noticed : ∀ e, req.typeReq = 0x2303 → req.value = usbPortFeatReset → I e →
    I { e with portreset := e.portreset ||| (1#16 <<< req.index.toNat) }
  acknowledged : ∀ e, req.typeReq = 0x2301 → req.value = usbPortFeatCReset → I e →
    I { e with portreset := e.portreset &&& ~~~(1#16 <<< req.index.toNat) }

section

variable {req : DevRequest} {I : Ehci → Prop}

namespace KeptByRequest

theorem resetRootPort (h : KeptByRequest req I) (htype : req.typeReq = 0x2303)
    (hvalue : req.value = usbPortFeatReset) (reg : BitVec 32)
    : Keeps I (fun _ => True) (resetRootPort req reg) := by
  have hI := h.unrecorded
  apply Keeps.ite
  . intro _
    apply hI.writel
  . intro _
    apply Keeps.bind (hI.writel ..)
    intro _ _
    apply Keeps.bind (hI.writel ..)
    intro _ _
    apply Keeps.bind (keeps_handshakeTries ..)
    intro ret _
    apply Keeps.ite
    . intro _
      exact .modify fun e he => h.noticed e htype hvalue he
    . intro _
      exact .pure trivial

theorem rootSetFeature (h : KeptByRequest req I) (htype : req.typeReq = 0x2303)
    : Keeps I (fun _ => True) (rootSetFeature req) := by
  have hI := h.unrecorded
  have hknown : ∀ known : Bool, Keeps I (fun _ => True)
      (do
        let known ← pure known
        if known = true then
          let _ ← ehciReadl .usbcmd
          return true
        else
          return false : EhciM Bool) := by
    intro known
    apply Keeps.bind (R := fun _ => True) (.pure (P := fun _ => True) trivial)
    intro known _
    apply Keeps.ite
    . intro _
      exact .bind (hI.readl .usbcmd) fun _ _ => .pure trivial
    . intro _
      exact .pure trivial
  apply Keeps.bind (hI.readl _)
  intro reg _
  apply Keeps.ite
  . intro _
    exact .bind (hI.writel ..) fun _ _ => hknown true
  . intro _
    apply Keeps.ite
    . intro _
      apply Keeps.bind (hI.readl .hcsparams)
      intro ppc _
      apply Keeps.ite
      . intro _
        apply Keeps.bind (hI.writel ..)
        intro _ _
        exact .bind (hI.writel ..) fun _ _ => hknown true
      . intro _
        apply hknown
    . intro _
      apply Keeps.ite
      . intro hvalue
        exact .bind (h.resetRootPort htype hvalue _) fun _ _ => hknown true
      . intro _
        apply hknown

theorem rootClearFeature (h : KeptByRequest req I) (htype : req.typeReq = 0x2301)
    : Keeps I (fun _ => True) (rootClearFeature req) := by
  have hI := h.unrecorded
  have hvalue : ∀ reg, Keeps I (fun _ => True) (rootClearFeatureValue req reg) := by
    intro reg
    apply Keeps.ite (fun _ => .pure trivial)
    intro _
    apply Keeps.ite (fun _ => .pure trivial)
    intro _
    apply Keeps.ite (fun _ => .bind (hI.readl _) fun _ _ => .pure trivial)
    intro _
    apply Keeps.ite (fun _ => .pure trivial)
    intro _
    apply Keeps.ite (fun _ => .pure trivial)
    intro _
    apply Keeps.ite
    . intro hvalue
      exact .bind (.modify fun e he => h.acknowledged e htype hvalue he) fun _ _ => .pure trivial
    . intro _
      exact .pure trivial
  apply Keeps.bind (hI.readl _)
  intro reg _
  apply Keeps.bind (hvalue reg)
  rintro (_ | v) _
  . exact .pure trivial
  . apply Keeps.bind (hI.writel ..)
    intro _ _
    exact .bind (hI.readl _) fun _ _ => .pure trivial

theorem rootRequest (h : KeptByRequest req I) : Keeps I (fun _ => True) (rootRequest req) := by
  have hdone : ∀ known : Bool, True → Keeps I (fun _ => True)
      (if known = true then return some [] else return none : EhciM (Option (List Byte))) :=
    fun known _ => .ite (fun _ => .pure trivial) fun _ => .pure trivial
  apply Keeps.ite (fun _ => .pure trivial)
  intro _
  apply Keeps.ite
  . intro _
    exact .ite (fun _ => .bind .get fun _ _ => .pure trivial) fun _ => .pure trivial
  . intro _
    apply Keeps.ite
    . intro htype
      exact .bind (.modify fun e he => h.address e htype he) fun _ _ => .pure trivial
    . intro _
      apply Keeps.ite (fun _ => .pure trivial)
      intro _
      apply Keeps.ite (fun _ => .pure trivial)
      intro _
      apply Keeps.ite
      . intro _
        apply Keeps.bind (h.unrecorded.readl _)
        exact fun _ _ => .bind .get fun _ _ => .pure trivial
      . intro _
        apply Keeps.ite (fun htype => .bind (h.rootSetFeature htype) hdone)
        intro _
        exact .ite (fun htype => .bind (h.rootClearFeature htype) hdone) fun _ => .pure trivial

theorem ehciSubmitRoot (h : KeptByRequest req I) {dev : UsbDevice} {length : Nat}
    : Keeps I (fun _ => True) (ehciSubmitRoot dev length req) := by
  apply Keeps.ite (fun _ => .pure trivial)
  intro _
  apply Keeps.bind h.rootRequest
  rintro (_ | src) _ <;> exact .pure trivial

end KeptByRequest

end

def ResetBit (k : Nat) (b : Bool) (e : Ehci) : Prop := e.portreset.getLsbD k = b

/-- The request sets or clears the reset change of port `k`. -/
def DevRequest.MovesReset (req : DevRequest) (k : Nat) : Prop :=
  req.index.toNat = k ∧
  ((req.typeReq = 0x2303 ∧ req.value = usbPortFeatReset) ∨
    (req.typeReq = 0x2301 ∧ req.value = usbPortFeatCReset))

namespace DevRequest.MovesReset

variable {req : DevRequest} {k : Nat}

theorem asksPort (h : req.MovesReset k) : req.AsksPort := by
  rcases h.2 with ⟨h, -⟩ | ⟨h, -⟩
  . exact .inr (.inl h)
  . exact .inr (.inr h)

theorem getLsbD_of_ne {n : Nat} (h : k ≠ n) : (1#16 <<< n).getLsbD k = false := by
  rw [← BitVec.twoPow_eq, BitVec.getLsbD_twoPow]
  simp [Ne.symm h]

theorem keptByRequest (h : ¬req.MovesReset k) (b : Bool) : KeptByRequest req (ResetBit k b) where
  unrecorded _ _ _ _ he := he
  address _ _ he := he
  noticed e htype hvalue he := by
    have hk : k ≠ req.index.toNat := fun hk => h ⟨hk.symm, .inl ⟨htype, hvalue⟩⟩
    have hbit := getLsbD_of_ne hk
    unfold ResetBit at *
    simp [he, hbit]
  acknowledged e htype hvalue he := by
    have hk : k ≠ req.index.toNat := fun hk => h ⟨hk.symm, .inr ⟨htype, hvalue⟩⟩
    have hbit := getLsbD_of_ne hk
    unfold ResetBit at *
    rw [BitVec.getLsbD_and, BitVec.getLsbD_not, hbit, he]
    cases b
    . rfl
    . have hlt := BitVec.lt_of_getLsbD he
      simp [hlt]

end DevRequest.MovesReset

/-!
### Requests that keep to the ports
-/

/-- An access to the register of a port, or one that is made for all ports. -/
def OnPorts (o : EhciOp) : Prop :=
  match o with
  | .readl r => r = .hcsparams ∨ r = .usbcmd ∨ ∃ i, r = .portsc i
  | .writel r v => (r = .configflag ∧ v = 1) ∨ ∃ i, r = .portsc i
  | _ => False

namespace DevRequest

def ToPort (req : DevRequest) : Prop := req.requesttype &&& 0x7f = usbRtPort

def NamesPort (req : DevRequest) : Prop :=
  1 ≤ req.index.toNat ∧ req.index.toNat ≤ configSysUsbEhciMaxRootPorts

theorem requesttype_eq (req : DevRequest) : req.requesttype = (req.typeReq >>> 8).setWidth 8 := by
  apply BitVec.eq_of_getLsbD_eq
  intro k hk
  have hhigh : ¬8 + k < 8 := by omega
  have hlow : 8 + k < 16 := by omega
  simp [typeReq, hk, hhigh, hlow, Nat.lt_trans hk]

end DevRequest

/--
What the request did between `e` and `e'`, with the accesses in `l`, concerns the ports of the root
hub only.
-/
structure ConcernsPorts {σ : Type} (req : DevRequest) (e e' : Ehci) (ret : Int)
    (l : List (Event EhciOp EhciAns Stop σ)) : Prop where
  registers : ∀ ev ∈ l, OnPorts ev.op
  portreset : ∀ k, e'.portreset.getLsbD k ≠ e.portreset.getLsbD k → req.index.toNat = k ∧ req.NamesPort
  rejected : req.ToPort → ¬req.NamesPort → ret = -1 ∧ l = []

def KeepsToPorts (dev : UsbDevice) (length : Nat) (req : DevRequest) (e : Ehci) : Prop :=
  ∀ (σ : Type) (w : EhciWorld σ) s r e' t,
    (ehciSubmitRoot dev length req).Run w.traced e (s, []) (.ok (r, e')) t →
    ConcernsPorts req e e' r.1 t.2

section

variable {dev : UsbDevice} {length : Nat} {req : DevRequest} {e : Ehci}

theorem onPorts_of_accessesPort {o : EhciOp} (h : req.NamesPort) (ho : AccessesPort req.index o)
    : OnPorts o := by
  have hreg : ∃ i, statusReg req.index = .portsc i := by
    obtain ⟨h1, h2⟩ := h
    have hlt : req.index.toNat - 1 < 2 := by
      unfold configSysUsbEhciMaxRootPorts at h2
      omega
    exact ⟨⟨_, hlt⟩, (statusReg_eq_portsc_iff h2).mpr (by dsimp only; omega)⟩
  cases o with
  | readl r =>
    rcases ho with ho | ho | ho
    . exact .inr (.inr (by rw [ho]; exact hreg))
    . exact .inl ho
    . exact .inr (.inl ho)
  | writel r v =>
    rcases ho with ho | ho
    . exact .inr (by rw [ho]; exact hreg)
    . exact .inl ho
  | load => exact ho
  | store f => exact ho

theorem rootRequest_eq_none (h : req.ToPort) (hask : ¬req.AsksPort) : rootRequest req = pure none := by
  have htype : ∀ x : BitVec 16, (x >>> 8).setWidth 8 &&& 0x7f ≠ usbRtPort → req.typeReq ≠ x := by
    intro x hx heq
    rw [DevRequest.ToPort, DevRequest.requesttype_eq, heq] at h
    exact hx h
  unfold DevRequest.AsksPort at hask
  unfold rootRequest
  rw [if_neg (htype _ (by decide)), if_neg (htype _ (by decide)), if_neg (htype _ (by decide)),
    if_neg (htype _ (by decide)), if_neg (htype _ (by decide)), if_neg (by tauto), if_neg (by tauto),
    if_neg (by tauto)]

theorem wp_ehciSubmitRoot_rejected {σ : Type} {w : EhciWorld σ} {E : Stop → σ → Prop} {s : σ}
    (hport : req.ToPort) (hnames : ¬req.NamesPort) (h : ¬(req.AsksPort ∧ req.index = 0))
    : wp w (ehciSubmitRoot dev length req) (fun r _ t => r.1 = -1 ∧ t = s) E e s := by
  rw [wp_ehciSubmitRoot]
  split
  . exact ⟨rfl, rfl⟩
  . next hi =>
    have h0 : req.index = 0 := by
      apply BitVec.eq_of_toNat_eq
      unfold DevRequest.NamesPort configSysUsbEhciMaxRootPorts at hnames
      have hzero : (0 : BitVec 16).toNat = 0 := rfl
      omega
    rw [rootRequest_eq_none hport fun hask => h ⟨hask, h0⟩]
    exact ⟨rfl, rfl⟩

theorem keepsToPorts_of_not (h : ¬(req.AsksPort ∧ req.index = 0))
    : KeepsToPorts dev length req e := by
  intro σ w s r e' t hr
  have htrace := only_ehciSubmitRoot.trace (E := fun _ => True) hr
  have hbig : ¬req.NamesPort → req.AsksPort → 2 < req.index.toNat := by
    intro hnames hask
    have : req.index.toNat ≠ 0 := fun h0 => h ⟨hask, BitVec.eq_of_toNat_eq h0⟩
    unfold DevRequest.NamesPort configSysUsbEhciMaxRootPorts at hnames
    omega
  constructor
  . intro ev hev
    rcases htrace ev hev with hnil | ⟨⟨hask, ho⟩, -⟩
    . cases hnil
    . apply onPorts_of_accessesPort _ ho
      by_contra hnames
      have hno : wp w.traced (ehciSubmitRoot dev length req) (fun _ _ t => t = (s, []))
          (fun _ _ => True) e (s, []) := by
        rw [wp_ehciSubmitRoot, if_pos (hbig hnames hask)]
      rw [wp_run hno hr] at hev
      cases hev
  . intro k hk
    have hmoves : req.MovesReset k := by
      by_contra hno
      apply hk
      exact (wp_run ((DevRequest.MovesReset.keptByRequest hno _).ehciSubmitRoot.spec w.traced e
        (s, []) rfl) hr).1
    refine ⟨hmoves.1, ?_⟩
    by_contra hnames
    have hno : wp w.traced (ehciSubmitRoot dev length req) (fun _ e' _ => e' = e) (fun _ _ => True)
        e (s, []) := by
      rw [wp_ehciSubmitRoot, if_pos (hbig hnames hmoves.asksPort)]
    rw [wp_run hno hr] at hk
    exact hk rfl
  . intro hport hnames
    obtain ⟨hret, ht⟩ := wp_run (E := fun _ _ => True) (wp_ehciSubmitRoot_rejected hport hnames h) hr
    rw [ht]
    exact ⟨hret, rfl⟩

theorem rootRequest_eq_bind (h : req.AsksPort)
    : ∃ k, rootRequest req = ehciReadl (statusReg req.index) >>= k := by
  rcases h with h | h | h
  . unfold rootRequest
    rw [h]
    exact ⟨_, rfl⟩
  . unfold rootRequest
    rw [h]
    exact ⟨_, bind_assoc ..⟩
  . unfold rootRequest
    rw [h]
    exact ⟨_, bind_assoc ..⟩

theorem wp_ehciSubmitRoot_reads {σ : Type} {w : EhciWorld σ} (h : req.AsksPort)
    (hi : req.index.toNat ≤ 2) {s : σ × List (Event EhciOp EhciAns Stop σ)}
    : wp w.traced (ehciSubmitRoot dev length req)
        (fun _ _ t => ∃ ev ∈ t.2, ev.op = .readl (statusReg req.index)) (fun _ _ => True) e s := by
  obtain ⟨k, hk⟩ := rootRequest_eq_bind h
  rw [wp_ehciSubmitRoot, if_neg (by omega), hk, wp_bind, wp_ehciReadl]
  intro t
  refine ⟨fun v hv => ?_, fun _ _ => trivial⟩
  have hmem : ∃ ev ∈ t.2, ev.op = .readl (statusReg req.index) := by
    rw [hv.2]
    exact ⟨_, List.mem_append_right _ (List.mem_singleton.mpr rfl), rfl⟩
  obtain ⟨ev, hev, hop⟩ := hmem
  apply wp_mono (wp_grows w (k v) _ t)
  . intro r e' u hu
    have hev := hu.subset hev
    cases r <;> exact ⟨ev, hev, hop⟩
  . intro _ _ _
    trivial

theorem not_keepsToPorts (h : req.AsksPort) (h0 : req.index = 0)
    : ¬KeepsToPorts dev length req e := by
  intro hkeeps
  have hstop : ∀ o (s : Ports × List (Event EhciOp EhciAns Stop Ports)) x t,
      ¬(portWorld Ports.Same).traced o s (.error x) t :=
    fun _ _ _ _ hw => portWorld_error hw.1
  obtain ⟨r, e', t, hr, ev, hev, hop⟩ :=
    exists_run (m := ehciSubmitRoot dev length req) (u := e) (s := ((fun _ => 0), []))
      (World.tracedHandler_serves (portHandler_serves Ports.Same.refl))
      (only_ehciSubmitRoot.wp hstop (wp_ehciSubmitRoot_reads h (by rw [h0]; decide)))
  have hon := (hkeeps Ports _ _ r e' t hr).registers ev hev
  have hreg : statusReg req.index = .configflag := by
    rw [h0]
    rfl
  rw [hop, hreg] at hon
  rcases hon with hon | hon | ⟨i, hon⟩ <;> cases hon

/--
A request to the root hub keeps to the registers and to the bits of its ports if and only if it is
not one of the three requests to a port with `wIndex` 0.
-/
theorem keepsToPorts_iff : KeepsToPorts dev length req e ↔ ¬(req.AsksPort ∧ req.index = 0) :=
  ⟨fun h hreq => not_keepsToPorts hreq.1 hreq.2 h, keepsToPorts_of_not⟩

end

/-- GET_STATUS of port 0 reads `or_configflag`. -/
theorem getStatus_zero_not_keepsToPorts
    : ¬KeepsToPorts .zero 4 ⟨usbDirIn ||| usbRtPort, usbReqGetStatus, 0, 0, 4⟩ .boot := by
  apply not_keepsToPorts
  . decide
  . rfl
