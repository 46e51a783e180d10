import PureUsb.Ehci.RootPorts
import Mathlib.Tactic.IntervalCases

/-!
This module contains what a root hub has to answer, and that the emulated one copies a prefix of this
into the buffer or leaves everything as it was.
-/

open Stateful

/-!
### Descriptors
-/

def descriptorOf (type : Byte) (body : List Byte) : List Byte :=
  BitVec.ofNat 8 (body.length + 2) :: type :: body

def utf16 (s : String) : List Byte := s.toList.flatMap fun c => bytes16 (BitVec.ofNat 16 c.toNat)

namespace RootHub

/-- A high speed hub with a single TT, USB 2.0, revision 1.0, one configuration. -/
def device : List Byte :=
  descriptorOf usbDtDevice
    (bytes16 0x0200 ++ [usbClassHub, 0, 1, 64] ++ bytes16 0 ++ bytes16 0 ++ bytes16 0x0100 ++ [1, 2, 0, 1])

def interface : List Byte := descriptorOf usbDtInterface [0, 0, 1, usbClassHub, 0, 0, 0]

def endpoint : List Byte := descriptorOf usbDtEndpoint ([usbDirIn ||| 1, 3] ++ bytes16 8 ++ [255])

/-- The configuration with its interface and endpoint, all of which count for `wTotalLength`. -/
def config : List Byte :=
  let rest := interface ++ endpoint
  descriptorOf usbDtConfig (bytes16 (BitVec.ofNat 16 (9 + rest.length)) ++ [1, 1, 0, 0x40, 0]) ++ rest

def string (index : Nat) : Option (List Byte) :=
  match index with
  | 0 => some (descriptorOf usbDtString (bytes16 0x0001))
  | 1 => some (descriptorOf usbDtString (utf16 "u-boot"))
  | 2 => some (descriptorOf usbDtString (utf16 "EHCI Host Controller"))
  | _ => none

def statusBit (v : BitVec 32) (k : Nat) : Bool :=
  match k with
  | 0 => v.getLsbD 0
  | 1 => v.getLsbD 2
  | 2 => v.getLsbD 7
  | 3 => v.getLsbD 4
  | 4 => v.getLsbD 8
  | 8 => v.getLsbD 12
  -- every port that was not given to the companion is a high speed one
  | 10 => true
  | _ => false

/-- Bit `k` of `wPortChange` for the register value `v`, if `reset` tells that a reset was noted. -/
def changeBit (v : BitVec 32) (reset : Bool) (k : Nat) : Bool :=
  match k with
  | 0 => v.getLsbD 1
  | 1 => v.getLsbD 3
  | 3 => v.getLsbD 5
  | 4 => reset
  | _ => false

theorem deviceDescriptor_eq : deviceDescriptor = device := rfl

theorem configDescriptor_eq : configDescriptor = config := rfl

theorem stringDescriptor_eq (index : Nat) : stringDescriptor index = string index := by
  rcases index with _ | _ | _ | index <;> rfl

theorem getLsbD_statBit {v : BitVec 32} {n k : Nat} (hn : n < 32) (bit : BitVec 16)
    : (statBit (v &&& (1#32 <<< n)) bit).getLsbD k = (v.getLsbD n && bit.getLsbD k) := by
  unfold statBit
  split
  . next h =>
    rw [BitVec.and_bit_ne_zero_iff hn] at h
    simp [h]
  . next h =>
    rw [BitVec.and_bit_ne_zero_iff hn, Bool.not_eq_true] at h
    simp [h]

theorem getLsbD_rootPortStatus (v : BitVec 32) {k : Nat} (hk : k < 16)
    : (rootPortStatus v).getLsbD k = statusBit v k := by
  unfold rootPortStatus ehciIsTDI
  simp only [BitVec.getLsbD_or, Bool.false_eq_true, ↓reduceIte]
  rw [getLsbD_statBit (by decide), getLsbD_statBit (by decide), getLsbD_statBit (by decide),
    getLsbD_statBit (by decide), getLsbD_statBit (by decide), getLsbD_statBit (by decide)]
  interval_cases k <;> simp [statusBit]

theorem getLsbD_rootPortChange (v : BitVec 32) (portreset index : BitVec 16) (hi : index.toNat < 16)
    {k : Nat} (hk : k < 16)
    : (rootPortChange v portreset index).getLsbD k = changeBit v (portreset.getLsbD index.toNat) k := by
  unfold rootPortChange
  simp only [BitVec.getLsbD_or, BitVec.and_bit_ne_zero_iff hi]
  rw [getLsbD_statBit (by decide), getLsbD_statBit (by decide), getLsbD_statBit (by decide)]
  cases portreset.getLsbD index.toNat <;> interval_cases k <;> simp [changeBit]

end RootHub

/-!
### Requests
-/

namespace DevRequest

def Is (req : DevRequest) (requesttype request : Byte) : Prop :=
  req.requesttype = requesttype ∧ req.request = request

def descriptorType (req : DevRequest) : Byte := (req.value >>> 8).setWidth 8

theorem request_eq (req : DevRequest) : req.request = req.typeReq.setWidth 8 := by
  apply BitVec.eq_of_getLsbD_eq
  intro k hk
  simp [typeReq, hk]

theorem is_of_typeReq {req : DevRequest} {requesttype request : Byte}
    (h : req.typeReq = request.setWidth 16 ||| (requesttype.setWidth 16 <<< 8))
    : req.Is requesttype request := by
  have h' : req.typeReq = (⟨requesttype, request, 0, 0, 0⟩ : DevRequest).typeReq := h
  constructor
  . rw [requesttype_eq, h', ← requesttype_eq]
  . rw [request_eq, h', ← request_eq]

end DevRequest

def EhciOp.IsRead (o : EhciOp) : Prop :=
  match o with
  | .readl _ => True
  | .load => True
  | _ => False

section

variable {σ : Type}

/--
`Answers req e l resp`: `resp` is the response to `req` if the driver is in `e` and the registers
returned what is in `l`.
-/
inductive Answers (req : DevRequest) (e : Ehci) (l : List (Event EhciOp EhciAns Stop σ))
    : List Byte → Prop where
  | device :
      req.Is usbDirIn usbReqGetDescriptor → req.descriptorType = usbDtDevice →
      Answers req e l RootHub.device
  | config :
      req.Is usbDirIn usbReqGetDescriptor → req.descriptorType = usbDtConfig →
      Answers req e l RootHub.config
  | string {resp : List Byte} :
      req.Is usbDirIn usbReqGetDescriptor → req.descriptorType = usbDtString →
      RootHub.string (req.value &&& 0xff).toNat = some resp → Answers req e l resp
  | hub :
      req.Is (usbDirIn ||| usbRtHub) usbReqGetDescriptor → req.descriptorType = usbDtHub →
      Answers req e l ((List.ofFn e.hub).take 8)
  | hubStatus :
      -- self powered
      req.Is (usbDirIn ||| usbRtHub) usbReqGetStatus → Answers req e l [1, 0]
  | portStatus {i : Fin 2} {s : σ} {v : BitVec 32} {status change : BitVec 16} :
      req.Is (usbDirIn ||| usbRtPort) usbReqGetStatus → req.index.toNat = i + 1 →
      l = [⟨s, .readl (.portsc i), .ok v⟩] →
      (∀ k < 16, status.getLsbD k = RootHub.statusBit v k) →
      (∀ k < 16, change.getLsbD k = RootHub.changeBit v (e.portreset.getLsbD (i + 1)) k) →
      Answers req e l (bytes16 status ++ bytes16 change)
  | noData :
      req.Is usbDirOut usbReqSetAddress ∨ req.Is usbDirOut usbReqSetConfiguration ∨
        req.Is usbRtPort usbReqSetFeature ∨ req.Is usbRtPort usbReqClearFeature →
      Answers req e l []

/-- The registers were only read, `portreset` and `rootdev` are what they were. -/
structure Untouched (e e' : Ehci) (l : List (Event EhciOp EhciAns Stop σ)) : Prop where
  registers : ∀ ev ∈ l, ev.op.IsRead
  portreset : e'.portreset = e.portreset
  rootdev : e'.rootdev = e.rootdev

namespace Untouched

variable {e e' : Ehci} {l : List (Event EhciOp EhciAns Stop σ)}

theorem refl (e : Ehci) : Untouched e e ([] : List (Event EhciOp EhciAns Stop σ)) :=
  ⟨by simp, rfl, rfl⟩

theorem readl (h : Untouched e e' l) (s : σ) (r : Reg) (v : BitVec 32)
    : Untouched e (e'.record r 0 v) (l ++ [⟨s, .readl r, .ok v⟩]) where
  registers ev hev := by
    rcases List.mem_append.mp hev with hev | hev
    . exact h.registers ev hev
    . rw [List.mem_singleton.mp hev]
      trivial
  portreset := h.portreset
  rootdev := h.rootdev

end Untouched

variable {w : EhciWorld σ} {req : DevRequest} {e : Ehci}
variable {s : σ × List (Event EhciOp EhciAns Stop σ)}

theorem wp_rootSetFeature_untouched
    : wp w.traced (rootSetFeature req)
        (fun known e' t => known = false → ∃ l, t.2 = s.2 ++ l ∧ Untouched e e' l) (fun _ _ => True) e s := by
  have hknown : ∀ (Q : Ehci → σ × List (Event EhciOp EhciAns Stop σ) → Prop) e' t,
      wp w.traced
        (do
          let known ← pure true
          if known = true then
            let _ ← ehciReadl .usbcmd
            return true
          else
            return false)
        (fun known e' t => known = false → Q e' t) (fun _ _ => True) e' t := by
    intro Q e' t
    rw [wp_bind, wp_pure, if_pos rfl]
    apply wp_bind_any
    intro _ _ _ hfalse
    cases hfalse
  unfold rootSetFeature
  rw [wp_bind, wp_ehciReadl]
  intro t
  refine ⟨fun v hv => ?_, fun _ _ => trivial⟩
  dsimp only
  split
  . apply wp_bind_any
    intros
    apply hknown
  . split
    . apply wp_bind_any
      intros
      split
      . apply wp_bind_any
        intros
        apply wp_bind_any
        intros
        apply hknown
      . apply hknown
    . split
      . apply wp_bind_any
        intros
        apply hknown
      . exact fun _ => ⟨_, hv.2, (Untouched.refl e).readl ..⟩

theorem wp_rootClearFeature_untouched
    : wp w.traced (rootClearFeature req)
        (fun known e' t => known = false → ∃ l, t.2 = s.2 ++ l ∧ Untouched e e' l) (fun _ _ => True) e s := by
  unfold rootClearFeature
  rw [wp_bind, wp_ehciReadl]
  intro t
  refine ⟨fun v hv => ?_, fun _ _ => trivial⟩
  have hvalue : ∀ e' t, wp w.traced (rootClearFeatureValue req v)
      (fun r e'' t' => r = none → e'' = e' ∧ t' = t) (fun _ _ => True) e' t := by
    intro e' t
    unfold rootClearFeatureValue
    split
    . exact nofun
    . split
      . exact nofun
      . split
        . apply wp_bind_any
          intros
          exact nofun
        . split
          . exact nofun
          . split
            . exact nofun
            . split
              . exact nofun
              . exact fun _ => ⟨rfl, rfl⟩
  rw [wp_bind]
  apply wp_post (hvalue _ t)
  rintro (_ | v') e' t' h
  . obtain ⟨rfl, rfl⟩ := h rfl
    exact fun _ => ⟨_, hv.2, (Untouched.refl e).readl ..⟩
  . apply wp_bind_any
    intros
    apply wp_bind_any
    intro _ _ _ hfalse
    cases hfalse

theorem answers_rootDescriptor {l : List (Event EhciOp EhciAns Stop σ)} {resp : List Byte}
    (hreq : req.Is usbDirIn usbReqGetDescriptor) (h : rootDescriptor req.value = some resp)
    : Answers req e l resp := by
  unfold rootDescriptor at h
  split at h
  . next htype =>
    cases h
    exact .device hreq htype
  . split at h
    . next htype =>
      cases h
      exact .config hreq htype
    . split at h
      . next htype =>
        rw [RootHub.stringDescriptor_eq] at h
        exact .string hreq htype h
      . cases h

theorem wp_rootRequest_answers (hport : req.AsksPort → req.NamesPort) (hs : s.2 = [])
    : wp w.traced (rootRequest req)
        (fun r e' t =>
          match r with
          | some resp => Answers req e t.2 resp
          | none => Untouched e e' t.2)
        (fun _ _ => True) e s := by
  have huntouched : Untouched e e s.2 := by
    rw [hs]
    apply Untouched.refl
  have hdone : ∀ (known : Bool) e' t, req.AsksPort →
      (known = true → Answers req e t.2 []) → (known = false → ∃ l, t.2 = s.2 ++ l ∧ Untouched e e' l) →
      wp w.traced (if known = true then return some [] else return none)
        (fun r e' t =>
          match r with
          | some resp => Answers req e t.2 resp
          | none => Untouched e e' t.2)
        (fun _ _ => True) e' t := by
    intro known e' t _ hyes hno
    cases known with
    | true => exact hyes rfl
    | false =>
      obtain ⟨l, hl, h⟩ := hno rfl
      rw [hs, List.nil_append] at hl
      rw [← hl] at h
      exact h
  unfold rootRequest
  split
  . next htype =>
    have hreq : req.Is usbDirIn usbReqGetDescriptor := DevRequest.is_of_typeReq htype
    rw [wp_pure]
    split
    . next h => exact answers_rootDescriptor hreq h
    . exact huntouched
  . split
    . next htype =>
      split
      . next hhub => exact .hub (DevRequest.is_of_typeReq htype) hhub
      . exact huntouched
    . split
      . next htype => exact .noData (.inl (DevRequest.is_of_typeReq htype))
      . split
        . next htype => exact .noData (.inr (.inl (DevRequest.is_of_typeReq htype)))
        . split
          . next htype => exact .hubStatus (DevRequest.is_of_typeReq htype)
          . split
            . next htype =>
              have hnames := hport (.inl htype)
              have hi : req.index.toNat ≤ 2 := hnames.2
              obtain ⟨i, hindex⟩ : ∃ i : Fin 2, req.index.toNat = i + 1 :=
                ⟨⟨req.index.toNat - 1, by omega⟩, (Nat.sub_add_cancel hnames.1).symm⟩
              rw [wp_bind, wp_ehciReadl, (statusReg_eq_portsc_iff hi).mpr hindex]
              intro t
              refine ⟨fun v hv => ?_, fun _ _ => trivial⟩
              refine .portStatus (s := s.1) (v := v) (DevRequest.is_of_typeReq htype) hindex ?_ ?_ ?_
              . rw [hv.2, hs]
                rfl
              . exact fun k hk => RootHub.getLsbD_rootPortStatus v hk
              . intro k hk
                rw [← hindex]
                exact RootHub.getLsbD_rootPortChange v e.portreset req.index (by omega) hk
            . split
              . next htype =>
                rw [wp_bind]
                apply wp_post wp_rootSetFeature_untouched
                intro known e' t hknown
                apply hdone known e' t (.inr (.inl htype)) _ hknown
                exact fun _ => .noData (.inr (.inr (.inl (DevRequest.is_of_typeReq htype))))
              . split
                . next htype =>
                  rw [wp_bind]
                  apply wp_post wp_rootClearFeature_untouched
                  intro known e' t hknown
                  apply hdone known e' t (.inr (.inr htype)) _ hknown
                  exact fun _ => .noData (.inr (.inr (.inr (DevRequest.is_of_typeReq htype))))
                . exact huntouched

/-- The response was cut to the shortest of the three lengths and copied. -/
structure Replied (req : DevRequest) (length : Nat) (resp : List Byte) (dev dev' : UsbDevice)
    (data : List Byte) : Prop where
  actLen : dev'.actLen = (min (min resp.length req.length.toNat) length : Nat)
  device : dev' = { dev with actLen := dev'.actLen, status := 0 }
  buffer : ∀ (b : Bytes length) (j : Fin length),
    b.write 0 data j = if (j : Int) < dev'.actLen then resp.getD j 0 else b j

theorem replied_take (req : DevRequest) (length : Nat) (resp : List Byte) (dev : UsbDevice)
    : Replied req length resp dev
        { dev with actLen := (min (min resp.length req.length.toNat) length : Nat), status := 0 }
        (resp.take (min (min resp.length req.length.toNat) length)) := by
  refine ⟨rfl, rfl, fun b j => ?_⟩
  dsimp only
  generalize hlen : min (min resp.length req.length.toNat) length = len
  have hle : len ≤ resp.length := by omega
  have htake : (resp.take len).length = len := List.length_take_of_le hle
  split
  . next h =>
    have hj : (j : Nat) < len := by omega
    rw [Bytes.write_apply b (j := j) (by omega) (by omega), List.getElem_take,
      List.getD_eq_getElem?_getD, List.getElem?_eq_getElem (by omega), Option.getD_some]
  . next h => exact Bytes.write_apply_of_ge b (by omega)

theorem wp_ehciSubmitRoot_reply {dev : UsbDevice} {length : Nat} {s : σ}
    (hport : req.AsksPort → req.NamesPort)
    : wp w.traced (ehciSubmitRoot dev length req)
        (fun r e' t =>
          (r.1 = 0 ∧ ∃ resp, Answers req e t.2 resp ∧ Replied req length resp dev r.2.1 r.2.2) ∨
          (r.1 = -1 ∧ r.2.2 = [] ∧ Untouched e e' t.2))
        (fun _ _ => True) e (s, []) := by
  rw [wp_ehciSubmitRoot]
  split
  . exact .inr ⟨rfl, rfl, .refl e⟩
  . apply wp_post (wp_rootRequest_answers hport rfl)
    rintro (_ | resp) e' t h
    . exact .inr ⟨rfl, rfl, h⟩
    . exact .inl ⟨rfl, resp, h, replied_take req length resp dev⟩

/--
Whatever the registers are: a request to the root hub that returns 0 puts the first `act_len` bytes of
the response into the buffer and changes nothing else in it, one that returns -1 changes nothing.
-/
theorem ehciSubmitRoot_reply {dev dev' : UsbDevice} {length : Nat} {s : σ} {ret : Int}
    {data : List Byte} {e' : Ehci} {t : σ × List (Event EhciOp EhciAns Stop σ)}
    (hport : req.AsksPort → req.NamesPort)
    (hr : (ehciSubmitRoot dev length req).Run w.traced e (s, []) (.ok ((ret, dev', data), e')) t)
    : (ret = 0 ∧ ∃ resp, Answers req e t.2 resp ∧ Replied req length resp dev dev' data) ∨
      (ret = -1 ∧ (∀ b : Bytes length, b.write 0 data = b) ∧ Untouched e e' t.2) := by
  rcases wp_run (wp_ehciSubmitRoot_reply hport) hr with h | ⟨hret, hdata, h⟩
  . exact .inl h
  . have hdata : data = [] := hdata
    refine .inr ⟨hret, fun b => ?_, h⟩
    rw [hdata, Bytes.write_nil]

end

theorem ehciSubmitRoot_reply_device
    : ∃ dev' data e' t,
        (ehciSubmitRoot .zero 64 ⟨usbDirIn, usbReqGetDescriptor, 0x0100, 0, 8⟩).Run
          (portWorld Ports.Same).traced .boot (fun _ => 0, []) (.ok ((0, dev', data), e')) t ∧
        ∃ resp, Answers ⟨usbDirIn, usbReqGetDescriptor, 0x0100, 0, 8⟩ .boot t.2 resp ∧
          Replied ⟨usbDirIn, usbReqGetDescriptor, 0x0100, 0, 8⟩ 64 resp .zero dev' data := by
  obtain ⟨⟨ret, dev', data⟩, e', t, hr, hp⟩ :=
    exists_run_of_check
      (World.tracedHandler_offers (portHandler_serves Ports.Same.refl).offers)
      (m := ehciSubmitRoot .zero 64 ⟨usbDirIn, usbReqGetDescriptor, 0x0100, 0, 8⟩)
      (u := .boot) (s := (fun _ => 0, [])) (p := fun r _ _ => r.1 = 0) (by decide +kernel)
  have hret : ret = 0 := of_decide_eq_true hp
  subst hret
  rcases ehciSubmitRoot_reply (fun h => absurd h (by decide)) hr with ⟨-, h⟩ | ⟨h, -⟩
  . exact ⟨dev', data, e', t, hr, h⟩
  . cases h
