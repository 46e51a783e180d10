import PureUsb.Prog.Trace
import PureUsb.Usb.Lemmas.Frame

/-!
This module contains what a trace of `usb.c` says about the configuration of a device.
-/

open Stateful

abbrev HcdEvent (σ : Type) := Event HcdOp HcdAns Stop σ

/-- The request of a control transfer, and the answer to it. -/
structure Exchange where
  setup : DevRequest
  answer : Submitted

section

variable {σ : Type}

def Event.exchange? (e : HcdEvent σ) : Option Exchange :=
  match e with
  | ⟨_, .submit x, .ok r⟩ => x.setup.map (⟨·, r⟩)
  | _ => none

theorem Event.exchange?_submit {s : σ} {x : Transfer} {r : Submitted} {setup : DevRequest}
    (hx : x.setup = some setup)
    : (⟨s, .submit x, .ok r⟩ : HcdEvent σ).exchange? = some ⟨setup, r⟩ := by
  show x.setup.map _ = _
  rw [hx]
  rfl

def exchanges (l : List (HcdEvent σ)) : List Exchange := l.filterMap Event.exchange?

/-- The buffer that was handed to `usb_parse_config` in this event. -/
def Event.parsed? (e : HcdEvent σ) : Option (Bytes 512) :=
  match e with
  | ⟨_, .parsing _ buffer, _⟩ => some buffer
  | _ => none

theorem wp_usbControlMsg_event {w : HcdWorld σ} {dev : Fin 32} {pipe : BitVec 32}
    {request requesttype : Byte} {value index size : BitVec 16} {data : Buffer} {timeout : Nat}
    {Q : Int × List Byte → Usb → σ × List (HcdEvent σ) → Prop}
    {E : Stop → σ × List (HcdEvent σ) → Prop} {u : Usb} {s : σ × List (HcdEvent σ)}
    (setup : DevRequest) (hsetup : setup = ⟨requesttype, request, value, index, size⟩)
    (htimeout : timeout ≠ 0)
    (hok : ∀ y t, w (.submit (u.request dev pipe data setup)) s.1 (.ok y) t →
      Q (y.result, y.data) (u.answered dev setup y)
        (t, s.2 ++ [⟨s.1, .submit (u.request dev pipe data setup), .ok y⟩]))
    (herror : ∀ e t, w (.submit (u.request dev pipe data setup)) s.1 (.error e) t →
      E e (t, s.2 ++ [⟨s.1, .submit (u.request dev pipe data setup), .error e⟩]))
    : wp w.traced (usbControlMsg dev pipe request requesttype value index data size timeout) Q E u
        s := by
  subst hsetup
  rw [wp_usbControlMsg htimeout]
  rintro setup x ⟨t, l⟩
  constructor
  . rintro y ⟨hy, hl⟩
    cases hl
    exact hok y t hy
  . rintro e ⟨he, hl⟩
    cases hl
    exact herror e t he

def DevRequest.Configures (setup : DevRequest) : Prop :=
  setup.requesttype = 0 ∧ setup.request = usbReqSetConfiguration

instance (setup : DevRequest) : Decidable setup.Configures := inferInstanceAs (Decidable (_ ∧ _))

theorem DevRequest.readsConfig_descriptor (index : Byte) (langid length : BitVec 16)
    : ReadsConfig ⟨usbDirIn, usbReqGetDescriptor,
        (usbDtConfig.setWidth 16 <<< 8) + index.setWidth 16, langid, length⟩ :=
  ⟨rfl, rfl, high_descriptorValue usbDtConfig index⟩

theorem DevRequest.not_readsConfig {requesttype request : Byte} {value index length : BitVec 16}
    (h : requesttype ≠ usbDirIn)
    : ¬ReadsConfig ⟨requesttype, request, value, index, length⟩ := fun hf => h hf.1

theorem DevRequest.not_configures {requesttype request : Byte} {value index length : BitVec 16}
    (h : request ≠ usbReqSetConfiguration)
    : ¬Configures ⟨requesttype, request, value, index, length⟩ := fun hf => h hf.2

def configReads (l : List (HcdEvent σ)) : List Exchange :=
  (l.filterMap Event.exchange?).filter (·.setup.ReadsConfig)

/-- The buffers that were handed to `usb_parse_config`. -/
def parsedBuffers (l : List (HcdEvent σ)) : List (Bytes 512) := l.filterMap Event.parsed?

def configurations (l : List (HcdEvent σ)) : List Exchange :=
  (l.filterMap Event.exchange?).filter (·.setup.Configures)

/-- What there is in the trace. -/
structure Seen (l : List (HcdEvent σ)) (reads : List Exchange) (parsed : List (Bytes 512))
    (sets : List Exchange) : Prop where
  reads : configReads l = reads
  parsed : parsedBuffers l = parsed
  sets : configurations l = sets

theorem seen_nil : Seen ([] : List (HcdEvent σ)) [] [] [] := ⟨rfl, rfl, rfl⟩

variable {l : List (HcdEvent σ)} {reads sets : List Exchange} {parsed : List (Bytes 512)} {s : σ}

theorem Seen.submit (h : Seen l reads parsed sets) {x : Transfer} {r : Submitted}
    {setup : DevRequest} (hx : x.setup = some setup)
    : Seen (l ++ [⟨s, .submit x, .ok r⟩])
        (reads ++ if setup.ReadsConfig then [⟨setup, r⟩] else []) parsed
        (sets ++ if setup.Configures then [⟨setup, r⟩] else []) := by
  have hexchange := Event.exchange?_submit (s := s) (r := r) hx
  refine ⟨?_, ?_, ?_⟩
  . rw [← h.reads]
    simp [configReads, hexchange, List.filter_cons]
  . rw [← h.parsed]
    simp [parsedBuffers, Event.parsed?]
  . rw [← h.sets]
    simp [configurations, hexchange, List.filter_cons]

theorem Seen.stack (h : Seen l reads parsed sets) {n : Nat} {b : Except Stop (Bytes n)}
    : Seen (l ++ [⟨s, .stack n, b⟩]) reads parsed sets := by
  refine ⟨?_, ?_, ?_⟩
  . rw [← h.reads]
    simp [configReads, Event.exchange?]
  . rw [← h.parsed]
    simp [parsedBuffers, Event.parsed?]
  . rw [← h.sets]
    simp [configurations, Event.exchange?]

theorem Seen.parsing (h : Seen l reads parsed sets) {dev : Fin 32} {buffer : Bytes 512}
    {b : Except Stop Unit}
    : Seen (l ++ [⟨s, .parsing dev buffer, b⟩]) reads (parsed ++ [buffer]) sets := by
  refine ⟨?_, ?_, ?_⟩
  . rw [← h.reads]
    simp [configReads, Event.exchange?]
  . rw [← h.parsed]
    simp [parsedBuffers, Event.parsed?]
  . rw [← h.sets]
    simp [configurations, Event.exchange?]

end
