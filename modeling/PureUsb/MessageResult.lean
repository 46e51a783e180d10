import PureUsb.ControlRead
import PureUsb.Ehci.Lemmas.Completion
import PureUsb.Usb.Lemmas.Trace

/-!
This module contains what `usb_control_msg` and `usb_bulk_msg` return in terms of the status word and of
the token that the controller left in the overlay.
-/

open Stateful

/-- What a submission returns fits to the status and the length it leaves in the device structure. -/
structure Settled (length : Nat) (ret : Int) (d : UsbDevice) : Prop where
  failed : ret < 0 → d.status ≠ 0
  done : 0 ≤ ret → d.status = 0 → 0 ≤ d.actLen ∧ d.actLen ≤ length

theorem tokenStatus_ne_notProc (token : BitVec 32) : tokenStatus token ≠ usbStNotProc := by
  unfold tokenStatus
  split
  . decide
  . split
    . decide
    . split <;> decide

section

variable (dev : UsbDevice) (pipe : BitVec 32) (length : Nat) {token : BitVec 32}

theorem completeAsync_active (h : token &&& qtTokenActive ≠ 0)
    : (completeAsync dev pipe length token).status = dev.status := by
  unfold completeAsync
  rw [if_neg h]

theorem completeAsync_processed (h : token &&& qtTokenActive = 0)
    : (completeAsync dev pipe length token).status ≠ usbStNotProc ∧
      (completeAsync dev pipe length token).actLen = length - tokenBytes token := by
  unfold completeAsync
  rw [if_pos h]
  constructor
  . dsimp only
    split
    . exact (by decide : (0 : BitVec 32) ≠ usbStNotProc)
    . apply tokenStatus_ne_notProc
  . rfl

end

theorem AsyncOutcome.settled {dev : UsbDevice} {pipe : BitVec 32} {length : Nat} {completion : Option (BitVec 32)} {r : Int × UsbDevice}
    (h : AsyncOutcome dev pipe length completion r) (hstatus : dev.status = usbStNotProc)
    (hbytes : ∀ token ∈ completion, tokenBytes token ≤ length)
    : Settled length r.1 r.2 := by
  cases h with
  | failed =>
    constructor
    . intro _
      rw [hstatus]
      decide
    . exact fun hret => absurd (show (0 : Int) ≤ -1 from hret) (by decide)
  | completed token =>
    have hle := hbytes token rfl
    by_cases hactive : token &&& qtTokenActive = 0
    . obtain ⟨hproc, hlen⟩ := completeAsync_processed dev pipe length hactive
      rw [if_pos hproc]
      constructor
      . exact fun hret => absurd (show (0 : Int) < 0 from hret) (by decide)
      . intro _ _
        rw [hlen]
        omega
    . have hsame := completeAsync_active dev pipe length hactive
      rw [hstatus] at hsame
      rw [if_neg (not_not.mpr hsame)]
      constructor
      . intro _
        rw [hsame]
        decide
      . exact fun hret => absurd (show (0 : Int) ≤ -1 from hret) (by decide)

section

variable {σ : Type} {w : EhciWorld σ} {e : Ehci} {s : σ × List (EhciEvent σ)}

theorem traced_never_stops (hworld : ∀ o s x t, ¬w o s (.error x) t)
    : ∀ o s x t, ¬w.traced o s (.error x) t :=
  fun o s x t h => hworld o s.1 x t.1 h.1

theorem wp_ehciSubmitRoot_settled (hworld : ∀ o s x t, ¬w o s (.error x) t) {dev : UsbDevice}
    {length : Nat} {setup : DevRequest} (hstatus : dev.status = usbStNotProc)
    : wp w.traced (ehciSubmitRoot dev length setup) (fun r _ _ => Settled length r.1 r.2.1)
        (fun _ _ => False) e s := by
  have hkept : KeptByRoot w.traced (fun _ => True) (fun _ => True) (fun _ _ => False) :=
    ⟨fun _ _ _ => trivial, fun _ _ _ _ => trivial, fun _ h => traced_never_stops hworld _ _ _ _ h⟩
  have hfailed : ∀ d : UsbDevice, d.status ≠ 0 → Settled length (-1) d := by
    intro d hd
    exact ⟨fun _ => hd, fun hret => absurd (show (0 : Int) ≤ -1 from hret) (by decide)⟩
  rw [wp_ehciSubmitRoot]
  split
  . apply hfailed
    rw [hstatus]
    decide
  . apply wp_post (wp_rootRequest_kept hkept trivial)
    rintro (_ | src) e' t -
    . apply hfailed
      show usbStStalled ≠ 0
      decide
    . constructor
      . exact fun hret => absurd (show (0 : Int) < 0 from hret) (by decide)
      . intro _ _
        show (0 : Int) ≤ (min (min src.length setup.length.toNat) length : Nat) ∧
          ((min (min src.length setup.length.toNat) length : Nat) : Int) ≤ length
        omega

theorem wp_ehciSubmitAsync_settled (hworld : ∀ o s x t, ¬w o s (.error x) t) {dev parent : UsbDevice}
    {pipe buffer : BitVec 32} {length : Nat} {req : Option (BitVec 32)}
    (hstatus : dev.status = usbStNotProc)
    : wp w.traced (ehciSubmitAsync dev (some parent) pipe buffer length req)
        (fun r _ t =>
          (∀ token ∈ completion? t.2, tokenBytes token ≤ length) → Settled length r.1 r.2)
        (fun _ _ => False) e s := by
  apply (Returns.ehciSubmitAsync parent buffer req).wp (traced_never_stops hworld)
  apply wp_post (wp_ehciSubmitAsync_outcome _ _ _)
  intro r e' t h hbytes
  exact h.settled hstatus hbytes

theorem wp_submitTransfer_settled (place : Placement) (hworld : ∀ o s x t, ¬w o s (.error x) t)
    {x : Transfer} {setup : DevRequest} (hsetup : x.setup = some setup) (htype : usbPipetype x.pipe = pipeControl)
    (hstatus : (x.usbDev x.dev).status = usbStNotProc)
    (hparent : backend e.rootdev x.pipe = .async → ∃ p, (x.usbDev x.dev).parent = .dev p)
    : wp w.traced (submitTransfer place x)
        (fun r _ t =>
          (∀ token ∈ completion? t.2, tokenBytes token ≤ x.length) → Settled x.length r.1 r.2.1)
        (fun _ _ => False) e s := by
  unfold submitTransfer
  rw [hsetup]
  dsimp only
  unfold submitControlMsg
  rw [if_neg (not_not.mpr htype), wp_bind, wp_get]
  cases hbackend : backend e.rootdev x.pipe with
  | root =>
    have hroot : ∀ dev : UsbDevice, dev.status = usbStNotProc →
        wp w.traced (ehciSubmitRoot dev x.length setup)
          (fun r _ t =>
            (∀ token ∈ completion? t.2, tokenBytes token ≤ x.length) → Settled x.length r.1 r.2.1)
          (fun _ _ => False) e s := by
      intro dev hdev
      apply wp_post (wp_ehciSubmitRoot_settled hworld hdev)
      intro r e' t h _
      exact h
    dsimp only
    rw [wp_bind]
    split
    . exact hroot _ hstatus
    . exact hroot _ hstatus
  | async =>
    obtain ⟨p, hp⟩ := hparent hbackend
    have hparentOf : parentOf x.usbDev (x.usbDev x.dev) = some (x.usbDev p) := by
      unfold parentOf
      rw [hp]
    rw [hparentOf]
    dsimp only
    rw [wp_bind]
    apply wp_post (wp_ehciSubmitAsync_settled hworld hstatus)
    intro r e' t h
    exact h

end

/-!
### `usb_control_msg`
-/

/-- The return value, the status and the length that `usb_control_msg` leaves agree. -/
structure ControlReports (size : Nat) (n : Int) (d : UsbDevice) : Prop where
  status : 0 ≤ n ↔ d.status = 0
  length : 0 ≤ n → n = d.actLen ∧ n ≤ size

theorem Settled.reports {length : Nat} {r : Submitted} (h : Settled length r.ret r.dev)
    : ControlReports length r.result r.dev := by
  unfold Submitted.result
  split
  . next hret =>
    have hstatus := h.failed hret
    exact ⟨⟨fun hf => absurd hf (by omega), fun hf => absurd hf hstatus⟩, fun hf => absurd hf (by omega)⟩
  . next hret =>
    split
    . next hstatus =>
      exact ⟨⟨fun hf => absurd hf (by decide), fun hf => absurd hf hstatus⟩,
        fun hf => absurd hf (by decide)⟩
    . next hstatus =>
      have hstatus := not_not.mp hstatus
      obtain ⟨hpos, hle⟩ := h.done (by omega) hstatus
      exact ⟨⟨fun _ => hstatus, fun _ => hpos⟩, fun _ => ⟨rfl, hle⟩⟩

/--
`usb_control_msg` returns, whatever the controller does, and what it returns agrees with the status of
the device, if the token that is left in the overlay does not count more bytes than were asked for.
-/
theorem usbControlMsg_reports {σ : Type} {w : EhciWorld σ} {place : Placement} {u : Usb} {e : Ehci}
    {s : σ} {dev : Fin 32} {pipe : BitVec 32} {request requesttype : Byte}
    {value index size : BitVec 16} {data : Buffer} {timeout : Nat}
    {r : Except Stop ((Int × List Byte) × Usb)} {t : Ehci × (σ × List (EhciEvent σ))}
    (hworld : ∀ o s x t, ¬w o s (.error x) t) (htype : usbPipetype pipe = pipeControl)
    (htimeout : timeout ≠ 0)
    (hparent : backend e.rootdev pipe = .async → ∃ p, (u.usbDev dev).parent = .dev p)
    (hr : (usbControlMsg dev pipe request requesttype value index data size timeout).Run
      (hcdWorld w.traced place) u (e, (s, [])) r t)
    (htoken : ∀ token ∈ completion? t.2.2, tokenBytes token ≤ size.toNat)
    : ∃ n bytes v, r = .ok ((n, bytes), v) ∧ ControlReports size.toNat n (v.usbDev dev) := by
  have hwp : wp (hcdWorld w.traced place)
      (usbControlMsg dev pipe request requesttype value index data size timeout)
      (fun r v t =>
        (∀ token ∈ completion? t.2.2, tokenBytes token ≤ size.toNat) →
          ControlReports size.toNat r.1 (v.usbDev dev))
      (fun _ _ => False) u (e, (s, [])) := by
    rw [wp_usbControlMsg htimeout]
    dsimp only
    generalize hx : (⟨(u.waiting dev ⟨requesttype, request, value, index, size⟩).usbDev, dev, pipe, data,
      size.toNat, some ⟨requesttype, request, value, index, size⟩⟩ : Transfer) = x
    have hdev : x.usbDev x.dev = { u.usbDev dev with status := usbStNotProc } := by
      rw [← hx]
      apply Usb.setDev_same
    have hpipe : x.pipe = pipe := by rw [← hx]
    have hlength : x.length = size.toNat := by rw [← hx]
    have hsetup : x.setup = some ⟨requesttype, request, value, index, size⟩ := by rw [← hx]
    have hsubmit := wp_submitTransfer_settled (e := e) (s := (s, [])) place hworld hsetup
      (by rw [hpipe, htype]) (by rw [hdev]) (by rw [hdev, hpipe]; exact hparent)
    rw [hlength] at hsubmit
    intro t
    constructor
    . rintro y ⟨bytes, hrun, -⟩ hbytes
      rw [Usb.setDev_same]
      exact (wp_run hsubmit hrun hbytes).reports
    . intro x hrun
      exact wp_run_error hsubmit hrun
  match r with
  | .ok ((n, bytes), v) => exact ⟨n, bytes, v, rfl, wp_run hwp hr htoken⟩
  | .error x => exact (wp_run_error hwp hr).elim

theorem usbControlMsg_reports_full
    : ∃ (e : Ehci) (s : Agent) (l : List (EhciEvent Agent)) (n : Int) (bytes : List Byte) (v : Usb),
        controlRead64.Run (hcdWorld agentWorld.traced .zero) waitingUsb (.boot, (.boot, []))
          (.ok ((n, bytes), v)) (e, (s, l)) ∧
        ControlReports 64 n (v.usbDev 1) := by
  obtain ⟨⟨n, bytes⟩, v, ⟨e, s, l⟩, hr, hp⟩ :=
    exists_run_of_check
      (hcdHandler_serves (World.tracedHandler_serves (agentHandler_serves (some fun _ => 64))) .zero
        fun _ => []).offers
      (m := controlRead64) (u := waitingUsb) (s := (.boot, (.boot, [])))
      (p := fun _ _ t => decide (completion? t.2.2 = some 0)) (by decide +kernel)
  have htoken : ∀ token ∈ completion? l, tokenBytes token ≤ (64#16).toNat := by
    rw [show completion? l = _ from of_decide_eq_true hp]
    rintro _ ⟨⟩
    decide
  obtain ⟨n, bytes, v, hok, hreports⟩ := usbControlMsg_reports (fun _ _ _ _ => World.interleaved_error)
    (by decide) (by decide) (fun _ => ⟨0, rfl⟩) hr htoken
  cases hok
  exact ⟨e, s, l, n, bytes, v, hr, hreports⟩

/-!
### `usb_bulk_msg`
-/

/--
What `usb_bulk_msg` is to return and to store in `*actual_length` when the submission returned `ret` and
left `d` and the token `completion`.
-/
structure BulkReports (len n : Int) (actual : Option Int) (ret : Int) (d : UsbDevice)
    (completion : Option (BitVec 32)) : Prop where
  success : n = 0 ↔ 0 ≤ ret ∧ d.status = 0
  failure : n ≠ 0 → n < 0
  actual : n = 0 → ∃ token ∈ completion, actual = some (len - tokenBytes token)

section

variable {σ : Type} {w : EhciWorld σ}

theorem wp_submitTransfer_bulk (place : Placement) {x : Transfer} {e : Ehci}
    {s : σ × List (EhciEvent σ)} (hsetup : x.setup = none) (htype : usbPipetype x.pipe = pipeBulk)
    : wp w.traced (submitTransfer place x)
        (fun r _ t =>
          AsyncOutcome (x.usbDev x.dev) x.pipe x.length (completion? t.2) (r.1, r.2.1))
        (fun _ _ => True) e s := by
  unfold submitTransfer
  rw [hsetup]
  dsimp only
  unfold submitBulkMsg
  rw [if_neg (not_not.mpr htype), wp_bind]
  apply wp_post (wp_ehciSubmitAsync_outcome _ _ _)
  intro r e' t h
  exact h

theorem AsyncOutcome.bulkReports_iff (len : Int) {dev : UsbDevice} {pipe : BitVec 32} {length : Nat}
    {completion : Option (BitVec 32)} {r : Int × UsbDevice}
    (h : AsyncOutcome dev pipe length completion r) (hstatus : dev.status = usbStNotProc)
    : BulkReports len (if r.1 < 0 then r.1 else if r.2.status = 0 then -1 else 0)
        (if r.1 < 0 then none else some r.2.actLen) r.1 r.2 completion
        ↔
      ∀ token ∈ completion, token &&& qtTokenActive ≠ 0 := by
  have hrefused : ∀ d actual completion, BulkReports len (-1) actual (-1) d completion := by
    intro d actual completion
    refine ⟨iff_of_false (by decide) ?_, fun _ => by decide, fun hf => absurd hf (by decide)⟩
    exact fun hf => absurd hf.1 (by decide)
  cases h with
  | failed =>
    constructor
    . rintro - _ ⟨⟩
    . intro _
      apply hrefused
  | completed token =>
    dsimp only
    by_cases hactive : token &&& qtTokenActive = 0
    . obtain ⟨hproc, -⟩ := completeAsync_processed dev pipe length hactive
      rw [if_pos hproc]
      constructor
      . intro hreports
        exfalso
        -- the status is tested the wrong way round
        by_cases hzero : (completeAsync dev pipe length token).status = 0
        . have := hreports.success.mpr ⟨Int.le_refl 0, hzero⟩
          rw [if_neg (by decide), if_pos hzero] at this
          exact absurd this (by decide)
        . have := hreports.success.mp (by rw [if_neg (by decide), if_neg hzero])
          exact hzero this.2
      . intro h
        exact absurd hactive (h token rfl)
    . have hsame := completeAsync_active dev pipe length hactive
      rw [hstatus] at hsame
      rw [if_neg (not_not.mpr hsame)]
      constructor
      . rintro - _ ⟨⟩
        exact hactive
      . intro _
        apply hrefused

end

theorem wp_usbBulkMsg_reports {σ : Type} {w : EhciWorld σ} {place : Placement} {u : Usb} {e : Ehci}
    {s : σ} {dev : Fin 32} {pipe : BitVec 32} {data : Buffer} {len : Int} (hlen : 0 ≤ len)
    (htype : usbPipetype pipe = pipeBulk)
    : wp (hcdWorld w.traced place).traced (usbBulkMsg dev pipe data len)
        (fun r v t => ∃ x y, t.2 = [⟨(e, (s, [])), .submit x, .ok y⟩] ∧
          (BulkReports len r.1 r.2 y.ret (v.usbDev dev) (completion? t.1.2.2)
              ↔
            ∀ token ∈ completion? t.1.2.2, token &&& qtTokenActive ≠ 0))
        (fun _ _ => True) u ((e, (s, [])), []) := by
  unfold usbBulkMsg
  rw [if_neg (by omega), wp_bind, wp_modifyDev, wp_bind, wp_submit]
  dsimp only
  generalize hx : (⟨(u.setDev dev { u.usbDev dev with status := usbStNotProc }).usbDev, dev, pipe, data,
    len.toNat, none⟩ : Transfer) = x
  have hdev : x.usbDev x.dev = { u.usbDev dev with status := usbStNotProc } := by
    rw [← hx]
    apply Usb.setDev_same
  have hsetup : x.setup = none := by rw [← hx]
  have hpipe : x.pipe = pipe := by rw [← hx]
  have hsubmit := wp_submitTransfer_bulk (w := w) (e := e) (s := (s, [])) place hsetup
    (by rw [hpipe, htype])
  intro t
  constructor
  . rintro y ⟨⟨bytes, hrun, -⟩, htrace⟩
    have houtcome := wp_run hsubmit hrun
    have hiff := houtcome.bulkReports_iff len (by rw [hdev])
    dsimp only at hiff
    split
    . next hneg =>
      refine ⟨x, y, htrace, ?_⟩
      rw [if_pos hneg, if_pos hneg] at hiff
      rw [Usb.setDev_same]
      exact hiff
    . next hneg =>
      rw [if_neg hneg, if_neg hneg] at hiff
      rw [wp_bind, wp_getDev, Usb.setDev_same]
      split
      . next hzero =>
        refine ⟨x, y, htrace, ?_⟩
        rw [if_pos hzero] at hiff
        rw [Usb.setDev_same]
        exact hiff
      . next hzero =>
        refine ⟨x, y, htrace, ?_⟩
        rw [if_neg hzero] at hiff
        rw [Usb.setDev_same]
        exact hiff
  . intro _ _
    trivial

/--
`usb_bulk_msg` reports what became of the transfer if and only if the controller left no token that it
is through with, in which case the submission is refused.
-/
theorem usbBulkMsg_reports_iff {σ : Type} {w : EhciWorld σ} {place : Placement} {u v : Usb} {e : Ehci}
    {s : σ} {dev : Fin 32} {pipe : BitVec 32} {data : Buffer} {len n : Int} {actual : Option Int}
    {t : Ehci × (σ × List (EhciEvent σ))} {l : List (HcdEvent (Ehci × (σ × List (EhciEvent σ))))}
    (hlen : 0 ≤ len) (htype : usbPipetype pipe = pipeBulk)
    (hr : (usbBulkMsg dev pipe data len).Run (hcdWorld w.traced place).traced u ((e, (s, [])), [])
      (.ok ((n, actual), v)) (t, l))
    : ∃ x y, l = [⟨(e, (s, [])), .submit x, .ok y⟩] ∧
        (BulkReports len n actual y.ret (v.usbDev dev) (completion? t.2.2)
            ↔
          ∀ token ∈ completion? t.2.2, token &&& qtTokenActive ≠ 0) :=
  wp_run (wp_usbBulkMsg_reports hlen htype) hr

def bulkRead64 : UsbM (Int × Option Int) :=
  usbBulkMsg 1 (usbRcvbulkpipe waitingDevice 1) .mybuf 64

/-- The 64 bytes are received without an error, and `usb_bulk_msg` returns -1. -/
theorem bulkRead64_not_reported
    : ∃ n actual v e s l x y,
        bulkRead64.Run (hcdWorld agentWorld.traced .zero).traced waitingUsb ((.boot, (.boot, [])), [])
          (.ok ((n, actual), v)) ((e, (s, l)), [⟨(.boot, (.boot, [])), .submit x, .ok y⟩]) ∧
        s.Executed 0 ∧ (v.usbDev 1).status = 0 ∧ n = -1 ∧
        ¬BulkReports 64 n actual y.ret (v.usbDev 1) (completion? l) := by
  obtain ⟨⟨n, actual⟩, v, ⟨⟨e, s, l⟩, hcd⟩, hr, hp⟩ :=
    exists_run_of_check
      (World.tracedHandler_serves (hcdHandler_serves (World.tracedHandler_serves
        (agentHandler_serves (some fun _ => 64))) .zero fun _ => [])).offers
      (m := bulkRead64) (u := waitingUsb) (s := ((.boot, (.boot, [])), []))
      (p := fun r v t => decide (t.1.2.1.Executed 0 ∧ (v.usbDev 1).status = 0 ∧ r.1 = -1 ∧
        completion? t.1.2.2 = some 0)) (by decide +kernel)
  obtain ⟨hexec, hstatus, hn, htoken⟩ := of_decide_eq_true hp
  obtain ⟨x, y, hl, hiff⟩ := wp_run (wp_usbBulkMsg_reports (by decide) (by decide)) hr
  subst hl
  refine ⟨n, actual, v, e, s, l, x, y, hr, hexec, hstatus, hn, fun hreports => ?_⟩
  exact hiff.mp hreports 0 htoken (by decide)

theorem usbBulkMsg_reports_iff_refused
    : ∃ n actual v t l,
        bulkRead64.Run (hcdWorld agentWorld.traced .zero).traced waitingUsb ((.boot, (.boot, [])), [])
          (.ok ((n, actual), v)) (t, l) ∧
        ∃ x y, l = [⟨(.boot, (.boot, [])), .submit x, .ok y⟩] ∧
          (BulkReports 64 n actual y.ret (v.usbDev 1) (completion? t.2.2)
              ↔
            ∀ token ∈ completion? t.2.2, token &&& qtTokenActive ≠ 0) := by
  obtain ⟨⟨n, actual⟩, v, ⟨t, l⟩, hr, -⟩ :=
    exists_run_of_check
      (World.tracedHandler_serves (hcdHandler_serves (World.tracedHandler_serves
        (agentHandler_serves (some fun _ => 64))) .zero fun _ => [])).offers
      (m := bulkRead64) (u := waitingUsb) (s := ((.boot, (.boot, [])), []))
      (p := fun _ _ _ => true) (by decide +kernel)
  exact ⟨n, actual, v, t, l, hr, usbBulkMsg_reports_iff (by decide) (by decide) hr⟩
