import PureUsb.Ehci.Transfer
import PureUsb.Hcd

/-!
This module contains the length that `usb_control_msg` reports for a control transfer with a DATA
stage.
-/

open Stateful

section

variable {place : Placement} {u : Usb} {e : Ehci} {s : Agent × List (EhciEvent Agent)}
variable {dev : Fin 32} {pipe : BitVec 32}

theorem wp_submitTransfer_carriedOut {usbDev : UsbTable} {data : Buffer} {length : Nat}
    {setup : DevRequest} (hidle : s.1.Idle) (hasync : backend e.rootdev pipe = .async)
    (hlength : 0 < length)
    : wp agentWorld.traced (submitTransfer place ⟨usbDev, dev, pipe, data, length, some setup⟩)
        (fun r _ t => (∀ i, t.1.Executed i) → CarriedOut length (r.1, r.2.1) (told t.2)) (fun _ _ => True)
        e s := by
  unfold submitTransfer submitControlMsg
  dsimp only
  split
  . exact fun hexec => absurd (congrFun hidle.moved 0) (hexec 0).1
  . rw [wp_bind, wp_get, hasync]
    dsimp only
    rw [wp_bind]
    exact wp_post (wp_ehciSubmitAsync_outcome_agent hidle) fun _ _ _ h => h.carriedOut hlength

theorem wp_usbControlMsg_carriedOut {request requesttype : Byte} {value index size : BitVec 16}
    {data : Buffer} {timeout : Nat}
    (hidle : s.1.Idle) (hasync : backend e.rootdev pipe = .async) (hsize : 0 < size.toNat)
    : wp (hcdWorld agentWorld.traced place)
        (usbControlMsg dev pipe request requesttype value index data size timeout)
        (fun r u' t => (∀ i, t.2.1.Executed i) →
          ((told t.2.2).GaveUp → r.1 < 0) ∧
            (¬(told t.2.2).GaveUp → r.1 = size.toNat ∧ (u'.usbDev dev).actLen = size.toNat))
        (fun _ _ => True) u (e, s) := by
  unfold usbControlMsg
  rw [wp_bind, wp_get]
  split
  . exact fun hexec => absurd (congrFun hidle.moved 0) (hexec 0).1
  . simp only [wp_bind, wp_modify, wp_modifyDev]
    refine wp_submit_hcd (E := fun _ _ => True) ?_
    refine wp_post (wp_submitTransfer_carriedOut hidle hasync hsize) ?_
    rintro ⟨ret, dev', data'⟩ e' t h bytes
    dsimp only at h ⊢
    split
    . next hneg =>
      intro hexec
      refine ⟨fun _ => hneg, fun hfree => ?_⟩
      have := ((h hexec).done hfree).1
      omega
    . next hneg =>
      have hfree : (∀ i, t.1.Executed i) → ¬(told t.2).GaveUp :=
        fun hexec hgave => hneg ((h hexec).gaveUp hgave)
      split
      . intro hexec
        refine ⟨fun hgave => absurd hgave (hfree hexec), fun hfree => ⟨rfl, ?_⟩⟩
        rw [Usb.setDev_same]
        exact ((h hexec).done hfree).2.2
      . simp only [wp_bind, wp_getDev, Usb.setDev_same]
        split
        . next hstatus =>
          intro hexec
          exact absurd ((h hexec).done (hfree hexec)).2.1 hstatus
        . intro hexec
          refine ⟨fun hgave => absurd hgave (hfree hexec), fun hfree => ?_⟩
          rw [Usb.setDev_same]
          exact ⟨((h hexec).done hfree).2.2, ((h hexec).done hfree).2.2⟩

end

/--
A control transfer with a DATA stage that was carried out reports the length of the DATA stage if and only if
that was the length asked for and both handshakes were answered.
-/
theorem usbControlMsg_actLen_iff {place : Placement} {u u' : Usb} {e e' : Ehci} {s : Agent}
    {t : Agent × List (EhciEvent Agent)} {dev : Fin 32} {pipe : BitVec 32} {request requesttype : Byte}
    {value index size : BitVec 16} {data : Buffer} {timeout : Nat} {ret : Int} {bytes : List Byte}
    (hidle : s.Idle) (hasync : backend e.rootdev pipe = .async) (hsize : 0 < size.toNat)
    (hr : (usbControlMsg dev pipe request requesttype value index data size timeout).Run
      (hcdWorld agentWorld.traced place) u (e, (s, [])) (.ok ((ret, bytes), u')) (e', t))
    (hexec : ∀ i, t.1.Executed i)
    : (∃ n, t.1.moved 1 = some n ∧ (u'.usbDev dev).actLen = n ∧ ret = n)
        ↔
      t.1.moved 1 = some size.toNat ∧ ¬(told t.2).GaveUp := by
  obtain ⟨hgave, hdone⟩ := wp_run (wp_usbControlMsg_carriedOut hidle hasync hsize) hr hexec
  constructor
  . rintro ⟨n, hmoved, -, hn⟩
    have hfree : ¬(told t.2).GaveUp := fun h => absurd (hgave h) (show ¬ret < 0 by omega)
    obtain ⟨hlen, -⟩ := hdone hfree
    have : n = size.toNat := by omega
    rw [hmoved, this]
    exact ⟨rfl, hfree⟩
  . rintro ⟨hmoved, hfree⟩
    obtain ⟨hlen, hactLen⟩ := hdone hfree
    exact ⟨_, hmoved, hactLen, hlen⟩

/-!
### A device that answers
-/

def Placement.zero : Placement := ⟨fun _ => 0, 0⟩

def waitingUsb : Usb where
  usbDev := fun k => if k = 1 then { waitingDevice with parent := .dev 0 } else .zero
  usbDevAddr := 0
  gDevIndex := 2
  running := 0
  asynchAllowed := 1
  usbStarted := 1
  setupPacket := ⟨0, 0, 0, 0, 0⟩

def controlRead64 : UsbM (Int × List Byte) :=
  usbControlMsg 1 (usbRcvctrlpipe waitingDevice 0) usbReqGetDescriptor usbDirIn 0x100 0 .tmpbuf 64
    usbCntlTimeout

/-- 18 of 64 bytes are sent, as by most devices that are asked for their device descriptor. -/
theorem controlRead64_short
    : ∃ ret bytes u e t,
        controlRead64.Run (hcdWorld agentWorld .zero) waitingUsb (.boot, .boot)
          (.ok ((ret, bytes), u)) (e, t) ∧
        (∀ i, t.Executed i) ∧ t.moved 1 = some 18 ∧ (u.usbDev 1).actLen = 64 ∧ ret = 64 := by
  obtain ⟨⟨ret, bytes⟩, u, ⟨e, t⟩, hr, hp⟩ :=
    exists_run_of_check (hcdHandler_serves (agentHandler_serves (some fun _ => 18)) .zero fun _ => []).offers
      (m := controlRead64) (u := waitingUsb) (s := (.boot, .boot))
      (p := fun r u st => decide ((∀ i, st.2.Executed i) ∧ st.2.moved 1 = some 18 ∧
        (u.usbDev 1).actLen = 64 ∧ r.1 = 64)) (by decide +kernel)
  exact ⟨ret, bytes, u, e, t, hr, of_decide_eq_true hp⟩

/-- All 64 bytes are sent. -/
theorem usbControlMsg_actLen_iff_full
    : ∃ ret bytes u e t,
        controlRead64.Run (hcdWorld agentWorld.traced .zero) waitingUsb (.boot, (.boot, []))
          (.ok ((ret, bytes), u)) (e, t) ∧
        ((∃ n, t.1.moved 1 = some n ∧ (u.usbDev 1).actLen = n ∧ ret = n)
            ↔
          t.1.moved 1 = some 64 ∧ ¬(told t.2).GaveUp) := by
  have hserves := World.tracedHandler_serves (agentHandler_serves (some fun _ => 64))
  obtain ⟨⟨ret, bytes⟩, u, ⟨e, t⟩, hr, hp⟩ :=
    exists_run_of_check (hcdHandler_serves hserves .zero fun _ => []).offers
      (m := controlRead64) (u := waitingUsb) (s := (.boot, (.boot, [])))
      (p := fun _ _ st => decide (∀ i, st.2.1.Executed i)) (by decide +kernel)
  have hasync : backend 0 (usbRcvctrlpipe waitingDevice 0) = .async := by decide
  exact ⟨ret, bytes, u, e, t, hr,
    usbControlMsg_actLen_iff Agent.idle_boot hasync (by decide : 0 < (64#16).toNat) hr (of_decide_eq_true hp)⟩
