import PureUsb.Ehci.Lemmas.Transfer

/-!
This module contains what the result of a transfer over the asynchronous schedule says about the
transfer: when a reported success is one, and what the reported length is.
-/

open Stateful

theorem tokenStatus_ne_zero (token : BitVec 32) : tokenStatus token ≠ 0 := by
  unfold tokenStatus
  split
  . decide
  . split
    . decide
    . split <;> decide

/-- The status 0 is read off a token with neither the Active bit nor an error bit. -/
theorem status_completeAsync_eq_zero_iff {dev : UsbDevice} {pipe : BitVec 32} {length : Nat}
    {token : BitVec 32} (h : dev.status = usbStNotProc)
    : (completeAsync dev pipe length token).status = 0 ↔ token &&& tokenFlags = 0 := by
  unfold completeAsync
  split
  . split
    . next hflags => exact iff_of_true rfl hflags
    . next hflags => exact iff_of_false (tokenStatus_ne_zero token) hflags
  . next hactive =>
    refine iff_of_false ?_ fun hflags => hactive (active_of_flags hflags)
    show dev.status ≠ 0
    rw [h]
    decide

namespace Agent

theorem Inv.executed_iff {toks : List (BitVec 32)} {s : Agent} (h : Inv toks s)
    (hflags : s.dma.qh.qhOverlay.qtToken &&& tokenFlags = 0)
    : (∀ i : Fin 3, i < toks.length → s.Executed i)
        ↔
      s.dma.ready.isSome = false ∧ s.erred = false := by
  obtain ⟨k, hc, hidle⟩ := h.idle hflags
  rw [← Bool.not_eq_true, hidle.isSome_ready_iff hc, not_lt]
  constructor
  . intro hall
    have hk : toks.length ≤ k := by
      have hcount := hc.count
      by_contra hlt
      exact (hall ⟨k, by omega⟩ (not_le.mp hlt)).1 (hc.todo _ (Nat.le_refl k))
    exact ⟨hk, hc.clean.mpr fun i hi => (hall i (Nat.lt_of_lt_of_le hi hc.le)).2⟩
  . rintro ⟨hk, herred⟩ i hi
    obtain ⟨n, hn, -⟩ := hc.done i (by omega)
    exact ⟨by simp [hn], hc.clean.mp herred i (by omega)⟩

end Agent

/--
A transfer that returns 0 with status 0 was carried out, all qTDs of it, if and only if the schedule
did not go off with a qTD of it left to load and no qTD was retired with an error.
-/
theorem ehciSubmitAsync_executed_iff {dev dev' : UsbDevice} {parent : Option UsbDevice}
    {pipe buffer : BitVec 32} {length : Nat} {req : Option (BitVec 32)} {e e' : Ehci} {s t : Agent}
    (hidle : s.Idle) (hstatus : dev.status = usbStNotProc)
    (hr : (ehciSubmitAsync dev parent pipe buffer length req).Run agentWorld e s (.ok ((0, dev'), e')) t)
    (h0 : dev'.status = 0)
    : (∀ i : Fin 3, i < (chainTokens dev pipe length req).length → t.Executed i)
        ↔
      t.stalled = false ∧ t.erred = false := by
  obtain ⟨hinv, hstalled, hdev, -⟩ :=
    wp_run (E := fun _ _ => True) (wp_ehciSubmitAsync_agent hidle fun _ _ => trivial) hr
      (Int.le_refl 0)
  have hdev : dev' = _ := hdev
  rw [hdev, status_completeAsync_eq_zero_iff hstatus] at h0
  rw [hstalled]
  exact hinv.executed_iff h0

theorem toggle_and_bytes (x : BitVec 32) : (x <<< 31 >>> 16) &&& 0x7fff = 0 := by
  apply BitVec.eq_of_getLsbD_eq
  intro i hi
  have hzero : BitVec.getLsbD (0 : BitVec 32) i = false := BitVec.getLsbD_zero
  rw [BitVec.getLsbD_and, hzero, Bool.and_eq_false_iff]
  by_cases h : i < 15
  . left
    rw [BitVec.getLsbD_ushiftRight, BitVec.getLsbD_shiftLeft]
    simp
    omega
  . right
    apply BitVec.getLsbD_of_toNat_lt
    calc 0x7fff < 2 ^ 15 := by decide
      _ ≤ 2 ^ i := Nat.pow_le_pow_right (by decide) (by omega)

theorem tokenBytes_statusToken (toggle pipe : BitVec 32)
    : tokenBytes (statusToken toggle pipe) = 0 := by
  unfold tokenBytes statusToken
  simp only [BitVec.or_assoc]
  rw [BitVec.ushiftRight_or_distrib, BitVec.and_or_distrib_right, toggle_and_bytes]
  split <;> decide

/-- What a control transfer of `length` bytes that was carried out returns. -/
structure CarriedOut (length : Nat) (r : Int × UsbDevice) (k : Told) : Prop where
  gaveUp : k.GaveUp → r.1 < 0
  done : ¬k.GaveUp → r.1 = 0 ∧ r.2.status = 0 ∧ r.2.actLen = length

/--
The length of a control transfer with a DATA stage that was carried out is the one that was asked for: it
is computed from the token of the STATUS stage, which moves nothing.
-/
theorem AgentOutcome.carriedOut {dev : UsbDevice} {pipe req : BitVec 32} {length : Nat}
    {r : Int × UsbDevice} {t : Agent × List (EhciEvent Agent)}
    (h : AgentOutcome dev pipe length (chainTokens dev pipe length (some req)) r t) (hlength : 0 < length)
    (hexec : ∀ i, t.1.Executed i)
    : CarriedOut length r (told t.2) := by
  have htoks : chainTokens dev pipe length (some req) =
      [setupToken, dataToken 1 length true pipe, statusToken 1 pipe] := if_pos hlength
  rw [htoks] at h
  cases h with
  | refused _ hmoved => exact absurd (congrFun hmoved 0) (hexec 0).1
  | gaveUp hret hgave => exact ⟨fun _ => by omega, fun hfree => absurd hgave hfree⟩
  | completed hfree hinv _ hdev hret _ =>
    refine ⟨fun hgave => absurd hgave hfree, fun _ => ?_⟩
    have hlen : ((2 : Fin 3) : Nat) + 1 = 3 := rfl
    obtain ⟨hc, hidle⟩ := hinv.ended hlen (hexec 2).1
    obtain ⟨n, -, hbytes⟩ := hc.done 2 (by simp)
    have hlast := hidle.last 2 rfl
    have hflags : t.1.dma.qh.qhOverlay.qtToken &&& tokenFlags = 0 := by
      rw [hlast]
      exact (hexec 2).2
    have hbytes : tokenBytes t.1.dma.qh.qhOverlay.qtToken = 0 := by
      rw [hlast]
      exact Nat.eq_zero_of_add_eq_zero_right (hbytes.trans (tokenBytes_statusToken 1 pipe))
    have hstatus : r.2.status = 0 := by
      rw [hdev]
      unfold completeAsync
      rw [if_pos hidle.inactive, if_pos hflags]
    refine ⟨?_, hstatus, ?_⟩
    . rw [hret, hstatus]
      rfl
    . rw [hdev]
      unfold completeAsync
      rw [if_pos hidle.inactive]
      show (length : Int) - (tokenBytes t.1.dma.qh.qhOverlay.qtToken : Nat) = length
      omega

/-!
### Controllers that can be run
-/

/-- The token that `td[i]` gets when it moves `n` bytes, or all that it has. -/
def retiredToken (token : BitVec 32) (n : Nat) : BitVec 32 :=
  BitVec.ofNat 32 (tokenBytes token - n) <<< 16

/-- Execute the next qTD, if there is one; `moves i` is what `td[i]` moves at most. -/
def Agent.executeNext (s : Agent) (moves : Fin 3 → Nat) : Agent :=
  match s.dma.ready with
  | some i =>
    if s.ass = true ∧ s.dma.qhList.qhLink = .qh then
      let n := min (moves i) (tokenBytes (s.dma.td i).qtToken)
      { s with
        dma := (s.dma.loadTd i).writeBack i (retiredToken (s.dma.td i).qtToken n)
        moved := Function.update s.moved i (some n) }
    else
      s
  | none => s

/-- `STD_ASS` follows `CMD_ASE`. -/
def Agent.follow (s : Agent) : Agent :=
  if s.ase then { s with ass := true }
  else if s.ass then { s with ass := false, stalled := s.stalled || s.dma.ready.isSome }
  else s

/--
A controller that executes a qTD whenever the driver looks at the memory, or, with `none`, never
executes anything.
-/
def agentHandler (moves : Option (Fin 3 → Nat)) (o : EhciOp) (s : Agent)
    : Except Stop (EhciAns o) × Agent :=
  match o with
  | .readl .usbsts => (.ok (if s.follow.ass then stdAss else 0), s.follow)
  | .readl _ => (.ok 0, s)
  | .writel .usbcmd v => (.ok (), { s with ase := decide (v &&& cmdAse ≠ 0) })
  | .writel _ _ => (.ok (), s)
  | .load =>
    let t := match moves with
      | some moves => s.executeNext moves
      | none => s
    (.ok t.dma, t)
  | .store f => (.ok (), { s with dma := f s.dma })

theorem retiredToken_flags (token : BitVec 32) (n : Nat)
    : retiredToken token n &&& tokenFlags = 0 := by
  apply BitVec.eq_of_getLsbD_eq
  intro i hi
  have hzero : BitVec.getLsbD (0 : BitVec 32) i = false := BitVec.getLsbD_zero
  rw [BitVec.getLsbD_and, hzero, Bool.and_eq_false_iff]
  by_cases h : i < 16
  . left
    simp [retiredToken, h]
  . right
    apply BitVec.getLsbD_of_toNat_lt
    calc 0xfc < 2 ^ 16 := by decide
      _ ≤ 2 ^ i := Nat.pow_le_pow_right (by decide) (by omega)

theorem retiredToken_bytes (token : BitVec 32) {n : Nat} (hn : n ≤ tokenBytes token)
    : tokenBytes (retiredToken token n) + n = tokenBytes token := by
  have hlt : tokenBytes token < 2 ^ 15 := by
    unfold tokenBytes
    rw [BitVec.toNat_and]
    exact Nat.and_lt_two_pow _ (by decide)
  have : tokenBytes (retiredToken token n) = tokenBytes token - n := by
    unfold retiredToken
    generalize tokenBytes token = b at *
    unfold tokenBytes
    have hmask : BitVec.toNat (0x7fff : BitVec 32) = 2 ^ 15 - 1 := by decide
    rw [BitVec.toNat_and, BitVec.toNat_ushiftRight, BitVec.toNat_shiftLeft, BitVec.toNat_ofNat,
      Nat.shiftRight_eq_div_pow, Nat.shiftLeft_eq, hmask, Nat.and_two_pow_sub_one_eq_mod]
    omega
  omega

theorem Dma.active_of_ready {m : Dma} {i : Fin 3} (h : m.ready = some i)
    : (m.td i).qtToken &&& qtTokenActive ≠ 0 := by
  unfold ready at h
  split at h
  . cases h
  . split at h
    . split at h
      . next hactive =>
        cases h
        exact hactive
      . cases h
    . cases h

theorem Agent.follow_steps (s : Agent) : Relation.ReflTransGen Step s s.follow := by
  unfold follow
  split
  . next h => exact .single (.start h)
  . next h =>
    split
    . next h' => exact .single (.stop (by simpa using h) h')
    . exact .refl

theorem Agent.executeNext_steps (s : Agent) (moves : Fin 3 → Nat)
    : Relation.ReflTransGen Step s (s.executeNext moves) := by
  unfold executeNext
  split
  . next i hready =>
    split
    . next h =>
      have hbytes := retiredToken_bytes (s.dma.td i).qtToken
        (min_le_right (moves i) (tokenBytes (s.dma.td i).qtToken))
      have hflags := retiredToken_flags (s.dma.td i).qtToken
        (min (moves i) (tokenBytes (s.dma.td i).qtToken))
      have hstep : Step { s with dma := s.dma.loadTd i } _ :=
        .retire h.1 ⟨h.2, Dma.active_of_ready hready, rfl⟩ (active_of_flags hflags)
          (halted_of_flags hflags) hbytes
      rw [decide_eq_false (not_not.mpr hflags), Bool.or_false] at hstep
      exact .tail (.single (.load h.1 h.2 hready)) hstep
    . exact .refl
  . exact .refl

theorem agentHandler_serves (moves : Option (Fin 3 → Nat))
    : Prog.Serves (agentHandler moves) agentWorld := by
  intro o s
  unfold agentHandler
  cases o with
  | readl r =>
    cases r with
    | usbsts =>
      refine World.interleaved_ok.mpr ⟨s.follow, s.follow_steps, ?_, rfl⟩
      split
      . next h => exact iff_of_true (by decide) h
      . next h => exact iff_of_false (by decide) h
    | _ => exact World.interleaved_ok.mpr ⟨s, .refl, rfl⟩
  | writel r v => cases r <;> exact World.interleaved_ok.mpr ⟨s, .refl, rfl⟩
  | load =>
    cases moves with
    | some moves => exact World.interleaved_ok.mpr ⟨_, s.executeNext_steps moves, rfl, rfl⟩
    | none => exact World.interleaved_ok.mpr ⟨s, .refl, rfl, rfl⟩
  | store f => exact World.interleaved_ok.mpr ⟨s, .refl, rfl⟩

def Agent.boot : Agent := ⟨.boot, false, false, fun _ => none, false, false⟩

theorem Agent.idle_boot : Agent.boot.Idle := ⟨rfl, rfl, rfl, rfl, rfl⟩

def readDescriptor64 : EhciM (Int × UsbDevice) :=
  ehciSubmitAsync waitingDevice (some .zero) (usbRcvctrlpipe waitingDevice 0) 0 64 (some 0)

def tokens64 : List (BitVec 32) :=
  chainTokens waitingDevice (usbRcvctrlpipe waitingDevice 0) 64 (some 0)

/-- A controller that never executes anything. -/
theorem readDescriptor64_not_executed
    : ∃ dev e t, readDescriptor64.Run agentWorld .boot .boot (.ok ((0, dev), e)) t ∧
        dev.status = 0 ∧ ¬∀ i : Fin 3, i < tokens64.length → t.Executed i := by
  obtain ⟨⟨ret, dev⟩, e, t, hr, hp⟩ :=
    exists_run_of_check (agentHandler_serves none).offers (m := readDescriptor64) (u := .boot) (s := .boot)
      (p := fun r _ t => decide (r.1 = 0 ∧ r.2.status = 0 ∧ t.moved 0 = none)) (by decide +kernel)
  obtain ⟨rfl, hstatus, hmoved⟩ := of_decide_eq_true hp
  exact ⟨dev, e, t, hr, hstatus, fun h => (h 0 (by decide)).1 hmoved⟩

theorem readDescriptor64_executed_iff
    : ∃ dev e t, readDescriptor64.Run agentWorld .boot .boot (.ok ((0, dev), e)) t ∧
        ((∀ i : Fin 3, i < tokens64.length → t.Executed i) ↔ t.stalled = false ∧ t.erred = false) := by
  obtain ⟨⟨ret, dev⟩, e, t, hr, hp⟩ :=
    exists_run_of_check (agentHandler_serves (some fun _ => 64)).offers (m := readDescriptor64) (u := .boot)
      (s := .boot) (p := fun r _ _ => decide (r.1 = 0 ∧ r.2.status = 0)) (by decide +kernel)
  obtain ⟨rfl, hstatus⟩ := of_decide_eq_true hp
  exact ⟨dev, e, t, hr, ehciSubmitAsync_executed_iff Agent.idle_boot rfl hr hstatus⟩
