import PureUsb.Enumeration

/-!
This module contains the tries of `hub_port_reset`, for any answers to the requests for the status of the
port.
-/

open Stateful

/-! ### The answers of the hub -/

def DevRequest.ReadsPortStatus (setup : DevRequest) : Prop :=
  setup.requesttype = (usbDirIn ||| usbRtPort) ∧ setup.request = usbReqGetStatus

instance (setup : DevRequest) : Decidable setup.ReadsPortStatus := inferInstanceAs (Decidable (_ ∧ _))

/-- `usb_get_port_status` fails, or it receives the status of the port. -/
def Submitted.Reports (y : Submitted) (answer : Option (Bytes 4)) : Prop :=
  match answer with
  | none => y.result < 0
  | some portsts => 0 ≤ y.result ∧ y.data = List.ofFn portsts

/-- The hub gives the status `answers n` the next time, and does as it likes with other requests. -/
def portStatusWorld (answers : Nat → Option (Bytes 4)) : HcdWorld Nat := fun o n r n' =>
  match o, r with
  | .submit x, .ok y =>
    if x.setup.any (·.ReadsPortStatus) then y.Reports (answers n) ∧ n' = n + 1 else n' = n
  | _, .ok _ => n' = n
  | _, .error _ => False

/-- The port is connected, and not enabled yet. -/
def PortWaits (answer : Option (Bytes 4)) : Prop :=
  ∃ portsts, answer = some portsts ∧ portStatus portsts &&& usbPortStatConnection ≠ 0 ∧
    portStatus portsts &&& usbPortStatEnable = 0 ∧ PortStable portsts

/-- The port is connected and enabled. -/
def PortWorks (answer : Option (Bytes 4)) : Prop :=
  ∃ portsts, answer = some portsts ∧ PortEnabled portsts ∧ PortStable portsts

/-!
### The requests
-/

def resetRequest (port : Int) : DevRequest :=
  ⟨usbRtPort, usbReqSetFeature, usbPortFeatReset, BitVec.ofInt 16 (port + 1), 0⟩

def statusRequest (port : Int) : DevRequest :=
  ⟨usbDirIn ||| usbRtPort, usbReqGetStatus, 0, BitVec.ofInt 16 (port + 1), 4⟩

def clearResetRequest (port : Int) : DevRequest :=
  ⟨usbRtPort, usbReqClearFeature, usbPortFeatCReset, BitVec.ofInt 16 (port + 1), 0⟩

def triesRequests (port : Int) (n : Nat) : List DevRequest :=
  (List.replicate n [resetRequest port, statusRequest port]).flatten

def requests {σ : Type} (l : List (HcdEvent σ)) : List DevRequest := (exchanges l).map (·.setup)

theorem triesRequests_succ (port : Int) (n : Nat)
    : triesRequests port (n + 1) = triesRequests port n ++ [resetRequest port] ++ [statusRequest port] := by
  unfold triesRequests
  rw [List.replicate_succ', List.flatten_append, List.append_assoc]
  rfl

section

variable {answers : Nat → Option (Bytes 4)} {dev : Fin 32} {u : Usb} {s : Nat × List (HcdEvent Nat)}
variable {pipe : BitVec 32} {request requesttype : Byte} {value index size : BitVec 16} {data : Buffer}
variable {timeout : Nat} {setup : DevRequest}

theorem requests_submit {n : Nat} {l : List (HcdEvent Nat)} {x : Transfer} {y : Submitted}
    (hx : x.setup = some setup)
    : requests (l ++ [⟨n, .submit x, .ok y⟩]) = requests l ++ [setup] := by
  have hexchange := Event.exchange?_submit (s := n) (r := y) hx
  simp [requests, exchanges, hexchange]

theorem requests_stack {n m : Nat} {l : List (HcdEvent Nat)} {b : Except Stop (Bytes n)}
    : requests (l ++ [⟨m, .stack n, b⟩]) = requests l := by
  unfold requests exchanges
  rw [List.filterMap_append, List.map_append]
  exact List.append_nil _

theorem wp_usbControlMsg_request (hsetup : setup = ⟨requesttype, request, value, index, size⟩)
    (htimeout : timeout ≠ 0) (hother : ¬setup.ReadsPortStatus)
    : wp (portStatusWorld answers).traced (usbControlMsg dev pipe request requesttype value index data size timeout)
        (fun _ _ t => t.1 = s.1 ∧ requests t.2 = requests s.2 ++ [setup]) (fun _ _ => False) u s := by
  apply wp_usbControlMsg_event setup hsetup htimeout
  . intro y t hy
    refine ⟨?_, requests_submit rfl⟩
    unfold portStatusWorld at hy
    dsimp only at hy
    rwa [if_neg (by simpa [Usb.request] using hother)] at hy
  . exact fun _ _ hf => hf

theorem wp_usbSetPortFeature_request (port : Int) (feature : BitVec 16)
    : wp (portStatusWorld answers).traced (usbSetPortFeature dev port feature)
        (fun _ _ t => t.1 = s.1 ∧
          requests t.2 = requests s.2 ++ [⟨usbRtPort, usbReqSetFeature, feature, BitVec.ofInt 16 port, 0⟩])
        (fun _ _ => False) u s := by
  unfold usbSetPortFeature
  rw [wp_bind, wp_getDev, wp_bind]
  exact wp_usbControlMsg_request rfl (by decide) fun h => absurd h.2 (show usbReqSetFeature ≠ _ by decide)

theorem wp_usbClearPortFeature_request (port : Int) (feature : BitVec 16)
    : wp (portStatusWorld answers).traced (usbClearPortFeature dev port feature)
        (fun _ _ t => t.1 = s.1 ∧
          requests t.2 = requests s.2 ++ [⟨usbRtPort, usbReqClearFeature, feature, BitVec.ofInt 16 port, 0⟩])
        (fun _ _ => False) u s := by
  unfold usbClearPortFeature
  rw [wp_bind, wp_getDev, wp_bind]
  exact wp_usbControlMsg_request rfl (by decide) fun h => absurd h.2 (show usbReqClearFeature ≠ _ by decide)

theorem wp_usbGetPortStatus_request (port : Int)
    : wp (portStatusWorld answers).traced (usbGetPortStatus dev (port + 1))
        (fun r _ t => t.1 = s.1 + 1 ∧ requests t.2 = requests s.2 ++ [statusRequest port] ∧
          (r.1 < 0 ∧ answers s.1 = none ∨
            ∃ portsts, ¬r.1 < 0 ∧ r.2 = List.ofFn portsts ∧ answers s.1 = some portsts))
        (fun _ _ => False) u s := by
  unfold usbGetPortStatus
  rw [wp_bind, wp_getDev]
  apply wp_usbControlMsg_event (statusRequest port) rfl (by decide)
  . intro y t hy
    unfold portStatusWorld at hy
    dsimp only at hy
    have hreads : (statusRequest port).ReadsPortStatus := ⟨rfl, rfl⟩
    rw [if_pos (by simpa [Usb.request] using hreads)] at hy
    obtain ⟨hreports, ht⟩ := hy
    refine ⟨ht, requests_submit rfl, ?_⟩
    unfold Submitted.Reports at hreports
    cases hanswer : answers s.1 with
    | none =>
      rw [hanswer] at hreports
      exact .inl ⟨hreports, rfl⟩
    | some portsts =>
      rw [hanswer] at hreports
      exact .inr ⟨portsts, Int.not_lt.mpr hreports.1, hreports.2, rfl⟩
  . exact fun _ _ hf => hf

end

/-!
### The tries
-/

/-- How the tries end: how many there were, and the status of the port if it works. -/
inductive TriesEnd (answers : Nat → Option (Bytes 4)) (tries : Nat) : Nat → Option (BitVec 16) → Prop where
  | works {n : Nat} {portsts : Bytes 4} : n < tries → (∀ i < n, PortWaits (answers i)) →
      answers n = some portsts → PortEnabled portsts → PortStable portsts →
      TriesEnd answers tries (n + 1) (some (portStatus portsts))
  | fails {n : Nat} : n < tries → (∀ i < n, PortWaits (answers i)) → ¬PortWaits (answers n) →
      ¬PortWorks (answers n) → TriesEnd answers tries (n + 1) none
  | waits : (∀ i < tries, PortWaits (answers i)) → TriesEnd answers tries tries none

theorem connected_of_answer {answer : Option (Bytes 4)} (h : PortWaits answer ∨ PortWorks answer)
    : ∃ portsts, answer = some portsts ∧ portStatus portsts &&& usbPortStatConnection ≠ 0 ∧
        PortStable portsts := by
  rcases h with ⟨portsts, ha, hconnection, -, hstable⟩ | ⟨portsts, ha, ⟨hconnection, -⟩, hstable⟩
  . exact ⟨portsts, ha, hconnection, hstable⟩
  . exact ⟨portsts, ha, hconnection, hstable⟩

theorem TriesEnd.of_not_connected {answers : Nat → Option (Bytes 4)} {tries n : Nat} (hlt : n < tries)
    (hwaits : ∀ i < n, PortWaits (answers i))
    (hgone : ∀ portsts, answers n = some portsts →
      ¬(portStatus portsts &&& usbPortStatConnection ≠ 0 ∧ PortStable portsts))
    : TriesEnd answers tries (n + 1) none := by
  have hneither : ¬(PortWaits (answers n) ∨ PortWorks (answers n)) := by
    intro h
    obtain ⟨portsts, ha, hthere⟩ := connected_of_answer h
    exact hgone portsts ha hthere
  obtain ⟨hnotWaits, hnotWorks⟩ := not_or.mp hneither
  exact .fails hlt hwaits hnotWaits hnotWorks

section

variable {answers : Nat → Option (Bytes 4)} {dev : Fin 32} {port : Int} {u : Usb}
variable {s : Nat × List (HcdEvent Nat)}

theorem wp_hubPortResetTries_end {tries total : Nat} (htotal : s.1 + tries = total)
    (hwaits : ∀ i < s.1, PortWaits (answers i)) (hrequests : requests s.2 = triesRequests port s.1)
    (portsts : Bytes 4)
    : wp (portStatusWorld answers).traced (hubPortResetTries dev port portsts tries)
        (fun r _ t => TriesEnd answers total t.1 r ∧ requests t.2 = triesRequests port t.1)
        (fun _ _ => False) u s := by
  induction tries generalizing portsts u s with
  | zero =>
    subst htotal
    exact ⟨.waits hwaits, hrequests⟩
  | succ tries ih =>
    unfold hubPortResetTries
    rw [wp_bind]
    refine wp_post (wp_usbSetPortFeature_request _ _) ?_
    rintro _ v t ⟨ht, hreset⟩
    rw [wp_bind]
    refine wp_post (wp_usbGetPortStatus_request port) ?_
    rintro ⟨ret, bytes⟩ v' t' ⟨ht', hstatus, hanswer⟩
    have hsent : requests t'.2 = triesRequests port t'.1 := by
      rw [ht', ht, triesRequests_succ, hstatus, hreset, hrequests]
      rfl
    have hlt : s.1 < total := by omega
    rw [ht] at hanswer ht'
    rw [ht'] at hsent
    dsimp only at hanswer ⊢
    rcases hanswer with ⟨hret, hnone⟩ | ⟨portsts', hret, hbytes, hsome⟩
    . rw [if_pos hret]
      refine ⟨ht' ▸ .of_not_connected hlt hwaits ?_, ht' ▸ hsent⟩
      intro _ hsome
      cases hnone.symm.trans hsome
    . rw [if_neg hret, hbytes, Bytes.write_ofFn]
      split
      . next hgone =>
        refine ⟨ht' ▸ .of_not_connected hlt hwaits ?_, ht' ▸ hsent⟩
        rintro _ hanswer ⟨hconnection, hstable⟩
        cases hsome.symm.trans hanswer
        exact hgone.elim (fun h => h hstable) hconnection
      . next hthere =>
        obtain ⟨hchange, hconnection⟩ := not_or.mp hthere
        have hstable : PortStable portsts' := not_not.mp hchange
        split
        . next henable =>
          exact ⟨ht' ▸ .works hlt hwaits hsome ⟨hconnection, henable⟩ hstable, ht' ▸ hsent⟩
        . next henable =>
          apply ih
          . omega
          . intro i hi
            rcases Nat.lt_or_eq_of_le (Nat.le_of_lt_succ (ht' ▸ hi)) with hlt | rfl
            . exact hwaits i hlt
            . exact ⟨portsts', hsome, hconnection, not_not.mp henable, hstable⟩
          . rw [ht']
            exact hsent

/-- What `hub_port_reset` returns, what it stores in `*portstat` and which requests it sends. -/
structure ResetExact (answers : Nat → Option (Bytes 4)) (port ret : Int) (portstat : Option (BitVec 16))
    (sent : List DevRequest) : Prop where
  returns : ret = 0 ↔ ∃ k < maxTries, (∀ i < k, PortWaits (answers i)) ∧ PortWorks (answers k)
  success : ∀ k < maxTries, (∀ i < k, PortWaits (answers i)) → PortWorks (answers k) →
    portstat = (answers k).map portStatus ∧ sent = triesRequests port (k + 1) ++ [clearResetRequest port]
  failure : ret ≠ 0 → ret = -1 ∧ portstat = none ∧
    ∃ n ≤ maxTries, sent = triesRequests port n ∧ ∀ i, i + 1 < n → PortWaits (answers i)

theorem PortWorks.not_waits {answer : Option (Bytes 4)} (h : PortWorks answer) : ¬PortWaits answer := by
  rintro ⟨portsts, hanswer, -, hdisabled, -⟩
  obtain ⟨portsts', hanswer', ⟨-, henable⟩, -⟩ := h
  cases hanswer.symm.trans hanswer'
  exact henable hdisabled

theorem eq_of_first {k n : Nat} (hk : ∀ i < k, PortWaits (answers i)) (hk' : ¬PortWaits (answers k))
    (hn : ∀ i < n, PortWaits (answers i)) (hn' : ¬PortWaits (answers n))
    : k = n := by
  rcases Nat.lt_trichotomy k n with h | h | h
  . exact absurd (hn k h) hk'
  . exact h
  . exact absurd (hk n h) hn'

theorem TriesEnd.exact_none {n : Nat} (h : TriesEnd answers maxTries n none)
    : ResetExact answers port (-1) none (triesRequests port n) := by
  have hfailure : ∃ n' ≤ maxTries, triesRequests port n = triesRequests port n' ∧
      ∀ i, i + 1 < n' → PortWaits (answers i) := by
    cases h with
    | fails hlt hwaits _ _ => exact ⟨_, hlt, rfl, fun i hi => hwaits i (by omega)⟩
    | waits hwaits => exact ⟨_, Nat.le_refl _, rfl, fun i hi => hwaits i (by omega)⟩
  have hnever : ¬∃ k < maxTries, (∀ i < k, PortWaits (answers i)) ∧ PortWorks (answers k) := by
    rintro ⟨k, hk, hwaits', hworks⟩
    cases h with
    | fails hlt hwaits hnot hnot' =>
      cases eq_of_first hwaits' hworks.not_waits hwaits hnot
      exact hnot' hworks
    | waits hwaits => exact hworks.not_waits (hwaits k hk)
  refine ⟨iff_of_false (by decide) hnever, ?_, fun _ => ⟨rfl, rfl, hfailure⟩⟩
  intro k hk hwaits hworks
  exact absurd ⟨k, hk, hwaits, hworks⟩ hnever

theorem TriesEnd.exact_some {n : Nat} {status : BitVec 16} (h : TriesEnd answers maxTries n (some status))
    : ResetExact answers port 0 (some status) (triesRequests port n ++ [clearResetRequest port]) := by
  cases h with
  | @works n portsts hlt hwaits hanswer henabled hstable =>
    have hworks : PortWorks (answers n) := ⟨portsts, hanswer, henabled, hstable⟩
    refine ⟨iff_of_true rfl ⟨n, hlt, hwaits, hworks⟩, ?_, fun hf => absurd rfl hf⟩
    intro k _ hwaits' hworks'
    cases eq_of_first hwaits' hworks'.not_waits hwaits hworks.not_waits
    rw [hanswer]
    exact ⟨rfl, rfl⟩

theorem wp_hubPortReset_exact (answers : Nat → Option (Bytes 4)) (dev : Fin 32) (port : Int) (u : Usb)
    {l : List (HcdEvent Nat)} (hl : requests l = [])
    : wp (portStatusWorld answers).traced (hubPortReset dev port)
        (fun r _ t => ResetExact answers port r.1 r.2 (requests t.2)) (fun _ _ => False) u (0, l) := by
  unfold hubPortReset
  rw [wp_bind, wp_ask]
  rintro ⟨n, l'⟩
  refine ⟨?_, fun _ hf => hf.1⟩
  rintro portsts ⟨hn, hl'⟩
  have hn : n = 0 := hn
  have hl' : l' = l ++ [_] := hl'
  have hnone : requests l' = triesRequests port n := by
    rw [hl', hn, requests_stack, hl]
    rfl
  rw [wp_bind]
  have htotal : n + maxTries = maxTries := by
    rw [hn, Nat.zero_add]
  refine wp_post (wp_hubPortResetTries_end htotal ?_ hnone portsts) ?_
  . rw [hn]
    exact fun i hi => absurd hi (Nat.not_lt_zero i)
  rintro (_ | status) v t ⟨hend, hsent⟩
  . show ResetExact answers port (-1) none (requests t.2)
    rw [hsent]
    exact hend.exact_none
  . rw [wp_bind]
    refine wp_post (wp_usbClearPortFeature_request _ _) ?_
    rintro _ v' t' ⟨-, hclear⟩
    show ResetExact answers port 0 (some status) (requests t'.2)
    rw [hclear, hsent]
    exact hend.exact_some

/-- The loop of `hub_port_reset`, for any sequence of answers. -/
theorem hubPortReset_exact {r : Except Stop ((Int × Option (BitVec 16)) × Usb)} {n : Nat}
    {l : List (HcdEvent Nat)}
    (hr : (hubPortReset dev port).Run (portStatusWorld answers).traced u (0, []) r (n, l))
    : ∃ ret portstat v, r = .ok ((ret, portstat), v) ∧ ResetExact answers port ret portstat (requests l) := by
  have hnone : requests ([] : List (HcdEvent Nat)) = [] := rfl
  have hexact := wp_hubPortReset_exact answers dev port u hnone
  match r with
  | .ok ((ret, portstat), v) =>
    have hend := wp_run hexact hr
    exact ⟨ret, portstat, v, rfl, hend⟩
  | .error e => exact absurd (wp_run_error hexact hr) id

end

/-- A hub that gives these answers, and does whatever else it is asked to. -/
def portStatusHandler (answers : Nat → Option (Bytes 4)) (o : HcdOp) (n : Nat) : Except Stop (HcdAns o) × Nat :=
  match o with
  | .submit x =>
    if x.setup.any (·.ReadsPortStatus) then
      match answers n with
      | some portsts => (.ok ⟨0, { x.usbDev x.dev with status := 0, actLen := 4 }, List.ofFn portsts⟩, n + 1)
      | none => (.ok x.stalls, n + 1)
    else
      (.ok (x.sends []), n)
  | .stack _ => (.ok .zero, n)
  | .parsing _ _ => (.ok (), n)
  | .copyingHub _ _ => (.ok (), n)

theorem portStatusHandler_serves (answers : Nat → Option (Bytes 4))
    : Prog.Serves (portStatusHandler answers) (portStatusWorld answers) := by
  intro o n
  cases o with
  | submit x =>
    unfold portStatusHandler portStatusWorld
    dsimp only
    by_cases hreads : x.setup.any (·.ReadsPortStatus) = true
    . rw [if_pos hreads]
      cases hanswer : answers n with
      | some portsts =>
        dsimp only
        rw [if_pos hreads]
        exact ⟨⟨show (0 : Int) ≤ 4 by decide, rfl⟩, rfl⟩
      | none =>
        dsimp only
        rw [if_pos hreads]
        exact ⟨show (-1 : Int) < 0 by decide, rfl⟩
    . rw [if_neg hreads]
      dsimp only
      rw [if_neg hreads]
  | stack n => rfl
  | parsing dev buffer => rfl
  | copyingHub dev buffer => rfl

def secondTry (n : Nat) : Option (Bytes 4) :=
  some (Bytes.zero.write 0 [if n = 0 then 1 else 3, 1, 0x10, 0])

theorem hubPortReset_exact_second
    : ∃ (v : Usb) (n : Nat) (l : List (HcdEvent Nat)),
        (hubPortReset 0 0).Run (portStatusWorld secondTry).traced attachedUsb (0, []) (.ok ((0, some 0x0103), v))
          (n, l) ∧
        requests l = triesRequests 0 2 ++ [clearResetRequest 0] := by
  have hr := run_exec (World.tracedHandler_serves (portStatusHandler_serves secondTry)) (hubPortReset 0 0) attachedUsb
    (0, [])
  obtain ⟨ret, portstat, v, hv, hexact⟩ := hubPortReset_exact hr
  have hwaits : ∀ i < 1, PortWaits (secondTry i) := by
    intro i hi
    obtain rfl := Nat.lt_one_iff.mp hi
    exact ⟨_, rfl, by decide, by decide, by decide⟩
  have hworks : PortWorks (secondTry 1) := ⟨_, rfl, by decide, by decide⟩
  have hret : ret = 0 := hexact.returns.mpr ⟨1, by decide, hwaits, hworks⟩
  obtain ⟨hstat, hsent⟩ := hexact.success 1 (by decide) hwaits hworks
  rw [hv, hret, hstat] at hr
  exact ⟨v, _, _, hr, hsent⟩
