import PureUsb.Ehci.Lemmas.Ports
import PureUsb.Prog.Trace

/-!
This module contains what the emulated root hub makes of the change bits of its ports: which
requests lose a change, over single requests and over runs, and which changes can be acknowledged.
-/

open Stateful

/-!
### Changes that get lost
-/

section

variable {dev : UsbDevice} {length : Nat} {req : DevRequest} {e e' : Ehci} {s t : Ports}

/-- A change that is pending before the request and not named by it is pending afterwards. -/
def KeepsChanges (dev : UsbDevice) (length : Nat) (req : DevRequest) (e : Ehci) (s : Ports) : Prop :=
  ∀ r e' t, (ehciSubmitRoot dev length req).Run (portWorld Ports.Later) e s (.ok (r, e')) t →
    ∀ i c, Pending (s i) c → ¬req.Names i c → Pending (t i) c

/-- No pending change is written back by a request that does not name it. -/
def Careful (req : DevRequest) (s : Ports) : Prop :=
  ∀ i c, Pending (s i) c → ¬req.Loses i c

def CarefulAt (req : DevRequest) (i : Fin 2) (v : BitVec 32) : Prop := ∀ c, Pending v c → ¬req.Loses i c

/-- The first thing that a request did was to read `v` from port `i`. -/
def Found (l : List (Event EhciOp EhciAns Stop Ports)) (i : Fin 2) (v : BitVec 32) : Prop :=
  ∃ s, l.head? = some ⟨s, .readl (.portsc i), .ok v⟩

theorem not_names_of_loses {i : Fin 2} {c : Change} (h : req.Loses i c) : ¬req.Names i c := by
  rintro ⟨-, hn⟩
  have h := h.2
  rw [hn] at h
  cases c <;> revert h <;> decide

theorem exists_run_loses (dev : UsbDevice) (length : Nat) (e : Ehci) {i : Fin 2} {c : Change}
    (h : req.Loses i c) (hp : Pending (s i) c)
    : ∃ r e' t, (ehciSubmitRoot dev length req).Run (portWorld Ports.Later) e s (.ok (r, e')) t ∧
        ¬Pending (t i) c := by
  obtain ⟨r, e', t, hr, -, -, ht⟩ :=
    exists_run (m := ehciSubmitRoot dev length req) (u := e) (s := s)
      (portHandler_serves Ports.Same.refl) (wp_clearFeature_same h.1)
  refine ⟨r, e', t, run_mono (fun _ _ _ _ => portWorld_mono fun _ _ => Ports.Same.later) hr, ?_⟩
  rw [ht c]
  exact fun hn => hn.2 (writesOne_of_loses h hp)

theorem keepsChanges_of_careful (h : Careful req s) : KeepsChanges dev length req e s := by
  intro r e' t hr i c hp hn
  exact wp_run (E := fun _ _ => True) wp_ehciSubmitRoot_later hr i c hp hn (h i c hp)

theorem careful_of_keepsChanges (h : KeepsChanges dev length req e s) : Careful req s := by
  intro i c hp hl
  obtain ⟨r, e', t, hr, hnot⟩ := exists_run_loses dev length e hl hp
  exact hnot (h r e' t hr i c hp (not_names_of_loses hl))

end

/--
Requests to the root hub that all satisfy `P` when they are made, with whatever happens to the ports
in between.
-/
inductive PortRun (P : DevRequest → Ports → Prop) : Ehci → Ports → Ehci → Ports → Prop where
  | nil (e : Ehci) (s : Ports) : PortRun P e s e s
  | event {e e' : Ehci} {s t u : Ports} :
      PortRun P e s e' t → Ports.Later t u → PortRun P e s e' u
  | request {e e' e'' : Ehci} {s t u : Ports} {dev : UsbDevice} {length : Nat} {req : DevRequest}
      {r : Int × UsbDevice × List Byte} :
      PortRun P e s e' t → P req t →
      (ehciSubmitRoot dev length req).Run (portWorld Ports.Later) e' t (.ok (r, e'')) u →
      PortRun P e s e'' u

theorem PortRun.pending {P : DevRequest → Ports → Prop} {i : Fin 2} {c : Change} {e e' : Ehci}
    {s t : Ports} (hcareful : ∀ req s, P req s → Careful req s)
    (hnames : ∀ req s, P req s → ¬req.Names i c) (h : PortRun P e s e' t) (hp : Pending (s i) c)
    : Pending (t i) c := by
  induction h with
  | nil => exact hp
  | event _ hlater ih => exact hlater i c (ih hp)
  | request _ hP hr ih =>
    exact keepsChanges_of_careful (hcareful _ _ hP) _ _ _ hr i c (ih hp) (hnames _ _ hP)

theorem getPortStatus_reports {e e' : Ehci} {s t : Ports} {dev : UsbDevice} {i : Fin 2} {c : Change}
    {r : Int × UsbDevice × List Byte} (hp : Pending (s i) c)
    (hr : (ehciSubmitRoot dev 4 (getPortStatus i)).Run (portWorld Ports.Later) e s (.ok (r, e')) t)
    : (StatusChange.port c).Reported r.2.2 := by
  obtain ⟨hlater, -, -, h⟩ := wp_run (E := fun _ _ => True) wp_getPortStatus hr
  rw [h]
  exact hlater i c hp

/-- A request that finds `v` in a port might as well have started there. -/
theorem run_of_found {α : Type} {p : Prog EhciOp EhciAns Stop α} {s t : Ports} {r : Except Stop α} {i : Fin 2}
    {v : BitVec 32} {l : List (Event EhciOp EhciAns Stop Ports)}
    (h : p.Run (portWorld Ports.Later).traced (s, []) r (t, l)) (hfound : Found l i v)
    : ∃ t1, t1 i = v ∧ Ports.Later s t1 ∧ p.Run (portWorld Ports.Later) t1 r t := by
  obtain ⟨s', hhead⟩ := hfound
  cases h with
  | ret a => cases hhead
  | stop x => cases hhead
  | @op o k _ t1 _ x _ hw hr =>
    have hgrows := World.wp_grows (portWorld Ports.Later) (k x) t1
    have hprefix : t1.2 <+: l := by
      cases r with
      | ok a => exact (Prog.wp_iff_run.mp hgrows).1 a _ hr
      | error x => exact (Prog.wp_iff_run.mp hgrows).2 x _ hr
    obtain ⟨l', rfl⟩ := hprefix
    rw [hw.2] at hhead
    cases hhead
    exact ⟨t1.1, hw.1.2.symm, hw.1.1, .op ⟨Ports.Later.refl _, hw.1.2⟩ (World.run_of_traced hr)⟩
  | opStop hw => exact absurd hw.1 portWorld_error

theorem keepsChanges_found {dev : UsbDevice} {length : Nat} {req : DevRequest} {e e' : Ehci} {s t : Ports}
    {i : Fin 2} {c : Change} {v : BitVec 32} {r : Int × UsbDevice × List Byte}
    {l : List (Event EhciOp EhciAns Stop Ports)}
    (hr : (ehciSubmitRoot dev length req).Run (portWorld Ports.Later).traced e (s, []) (.ok (r, e')) (t, l))
    (hfound : Found l i v) (h : CarefulAt req i v) (hp : Pending v c) (hn : ¬req.Names i c)
    : Pending (t i) c := by
  obtain ⟨t1, rfl, -, hr⟩ := run_of_found hr hfound
  exact wp_run (E := fun _ _ => True) wp_ehciSubmitRoot_later hr i c hp hn (h c hp)

/--
A request keeps the changes it does not name if and only if it is careful, also those that come up before it reads
the port; a change stays visible over every run of careful requests until one of them acknowledges it.
-/
theorem ehciSubmitRoot_keepsChanges_iff (dev : UsbDevice) (length : Nat) (req : DevRequest) (e : Ehci)
    (s : Ports) (i : Fin 2) (c : Change)
    : (KeepsChanges dev length req e s ↔ Careful req s) ∧
      (∀ r e' t l v,
        (ehciSubmitRoot dev length req).Run (portWorld Ports.Later).traced e (s, []) (.ok (r, e')) (t, l) →
        Found l i v → CarefulAt req i v → Pending v c → ¬req.Names i c → Pending (t i) c) ∧
      ∀ e' t, PortRun (fun req s => Careful req s ∧ ¬req.Names i c) e s e' t → Pending (s i) c →
        Pending (t i) c ∧
        ∀ dev r e'' u,
          (ehciSubmitRoot dev 4 (getPortStatus i)).Run (portWorld Ports.Later) e' t (.ok (r, e'')) u →
          (StatusChange.port c).Reported r.2.2 := by
  refine ⟨⟨careful_of_keepsChanges, keepsChanges_of_careful⟩, ?_, ?_⟩
  . intro r e' t l v hr hfound hcareful hp hn
    exact keepsChanges_found hr hfound hcareful hp hn
  . intro e' t h hp
    have hp := h.pending (fun _ _ h => h.1) (fun _ _ h => h.2) hp
    exact ⟨hp, fun _ _ _ _ hr => getPortStatus_reports hp hr⟩

/-- CLEAR_FEATURE of ENABLE on port 1, which has a pending connection change. -/
theorem clearFeature_enable_loses_connection
    : ¬KeepsChanges .zero 0 (clearPortFeature 0 usbPortFeatEnable) .boot (fun _ => 3) := by
  intro h
  exact careful_of_keepsChanges h 0 .connection (by decide)
    ⟨clearPortFeature_clearsFeature 0 _, .inl rfl⟩

theorem wp_clearFeature_found {dev : UsbDevice} {length : Nat} {req : DevRequest} {e : Ehci} {s : Ports}
    {i : Fin 2} (hreq : req.ClearsFeature i)
    : wp (portWorld Ports.Later).traced (ehciSubmitRoot dev length req)
        (fun _ _ t => ∃ v, Found t.2 i v ∧ ∀ c, Pending (s i) c → Pending v c) (fun _ _ => True) e
        (s, []) := by
  obtain ⟨htype, hindex⟩ := hreq
  have hi : req.index.toNat ≤ 2 := by omega
  rw [wp_ehciSubmitRoot, if_neg (by omega)]
  unfold rootRequest
  rw [htype]
  simp only [BitVec.reduceEq, ↓reduceIte]
  rw [wp_bind]
  unfold rootClearFeature
  rw [wp_bind, wp_ehciReadl, (statusReg_eq_portsc_iff hi).mpr hindex]
  intro t1
  refine ⟨fun v hv => ?_, fun x hx => trivial⟩
  have hfound : ∀ {t : Ports × List (Event EhciOp EhciAns Stop Ports)}, t1.2 <+: t.2 →
      ∃ v, Found t.2 i v ∧ ∀ c, Pending (s i) c → Pending v c := by
    rintro ⟨t, _⟩ ⟨l, rfl⟩
    refine ⟨v, ⟨s, ?_⟩, fun c hp => ?_⟩
    . rw [hv.2]
      rfl
    . rw [show v = t1.1 i from hv.1.2]
      exact hv.1.1 i c hp
  refine wp_mono (wp_grows _ _ _ _) ?_ fun _ _ _ => trivial
  rintro known e' t hgrows
  split
  . exact hfound hgrows
  . exact hfound hgrows

/-- A connection change of port 1, while port 2 is reset and C_ENABLE is cleared on port 1. -/
theorem ehciSubmitRoot_keepsChanges_iff_setAndClear
    : ∃ e t r e' t' l v,
        PortRun (fun req s => Careful req s ∧ ¬req.Names 0 .connection) .boot (fun _ => 3) e t ∧
        (ehciSubmitRoot .zero 0 (clearPortFeature 0 usbPortFeatCEnable)).Run (portWorld Ports.Later).traced e
          (t, []) (.ok (r, e')) (t', l) ∧
        Found l 0 v ∧ Pending v .connection ∧ Pending (t' 0) .connection ∧
        PortRun (fun req s => Careful req s ∧ ¬req.Names 0 .connection) .boot (fun _ => 3) e' t' := by
  let resetPort2 : DevRequest := ⟨usbRtPort, usbReqSetFeature, usbPortFeatReset, 2, 0⟩
  let clearEnable1 := clearPortFeature 0 usbPortFeatCEnable
  have hserves := portHandler_serves Ports.Later.refl
  have hset : ∀ i, ¬resetPort2.ClearsFeature i := fun i h => absurd h.1 (by decide)
  have hclear : ∀ i c, ¬clearEnable1.Loses i c := by
    rintro i c ⟨-, h | h | ⟨h, -⟩ | ⟨h, -⟩⟩
    . exact absurd h (by decide)
    . exact absurd h (by decide)
    . exact absurd h (by decide)
    . exact absurd h (by decide)
  have hnames : ¬clearEnable1.Names 0 .connection := fun h => absurd h.2 (by decide)
  obtain ⟨r, e, t, hr, -⟩ :=
    exists_run (m := ehciSubmitRoot .zero 0 resetPort2) (u := .boot) (s := fun _ => 3) hserves
      wp_ehciSubmitRoot_later
  have hrun : PortRun (fun req s => Careful req s ∧ ¬req.Names 0 .connection) .boot (fun _ => 3) e t :=
    .request (.nil _ _) ⟨fun i c _ h => hset i h.1, fun h => hset 0 h.1⟩ hr
  have hp := ((ehciSubmitRoot_keepsChanges_iff .zero 0 resetPort2 .boot (fun _ => 3) 0 .connection).2.2 e t hrun
    (by decide)).1
  have hreturns : wp (portWorld Ports.Later) (ehciSubmitRoot .zero 0 clearEnable1) (fun _ _ _ => True)
      (fun _ _ => False) e t := wp_post wp_ehciSubmitRoot_later fun _ _ _ _ => trivial
  have hreturns := wp_traced (s := (t, [])) hreturns
  obtain ⟨r, e', ⟨t', l⟩, hr, -⟩ := exists_run (World.tracedHandler_serves hserves) hreturns
  obtain ⟨v, hfound, hv⟩ := wp_run (wp_clearFeature_found (clearPortFeature_clearsFeature 0 _)) hr
  have hp' := (ehciSubmitRoot_keepsChanges_iff .zero 0 clearEnable1 e t 0 .connection).2.1 r e' t' l v hr hfound
    (fun c _ => hclear 0 c) (hv _ hp) hnames
  have hrun' := PortRun.request hrun ⟨fun i c _ => hclear i c, hnames⟩ (World.run_of_traced hr)
  exact ⟨e, t, r, e', t', l, v, hrun, hr, hfound, hv _ hp, hp', hrun'⟩

/-!
### Changes that can be acknowledged
-/

/--
If GET_STATUS reports `c` then CLEAR_FEATURE with the feature of `c` is accepted and the next
GET_STATUS, with no new change, does not report it any more.
-/
def Acknowledged (c : StatusChange) (i : Fin 2) (e : Ehci) (s : Ports) : Prop :=
  ∀ dev r e1 s1,
    (ehciSubmitRoot dev 4 (getPortStatus i)).Run (portWorld Ports.Same) e s (.ok (r, e1)) s1 →
    c.Reported r.2.2 →
    ∀ dev r e2 s2,
      (ehciSubmitRoot dev 0 (clearPortFeature i c.feature)).Run (portWorld Ports.Same) e1 s1
        (.ok (r, e2)) s2 →
      r.1 = 0 ∧
      ∀ dev r e3 s3,
        (ehciSubmitRoot dev 4 (getPortStatus i)).Run (portWorld Ports.Same) e2 s2 (.ok (r, e3)) s3 →
        ¬c.Reported r.2.2

section

variable {c : StatusChange} {i : Fin 2} {e : Ehci} {s : Ports}

def Acknowledgeable (c : StatusChange) : Prop := c = .port .connection ∨ c = .reset

theorem shows_congr {e' : Ehci} {t : Ports} (he : e'.portreset = e.portreset) (hs : Ports.Same s t)
    : c.Shows e' t i ↔ c.Shows e s i := by
  cases c with
  | port c => exact (hs i c).symm
  | reset =>
    unfold StatusChange.Shows
    dsimp only
    rw [he]

theorem wp_clearFeature_shows {dev : UsbDevice} {E : Stop → Ports → Prop}
    : wp (portWorld Ports.Same) (ehciSubmitRoot dev 0 (clearPortFeature i c.feature))
        (fun r e' t =>
          (Acknowledgeable c → r.1 = 0 ∧ ¬c.Shows e' t i) ∧
          (¬Acknowledgeable c → c.Shows e s i → c.Shows e' t i))
        E e s := by
  refine wp_post (wp_clearFeature_same (clearPortFeature_clearsFeature i c.feature)) ?_
  rintro r e' t ⟨hknown, hportreset, hpending⟩
  have hvalue : (clearPortFeature i c.feature).value = c.feature := rfl
  simp only [hvalue] at hknown hpending
  constructor
  . rintro (rfl | rfl)
    . refine ⟨hknown.mpr (.inr (.inr (.inr (.inl rfl)))), fun hp => ?_⟩
      exact ((hpending .connection).mp hp).2 (.inr (.inl ⟨.inr rfl, rfl⟩))
    . refine ⟨hknown.mpr (.inr (.inr (.inr (.inr (.inr rfl))))), fun hne => hne ?_⟩
      have hreset : StatusChange.reset.feature = usbPortFeatCReset := rfl
      rw [hportreset, portresetAfter, hvalue, if_pos hreset]
      simp only [clearPortFeature, toNat_port, BitVec.and_assoc, BitVec.not_and_self]
      exact BitVec.and_zero
  . intro hack hshows
    cases c with
    | port c =>
      refine (hpending c).mpr ⟨hshows, ?_⟩
      cases c with
      | connection => exact absurd (.inl rfl) hack
      | _ => rintro (⟨h | h, -⟩ | ⟨h | h, -⟩ | ⟨h, -⟩) <;> exact absurd h (by decide)
    | reset => exact absurd (.inr rfl) hack

theorem exists_runs_shown (dev : UsbDevice) (hc : ¬Acknowledgeable c) (h : c.Shows e s i)
    : ¬Acknowledged c i e s := by
  intro hack
  have hserves := portHandler_serves Ports.Same.refl
  obtain ⟨r, e1, s1, hr1, hsame, he1, -, hrep⟩ :=
    exists_run (m := ehciSubmitRoot dev 4 (getPortStatus i)) (u := e) (s := s) hserves
      wp_getPortStatus
  have h1 : c.Shows e1 s1 i := (shows_congr he1 hsame).mpr h
  obtain ⟨r2, e2, s2, hr2, -, hkeep⟩ :=
    exists_run (m := ehciSubmitRoot dev 0 (clearPortFeature i c.feature)) (u := e1) (s := s1) hserves
      wp_clearFeature_shows
  obtain ⟨r3, e3, s3, hr3, hsame3, he3, -, hrep3⟩ :=
    exists_run (m := ehciSubmitRoot dev 4 (getPortStatus i)) (u := e2) (s := s2) hserves
      wp_getPortStatus
  have h3 : c.Shows e3 s3 i := (shows_congr he3 hsame3).mpr (hkeep hc h1)
  exact (hack dev r e1 s1 hr1 ((hrep c).mpr h1) dev r2 e2 s2 hr2).2 dev r3 e3 s3 hr3
    ((hrep3 c).mpr h3)

/--
A change that is there can be acknowledged if and only if it is a connection or a reset change.
-/
theorem acknowledged_iff : Acknowledged c i e s ↔ (c.Shows e s i → Acknowledgeable c) := by
  constructor
  . intro hack hshows
    by_contra hc
    exact exists_runs_shown .zero hc hshows hack
  . intro hc dev r e1 s1 hr1 hrep dev2 r2 e2 s2 hr2
    obtain ⟨hsame, he1, -, hshows⟩ := wp_run (E := fun _ _ => True) wp_getPortStatus hr1
    have hack := hc ((shows_congr he1 hsame).mp ((hshows c).mp hrep))
    obtain ⟨hret, hclear⟩ := (wp_run (E := fun _ _ => True) wp_clearFeature_shows hr2).1 hack
    refine ⟨hret, ?_⟩
    intro dev3 r3 e3 s3 hr3 hrep3
    obtain ⟨hsame3, he3, -, hshows3⟩ := wp_run (E := fun _ _ => True) wp_getPortStatus hr3
    exact hclear ((shows_congr he3 hsame3).mp ((hshows3 c).mp hrep3))

end

/-- An enable change on port 1. -/
theorem enable_not_acknowledged : ¬Acknowledged (.port .enable) 0 .boot (fun _ => 8) :=
  exists_runs_shown .zero (by unfold Acknowledgeable; decide) (by decide)
