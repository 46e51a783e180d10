import PureUsb.Usb.Connection
import PureUsb.Usb.ScanAnswers
import Mathlib.Algebra.GroupWithZero.Nat

/-!
This module contains how many devices one `usb_hub_scan` of a port enumerates.
-/

open Stateful

/-- An attempt of `hub_port_reset` that leaves the port enabled. -/
structure PortAnswer.Enabled (a : PortAnswer) : Prop where
  ret : 0 ≤ a.ret
  kept : a.change &&& usbPortStatCConnection = 0
  connected : a.status &&& usbPortStatConnection ≠ 0
  enabled : a.status &&& usbPortStatEnable ≠ 0

def ChildAt (port : Int) (c : Fin 8 → DevPtr) : Prop := ∃ p : Fin 8, (p : Int) = port ∧ c p ≠ .null

/--
What `usb_hub_port_connect_change` has to be answered to go on to the enumeration; `child` says that the port
had a child.
-/
structure ConnectAnswers.Connects (a : ConnectAnswers) (child : Prop) : Prop where
  ret : 0 ≤ a.status.ret
  connected : a.status.status &&& usbPortStatConnection ≠ 0 ∨
    (a.status.status &&& usbPortStatEnable ≠ 0 ∧ ¬child)
  enabled : ∃ r ∈ a.resets, r.Enabled

/--
A device shows up at a port that was just disabled: it is answered and there is room for it, twice.
-/
structure PluggedAtDisabled (u : Usb) (dev : Fin 32) (port : Int) (a : ScanAnswers) : Prop where
  room : u.gDevIndex + 2 ≤ usbMaxDevice
  connectionChange : a.first.change &&& usbPortStatCConnection ≠ 0
  enableChange : a.first.change &&& usbPortStatCEnable ≠ 0
  disabled : a.first.status &&& usbPortStatEnable = 0
  connected : a.first.status &&& usbPortStatConnection ≠ 0
  connection : ∃ x ∈ a.connection, x.Connects (ChildAt port (u.usbDev dev).children) ∧
    ∃ ret ∈ x.scan, 0 ≤ ret
  enable : ∃ y ∈ a.enable, y.Connects True

/--
`usb_hub_scan` enumerated at most one device, and one that it returns was just allocated and is the child
at the port.
-/
structure ScansOnce (dev : Fin 32) (port : Int) (u : Usb) (ret : Int) (child : Option (Fin 32)) (v : Usb)
    : Prop where
  index : v.gDevIndex ≤ u.gDevIndex + 1
  child : ret = 1 → ∃ new, child = some new ∧ (new : Nat) + 1 = v.gDevIndex ∧
    ∃ p : Fin 8, (p : Int) = port ∧ (v.usbDev dev).children p = .dev new

section

variable {σ : Type} {w : HcdWorld σ} {dev : Fin 32} {port : Int} {n : Nat} {c : Fin 8 → DevPtr}
variable {u : Usb} {s : σ}

/-!
### One call of `usb_hub_port_connect_change`
-/

theorem wp_answeredResetTries {I : Usb → σ → Prop} {E : Stop → σ → Prop} (hframe : Frame w I E dev)
    (port : Int) (tries : Nat) {portsts : Bytes 4} {u : Usb} {s : σ} (h : I u s)
    : wp w (answeredResetTries dev port portsts tries)
        (fun r v t => I v t ∧ ((∃ a ∈ r.2, a.Enabled) ↔ r.1 ≠ none)) E u s := by
  induction tries generalizing u s portsts with
  | zero => exact ⟨h, by simp⟩
  | succ tries ih =>
    unfold answeredResetTries
    rw [wp_bind]
    apply wp_post (hframe.setPortFeature h _ _)
    intro _ u s h
    rw [wp_bind]
    apply wp_post (hframe.getPortStatus h _)
    rintro ⟨ret, bytes⟩ u s h
    dsimp only
    split
    . next hret =>
      refine ⟨h, iff_of_false ?_ (not_not.mpr rfl)⟩
      rintro ⟨a, ha, henabled⟩
      rw [List.mem_singleton.mp ha] at henabled
      exact absurd henabled.ret (show ¬0 ≤ ret by omega)
    . next hret =>
      split
      . next hgone =>
        refine ⟨h, iff_of_false ?_ (not_not.mpr rfl)⟩
        rintro ⟨a, ha, henabled⟩
        rw [List.mem_singleton.mp ha] at henabled
        rcases hgone with hgone | hgone
        . exact hgone henabled.kept
        . exact henabled.connected hgone
      . next hgone =>
        obtain ⟨hkept, hconnected⟩ := not_or.mp hgone
        split
        . next henabled =>
          refine ⟨h, iff_of_true ⟨_, List.mem_singleton.mpr rfl, ?_⟩ (Option.some_ne_none _)⟩
          exact ⟨show 0 ≤ ret by omega, not_not.mp hkept, hconnected, henabled⟩
        . next hdisabled =>
          rw [wp_bind]
          apply wp_post (ih h)
          rintro ⟨r, answers⟩ u s ⟨h, hiff⟩
          refine ⟨h, ?_⟩
          dsimp only at hiff ⊢
          rw [← hiff]
          simp only [List.mem_cons, exists_eq_or_imp]
          exact or_iff_right fun henabled => hdisabled henabled.enabled

theorem wp_answeredReset {I : Usb → σ → Prop} {E : Stop → σ → Prop} (hframe : Frame w I E dev) (h : I u s)
    : wp w (answeredReset dev port)
        (fun r v t => I v t ∧ ((∃ a ∈ r.2, a.Enabled) ↔ r.1.2 ≠ none) ∧ (r.1.2 = none → r.1.1 < 0)) E u s := by
  unfold answeredReset
  rw [wp_bind]
  apply wp_post (hframe.stack h)
  intro portsts u s h
  rw [wp_bind]
  apply wp_post (wp_answeredResetTries hframe port maxTries h)
  rintro ⟨_ | status, answers⟩ u s ⟨h, hiff⟩
  . exact ⟨h, hiff, fun _ => show (-1 : Int) < 0 by decide⟩
  . rw [wp_bind]
    apply wp_post (hframe.clearPortFeature h _ _)
    intro _ _ _ h
    exact ⟨h, hiff.trans (iff_of_true (Option.some_ne_none _) (Option.some_ne_none _)), fun hf => nomatch hf⟩

/-- `n` slots are in use, the hub has the children `c`, and `new` is the last slot and the child at `port`. -/
structure NewAt (dev : Fin 32) (port : Int) (n : Nat) (c : Fin 8 → DevPtr) (new : Option (Fin 32)) (u : Usb)
    : Prop where
  hub : HubAt dev n c u
  last : ∀ d ∈ new, (d : Nat) + 1 = n ∧ ∃ p : Fin 8, (p : Int) = port ∧ c p = .dev d

theorem NewAt.none {new : Option (Fin 32)} (h : NewAt dev port n c new u) : NewAt dev port n c none u :=
  ⟨h.hub, fun _ hd => nomatch hd⟩

theorem frame_newAt (hw : Lawful w) (new : Option (Fin 32))
    : Frame w (fun v _ => NewAt dev port n c new v) (fun _ _ => True) dev := by
  apply frame_table hw
  . intro u _ h
    exact ⟨⟨⟨h.hub.index_le, h.hub.lt, h.hub.children⟩, h.hub.index⟩, h.last⟩
  . intro u d h hd
    exact ⟨h.hub.setDev hd.children, h.last⟩

/-- What a call comes to with `n` slots in use and the children `c` before it. -/
inductive AnsweredCall (port : Int) (n : Nat) (c : Fin 8 → DevPtr) (a : ConnectAnswers)
    : Int → Option (Fin 32) → Nat → (Fin 8 → DevPtr) → Prop
  | refused {ret : Int} : ¬(a.Connects (ChildAt port c) ∧ n < usbMaxDevice) → AnsweredCall port n c a ret none n c
  | lost {ret : Int} (new : Fin 32) (p : Fin 8) :
      a.Connects (ChildAt port c) → n < usbMaxDevice → a.scan = some ret → ret < 0 →
      AnsweredCall port n c a ret none (n + 1) (Function.update c p (.dev new))
  | found {ret : Int} (new : Fin 32) (p : Fin 8) :
      a.Connects (ChildAt port c) → n < usbMaxDevice → a.scan = some ret → 0 ≤ ret → (new : Nat) = n →
      (p : Int) = port → AnsweredCall port n c a 1 (some new) (n + 1) (Function.update c p (.dev new))

theorem wp_answeredEnumerate (hw : Lawful w) (hport : 0 ≤ port ∧ port < usbMaxchildren)
    (h : HubAt dev n c u) (portstatus : BitVec 16)
    : wp w (answeredEnumerate dev port portstatus)
        (fun r v _ => ∃ m c', HubAt dev m c' v ∧ ∀ a : ConnectAnswers, a.Connects (ChildAt port c) →
          a.scan = r.2 → AnsweredCall port n c a r.1.1 r.1.2 m c')
        (fun _ _ => True) u s := by
  have hlt := h.lt
  have hindex := h.index
  unfold answeredEnumerate
  rw [wp_bind]
  simp only [usbMaxchildren] at hport
  apply wp_usbAllocNewDevice h.index_le
  . rintro _ ⟨⟩
    exact hlt
  . intro hfull
    refine ⟨n, c, h, fun a _ _ => .refused fun hroom => ?_⟩
    have := hroom.2
    rw [BitVec.toNat_ofInt] at hfull
    simp only [usbMaxchildren] at hfull
    omega
  . intro new p hnew hp
    rw [BitVec.toNat_ofInt] at hp
    have hp : (p : Int) = port := by omega
    have hnew : (new : Nat) = n := by omega
    have hroom : n < usbMaxDevice := by
      have := new.isLt
      simp only [usbMaxDevice]
      omega
    rw [wp_bind, wp_modifyDev, wp_bind]
    have h := (h.alloc hnew p).setDev (k := new)
      (d := { (u.alloc new (some dev) p).usbDev new with speed := portSpeed portstatus }) rfl
    have hdev : dev < new := Fin.lt_def.mpr (by omega)
    apply wp_post ((keptByScan_hubAt hdev).scanDevice hw h)
    intro ret v t h
    split
    . next hret => exact ⟨_, _, h, fun a ha hscan => .lost new p ha hroom hscan hret⟩
    . next hret => exact ⟨_, _, h, fun a ha hscan => .found new p ha hroom hscan (by omega) hnew hp⟩

theorem wp_hasChild_iff (h : HubAt dev n c u)
    : wp w (hasChild dev port)
        (fun child v t => v = u ∧ t = s ∧ (0 ≤ port ∧ port < usbMaxchildren) ∧ (child = true ↔ ChildAt port c))
        (fun _ _ => True) u s := by
  unfold hasChild
  rw [wp_bind, wp_getDev]
  split
  . next hport =>
    refine ⟨rfl, rfl, hport, ?_⟩
    rw [decide_eq_true_iff, h.children]
    constructor
    . exact fun hne => ⟨_, Int.toNat_of_nonneg hport.1, hne⟩
    . rintro ⟨p, rfl, hne⟩
      exact hne
  . trivial

/-- Without a connection the call ends here, unless the port is enabled and had no child. -/
theorem wp_portIsStale_iff (h : HubAt dev n c u) (portstatus : BitVec 16)
    : wp w (portIsStale dev port portstatus)
        (fun stale v _ => HubAt dev n c v ∧
          (stale = true → portstatus &&& usbPortStatConnection = 0 →
            ¬(portstatus &&& usbPortStatConnection ≠ 0 ∨ (portstatus &&& usbPortStatEnable ≠ 0 ∧ ¬ChildAt port c))) ∧
          (¬(stale = true ∧ portstatus &&& usbPortStatConnection = 0) →
            (0 ≤ port ∧ port < usbMaxchildren) ∧
            (portstatus &&& usbPortStatConnection ≠ 0 ∨ (portstatus &&& usbPortStatEnable ≠ 0 ∧ ¬ChildAt port c))))
        (fun _ _ => True) u s := by
  unfold portIsStale
  split
  . next hcond =>
    refine ⟨h, ?_, fun hgo => absurd ⟨rfl, hcond.1⟩ hgo⟩
    rintro - - (hc | hc)
    . exact hc hcond.1
    . exact hc.1 hcond.2
  . next hcond =>
    apply wp_post (wp_hasChild_iff h)
    rintro stale _ _ ⟨rfl, rfl, hport, hchild⟩
    refine ⟨h, ?_, fun hgo => ⟨hport, ?_⟩⟩
    . rintro hstale hgone (hc | hc)
      . exact hc hgone
      . exact hc.2 (hchild.mp hstale)
    . by_cases hc : portstatus &&& usbPortStatConnection = 0
      . exact .inr ⟨fun hen => hcond ⟨hc, hen⟩, fun hp => hgo ⟨hchild.mpr hp, hc⟩⟩
      . exact .inl hc

theorem wp_answeredChange (hw : Lawful w) (h : HubAt dev n c u)
    : wp w (answeredChange dev port)
        (fun r v _ => ∃ m c', HubAt dev m c' v ∧ AnsweredCall port n c r.2 r.1.1 r.1.2 m c')
        (fun _ _ => True) u s := by
  have hframe : Frame w (fun v _ => HubAt dev n c v) (fun _ _ => True) dev := frame_hubAt hw dev
  unfold answeredChange
  rw [wp_bind]
  apply wp_post (hframe.stack h)
  intro portsts u s h
  rw [wp_bind]
  apply wp_post (hframe.getPortStatus h _)
  rintro ⟨ret, bytes⟩ u s h
  dsimp only
  generalize hstatus : portStatus (portsts.write 0 bytes) = portstatus
  have hanswer : (PortAnswer.of ret (portsts.write 0 bytes)).status = portstatus := hstatus
  generalize hfirst : PortAnswer.of ret (portsts.write 0 bytes) = status at hanswer
  have hret : status.ret = ret := by rw [← hfirst]; rfl
  split
  . next hneg =>
    refine ⟨n, c, h, .refused fun hroom => ?_⟩
    have : 0 ≤ status.ret := hroom.1.ret
    omega
  . next hpos =>
    rw [wp_bind]
    apply wp_post (hframe.clearPortFeature h _ _)
    intro _ u s h
    rw [wp_bind]
    apply wp_post (wp_portIsStale_iff h portstatus)
    rintro stale u s ⟨h, hstale, hgoes⟩
    rw [← hanswer] at hstale hgoes
    split
    . next hgone => exact ⟨n, c, h, .refused fun hroom => hstale hgone.1 (hanswer ▸ hgone.2) hroom.1.connected⟩
    . next hgo =>
      obtain ⟨hport, hconnected⟩ := hgoes (hanswer ▸ hgo)
      rw [wp_bind]
      apply wp_post (wp_answeredReset hframe h)
      rintro ⟨⟨ret, _ | portstatus⟩, resets⟩ u s ⟨h, hreset, -⟩
      . exact ⟨n, c, h, .refused fun hroom => hreset.mp hroom.1.enabled rfl⟩
      . dsimp only
        rw [wp_bind]
        apply wp_post (wp_answeredEnumerate hw hport h _)
        rintro ⟨r, scan⟩ v t ⟨m, c', h, hanswered⟩
        refine ⟨m, c', h, hanswered _ ?_ rfl⟩
        exact ⟨show 0 ≤ status.ret by omega, hconnected, hreset.mpr (Option.some_ne_none _)⟩

/-- A call took `k` slots. -/
structure Takes (dev : Fin 32) (port : Int) (n : Nat) (c : Fin 8 → DevPtr) (a : ConnectAnswers) (ret : Int)
    (child : Option (Fin 32)) (v : Usb) (k : Nat) (c' : Fin 8 → DevPtr) : Prop where
  le : k ≤ 1
  new : NewAt dev port (n + k) c' child v
  iff : k = 1 ↔ a.Connects (ChildAt port c) ∧ n < usbMaxDevice
  found : 0 ≤ ret → k = 1 → (∃ ret ∈ a.scan, 0 ≤ ret) ∧ ChildAt port c'

theorem AnsweredCall.takes {a : ConnectAnswers} {ret : Int} {child : Option (Fin 32)} {m : Nat}
    {c' : Fin 8 → DevPtr} {v : Usb} (h : AnsweredCall port n c a ret child m c') (hub : HubAt dev m c' v)
    : ∃ k, Takes dev port n c a ret child v k c' := by
  cases h with
  | refused hrefused =>
    refine ⟨0, Nat.zero_le _, ⟨hub, fun _ hd => nomatch hd⟩, iff_of_false Nat.zero_ne_one hrefused, ?_⟩
    exact fun _ hf => absurd hf Nat.zero_ne_one
  | lost new p ha hroom hscan hret =>
    refine ⟨1, Nat.le_refl _, ⟨hub, fun _ hd => nomatch hd⟩, iff_of_true rfl ⟨ha, hroom⟩, fun hpos => ?_⟩
    omega
  | @found ret new p ha hroom hscan hret hnew hp =>
    refine ⟨1, Nat.le_refl _, ⟨hub, ?_⟩, iff_of_true rfl ⟨ha, hroom⟩, fun _ _ => ⟨⟨ret, hscan, hret⟩, p, hp, ?_⟩⟩
    . rintro d ⟨⟩
      exact ⟨by omega, p, hp, Function.update_self ..⟩
    . rw [Function.update_self]
      exact fun hf => nomatch hf

/-!
### The two calls of a scan
-/

theorem wp_answeredConnection (hw : Lawful w) (h : HubAt dev n c u) (portchange : BitVec 16)
    : wp w (answeredConnection dev port portchange)
        (fun r v _ => ∃ k c', k ≤ 1 ∧ NewAt dev port (n + k) c' r.1.2 v ∧
          (0 ≤ r.1.1 →
            ((k = 1 ↔ portchange &&& usbPortStatCConnection ≠ 0 ∧ n < usbMaxDevice ∧
              ∃ x ∈ r.2, x.Connects (ChildAt port c) ∧ ∃ ret ∈ x.scan, 0 ≤ ret) ∧
            (k = 1 → ChildAt port c'))))
        (fun _ _ => True) u s := by
  unfold answeredConnection
  split
  . next hchange =>
    rw [wp_bind]
    apply wp_post (wp_answeredChange hw h)
    rintro ⟨⟨ret, child⟩, a⟩ v t ⟨m, c', hub, hanswered⟩
    obtain ⟨k, htakes⟩ := hanswered.takes hub
    refine ⟨k, c', htakes.le, htakes.new, fun hret => ⟨?_, fun hk => (htakes.found hret hk).2⟩⟩
    constructor
    . intro hk
      obtain ⟨ha, hroom⟩ := htakes.iff.mp hk
      exact ⟨hchange, hroom, a, rfl, ha, (htakes.found hret hk).1⟩
    . rintro ⟨-, hroom, _, ⟨⟩, ha, -⟩
      exact htakes.iff.mpr ⟨ha, hroom⟩
  . refine ⟨0, c, Nat.zero_le _, ⟨h, fun _ hd => nomatch hd⟩, fun _ => ⟨?_, fun hf => absurd hf Nat.zero_ne_one⟩⟩
    refine iff_of_false Nat.zero_ne_one ?_
    rintro ⟨-, -, _, ⟨⟩, -⟩

theorem wp_answeredEnable (hw : Lawful w) {new : Option (Fin 32)} (h : NewAt dev port n c new u)
    (portstatus portchange : BitVec 16)
    : wp w (answeredEnable dev port portstatus portchange new)
        (fun r v _ => ∃ k c', k ≤ 1 ∧ NewAt dev port (n + k) c' r.1.2 v ∧
          (k = 1 ↔ portchange &&& usbPortStatCEnable ≠ 0 ∧ portstatus &&& usbPortStatEnable = 0 ∧
            portstatus &&& usbPortStatConnection ≠ 0 ∧ n < usbMaxDevice ∧ ∃ y ∈ r.2, y.Connects True))
        (fun _ _ => True) u s := by
  have hnone : ∀ v, NewAt dev port n c new v →
      ∃ k c', k ≤ 1 ∧ NewAt dev port (n + k) c' new v ∧
        (k = 1 ↔ portchange &&& usbPortStatCEnable ≠ 0 ∧ portstatus &&& usbPortStatEnable = 0 ∧
          portstatus &&& usbPortStatConnection ≠ 0 ∧ n < usbMaxDevice ∧
          ∃ y ∈ (none : Option ConnectAnswers), y.Connects True) := by
    intro v h
    refine ⟨0, c, Nat.zero_le _, h, iff_of_false Nat.zero_ne_one ?_⟩
    rintro ⟨-, -, -, -, _, ⟨⟩, -⟩
  unfold answeredEnable
  split
  . next hchange =>
    rw [wp_bind]
    apply wp_post ((frame_newAt hw new).clearPortFeature h _ _)
    intro _ u s h
    split
    . next hdisabled =>
      rw [wp_bind]
      apply wp_post (wp_hasChild_iff h.hub)
      rintro child _ _ ⟨rfl, rfl, -, hchild⟩
      split
      . next htrue =>
        have hchild := propext (iff_true_intro (hchild.mp htrue))
        rw [wp_bind]
        apply wp_post (wp_answeredChange hw h.hub)
        rintro ⟨⟨ret, child⟩, a⟩ v t ⟨m, c', hub, hanswered⟩
        obtain ⟨k, htakes⟩ := hanswered.takes hub
        refine ⟨k, c', htakes.le, htakes.new, htakes.iff.trans ?_⟩
        rw [hchild]
        constructor
        . rintro ⟨ha, hroom⟩
          exact ⟨hchange, hdisabled.1, hdisabled.2, hroom, a, rfl, ha⟩
        . rintro ⟨-, -, -, hroom, _, ⟨⟩, ha⟩
          exact ⟨ha, hroom⟩
      . exact hnone _ h
    . exact hnone _ h
  . exact hnone _ h

/-!
### `usb_hub_scan`
-/

/-- What is true of a scan that started in the state `u`. -/
structure AnsweredScan (dev : Fin 32) (port : Int) (u : Usb) (a : ScanAnswers) (ret : Int)
    (child : Option (Fin 32)) (v : Usb) : Prop where
  last : ∃ k c', NewAt dev port (u.gDevIndex + k) c' child v ∧ (k ≤ 1 ↔ ¬PluggedAtDisabled u dev port a)
  new : ret = 1 → child ≠ none

theorem AnsweredScan.failed {k : Nat} {c' : Fin 8 → DevPtr} {new : Option (Fin 32)} {v : Usb}
    {a : ScanAnswers} (h : NewAt dev port (u.gDevIndex + k) c' new v)
    (hk : k ≤ 1 ↔ ¬PluggedAtDisabled u dev port a)
    : AnsweredScan dev port u a (-1) none v :=
  ⟨⟨k, c', h.none, hk⟩, fun hf => absurd hf (by decide)⟩

theorem wp_answeredScan (hw : Lawful w) (h : HubAt dev u.gDevIndex (u.usbDev dev).children u)
    : wp w (answeredScan dev port) (fun r v _ => AnsweredScan dev port u r.2 r.1.1 r.1.2 v)
        (fun _ _ => True) u s := by
  have honce : ∀ {k : Nat} {a : ScanAnswers}, k ≤ 1 → (a.connection = none ∨ a.enable = none) →
      (k ≤ 1 ↔ ¬PluggedAtDisabled u dev port a) := by
    intro k a hk hnone
    refine iff_of_true hk fun htwice => ?_
    rcases hnone with hnone | hnone
    . obtain ⟨x, hx, -⟩ := htwice.connection
      rw [hnone] at hx
      cases hx
    . obtain ⟨y, hy, -⟩ := htwice.enable
      rw [hnone] at hy
      cases hy
  generalize hn : u.gDevIndex = n at h
  generalize hc : (u.usbDev dev).children = c at h
  have hframe : ∀ (m : Nat) (c' : Fin 8 → DevPtr) (new : Option (Fin 32)),
      Frame w (fun v _ => NewAt dev port m c' new v) (fun _ _ => True) dev :=
    fun m c' new => frame_newAt hw new
  have h : NewAt dev port n c none u := ⟨h, fun _ hd => nomatch hd⟩
  unfold answeredScan
  rw [wp_bind]
  apply wp_post ((hframe _ _ _).stack h)
  intro portsts v s h
  rw [wp_bind]
  apply wp_post ((hframe _ _ _).getPortStatus h _)
  rintro ⟨ret, bytes⟩ v s h
  dsimp only
  have hfirst : (PortAnswer.of ret (portsts.write 0 bytes)).status = portStatus (portsts.write 0 bytes) ∧
      (PortAnswer.of ret (portsts.write 0 bytes)).change = portChange (portsts.write 0 bytes) := ⟨rfl, rfl⟩
  generalize PortAnswer.of ret (portsts.write 0 bytes) = first at hfirst
  generalize portStatus (portsts.write 0 bytes) = portstatus at hfirst
  generalize portChange (portsts.write 0 bytes) = portchange at hfirst
  obtain ⟨rfl, rfl⟩ := hfirst
  split
  . exact .failed (k := 0) (hn ▸ h) (honce (Nat.zero_le _) (.inl rfl))
  . rw [wp_bind]
    apply wp_post (wp_answeredConnection hw h.hub _)
    rintro ⟨⟨ret, new⟩, connection⟩ v s ⟨k, c1, hk, h, htaken⟩
    dsimp only at h htaken ⊢
    split
    . exact .failed (hn ▸ h) (honce hk (.inr rfl))
    . next hpos =>
      obtain ⟨htaken, hchild⟩ := htaken (by omega)
      rw [wp_bind]
      apply wp_post (wp_answeredEnable hw h _ _)
      rintro ⟨⟨ret, new⟩, enable⟩ v s ⟨l, c2, hl, h, htaken2⟩
      dsimp only at h htaken2 ⊢
      have htwice : k + l ≤ 1 ↔ ¬PluggedAtDisabled u dev port ⟨first, connection, enable⟩ := by
        constructor
        . rintro hsum ⟨hroom, hconn, hen, hdis, hup, hx, hy⟩
          rw [hn] at hroom
          rw [hc] at hx
          have hk1 := htaken.mpr ⟨hconn, by omega, hx⟩
          have hl1 := htaken2.mpr ⟨hen, hdis, hup, by omega, hy⟩
          omega
        . intro hnot
          by_contra hsum
          obtain ⟨hconn, -, hx⟩ := htaken.mp (by omega)
          obtain ⟨hen, hdis, hup, hroom, hy⟩ := htaken2.mp (by omega)
          rw [← hc] at hx
          exact hnot ⟨by omega, hconn, hen, hdis, hup, hx, hy⟩
      rw [Nat.add_assoc, ← hn] at h
      split
      . exact .failed h htwice
      . rw [wp_bind]
        apply wp_post ((hframe _ _ _).scanClear h _ _)
        intro ok v s h
        split
        . exact .failed h htwice
        . rw [wp_bind]
          apply wp_post ((hframe _ _ _).scanOverCurrent h _)
          intro ok v s h
          split
          . exact .failed h htwice
          . rw [wp_bind]
            apply wp_post ((hframe _ _ _).scanClear h _ _)
            intro ok v s h
            split
            . exact .failed h htwice
            . refine ⟨⟨_, _, h, htwice⟩, ?_⟩
              cases new with
              | none => exact fun hf => absurd (show (0 : Int) = 1 from hf) (by decide)
              | some d => exact fun _ => Option.some_ne_none d

/--
One scan enumerates at most one device, unless a device shows up at a port that was just disabled and is
answered twice.
-/
theorem answeredScan_once_iff (hw : Lawful w) {v : Usb} {t : σ} {ret : Int} {child : Option (Fin 32)}
    {a : ScanAnswers} (hle : u.gDevIndex ≤ usbMaxDevice) (hlt : dev < u.gDevIndex)
    (h : (answeredScan dev port).Run w u s (.ok (((ret, child), a), v)) t)
    : ScansOnce dev port u ret child v ↔ ¬PluggedAtDisabled u dev port a := by
  obtain ⟨⟨k, c', hv, hk⟩, hnew⟩ := wp_run (wp_answeredScan hw ⟨⟨hle, hlt, rfl⟩, rfl⟩) h
  rw [← hk]
  have hindex := hv.hub.index
  constructor
  . intro honce
    have := honce.index
    omega
  . intro hle
    constructor
    . omega
    . intro hone
      obtain ⟨d, hd⟩ := Option.ne_none_iff_exists'.mp (hnew hone)
      obtain ⟨hlast, hport⟩ := hv.last d hd
      rw [← hv.hub.children] at hport
      exact ⟨d, hd, hlast.trans hindex.symm, hport⟩

end

/-!
### A port with both changes
-/

/-- A port that was just disabled; SET_FEATURE of RESET enables it again. -/
def disabledScript (x : Transfer) (enabled : Bool) : Option (List Byte) × Bool :=
  match x.setup with
  | none => (none, enabled)
  | some setup =>
    if setup.requesttype = usbDirIn ||| usbRtPort then
      (some (if enabled then [3, 0, 0, 0] else [1, 0, 3, 0]), enabled)
    else if setup.requesttype = usbRtPort ∧ setup.value = usbPortFeatReset then
      (some [], true)
    else
      (some (plainData (interfaceList 2) false x.dev setup), enabled)

/-- The device behind the port is enumerated twice. -/
theorem disabled_port_enumerated_twice
    : ¬∀ (port : Fin 8) (u v : Usb) (s t : Bool) (ret : Int) (child : Option (Fin 32)),
        u.gDevIndex ≤ usbMaxDevice → 0 < u.gDevIndex →
        (usbHubScan 0 port).Run (scriptWorld 0 disabledScript) u s (.ok ((ret, child), v)) t →
        ScansOnce 0 port u ret child v := by
  intro h
  obtain ⟨⟨ret, child⟩, v, t, hr, hp⟩ :=
    exists_run_of_check (Prog.ofHandler_serves (scriptHandler 0 disabledScript)).offers
      (m := usbHubScan 0 0) (u := emptyHubUsb) (s := false)
      (p := fun r v _ => r.1 = 1 ∧ r.2 = some 2 ∧ v.gDevIndex = 3) (by decide +kernel)
  obtain ⟨-, -, hindex⟩ := of_decide_eq_true hp
  have honce := (h 0 emptyHubUsb v false t ret child (by decide) (by decide) hr).index
  rw [hindex] at honce
  exact absurd honce (by decide)

theorem answeredScan_once_iff_plugged
    : ∃ v a, v.gDevIndex = 2 ∧
        (ScansOnce 0 0 emptyHubUsb 1 (some 1) v ↔ ¬PluggedAtDisabled emptyHubUsb 0 0 a) := by
  obtain ⟨⟨⟨ret, child⟩, a⟩, v, t, hr, hp⟩ :=
    exists_run_of_check (Prog.ofHandler_serves (scriptHandler 0 pluggedScript)).offers
      (m := answeredScan 0 0) (u := emptyHubUsb) (s := true)
      (p := fun r v _ => r.1.1 = 1 ∧ r.1.2 = some 1 ∧ v.gDevIndex = 2) (by decide +kernel)
  obtain ⟨rfl, rfl, hindex⟩ := of_decide_eq_true hp
  exact ⟨v, a, hindex, answeredScan_once_iff (scriptWorld_lawful _ _) (by decide) (by decide) hr⟩
