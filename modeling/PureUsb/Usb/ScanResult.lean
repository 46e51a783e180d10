import PureUsb.Usb.ScanNotes
import PureUsb.Usb.Configured
import PureUsb.Usb.Connection

/-!
This module contains what `usb_hub_scan` returns, compared with the transfers it made.
-/

open Stateful

namespace ScanNote

def Succeeded : ScanNote → Prop
  | clear ret => 0 ≤ ret
  | change _ ret _ _ => 0 ≤ ret

instance : DecidablePred Succeeded := fun n =>
  match n with
  | clear ret => inferInstanceAs (Decidable (0 ≤ ret))
  | change _ ret _ _ => inferInstanceAs (Decidable (0 ≤ ret))

def child (n : ScanNote) (d : Option (Fin 32)) : Option (Fin 32) :=
  match n with
  | clear _ => d
  | change _ _ new _ => new

end ScanNote

/-- The device that the last call of `usb_hub_port_connect_change` found. -/
def found (notes : List ScanNote) : Option (Fin 32) := notes.foldl (fun d n => n.child d) none

theorem found_append (notes : List ScanNote) (n : ScanNote)
    : found (notes ++ [n]) = n.child (found notes) := by
  unfold found
  rw [List.foldl_append]
  rfl

theorem failure_ne_found (notes : List ScanNote)
    : ((-1 : Int), none) ≠ (if (found notes).isNone then 0 else 1, found notes) := by
  intro h
  have hret := congrArg Prod.fst h
  dsimp only at hret
  split at hret <;> cases hret

/-- The result `r` agrees with the answer to the first request, to which it made the further requests `more`. -/
structure ScanReports (first : Submitted) (more : List Exchange) (notes : List ScanNote)
    (r : Int × Option (Fin 32)) : Prop where
  failed : first.result < 0 → r = (-1, none) ∧ more = []
  succeeded : 0 ≤ first.result → (∀ n ∈ notes, n.Succeeded) →
    r = (if (found notes).isNone then 0 else 1, found notes)

/-- No bit is set for which `usb_hub_scan` looks at the result of its request. -/
structure Unchecked (portstatus portchange : BitVec 16) : Prop where
  suspend : portstatus &&& usbPortStatSuspend = 0
  overCurrent : portchange &&& usbPortStatCOvercurrent = 0
  reset : portchange &&& usbPortStatCReset = 0

section

variable {σ : Type} {w : HcdWorld σ} {dev : Fin 32} {i : Int} {u : Usb} {s : σ × List (HcdEvent σ)}
variable {l l' : List (HcdEvent σ)}

def Asked (l l' : List (HcdEvent σ)) : Prop := (exchanges l).length < (exchanges l').length

theorem exchanges_le_of_grows (h : l <+: l') : (exchanges l).length ≤ (exchanges l').length := by
  obtain ⟨rest, rfl⟩ := h
  unfold exchanges
  rw [List.filterMap_append, List.length_append]
  omega

theorem Asked.mono {l'' : List (HcdEvent σ)} (h : Asked l l') (hpre : l' <+: l'') : Asked l l'' :=
  Nat.lt_of_lt_of_le h (exchanges_le_of_grows hpre)

theorem Asked.after {l'' : List (HcdEvent σ)} (hpre : l <+: l') (h : Asked l' l'') : Asked l l'' :=
  Nat.lt_of_le_of_lt (exchanges_le_of_grows hpre) h

theorem not_asked_append {more : List (HcdEvent σ)} (h : exchanges more = []) : ¬Asked l (l ++ more) := by
  unfold exchanges at h
  unfold Asked exchanges
  rw [List.filterMap_append, h, List.append_nil]
  exact Nat.lt_irrefl _

theorem asked_submit {m : σ} {x : Transfer} {y : Submitted} {setup : DevRequest}
    (hx : x.setup = some setup)
    : Asked l (l ++ [⟨m, .submit x, .ok y⟩]) := by
  unfold Asked exchanges
  rw [List.filterMap_append, List.length_append, List.filterMap_cons, Event.exchange?_submit hx]
  exact Nat.lt_succ_self _

theorem wp_asked {α : Type} {m : UsbM α} (h : Asked l s.2)
    : wp w.traced m (fun _ _ t => Asked l t.2) (fun _ _ => True) u s := by
  apply wp_mono (wp_grows w m u s)
  . exact fun _ _ _ hpre => h.mono hpre
  . exact fun _ _ _ => trivial

theorem wp_usbClearPortFeature_asked (hw : Lawful w) (port : Int) (feature : BitVec 16)
    : wp w.traced (usbClearPortFeature dev port feature) (fun ret _ t => ret ≤ 0 ∧ Asked s.2 t.2)
        (fun _ _ => True) u s := by
  unfold usbClearPortFeature
  rw [wp_bind, wp_getDev, wp_bind]
  apply wp_usbControlMsg_event _ rfl (by decide)
  . intro y t hy
    constructor
    . exact (hw.submit hy).result_le
    . apply asked_submit rfl
  . intro _ _ _
    trivial

theorem wp_usbGetPortStatus_asked (port : Int)
    : wp w.traced (usbGetPortStatus dev port) (fun _ _ t => Asked s.2 t.2) (fun _ _ => True) u s := by
  unfold usbGetPortStatus
  rw [wp_bind, wp_getDev]
  apply wp_usbControlMsg_event _ rfl (by decide)
  . intro y t _
    apply asked_submit rfl
  . intro _ _ _
    trivial

theorem wp_usbHubPortConnectChange_asked
    : wp w.traced (usbHubPortConnectChange dev i) (fun _ _ t => Asked s.2 t.2) (fun _ _ => True) u s := by
  unfold usbHubPortConnectChange
  rw [wp_bind, wp_ask]
  intro t
  constructor
  . rintro portsts ⟨-, ht⟩
    rw [wp_bind]
    apply wp_post (wp_usbGetPortStatus_asked _)
    rintro ⟨ret, bytes⟩ v t' hasked
    apply wp_asked
    apply Asked.after _ hasked
    rw [ht]
    apply List.prefix_append
  . intro _ _
    trivial

theorem wp_notedChange
    : wp w.traced (notedChange dev i)
        (fun r _ t => ∃ before ret child after,
          r = ((ret, child), [.change before ret child after]) ∧ Asked s.2 t.2)
        (fun _ _ => True) u s := by
  unfold notedChange
  rw [wp_bind, wp_get, wp_bind]
  apply wp_post wp_usbHubPortConnectChange_asked
  rintro ⟨ret, child⟩ v t hasked
  exact ⟨u, ret, child, v, rfl, hasked⟩

/-!
### The parts of `usb_hub_scan`
-/

/-- What is known after `notes` were taken, if the bits that were acted upon up to now are `flags`. -/
structure SoFar (flags : Prop) (l : List (HcdEvent σ)) (notes : List ScanNote)
    (new : Option (Fin 32)) (l' : List (HcdEvent σ)) : Prop where
  found : found notes = new
  asked : Asked l l' ∨ l' = l ∧ new = none
  clean : (∀ n ∈ notes, n.Succeeded) → ¬flags

/-- What is known at the end. -/
structure PortEnd (flags : Prop) (l : List (HcdEvent σ)) (r : Int × Option (Fin 32))
    (notes : List ScanNote) (l' : List (HcdEvent σ)) : Prop where
  asked : Asked l l' ∨ r = (0, none)
  flagged : flags → (∀ n ∈ notes, n.Succeeded) → r = (-1, none)
  clean : ¬flags → (∀ n ∈ notes, n.Succeeded) →
    r = (if (found notes).isNone then 0 else 1, found notes)

/-- A feature is cleared if `cond` holds. -/
inductive Cleared (cond : Prop) (l : List (HcdEvent σ)) : Bool → List ScanNote → List (HcdEvent σ) → Prop where
  | skipped : ¬cond → Cleared cond l true [] l
  | cleared {l' : List (HcdEvent σ)} (ret : Int) :
      cond → ret ≤ 0 → Asked l l' → Cleared cond l (ret ≠ 0) [.clear ret] l'

theorem wp_notedClear (hw : Lawful w) (port : Int) (feature : BitVec 16)
    : wp w.traced (notedClear dev port feature)
        (fun r _ t => ∃ ret, r = (ret, [.clear ret]) ∧ ret ≤ 0 ∧ Asked s.2 t.2) (fun _ _ => True) u s := by
  unfold notedClear
  rw [wp_bind]
  apply wp_post (wp_usbClearPortFeature_asked hw _ _)
  intro ret _ _ h
  exact ⟨ret, rfl, h⟩

theorem wp_notedClearIf (hw : Lawful w) (cond : Prop) [Decidable cond] (feature : BitVec 16)
    : wp w.traced (notedClearIf dev i cond feature) (fun r _ t => Cleared cond s.2 r.1 r.2 t.2)
        (fun _ _ => True) u s := by
  unfold notedClearIf
  split
  . next hcond =>
    rw [wp_bind]
    apply wp_post (wp_notedClear hw _ _)
    rintro _ v t ⟨ret, rfl, hle, hasked⟩
    exact .cleared ret hcond hle hasked
  . next hcond => exact .skipped hcond

theorem wp_notedOverCurrent (hw : Lawful w) (portchange : BitVec 16)
    : wp w.traced (notedOverCurrent dev i portchange)
        (fun r _ t => Cleared (portchange &&& usbPortStatCOvercurrent ≠ 0) s.2 r.1 r.2 t.2)
        (fun _ _ => True) u s := by
  unfold notedOverCurrent
  split
  . next hcond =>
    rw [wp_bind]
    apply wp_post (wp_notedClear hw _ _)
    rintro _ v t ⟨ret, rfl, hle, hasked⟩
    dsimp only
    split
    . next hret =>
      subst hret
      exact .cleared 0 hcond hle hasked
    . next hret =>
      rw [wp_bind]
      apply wp_post (wp_asked hasked)
      intro _ _ t hasked
      have := Cleared.cleared ret hcond hle hasked
      rwa [decide_eq_true hret] at this
  . next hcond => exact .skipped hcond

section

variable {flags cond : Prop} {notes more : List ScanNote} {new : Option (Fin 32)}
variable {l'' : List (HcdEvent σ)}

theorem SoFar.asked_trans (h : SoFar flags l notes new l') (hasked : Asked l' l'') : Asked l l'' := by
  rcases h.asked with hprev | ⟨rfl, -⟩
  . exact Nat.lt_trans hprev hasked
  . exact hasked

theorem SoFar.cleared (h : SoFar flags l notes new l') (hc : Cleared cond l' true more l'')
    : SoFar (flags ∨ cond) l (notes ++ more) new l'' := by
  generalize hgo : true = go at hc
  cases hc with
  | skipped hcond =>
    rw [List.append_nil]
    exact ⟨h.found, h.asked, fun hgood hf => hf.elim (h.clean hgood) hcond⟩
  | cleared ret hcond hle hasked =>
    have hret : ret < 0 := by
      have := of_decide_eq_true hgo.symm
      omega
    constructor
    . rw [found_append]
      exact h.found
    . exact .inl (h.asked_trans hasked)
    . intro hgood
      have : 0 ≤ ret := hgood (.clear ret) (List.mem_append_right _ (List.mem_singleton_self _))
      omega

theorem SoFar.gaveUp (h : SoFar flags l notes new l') (hc : Cleared cond l' false more l'')
    {all : Prop} (hall : cond → all)
    : PortEnd all l (-1, none) (notes ++ more) l'' := by
  generalize hgo : false = go at hc
  cases hc with
  | skipped hcond => cases hgo
  | cleared ret hcond hle hasked =>
    constructor
    . exact .inl (h.asked_trans hasked)
    . intro _ _
      rfl
    . exact fun hf => absurd (hall hcond) hf

/-- What is known after a part that may call `usb_hub_port_connect_change`. -/
structure Changed (l : List (HcdEvent σ)) (notes : List ScanNote) (ret : Int)
    (new : Option (Fin 32)) (l' : List (HcdEvent σ)) : Prop where
  soFar : SoFar False l notes new l'
  good : (∀ n ∈ notes, n.Succeeded) → 0 ≤ ret
  asked : ret < 0 → Asked l l'

theorem Changed.failed {ret : Int} (h : Changed l notes ret new l') (hret : ret < 0) {all : Prop}
    : PortEnd all l (-1, none) notes l' := by
  have hbad : ¬∀ n ∈ notes, n.Succeeded := fun hgood => absurd (h.good hgood) (by omega)
  exact ⟨.inl (h.asked hret), fun _ _ => rfl, fun _ hgood => absurd hgood hbad⟩

theorem Changed.change (before after : Usb) (ret : Int) (child : Option (Fin 32)) (h : Asked l l')
    : Changed l (notes ++ [.change before ret child after]) ret child l' := by
  refine ⟨⟨?_, .inl h, fun _ => id⟩, fun hgood => ?_, fun _ => h⟩
  . rw [found_append]
    rfl
  . exact hgood (.change before ret child after) (List.mem_append_right _ (List.mem_singleton_self _))

theorem wp_notedConnection (portchange : BitVec 16)
    : wp w.traced (notedConnection dev i portchange)
        (fun r _ t => Changed s.2 r.2 r.1.1 r.1.2 t.2) (fun _ _ => True) u s := by
  unfold notedConnection
  split
  . apply wp_post wp_notedChange
    rintro _ v t ⟨before, ret, child, after, rfl, hasked⟩
    have h : Changed s.2 ([] ++ [.change before ret child after]) ret child _ :=
      Changed.change before after ret child hasked
    exact h
  . refine ⟨⟨rfl, .inr ⟨rfl, rfl⟩, fun _ => id⟩, fun _ => Int.le_refl _, fun hf => ?_⟩
    exact absurd (show (0 : Int) < 0 from hf) (by decide)

theorem SoFar.clear (h : SoFar False l notes new l') (ret : Int) (hasked : Asked l' l'')
    : Changed l (notes ++ [.clear ret]) 0 new l'' := by
  have hasked := h.asked_trans hasked
  refine ⟨⟨?_, .inl hasked, fun _ => id⟩, fun _ => Int.le_refl _, fun _ => hasked⟩
  rw [found_append]
  exact h.found

theorem wp_hasChild {Q : Bool → Usb → σ → Prop} {s : σ} (h : ∀ b, Q b u s)
    : wp w (hasChild dev i) Q (fun _ _ => True) u s := by
  unfold hasChild
  rw [wp_bind, wp_getDev]
  split
  . apply h
  . trivial

theorem wp_notedEnable (hw : Lawful w) (portstatus portchange : BitVec 16)
    (h : SoFar False l notes new s.2)
    : wp w.traced (notedEnable dev i portstatus portchange new)
        (fun r _ t => Changed l (notes ++ r.2) r.1.1 r.1.2 t.2) (fun _ _ => True) u s := by
  unfold notedEnable
  split
  . rw [wp_bind]
    apply wp_post (wp_notedClear hw _ _)
    rintro _ v t ⟨ret, rfl, -, hasked⟩
    have hclear := h.clear ret hasked
    dsimp only
    split
    . rw [wp_bind]
      apply wp_hasChild
      intro child
      split
      . rw [wp_bind]
        apply wp_post wp_notedChange
        rintro _ v t ⟨before, ret', child, after, rfl, hasked'⟩
        rw [wp_pure, ← List.append_assoc]
        apply Changed.change
        exact hclear.soFar.asked_trans hasked'
      . exact hclear
    . exact hclear
  . refine ⟨?_, fun _ => Int.le_refl _, fun hf => ?_⟩
    . rw [List.append_nil]
      exact h
    . exact absurd (show (0 : Int) < 0 from hf) (by decide)

theorem SoFar.done {portstatus portchange : BitVec 16}
    (h : SoFar (((False ∨ portstatus &&& usbPortStatSuspend ≠ 0) ∨
      portchange &&& usbPortStatCOvercurrent ≠ 0) ∨ portchange &&& usbPortStatCReset ≠ 0)
      l notes new l')
    : PortEnd (¬Unchecked portstatus portchange) l (if new.isNone then 0 else 1, new) notes l' := by
  constructor
  . rcases h.asked with hasked | ⟨-, rfl⟩
    . exact .inl hasked
    . exact .inr rfl
  . intro hflags hgood
    have hclean := h.clean hgood
    simp only [not_or, not_not] at hclean
    exact absurd ⟨hclean.1.1.2, hclean.1.2, hclean.2⟩ hflags
  . intro _ _
    rw [h.found]

theorem wp_notedPort (hw : Lawful w) (portstatus portchange : BitVec 16)
    : wp w.traced (notedPort dev i portstatus portchange)
        (fun r _ t => PortEnd (¬Unchecked portstatus portchange) s.2 r.1 r.2 t.2) (fun _ _ => True)
        u s := by
  unfold notedPort
  rw [wp_bind]
  apply wp_post (wp_notedConnection _)
  rintro ⟨⟨ret, new⟩, n1⟩ u1 s1 h
  dsimp only at h ⊢
  split
  . next hret => exact h.failed hret
  . rw [wp_bind]
    apply wp_post (wp_notedEnable hw _ _ h.soFar)
    rintro ⟨⟨ret, new⟩, n2⟩ u2 s2 h
    dsimp only at h ⊢
    split
    . next hret => exact h.failed hret
    . have h := h.soFar
      rw [wp_bind]
      apply wp_post (wp_notedClearIf hw _ _)
      rintro ⟨ok, n3⟩ u3 s3 hstep
      cases ok with
      | false => exact h.gaveUp hstep fun hcond hun => hcond hun.suspend
      | true =>
        have h := h.cleared hstep
        dsimp only
        rw [if_neg (by decide), wp_bind]
        apply wp_post (wp_notedOverCurrent hw _)
        rintro ⟨ok, n4⟩ u4 s4 hstep
        cases ok with
        | false => exact h.gaveUp hstep fun hcond hun => hcond hun.overCurrent
        | true =>
          have h := h.cleared hstep
          dsimp only
          rw [if_neg (by decide), wp_bind]
          apply wp_post (wp_notedClearIf hw _ _)
          rintro ⟨ok, n5⟩ u5 s5 hstep
          cases ok with
          | false => exact h.gaveUp hstep fun hcond hun => hcond hun.reset
          | true => exact (h.cleared hstep).done

end

end

def portStatusRequest (i : Int) : DevRequest :=
  ⟨usbDirIn ||| usbRtPort, usbReqGetStatus, 0, BitVec.ofInt 16 (i + 1), 4⟩

/-- What is known about a complete run: how it starts, and how it ends after that. -/
def ScanRun {σ : Type} (i : Int) (r : Int × Option (Fin 32)) (notes : List ScanNote)
    (l : List (HcdEvent σ)) : Prop :=
  ∃ s m portsts x y more, l = ⟨s, .stack 4, .ok portsts⟩ :: ⟨m, .submit x, .ok y⟩ :: more ∧
    x.setup = some (portStatusRequest i) ∧
    if y.result = 0 then
      r = (-1, none) ∧ notes = [] ∧ more = []
    else
      PortEnd
        (¬Unchecked (portStatus (portsts.write 0 y.data)) (portChange (portsts.write 0 y.data)))
        [⟨s, .stack 4, .ok portsts⟩, ⟨m, .submit x, .ok y⟩] r notes l

section

variable {σ : Type} {w : HcdWorld σ} {dev : Fin 32} {i : Int} {u v : Usb} {s t : σ}
variable {l : List (HcdEvent σ)} {r : Int × Option (Fin 32)} {notes : List ScanNote}

theorem wp_notedScan (hw : Lawful w)
    : wp w.traced (notedScan dev i) (fun r _ t => ScanRun i r.1 r.2 t.2) (fun _ _ => True) u (s, []) := by
  unfold notedScan
  rw [wp_bind, wp_ask]
  rintro ⟨m, l⟩
  constructor
  . rintro portsts ⟨-, hl⟩
    cases hl
    unfold usbGetPortStatus
    rw [wp_bind, wp_bind, wp_getDev]
    apply wp_usbControlMsg_event _ rfl (by decide)
    . intro y t _
      dsimp only
      split
      . next hret =>
        refine ⟨s, m, portsts, _, y, [], rfl, rfl, ?_⟩
        rw [if_pos hret]
        exact ⟨rfl, rfl, rfl⟩
      . next hret =>
        apply wp_mono (wp_and (wp_notedPort hw _ _) (wp_grows ..))
        . rintro ⟨r, notes⟩ _ _ ⟨hend, more, hmore⟩
          refine ⟨s, m, portsts, _, y, more, hmore.symm, rfl, ?_⟩
          rw [if_neg hret]
          exact hend
        . intro _ _ _
          trivial
    . intro _ _ _
      trivial
  . intro _ _
    trivial

theorem ScanRun.reports_iff (h : ScanRun i r notes l)
    : ∃ s m portsts x y more, l = ⟨s, .stack 4, .ok portsts⟩ :: ⟨m, .submit x, .ok y⟩ :: more ∧
        x.setup = some (portStatusRequest i) ∧
        (ScanReports y (exchanges more) notes r
            ↔
          0 < y.result ∧ ((∀ n ∈ notes, n.Succeeded) →
            Unchecked (portStatus (portsts.write 0 y.data)) (portChange (portsts.write 0 y.data)))) := by
  obtain ⟨s, m, portsts, x, y, more, rfl, hx, h⟩ := h
  refine ⟨s, m, portsts, x, y, more, rfl, hx, ?_⟩
  split at h
  . next hret =>
    -- the status was read, but the length is taken for an error
    obtain ⟨rfl, rfl, rfl⟩ := h
    constructor
    . intro hreports
      exact absurd (hreports.succeeded (by omega) (fun _ hn => nomatch hn)) (failure_ne_found _)
    . rintro ⟨hpos, -⟩
      omega
  . next hret =>
    generalize hun : Unchecked (portStatus (portsts.write 0 y.data))
      (portChange (portsts.write 0 y.data)) = unchecked at h
    constructor
    . intro hreports
      have hpos : 0 < y.result := by
        by_contra hneg
        obtain ⟨hr, hmore⟩ := hreports.failed (by omega)
        rcases h.asked with hasked | hr'
        . exact not_asked_append hmore hasked
        . rw [hr] at hr'
          exact absurd (congrArg Prod.fst hr') (by decide)
      refine ⟨hpos, fun hgood => ?_⟩
      by_contra hflags
      have hr := hreports.succeeded (by omega) hgood
      rw [h.flagged hflags hgood] at hr
      exact failure_ne_found _ hr
    . rintro ⟨hpos, hgood⟩
      constructor
      . intro hneg
        omega
      . intro _ hsucceeded
        exact h.clean (not_not_intro (hgood hsucceeded)) hsucceeded

/--
The result of `usb_hub_scan` agrees with its transfers if and only if the status of the port was read, and
no bit that makes it look at the result of a request was set unless something failed.
-/
theorem usbHubScan_reports_iff (hw : Lawful w)
    (hr : (notedScan dev i).Run w.traced u (s, []) (.ok ((r, notes), v)) (t, l))
    : (usbHubScan dev i).Run w.traced u (s, []) (.ok (r, v)) (t, l) ∧
      ∃ s m portsts x y more, l = ⟨s, .stack 4, .ok portsts⟩ :: ⟨m, .submit x, .ok y⟩ :: more ∧
        x.setup = some (portStatusRequest i) ∧
        (ScanReports y (exchanges more) notes r
            ↔
          0 < y.result ∧ ((∀ n ∈ notes, n.Succeeded) →
            Unchecked (portStatus (portsts.write 0 y.data)) (portChange (portsts.write 0 y.data)))) := by
  have hscan := wp_run (wp_notedScan hw) hr
  exact ⟨(notes_scan dev i).run_iff.mpr ⟨notes, hr⟩, hscan.reports_iff⟩

end

/-!
### Two ports
-/

def portScript (status : Option (List Byte)) (x : Transfer) (s : Unit) : Option (List Byte) × Unit :=
  match x.setup with
  | some setup => (if setup.request = usbReqGetStatus then status else some [], s)
  | none => (some [], s)

/-- The status of the port is not read, and `usb_hub_scan` returns 0. -/
theorem no_status_not_reported
    : ∃ v s m portsts x y, (notedScan 0 0).Run (scriptWorld 0 (portScript none)).traced attachedUsb ((), [])
          (.ok (((0, none), []), v)) ((), [⟨s, .stack 4, .ok portsts⟩, ⟨m, .submit x, .ok y⟩]) ∧
        y.result = -1 ∧ ¬ScanReports y [] [] (0, none) := by
  obtain ⟨⟨r, notes⟩, v, ⟨_, l⟩, hr, hp⟩ :=
    exists_run_of_check
      (World.tracedHandler_serves (Prog.ofHandler_serves (scriptHandler 0 (portScript none)))).offers
      (m := notedScan 0 0) (u := attachedUsb) (s := ((), []))
      (p := fun r _ t => r.1 = (0, none) ∧ r.2.length = 0 ∧
        (t.2.map fun e => e.exchange?.map (·.answer.result)) = [none, some (-1)]) (by decide +kernel)
  obtain ⟨rfl, hnotes, hmap⟩ := of_decide_eq_true hp
  obtain rfl := List.eq_nil_of_length_eq_zero hnotes
  obtain ⟨s, m, portsts, x, y, more, rfl, hx, -⟩ := wp_run (wp_notedScan (scriptWorld_lawful _ _)) hr
  rw [List.map_cons, List.map_cons, Event.exchange?_submit hx] at hmap
  obtain ⟨hy, hmore⟩ := List.cons.inj (List.cons.inj hmap).2
  obtain rfl := List.map_eq_nil_iff.mp hmore
  have hy : y.result = -1 := Option.some.inj hy
  refine ⟨v, s, m, portsts, x, y, hr, hy, fun hreports => ?_⟩
  have hr := (hreports.failed (by omega)).1
  exact absurd (congrArg Prod.fst hr) (by decide)

theorem usbHubScan_reports_iff_plugged
    : ∃ v notes l s m portsts x y more,
        (notedScan 0 0).Run (scriptWorld 0 pluggedScript).traced emptyHubUsb (true, [])
          (.ok (((1, some 1), notes), v)) (false, l) ∧
        notes ≠ [] ∧ l = ⟨s, .stack 4, .ok portsts⟩ :: ⟨m, .submit x, .ok y⟩ :: more ∧
        (ScanReports y (exchanges more) notes (1, some 1)
            ↔
          0 < y.result ∧ ((∀ n ∈ notes, n.Succeeded) →
            Unchecked (portStatus (portsts.write 0 y.data)) (portChange (portsts.write 0 y.data)))) := by
  obtain ⟨⟨r, notes⟩, v, ⟨changed, l⟩, hr, hp⟩ :=
    exists_run_of_check
      (World.tracedHandler_serves (Prog.ofHandler_serves (scriptHandler 0 pluggedScript))).offers
      (m := notedScan 0 0) (u := emptyHubUsb) (s := (true, []))
      (p := fun r _ t => r.1 = (1, some 1) ∧ 0 < r.2.length ∧ t.1 = false) (by decide +kernel)
  obtain ⟨rfl, hnotes, rfl⟩ := of_decide_eq_true hp
  obtain ⟨-, s, m, portsts, x, y, more, hl, -, hiff⟩ :=
    usbHubScan_reports_iff (scriptWorld_lawful _ _) hr
  exact ⟨v, notes, l, s, m, portsts, x, y, more, hr, List.ne_nil_of_length_pos hnotes, hl, hiff⟩
