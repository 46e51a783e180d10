import PureUsb.Usb.Connection

/-!
This module contains whether the children of a hub are the devices that were found at its ports.
-/

open Stateful

/-- One `usb_hub_scan` of a port. -/
structure PortScan where
  port : Fin 8
  changes : List PortChange
  ret : Int
  child : Option (Fin 32)
  after : Usb

/-- What the calls of `usb_hub_port_connect_change` found that returned no error. -/
def completed (changes : List PortChange) : List (Option (Fin 32)) :=
  (changes.filter (0 ≤ ·.ret)).map (·.child)

def PortScan.found (s : PortScan) (port : Fin 8) : List (Option (Fin 32)) :=
  if s.port = port then completed s.changes else []

/-- What the last of them found at `port`, if there was one. -/
def lastFound (scans : List PortScan) (port : Fin 8) : Option (Option (Fin 32)) :=
  (scans.flatMap (·.found port)).getLast?

/--
The calls of `usb_hub_scan` for the ports of the hub `dev`, which had no children at the start. Between
them devices are plugged in and pulled, and the ports of other hubs are scanned.
-/
inductive HubRun {σ : Type} (w : HcdWorld σ) (dev : Fin 32) : List PortScan → Usb → σ → Prop where
  | start {u : Usb} {s : σ} :
      u.gDevIndex ≤ usbMaxDevice → dev < u.gDevIndex → (∀ p, (u.usbDev dev).children p = .null) →
      HubRun w dev [] u s
  | plug {scans : List PortScan} {u : Usb} {s t : σ} :
      HubRun w dev scans u s → HubRun w dev scans u t
  | scan {scans : List PortScan} {u v : Usb} {s t : σ} {port : Fin 8} {r : Int × Option (Fin 32)}
      {changes : List PortChange} :
      HubRun w dev scans u s →
      (followedScan dev port).Run w u s (.ok ((r, changes), v)) t →
      HubRun w dev (scans ++ [⟨port, changes, r.1, r.2, v⟩]) v t
  | other {scans : List PortScan} {u v : Usb} {s t : σ} {hub : Fin 32} {port : Fin 8}
      {r : Int × Option (Fin 32)} :
      HubRun w dev scans u s → hub ≠ dev → hub < u.gDevIndex →
      (usbHubScan hub port).Run w u s (.ok (r, v)) t →
      HubRun w dev scans v t

/--
The call does not find that a device in the tree is gone, and does not put a device there that cannot be
enumerated.
-/
def PortChange.Meets (dev : Fin 32) (port : Fin 8) (c : PortChange) : Prop :=
  match c.path with
  | .nothing => (c.before.usbDev dev).children port = .null
  | .scanned ret => ret < 0 → (c.before.usbDev dev).children port ≠ .null
  | _ => True

instance (dev : Fin 32) (port : Fin 8) (c : PortChange) : Decidable (c.Meets dev port) :=
  match c with
  | ⟨u, .nothing, _, _, _⟩ => inferInstanceAs (Decidable ((u.usbDev dev).children port = .null))
  | ⟨u, .scanned ret, _, _, _⟩ =>
    inferInstanceAs (Decidable (ret < 0 → (u.usbDev dev).children port ≠ .null))
  | ⟨_, .noStatus, _, _, _⟩ => .isTrue trivial
  | ⟨_, .noReset, _, _, _⟩ => .isTrue trivial
  | ⟨_, .noDevice, _, _, _⟩ => .isTrue trivial

/-- Every child is at a port where a device was found. -/
def Follows (c : Fin 8 → DevPtr) (last : Fin 8 → Option (Option (Fin 32))) : Prop :=
  ∀ port, c port ≠ .null → ∃ d, last port = some (some d)

/-!
### One call
-/

/-- What `usb_hub_port_connect_change` does to the children `c`. -/
inductive Processed (port : Fin 8) (c : Fin 8 → DevPtr)
    : ChangePath → Int → Option (Fin 32) → (Fin 8 → DevPtr) → Prop where
  | failed {path : ChangePath} {ret : Int} : ret < 0 → Processed port c path ret none c
  | nothing : Processed port c .nothing 0 none c
  | lost {ret : Int} (new : Fin 32) :
      ret < 0 → Processed port c (.scanned ret) ret none (Function.update c port (.dev new))
  | found {ret : Int} (new : Fin 32) :
      0 ≤ ret → Processed port c (.scanned ret) 1 (some new) (Function.update c port (.dev new))

section

variable {σ : Type} {w : HcdWorld σ} {dev hub : Fin 32} {port : Fin 8} {c : Fin 8 → DevPtr} {u : Usb} {s : σ}

theorem HasChildren.alloc_other (h : HasChildren dev c u) {new : Fin 32} (hnew : (new : Nat) = u.gDevIndex)
    (hne : hub ≠ dev) (port : Fin 8)
    : HasChildren dev c (u.alloc new (some hub) port) := by
  have hlt := h.lt
  have hnew' : dev ≠ new := Fin.ne_of_val_ne (by omega)
  constructor
  . have := new.isLt
    simp only [Usb.alloc_gDevIndex, usbMaxDevice]
    omega
  . exact Nat.lt_succ_of_lt hlt
  . rw [Usb.alloc_ne hnew' fun h => hne (Option.some.inj h), h.children]

theorem Connected.processed {n m : Nat} {c' : Fin 8 → DevPtr} {path : ChangePath} {ret : Int}
    {child : Option (Fin 32)} (h : Connected port n c path ret child m c')
    : Processed port c path ret child c' := by
  have hport : ∀ p : Fin 8, (p : Int) = (port : Nat) → p = port := fun p hp => Fin.ext (by omega)
  cases h with
  | failed _ hret => exact .failed hret
  | nothing => exact .nothing
  | lost new p _ hp hret => exact hport p hp ▸ .lost new hret
  | found new p _ hp hret => exact hport p hp ▸ .found new hret

theorem wp_pathedChange_processed (hw : Lawful w) (h : HasChildren dev c u)
    : wp w (pathedChange dev port)
        (fun r v _ => ∃ c', Processed port c r.2 r.1.1 r.1.2 c' ∧ HasChildren dev c' v)
        (fun _ _ => True) u s := by
  apply wp_post (wp_pathedChange hw ⟨h, rfl⟩)
  rintro r v t ⟨m, c', hconnected, h⟩
  exact ⟨c', hconnected.processed, h.toHasChildren⟩

theorem wp_enumeratePort_other (hw : Lawful w) (h : HasChildren dev c u) (hne : hub ≠ dev)
    (hhub : hub < u.gDevIndex) (port : Int) (portstatus : BitVec 16)
    : wp w (enumeratePort hub port portstatus) (fun _ v _ => HasChildren dev c v)
        (fun _ _ => True) u s := by
  have hlt := h.lt
  unfold enumeratePort
  rw [wp_bind]
  apply wp_usbAllocNewDevice h.index_le
  . rintro _ ⟨⟩
    exact hhub
  . exact fun _ => h
  . intro new i hnew _
    rw [wp_bind, wp_modifyDev, wp_bind]
    have h' := (h.alloc_other hnew hne i).setDev (k := new)
      (d := { (u.alloc new (some hub) i).usbDev new with speed := portSpeed portstatus }) rfl
    have hnew : dev < new := Fin.lt_def.mpr (by omega)
    apply wp_post ((keptByScan_hasChildren hnew).scanDevice hw h')
    intro ret v t h
    split <;> exact h

/-!
### One scan
-/

/-- The calls of one scan, one after the other. -/
inductive Changes (dev : Fin 32) (port : Fin 8)
    : (Fin 8 → DevPtr) → List PortChange → (Fin 8 → DevPtr) → Prop where
  | nil (c : Fin 8 → DevPtr) : Changes dev port c [] c
  | cons {x : PortChange} {l : List PortChange} {c' : Fin 8 → DevPtr} :
      Processed port (x.before.usbDev dev).children x.path x.ret x.child (x.after.usbDev dev).children →
      Changes dev port (x.after.usbDev dev).children l c' →
      Changes dev port (x.before.usbDev dev).children (x :: l) c'

theorem Changes.append {l l' : List PortChange} {c' c'' : Fin 8 → DevPtr} (h : Changes dev port c l c')
    (h' : Changes dev port c' l' c'')
    : Changes dev port c (l ++ l') c'' := by
  induction h with
  | nil => exact h'
  | cons hx _ ih => exact .cons hx (ih h')

/-- The scan of `port` has made the calls `l`, with the result `ret` and `new`. -/
structure Scanned (dev : Fin 32) (port : Fin 8) (c : Fin 8 → DevPtr) (l : List PortChange) (ret : Int)
    (new : Option (Fin 32)) (u : Usb) : Prop where
  changes : ∃ c', Changes dev port c l c' ∧ HasChildren dev c' u
  last : 0 ≤ ret → ∀ x ∈ l.getLast?, 0 ≤ x.ret ∧ x.child = new

variable {l : List PortChange} {ret : Int} {new : Option (Fin 32)}

theorem wp_followedChange (hw : Lawful w) (h : Scanned dev port c l ret new u)
    : wp w (followedChange dev port) (fun r v _ => Scanned dev port c (l ++ r.2) r.1.1 r.1.2 v)
        (fun _ _ => True) u s := by
  obtain ⟨c', hl, h⟩ := h.changes
  unfold followedChange
  rw [wp_bind, wp_get, wp_bind]
  apply wp_post (wp_pathedChange_processed hw h)
  rintro ⟨⟨ret, new⟩, path⟩ v t ⟨c'', hprocessed, h'⟩
  rw [wp_bind, wp_get, wp_pure]
  have hc := h.children
  have hc' := h'.children
  subst hc
  subst hc'
  have hstep : Changes dev port (u.usbDev dev).children [⟨u, path, ret, new, v⟩] (v.usbDev dev).children :=
    .cons (x := ⟨u, path, ret, new, v⟩) hprocessed (.nil _)
  constructor
  . exact ⟨_, hl.append hstep, h'⟩
  . intro hret x hx
    rw [List.getLast?_append] at hx
    cases hx
    exact ⟨hret, rfl⟩

theorem wp_followedConnection (hw : Lawful w) (h : HasChildren dev c u) (portchange : BitVec 16)
    : wp w (followedConnection dev port portchange) (fun r v _ => Scanned dev port c r.2 r.1.1 r.1.2 v)
        (fun _ _ => True) u s := by
  have hnil : Scanned dev port c [] 0 none u := ⟨⟨c, .nil c, h⟩, fun _ _ hx => nomatch hx⟩
  unfold followedConnection
  split
  . apply wp_followedChange hw hnil
  . exact hnil

theorem Scanned.of_children (h : Scanned dev port c l ret new u) {v : Usb}
    (hv : ∀ c', HasChildren dev c' u → HasChildren dev c' v)
    : Scanned dev port c l ret new v := by
  obtain ⟨c', hl, h'⟩ := h.changes
  exact ⟨⟨c', hl, hv c' h'⟩, h.last⟩

theorem Scanned.failed (h : Scanned dev port c l ret new u) : Scanned dev port c l (-1) none u :=
  ⟨h.changes, fun hf => absurd hf (by decide)⟩

theorem frame_scanned (hw : Lawful w)
    : Frame w (fun v _ => Scanned dev port c l ret new v) (fun _ _ => True) dev := by
  apply frame_table hw
  . intro u _ h
    apply h.of_children
    intro _ h
    exact ⟨h.index_le, h.lt, h.children⟩
  . intro u d h hd
    apply h.of_children
    intro _ h
    exact h.setDev hd.children

theorem wp_followedEnable (hw : Lawful w) (h : Scanned dev port c l ret new u) (hret : 0 ≤ ret)
    (portstatus portchange : BitVec 16)
    : wp w (followedEnable dev port portstatus portchange new)
        (fun r v _ => Scanned dev port c (l ++ r.2) r.1.1 r.1.2 v) (fun _ _ => True) u s := by
  have hdone : ∀ {v : Usb}, Scanned dev port c l ret new v → Scanned dev port c (l ++ []) 0 new v := by
    intro v h
    rw [List.append_nil]
    exact ⟨h.changes, fun _ => h.last hret⟩
  unfold followedEnable
  split
  . rw [wp_bind]
    apply wp_post ((frame_scanned hw).clearPortFeature h _ _)
    intro _ v t h
    split
    . rw [wp_bind]
      apply wp_post (wp_hasChild_port (I := Scanned dev port c l ret new) h)
      rintro child v t ⟨h, -⟩
      split
      . apply wp_followedChange hw h
      . exact hdone h
    . exact hdone h
  . exact hdone h

theorem wp_followedScan (hw : Lawful w) (h : HasChildren dev c u)
    : wp w (followedScan dev port) (fun r v _ => Scanned dev port c r.2 r.1.1 r.1.2 v) (fun _ _ => True)
        u s := by
  have hframe : Frame w (fun v _ => HasChildren dev c v) (fun _ _ => True) dev := frame_hasChildren hw dev
  have hnil {ret : Int} {v : Usb} (h : HasChildren dev c v) : Scanned dev port c [] ret none v :=
    ⟨⟨c, .nil c, h⟩, fun _ _ hx => nomatch hx⟩
  unfold followedScan
  rw [wp_bind]
  apply wp_post (hframe.stack h)
  intro portsts u s h
  rw [wp_bind]
  apply wp_post (hframe.getPortStatus h _)
  rintro ⟨ret, bytes⟩ u s h
  dsimp only
  split
  . exact hnil h
  . rw [wp_bind]
    apply wp_post (wp_followedConnection hw h _)
    rintro ⟨⟨ret, new⟩, l1⟩ u s h
    dsimp only at h ⊢
    split
    . exact h.failed
    . rw [wp_bind]
      apply wp_post (wp_followedEnable hw h (by omega) _ _)
      rintro ⟨⟨ret, new⟩, l2⟩ u s h
      dsimp only at h ⊢
      split
      . exact h.failed
      . have hframe : Frame w (fun v _ => Scanned dev port c (l1 ++ l2) ret new v) (fun _ _ => True) dev :=
          frame_scanned hw
        rw [wp_bind]
        apply wp_post (hframe.scanClear h _ _)
        intro ok u s h
        split
        . exact h.failed
        . rw [wp_bind]
          apply wp_post (hframe.scanOverCurrent h _)
          intro ok u s h
          split
          . exact h.failed
          . rw [wp_bind]
            apply wp_post (hframe.scanClear h _ _)
            intro ok u s h
            split
            . exact h.failed
            . exact ⟨h.changes, fun _ => h.last (by omega)⟩

/-!
### What was found
-/

theorem completed_cons (x : PortChange) (l : List PortChange)
    : completed (x :: l) = (if 0 ≤ x.ret then [x.child] else []) ++ completed l := by
  unfold completed
  rw [List.filter_cons]
  simp only [decide_eq_true_eq]
  split <;> rfl

theorem Processed.follows {path : ChangePath} {c' : Fin 8 → DevPtr} {found : Fin 8 → List (Option (Fin 32))}
    (h : Processed port c path ret new c')
    (hnothing : path = .nothing → c port = .null)
    (hlost : ∀ ret, path = .scanned ret → ret < 0 → c port ≠ .null)
    (hfollows : Follows c fun p => (found p).getLast?)
    : Follows c' fun p => (found p ++ if port = p ∧ 0 ≤ ret then [new] else []).getLast? := by
  intro p hp
  dsimp only
  cases h with
  | failed hret =>
    rw [if_neg (by omega), List.append_nil]
    exact hfollows p hp
  | nothing =>
    have hne : port ≠ p := by
      rintro rfl
      exact hp (hnothing rfl)
    rw [if_neg fun hf => hne hf.1, List.append_nil]
    exact hfollows p hp
  | lost new hret =>
    rw [if_neg (by omega), List.append_nil]
    by_cases hport : p = port
    . subst hport
      exact hfollows p (hlost _ rfl hret)
    . rw [Function.update_of_ne hport] at hp
      exact hfollows p hp
  | found new hret =>
    by_cases hport : p = port
    . rw [if_pos ⟨hport.symm, by decide⟩, List.getLast?_append]
      exact ⟨new, rfl⟩
    . rw [if_neg fun hf => hport hf.1.symm, List.append_nil]
      rw [Function.update_of_ne hport] at hp
      exact hfollows p hp

theorem Changes.follows {c' : Fin 8 → DevPtr} {found : Fin 8 → List (Option (Fin 32))}
    (h : Changes dev port c l c') (hmeets : ∀ x ∈ l, x.Meets dev port)
    (hfollows : Follows c fun p => (found p).getLast?)
    : Follows c' fun p => (found p ++ if port = p then completed l else []).getLast? := by
  induction h generalizing found with
  | nil =>
    intro p hp
    dsimp only
    have hnil : (if port = p then completed [] else []) = [] := ite_self _
    rw [hnil, List.append_nil]
    exact hfollows p hp
  | @cons x l c' hx _ ih =>
    obtain ⟨hxm, hl⟩ := List.forall_mem_cons.mp hmeets
    have hnext := hx.follows ?_ ?_ hfollows
    . have hrest := ih hl hnext
      have hassoc : ∀ p, found p ++ (if port = p ∧ 0 ≤ x.ret then [x.child] else []) ++
          (if port = p then completed l else []) =
          found p ++ if port = p then completed (x :: l) else [] := by
        intro p
        rw [List.append_assoc, completed_cons]
        by_cases hp : port = p
        . simp only [hp, true_and, if_true]
        . simp only [hp, false_and, if_false, List.append_nil]
      simp only [hassoc] at hrest
      exact hrest
    . intro hpath
      unfold PortChange.Meets at hxm
      rwa [hpath] at hxm
    . intro ret hpath
      unfold PortChange.Meets at hxm
      rwa [hpath] at hxm

theorem lastFound_append (scans : List PortScan) (scan : PortScan) (p : Fin 8)
    : lastFound (scans ++ [scan]) p =
        (scans.flatMap (·.found p) ++ if scan.port = p then completed scan.changes else []).getLast? := by
  unfold lastFound
  rw [List.flatMap_append, List.flatMap_singleton]
  rfl

theorem lastFound_scan {scans : List PortScan} {scan : PortScan} {x : PortChange}
    (hx : scan.changes.getLast? = some x) (hret : 0 ≤ x.ret)
    : lastFound (scans ++ [scan]) scan.port = some x.child := by
  obtain ⟨l, hl⟩ := List.getLast?_eq_some_iff.mp hx
  rw [lastFound_append, if_pos rfl, hl]
  unfold completed
  rw [List.filter_append, List.map_append, List.filter_cons, if_pos (by simpa using hret)]
  rw [List.getLast?_append, List.getLast?_append]
  rfl

theorem wp_usbHubScan_other (hw : Lawful w) (h : HasChildren dev c u) (hne : hub ≠ dev)
    (hhub : hub < u.gDevIndex)
    : wp w (usbHubScan hub port) (fun _ v _ => HasChildren dev c v) (fun _ _ => True) u s := by
  have hrule : HubRule w (fun _ _ => True) hub port
      (fun v _ => HasChildren dev c v ∧ ∃ c', HasChildren hub c' v) := by
    constructor
    . apply frame_table hw
      . rintro u _ ⟨h, c', h'⟩
        exact ⟨⟨h.index_le, h.lt, h.children⟩, c', h'.index_le, h'.lt, h'.children⟩
      . rintro u d ⟨h, c', h'⟩ hd
        exact ⟨h.setDev hd.children, c', h'.setDev hd.children⟩
    . have := port.isLt
      simp only [usbMaxchildren]
      omega
    . rintro u s portstatus ⟨h, c', h'⟩
      have hhub : wp w (enumeratePort hub port portstatus) (fun _ v _ => ∃ c', HasChildren hub c' v)
          (fun _ _ => True) u s := by
        rw [(notes_pathedEnumerate hub port portstatus).wp_iff]
        have hport : (0 : Int) ≤ port ∧ (port : Int) < usbMaxchildren := by
          have := port.isLt
          simp only [usbMaxchildren]
          omega
        apply wp_post (wp_pathedEnumerate hw hport ⟨h', rfl⟩ portstatus)
        rintro _ _ _ ⟨_, c'', -, h''⟩
        exact ⟨c'', h''.toHasChildren⟩
      exact wp_mono (wp_and (wp_enumeratePort_other hw h hne h'.lt port portstatus) hhub)
        (fun _ _ _ h => h) fun _ _ _ => trivial
  apply wp_post (hrule.hubScan ⟨h, _, h.index_le, hhub, rfl⟩)
  intro _ _ _ h
  exact h.1

theorem HubRun.hasChildren (hw : Lawful w) {scans : List PortScan} (h : HubRun w dev scans u s)
    : HasChildren dev (u.usbDev dev).children u := by
  induction h with
  | start hle hlt _ => exact ⟨hle, hlt, rfl⟩
  | plug _ ih => exact ih
  | scan _ hr ih =>
    obtain ⟨c', -, h⟩ := (wp_run (wp_followedScan hw ih) hr).changes
    exact ⟨h.index_le, h.lt, rfl⟩
  | other _ hne hhub hr ih =>
    have h := wp_run (wp_usbHubScan_other hw ih hne hhub) hr
    exact ⟨h.index_le, h.lt, rfl⟩

/--
The children of a hub are the devices that were found at its ports, as long as no device in the tree is
found to be gone and no device is put there that cannot be enumerated.
-/
theorem hubRun_follows (hw : Lawful w) {scans : List PortScan} (h : HubRun w dev scans u s)
    (hmeets : ∀ scan ∈ scans, ∀ x ∈ scan.changes, x.Meets dev scan.port)
    : (∀ scan ∈ scans, scan.changes ≠ [] → scan.ret = 0 → scan.child = none →
        (scan.after.usbDev dev).children scan.port = .null) ∧
      Follows (u.usbDev dev).children (lastFound scans) := by
  induction h with
  | start _ _ hnull =>
    constructor
    . intro _ hf
      cases hf
    . intro p hp
      exact absurd (hnull p) hp
  | plug _ ih => exact ih hmeets
  | @scan scans u v s t port r changes h hr ih =>
    obtain ⟨hbefore, hfollows⟩ := ih fun scan hscan => hmeets scan (List.mem_append_left _ hscan)
    have hlast : (⟨port, changes, r.1, r.2, v⟩ : PortScan) ∈ scans ++ [⟨port, changes, r.1, r.2, v⟩] :=
      List.mem_append_right _ (List.mem_singleton_self _)
    have hscanned := wp_run (wp_followedScan hw (h.hasChildren hw)) hr
    obtain ⟨c', hchanges, h'⟩ := hscanned.changes
    have hnow : Follows (v.usbDev dev).children
        (lastFound (scans ++ [⟨port, changes, r.1, r.2, v⟩])) := by
      have := hchanges.follows (hmeets _ hlast) hfollows
      rw [h'.children]
      intro p hp
      rw [lastFound_append]
      exact this p hp
    refine ⟨?_, hnow⟩
    intro scan hscan hne hret hchild
    rcases List.mem_append.mp hscan with hscan | hscan
    . exact hbefore scan hscan hne hret hchild
    . rw [List.mem_singleton] at hscan
      subst hscan
      by_contra hf
      obtain ⟨d, hd⟩ := hnow _ hf
      obtain ⟨x, hx⟩ := Option.ne_none_iff_exists'.mp (mt List.getLast?_eq_none_iff.mp hne)
      obtain ⟨hxret, hxchild⟩ := hscanned.last (Int.le_of_eq hret.symm) x hx
      rw [lastFound_scan hx hxret, hxchild] at hd
      rw [show r.2 = none from hchild] at hd
      cases hd
  | other h hne hhub hr ih =>
    obtain ⟨hbefore, hfollows⟩ := ih hmeets
    refine ⟨hbefore, ?_⟩
    rw [(wp_run (wp_usbHubScan_other hw (h.hasChildren hw) hne hhub) hr).children]
    exact hfollows

end

/-!
### Two scans of a port
-/

/-- Whether a device is at the first port, and whether this has changed. -/
structure Plug where
  connected : Bool
  changed : Bool

/-- The hub reports the state of the port, and the device behind it can be enumerated. -/
def plugScript (x : Transfer) (s : Plug) : Option (List Byte) × Plug :=
  match x.setup with
  | none => (none, s)
  | some setup =>
    if setup.requesttype = usbDirIn ||| usbRtPort then
      (some [if s.connected then 3 else 0, 0, if s.changed then 1 else 0, 0], s)
    else if setup.requesttype = usbRtPort ∧ setup.value = usbPortFeatCConnection then
      (some [], { s with changed := false })
    else
      (some (plainData (interfaceList 2) false x.dev setup), s)

abbrev plugWorld : HcdWorld Plug := scriptWorld 0 plugScript

def scanPort (u : Usb) (s : Plug)
    : Except Stop (((Int × Option (Fin 32)) × List PortChange) × Usb) × Plug :=
  (followedScan 0 0).exec (scriptHandler 0 plugScript) u s

def twoScans (connected connected' : Bool) : Option (PortScan × PortScan × Usb) :=
  match scanPort emptyHubUsb ⟨connected, true⟩ with
  | (.ok (r, v), _) =>
    match scanPort v ⟨connected', true⟩ with
    | (.ok (r', v'), _) => some (⟨0, r.2, r.1.1, r.1.2, v⟩, ⟨0, r'.2, r'.1.1, r'.1.2, v'⟩, v')
    | _ => none
  | _ => none

theorem hubRun_scanPort {scans : List PortScan} {u v : Usb} {s t : Plug}
    {r : (Int × Option (Fin 32)) × List PortChange} (h : HubRun plugWorld 0 scans u s)
    (hr : scanPort u s = (.ok (r, v), t))
    : HubRun plugWorld 0 (scans ++ [⟨0, r.2, r.1.1, r.1.2, v⟩]) v t := by
  have hrun : (followedScan 0 0).Run plugWorld u s (.ok (r, v)) t :=
    Prog.run_exec_ok (Prog.ofHandler_serves _).offers hr
  exact .scan h hrun

theorem hubRun_twoScans {connected connected' : Bool} {a b : PortScan} {u : Usb}
    (h : twoScans connected connected' = some (a, b, u))
    : ∃ s, HubRun plugWorld 0 [a, b] u s := by
  unfold twoScans at h
  split at h
  . next r v s hfirst =>
    split at h
    . next r' v' s' hsecond =>
      cases h
      have hstart : HubRun plugWorld 0 [] emptyHubUsb ⟨connected, true⟩ :=
        .start (by decide) (by decide) (by decide)
      exact ⟨s', hubRun_scanPort (.plug (hubRun_scanPort hstart hfirst)) hsecond⟩
    . cases h
  . cases h

theorem exists_hubRun_of_check (connected connected' : Bool) (p : PortScan → PortScan → Usb → Bool)
    (h : (twoScans connected connected').any (fun r => p r.1 r.2.1 r.2.2) = true)
    : ∃ a b u s, HubRun plugWorld 0 [a, b] u s ∧ p a b u = true := by
  obtain ⟨⟨a, b, u⟩, hr, hp⟩ := (Option.any_eq_true _ _).mp h
  obtain ⟨s, hrun⟩ := hubRun_twoScans hr
  exact ⟨a, b, u, s, hrun, hp⟩

/-- The device was pulled before the second scan. -/
theorem pulled_not_follows
    : ¬(∀ (scans : List PortScan) (u : Usb) (s : Plug), HubRun plugWorld 0 scans u s →
        ∀ scan ∈ scans, scan.changes ≠ [] → scan.ret = 0 → scan.child = none →
          (scan.after.usbDev 0).children scan.port = .null) ∧
      ¬∀ (scans : List PortScan) (u : Usb) (s : Plug), HubRun plugWorld 0 scans u s →
        Follows (u.usbDev 0).children (lastFound scans) := by
  obtain ⟨a, b, u, s, hr, hp⟩ := exists_hubRun_of_check true false
    (fun a b u => b.changes.length = 1 ∧ b.ret = 0 ∧ b.child = none ∧
      (b.after.usbDev 0).children b.port = .dev 1 ∧ (u.usbDev 0).children 0 = .dev 1 ∧
      lastFound [a, b] 0 = some none) (by decide +kernel)
  obtain ⟨hlen, hret, hchild, hafter, hdev, hlast⟩ := of_decide_eq_true hp
  constructor
  . intro h
    have hnull := h _ _ _ hr b (by simp) (List.ne_nil_of_length_pos (by omega)) hret hchild
    rw [hafter] at hnull
    cases hnull
  . intro h
    obtain ⟨d, hd⟩ := h _ _ _ hr 0 (by rw [hdev]; exact DevPtr.noConfusion)
    rw [hlast] at hd
    cases hd

theorem hubRun_follows_plugged
    : ∃ a b u s, HubRun plugWorld 0 [a, b] u s ∧ b.child = some 1 ∧
        (u.usbDev 0).children 0 = .dev 1 ∧ Follows (u.usbDev 0).children (lastFound [a, b]) := by
  obtain ⟨a, b, u, s, hr, hp⟩ := exists_hubRun_of_check false true
    (fun a b u => b.child = some 1 ∧ (u.usbDev 0).children 0 = .dev 1 ∧
      ∀ scan ∈ [a, b], ∀ x ∈ scan.changes, x.Meets 0 scan.port) (by decide +kernel)
  obtain ⟨hchild, hdev, hmeets⟩ := of_decide_eq_true hp
  exact ⟨a, b, u, s, hr, hchild, hdev, (hubRun_follows (scriptWorld_lawful _ _) hr hmeets).2⟩
