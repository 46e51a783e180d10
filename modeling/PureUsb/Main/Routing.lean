import PureUsb.Main.Lemmas.Enumerate

/-!
This module contains the routing of control transfers: those on the root hub go to its emulation,
all others over the asynchronous schedule.
-/

open Stateful

section

variable {σ : Type} {w : EhciWorld σ} {place : Placement} {addr : BitVec 32}
variable {u : Usb} {s t : MainState σ} {r : Option Usb}

theorem wp_ehciInit_rootdev {e : Ehci} {s : σ}
    : wp w (ehciInit addr) (fun r e' _ => r = 0 → e'.rootdev = 0) (fun _ _ => True) e s := by
  have hseq : ∀ {α : Type} {e : Ehci} {s : σ} (m : EhciM α) (f : α → EhciM Int),
      (∀ a e s, wp w (f a) (fun r e' _ => r = 0 → e'.rootdev = 0) (fun _ _ => True) e s) →
      wp w (m >>= f) (fun r e' _ => r = 0 → e'.rootdev = 0) (fun _ _ => True) e s := by
    intro α e s m f hf
    rw [wp_bind]
    exact wp_post (wp_true w m e s) fun a e s _ => hf a e s
  have hfailed : ∀ (e : Ehci) (s : σ),
      wp w (pure (-1) : EhciM Int) (fun r e' _ => r = 0 → e'.rootdev = 0) (fun _ _ => True) e s :=
    fun _ _ hf => absurd (show (-1 : Int) = 0 from hf) (by decide)
  unfold ehciInit
  apply hseq
  intro _ _ _
  apply hseq
  intro ret e s
  split
  . apply hfailed
  . apply hseq
    intro ret e s
    split
    . apply hfailed
    . iterate 10
        apply hseq
        intro _ _ _
      exact fun _ => rfl

def Running (r : Option Usb) (t : MainState σ) : Prop :=
  (∀ v ∈ r, MainInv v t.1.1.rootdev) ∧ Routed t

theorem ScanLoop.running (h : ScanLoop w place addr ConfigFits u s r t) (hs : Routed s)
    : Running r t := by
  obtain ⟨hinit, husb, hscan, rfl⟩ := h
  rename_i v e s' t' ret res
  have hrootdev := wp_run wp_ehciInit_rootdev hinit rfl
  obtain ⟨htable, hindex, hfresh, rfl⟩ := wp_run (E := fun _ _ => True) wp_usbInit husb
  have hpipes : ∀ i, (v.usbDev i).PipeFits := by
    intro i
    rw [hfresh]
    decide
  have hroot : wp (mainWorld w place ConfigFits) usbScanRoothub _ (fun _ t => Routed t) v
      ((e, s'), s.2) := wp_usbScanRoothub_main htable hindex hpipes hrootdev hs
  match res with
  | .ok ((ret, none), v') => exact ⟨(fun _ hf => nomatch hf), (wp_run hroot hscan).2⟩
  | .ok ((ret, some root), v') =>
    obtain ⟨hmain, hrouted⟩ := wp_run hroot hscan
    refine ⟨fun v hv => ?_, hrouted⟩
    unfold scanned at hv
    dsimp only at hv
    split at hv
    . cases hv
    . next hpos =>
      cases hv
      exact hmain (Int.not_lt.mp hpos) rfl
  | .error x => exact ⟨(fun _ hf => nomatch hf), wp_run_error hroot hscan⟩

theorem running_called {α : Type} {m : UsbM α} {dev : Fin 32} {res : Except Stop (α × Usb)}
    (h : wp (mainWorld w place ConfigFits) m (fun _ v t => Main (InTable dev) v t)
      (fun _ t => Routed t) u s)
    (hr : m.Run (mainWorld w place ConfigFits) u s res t)
    : Running (called res) t := by
  match res with
  | .ok (a, v) =>
    have hmain := wp_run h hr
    refine ⟨?_, hmain.2⟩
    rintro _ ⟨⟩
    exact hmain.1.1
  | .error x => exact ⟨(fun _ hf => nomatch hf), wp_run_error h hr⟩

theorem MainRun.running (h : MainRun w place addr ConfigFits r t) : Running r t := by
  induction h with
  | boot hscan => exact hscan.running fun _ he => nomatch he
  | again _ hscan ih => exact hscan.running ih.2
  | hubInit _ hlt hr ih =>
    have hmain := ih.1 _ rfl
    exact running_called (wp_usbHubInit_main ⟨⟨hmain, hmain.toTableState, hlt⟩, ih.2⟩) hr
  | hubScan _ hlt hi hr ih =>
    have hmain := ih.1 _ rfl
    exact running_called (wp_usbHubScan_main hi ⟨⟨hmain, hmain.toTableState, hlt⟩, ih.2⟩) hr

/--
As long as every configuration that is parsed fits, all control transfers on the root hub are handled
by its emulation, and all others go over the schedule and have a parent.
-/
theorem mainRun_routed (h : MainRun w place addr ConfigFits r t) : ∀ e ∈ t.2, e.Routed :=
  h.running.2

end

/-!
### Rounds on a concrete controller
-/

/-- The body of the loop in `main` behind `ehci_init`, if the root hub is in the table. -/
def mainBody : UsbM (Int × Option (Fin 32)) := do
  let _ ← usbInit
  match ← usbScanRoothub with
  | (ret, some roothub) =>
    let u ← get
    if ret < 0 ∨ ¬roothub < u.gDevIndex then
      Stateful.stop .hang
    else
      let _ ← usbHubInit roothub
      let u ← get
      if roothub < u.gDevIndex then usbHubScan roothub 0 else Stateful.stop .hang
  | (_, none) => Stateful.stop .hang

theorem mainRun_mainBody {σ : Type} {w : EhciWorld σ} {place : Placement} {addr : BitVec 32}
    {fits : Bytes 512 → Prop} {u : Usb} {e e' : Ehci} {s s' : σ} {t : MainState σ}
    {res : Except Stop ((Int × Option (Fin 32)) × Usb)}
    (hinit : (ehciInit addr).Run w e s (.ok (0, e')) s')
    (hrun : mainBody.Run (mainWorld w place fits) u ((e', s'), []) res t) (hres : res ≠ .error .hang)
    : MainRun w place addr fits (called res) t := by
  unfold mainBody at hrun
  obtain ⟨r, v, t0, husb, hrun⟩ | ⟨x, -, hf⟩ := run_bind.mp hrun
  . obtain ⟨⟨ret, root⟩, v', t', hscan, hrun⟩ | ⟨x, rfl, hscan⟩ := run_bind.mp hrun
    . cases root with
      | none =>
        cases hrun
        exact absurd rfl hres
      | some roothub =>
        rw [run_get_bind] at hrun
        split at hrun
        . cases hrun
          exact absurd rfl hres
        . next hfound =>
          obtain ⟨hret, hlt⟩ := not_or.mp hfound
          have hboot : MainRun w place addr fits (some v') t' := by
            refine .boot ⟨hinit, husb, hscan, ?_⟩
            exact (if_neg hret).symm
          obtain ⟨_, v2, t2, hhub, hrun⟩ | ⟨x, rfl, hhub⟩ := run_bind.mp hrun
          . have hrunning : MainRun w place addr fits (some v2) t2 :=
              .hubInit hboot (not_not.mp hlt) hhub
            rw [run_get_bind] at hrun
            split at hrun
            . next hlt => exact .hubScan hrunning hlt (by decide) hrun
            . cases hrun
              exact absurd rfl hres
          . exact .hubInit hboot (not_not.mp hlt) hhub
    . exact .boot ⟨hinit, husb, hscan, rfl⟩
  . exact (wp_run_error (E := fun _ _ => False) wp_usbInit hf).elim

/-- A controller that has completed everything by the time it is asked. -/
structure Ready where
  cmd : BitVec 32
  portsc : BitVec 32

def Ready.written (s : Ready) (v : BitVec 32) : BitVec 32 :=
  (v &&& ~~~ehciPsClear) ||| (s.portsc &&& ~~~v &&& ehciPsClear) |||
    (if s.portsc &&& ehciPsPr ≠ 0 ∧ v &&& ehciPsPr = 0 then ehciPsPe else 0)

def readyHandler (o : EhciOp) (s : Ready) : Except Stop (EhciAns o) × Ready :=
  match o with
  | .readl .usbcmd => (.ok (s.cmd &&& ~~~cmdReset), s)
  | .readl .usbsts =>
    (.ok ((if s.cmd &&& cmdAse = 0 then 0 else stdAss) ||| (if s.cmd = 0 then stsHalt else 0)), s)
  | .readl .hcsparams => (.ok 2, s)
  | .readl (.portsc _) => (.ok s.portsc, s)
  | .readl _ => (.ok 0, s)
  | .writel .usbcmd v => (.ok (), { s with cmd := v })
  | .writel (.portsc _) v => (.ok (), { s with portsc := s.written v })
  | .writel _ _ => (.ok (), s)
  | .load => (.ok .boot, s)
  | .store _ => (.ok (), s)

/-- A device with the configuration `config` behind each port of the root hub. -/
def readyHcd (config : List Byte) : (o : HcdOp) → Ehci × Ready → Except Stop (HcdAns o) × (Ehci × Ready) :=
  hcdHandler readyHandler ⟨fun _ => 0, 0⟩ fun x =>
    match x.setup with
    | some setup => plainData config false x.dev setup
    | none => []

/-- Eight interfaces, and a ninth with a descriptor of 44 bytes. -/
def ninthInterface : List Byte :=
  [9, 2, 125, 0, 9, 1, 0, 0x80, 50] ++
    ((List.range 8).flatMap fun i => [9, 4, BitVec.ofNat 8 i, 0, 0, 0xff, 0, 0, 0]) ++
    [44, 4, 8, 0, 0, 0xff] ++ List.replicate 38 0

/-- Whether `usb_parse_config` and `usb_hub_init` stay within the structures they fill. -/
def fitsCheck (checked : Bool) (o : HcdOp) : Bool :=
  match o with
  | .parsing _ buffer =>
    !checked || (match parseAndVisit strictMem buffer 64 .zero with
      | .ok _ => true
      | .error _ => false)
  | .copyingHub _ buffer => decide (HubFits buffer)
  | _ => true

theorem fits_of_check {checked : Bool} {fits : Bytes 512 → Prop}
    (hfits : ∀ buffer, checked = false ∨ ConfigFits buffer → fits buffer) {o : HcdOp}
    (h : fitsCheck checked o = true)
    : o.Fits fits := by
  cases o with
  | parsing dev buffer =>
    apply hfits
    unfold fitsCheck at h
    rw [Bool.or_eq_true] at h
    rcases h with hoff | hparse
    . exact .inl (by simpa using hoff)
    . split at hparse
      . next eps heps => exact .inr (fits_of_parsed heps)
      . cases hparse
  | copyingHub dev buffer =>
    have hhub : HubFits buffer := of_decide_eq_true h
    exact hhub
  | _ => trivial

def readyRound (config : List Byte)
    : Except Stop ((Int × Option (Fin 32)) × Usb) × MainState Ready :=
  match (ehciInit 0).exec readyHandler .boot ⟨1, 3⟩ with
  | (.ok (_, e), s) => mainBody.exec (World.tracedHandler (readyHcd config)) bootUsb ((e, s), [])
  | (.error x, s) => (.error x, ((.boot, s), []))

def startedUp : Except Stop (Int × Ehci) × Ready → Bool
  | (.ok (ret, _), _) => decide (ret = 0)
  | _ => false

/-- The round was over in the end, and it passes the check as well as `p`. -/
def roundPasses (checked : Bool) (p : Except Stop ((Int × Option (Fin 32)) × Usb) → MainState Ready → Bool)
    : Except Stop ((Int × Option (Fin 32)) × Usb) × MainState Ready → Bool
  | (.error .hang, _) => false
  | (r, t) => t.2.all (fun e => fitsCheck checked e.op) && p r t

theorem roundPasses_eq_true {checked : Bool}
    {p : Except Stop ((Int × Option (Fin 32)) × Usb) → MainState Ready → Bool}
    {r : Except Stop ((Int × Option (Fin 32)) × Usb)} {t : MainState Ready}
    (h : roundPasses checked p (r, t) = true)
    : r ≠ .error .hang ∧ t.2.all (fun e => fitsCheck checked e.op) = true ∧ p r t = true := by
  rcases r with (_ | _) | x
  . exact ⟨by simp, Bool.and_eq_true_iff.mp h⟩
  . cases h
  . exact ⟨by simp, Bool.and_eq_true_iff.mp h⟩

theorem exists_mainRun_of_check {fits : Bytes 512 → Prop} (config : List Byte) (checked : Bool)
    (hfits : ∀ buffer, checked = false ∨ ConfigFits buffer → fits buffer)
    {p : Except Stop ((Int × Option (Fin 32)) × Usb) → MainState Ready → Bool}
    (hp : roundPasses checked p (readyRound config) = true)
    : ∃ r t, MainRun (.ofHandler readyHandler) ⟨fun _ => 0, 0⟩ 0 fits (called r) t ∧ p r t = true := by
  have hinit := run_exec (Prog.ofHandler_serves readyHandler) (ehciInit 0) .boot ⟨1, 3⟩
  have hret : startedUp ((ehciInit 0).exec readyHandler .boot ⟨1, 3⟩) = true := by decide +kernel
  unfold readyRound at hp
  generalize (ehciInit 0).exec readyHandler .boot ⟨1, 3⟩ = start at hinit hret hp
  obtain ⟨x | ⟨ret, e⟩, s⟩ := start
  . cases hret
  . have hret : ret = 0 := of_decide_eq_true hret
    subst hret
    have hserves : Prog.Serves (readyHcd config) _ :=
      hcdHandler_serves (Prog.ofHandler_serves readyHandler) ⟨fun _ => 0, 0⟩ _
    have hrun := World.run_exec_traced (P := HcdOp.Fits fits) hserves (mainBody.run bootUsb) ((e, s), [])
    change roundPasses checked p
      ((mainBody.run bootUsb).exec (World.tracedHandler (readyHcd config)) ((e, s), [])) = true at hp
    generalize (mainBody.run bootUsb).exec _ _ = res at hp hrun
    obtain ⟨r, t⟩ := res
    obtain ⟨hres, hall, hpr⟩ := roundPasses_eq_true hp
    have hrun := hrun fun e he => fits_of_check hfits (List.all_eq_true.mp hall e he)
    exact ⟨r, t, mainRun_mainBody hinit hrun hres, hpr⟩

/-- A transfer for a device other than the root hub, which has lost its parent. -/
def HcdOp.losesParent : HcdOp → Bool
  | .submit x => x.setup.isSome && decide (x.dev ≠ 0) && decide ((x.usbDev x.dev).parent = .null)
  | _ => false

/-- The ninth interface of the first device takes away its parent. -/
theorem ninth_interface_not_routed
    : ¬∀ (r : Option Usb) (t : MainState Ready),
        MainRun (.ofHandler readyHandler) ⟨fun _ => 0, 0⟩ 0 (fun _ => True) r t →
        ∀ e ∈ t.2, e.Routed := by
  intro h
  obtain ⟨r, t, hrun, hp⟩ := exists_mainRun_of_check ninthInterface false
    (fun _ _ => trivial)
    (p := fun _ t => t.2.any fun e => e.op.losesParent) (by decide +kernel)
  obtain ⟨e, he, hp⟩ := List.any_eq_true.mp hp
  have hrouted := h _ t hrun e he
  obtain ⟨state, op, answer⟩ := e
  cases op with
  | submit x =>
    obtain ⟨hp, hparent⟩ := Bool.and_eq_true_iff.mp hp
    obtain ⟨hsetup, hdev⟩ := Bool.and_eq_true_iff.mp hp
    exact ((hrouted hsetup).async (of_decide_eq_true hdev)).2 (of_decide_eq_true hparent)
  | _ => cases hp

theorem mainRun_routed_two_interfaces
    : ∃ (u : Usb) (t : MainState Ready),
        MainRun (.ofHandler readyHandler) ⟨fun _ => 0, 0⟩ 0 ConfigFits (some u) t ∧
        u.gDevIndex = 2 ∧ ∀ e ∈ t.2, e.Routed := by
  obtain ⟨r, t, hrun, hp⟩ := exists_mainRun_of_check (interfaceList 2) true
    (fun _ h => h.resolve_left (by decide))
    (p := fun r _ =>
      match called r with
      | some u => decide (u.gDevIndex = 2)
      | none => false) (by decide +kernel)
  generalize called r = u at hrun hp
  cases u with
  | none => cases hp
  | some u => exact ⟨u, t, hrun, of_decide_eq_true hp, mainRun_routed hrun⟩
