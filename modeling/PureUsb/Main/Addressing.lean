import PureUsb.Main.Lemmas.BusScan
import PureUsb.Main.Routing

/-!
This module contains that no two devices on the bus ever answer to the same address.
-/

open Stateful

section

variable {σ : Type} {w : EhciWorld σ} {place : Placement} {addr : BitVec 32} {n a : Nat} {hub : Fin 32}
variable {u : Usb} {s t : BusTrace σ} {r : Option Usb}

/-!
### The root hub
-/

theorem wp_usbScanDevice_silent (h : Scanning 1 0 1 u) (hpipes : ∀ i, (u.usbDev i).PipeFits)
    (hrootdev : s.1.1.1.rootdev = 0) (hrouted : Routed (forgetBus s)) (hs : Silent s)
    : wp (listeningWorld w place ConfigFits).traced (usbScanDevice 0)
        (fun r v t => ((0 ≤ r → Main (Allocated 1 0) v (forgetBus t)) ∧ Routed (forgetBus t)) ∧ Silent t)
        (fun _ t => Routed (forgetBus t) ∧ Peaceful t) u s := by
  have hneg : ¬(0 : Int) ≤ -1 := by decide
  apply scanRule_root.scanDevice_bus
    (C := fun r v t => (0 ≤ r → Main (Allocated 1 0) v t) ∧ Routed t) undisturbed_silent undisturbed_silent
  . intro u s hA hs
    apply wp_resetParentPort (I := fun v t => (RootScan v t.1.1.1.rootdev ∧ Routed (forgetBus t)) ∧ Silent t)
    . intro p hp
      exact absurd (hA.1.scanning.table.lt_of_parentOf hp) (Fin.not_lt_zero _)
    . exact fun _ => ⟨hA.2, hs.peaceful⟩
    . exact ⟨hA, hs⟩
  . exact fun _ hs => wp_usbSetAddress_silent hs
  . intro v t tmpbuf hB
    exact wp_post ((configRule_main (by decide)).scan hB tmpbuf) fun _ _ _ hC => ⟨fun _ => hC, hC.2⟩
  . exact fun hA hs => ⟨⟨fun hf => absurd hf hneg, hA.2⟩, hs⟩
  . exact fun hB hs => ⟨⟨fun hf => absurd hf hneg, hB.2⟩, hs⟩
  . exact fun hC hs => ⟨hC, hs⟩
  . exact h.devnum
  . apply wp_post (wp_stack_routed hrouted)
    rintro _ v t ⟨rfl, ht, hrouted⟩
    refine ⟨rfl, ⟨?_, h.address (.inl rfl), fun i => ?_⟩, hrouted⟩
    . rw [ht]
      exact hrootdev
    . by_cases hi : i = 0
      . rw [hi, Usb.setDev_same]
        exact ⟨(hpipes 0).packetSize, (hpipes 0).speed⟩
      . rw [Usb.setDev_ne _ _ hi]
        exact hpipes i
  . exact hs

theorem wp_usbScanRoothub_silent (h : TableState u) (hindex : u.gDevIndex = 0)
    (hpipes : ∀ i, (u.usbDev i).PipeFits) (hrootdev : s.1.1.1.rootdev = 0)
    (hrouted : Routed (forgetBus s)) (hs : Silent s)
    : wp (listeningWorld w place ConfigFits).traced usbScanRoothub
        (fun r v t =>
          ((0 ≤ r.1 → r.2.isSome → MainInv v t.1.1.1.rootdev) ∧ Routed (forgetBus t)) ∧ Silent t)
        (fun _ t => Routed (forgetBus t) ∧ Peaceful t) u s := by
  have hlinks : ∀ p ∈ (none : Option (Fin 32)), p < u.gDevIndex := by
    rintro _ ⟨⟩
  unfold usbScanRoothub
  rw [wp_bind]
  apply wp_usbAllocNewDevice h.index_le hlinks
  . exact fun _ => ⟨⟨fun hf => absurd (show (0 : Int) ≤ -1 from hf) (by decide), hrouted⟩, hs⟩
  . intro new i hnew _
    have hzero : new = 0 := Fin.ext (hnew.trans hindex)
    subst hzero
    have hscan := scanning_alloc i h hnew hlinks
    rw [hindex] at hscan
    have hfits : ∀ j, ((u.alloc 0 none i).usbDev j).PipeFits := by
      intro j
      by_cases hj : j = 0
      . subst hj
        rw [Usb.alloc_new]
        exact ⟨(hpipes 0).packetSize, (hpipes 0).speed⟩
      . rw [Usb.alloc_ne hj (Option.some_ne_none j).symm]
        exact hpipes j
    dsimp only
    rw [wp_bind]
    apply wp_post (wp_usbScanDevice_silent hscan hfits hrootdev hrouted hs)
    rintro ret v t ⟨⟨hmain, hrouted⟩, hs⟩
    split
    . next hneg => exact ⟨⟨fun hf => absurd (show (0 : Int) ≤ ret from hf) (by omega), hrouted⟩, hs⟩
    . next hpos =>
      rw [wp_bind]
      apply wp_usbIsHub fun _ => ⟨hrouted, hs.peaceful⟩
      intro hub
      split
      . exact ⟨⟨(fun _ hf => nomatch hf), hrouted⟩, hs⟩
      . exact ⟨⟨fun _ _ => (hmain (by omega)).1.1, hrouted⟩, hs⟩

/-!
### Between the calls
-/

/-- Between two calls all addresses are different, and some device may have been left at address 0. -/
structure AtRest (v : Usb) (t : BusTrace σ) : Prop where
  main : MainInv v t.1.1.1.rootdev
  spread : ∃ spot, t.1.2.Spread v.gDevIndex spot

/-- What is known while `main` runs. -/
structure BusRunning (r : Option Usb) (t : BusTrace σ) : Prop where
  rest : ∀ v ∈ r, AtRest v t
  routed : Routed (forgetBus t)
  peaceful : Peaceful t

theorem Silent.spread (h : Silent t) (n : Nat) : t.1.2.Spread n none := by
  constructor
  . intro p a hp
    rw [h.silent] at hp
    cases hp
  . intro p q a hp
    rw [h.silent] at hp
    cases hp
  . intro p hp
    rw [h.silent] at hp
    cases hp

theorem BusScanLoop.running (h : BusScanLoop w place addr ConfigFits u s r t)
    (hrouted : Routed (forgetBus s)) (hs : Peaceful s)
    : BusRunning r t := by
  obtain ⟨hinit, husb, hscan, rfl⟩ := h
  rename_i v e s' t' ret res
  have hrootdev := wp_run wp_ehciInit_rootdev hinit rfl
  obtain ⟨htable, hindex, hfresh, rfl⟩ := wp_run (E := fun _ _ => True) wp_usbInit husb
  have hpipes : ∀ i, (v.usbDev i).PipeFits := by
    intro i
    rw [hfresh]
    decide
  have hsilent : Silent (((e, s'), fun _ => none), s.2) := ⟨fun _ => rfl, hs⟩
  have hstart : Routed (forgetBus (((e, s'), fun _ => none), s.2)) := hrouted
  have hroot : wp (listeningWorld w place ConfigFits).traced usbScanRoothub _
      (fun _ t => Routed (forgetBus t) ∧ Peaceful t) v (((e, s'), fun _ => none), s.2) :=
    wp_usbScanRoothub_silent htable hindex hpipes hrootdev hstart hsilent
  match res with
  | .ok ((ret, none), v') =>
    obtain ⟨⟨-, hrouted⟩, hs⟩ := wp_run hroot hscan
    exact ⟨(fun _ hf => nomatch hf), hrouted, hs.peaceful⟩
  | .ok ((ret, some root), v') =>
    obtain ⟨⟨hmain, hrouted⟩, hs⟩ := wp_run hroot hscan
    refine ⟨fun v hv => ?_, hrouted, hs.peaceful⟩
    unfold scanned at hv
    dsimp only at hv
    split at hv
    . cases hv
    . next hpos =>
      cases hv
      exact ⟨hmain (Int.not_lt.mp hpos) rfl, none, hs.spread _⟩
  | .error x =>
    obtain ⟨hrouted, hs⟩ := wp_run_error hroot hscan
    exact ⟨(fun _ hf => nomatch hf), hrouted, hs⟩

theorem busRunning_called {α : Type} {m : UsbM α} {res : Except Stop (α × Usb)}
    (h : wp (listeningWorld w place ConfigFits).traced m
      (fun _ v t => AtRest v t ∧ Routed (forgetBus t) ∧ Peaceful t)
      (fun _ t => Routed (forgetBus t) ∧ Peaceful t) u s)
    (hr : m.Run (listeningWorld w place ConfigFits).traced u s res t)
    : BusRunning (called res) t := by
  match res with
  | .ok (a, v) =>
    obtain ⟨hrest, hrouted, hs⟩ := wp_run h hr
    refine ⟨?_, hrouted, hs⟩
    rintro _ ⟨⟩
    exact hrest
  | .error x =>
    obtain ⟨hrouted, hs⟩ := wp_run_error h hr
    exact ⟨(fun _ hf => nomatch hf), hrouted, hs⟩

theorem MainInv.hubIn {rootdev : Int} (h : MainInv u rootdev) (hlt : hub < u.gDevIndex)
    : HubIn u.gDevIndex hub (u.usbDev hub).devnum.toNat u := by
  have := h.devnum_le hlt
  exact ⟨⟨h.toTableState, rfl, hlt⟩, by omega⟩

theorem HubIn.atRest {port : Nat} {spot : Option (List Nat)} (h : Main (HubIn n hub a) u (forgetBus t))
    (ht : Busy n a port spot t)
    : AtRest u t := by
  refine ⟨h.1.1, spot, ?_⟩
  rw [h.1.2.1.index]
  exact ht.spread

theorem wp_usbHubInit_hubIn {s : MainState σ} {fits : Bytes 512 → Prop} (h : Main (HubIn n hub a) u s)
    : wp (mainWorld w place fits) (usbHubInit hub) (fun _ v t => Main (HubIn n hub a) v t)
        (fun _ t => Routed t) u s := by
  refine hubFrame_hubIn.frame.hubInit (fun {u s} buffer h => ?_) h
  obtain ⟨⟨hmain, hhub⟩, hs⟩ := h
  have hlt : hub < u.gDevIndex := hhub.1.index.symm ▸ hhub.1.lt
  apply wp_storeHubDescriptor_fits (hmain.ports hub)
  intro t
  constructor
  . rintro x ⟨⟨hfits, ht⟩, htrace⟩
    have ht : t.1 = s.1 := ht
    have hevent : Event.Routed (⟨s.1, .copyingHub hub buffer, .ok x⟩ : HcdEvent (Ehci × σ)) := trivial
    refine ⟨rfl, hfits, fun d hports => ?_⟩
    have hset : MainInv (u.setDev hub { u.usbDev hub with
        hubdescriptor := d, maxchild := (buffer 2).toNat }) t.1.1.rootdev := by
      rw [ht]
      refine hmain.setDev hlt (hmain.devnum hub hlt) ?_ rfl rfl hports ?_
      . rintro rfl
        exact hmain.root
      . exact ⟨(hmain.pipes hub).packetSize, (hmain.pipes hub).speed⟩
    refine ⟨⟨hset, ⟨hset.toTableState, hhub.1.index, hhub.1.lt⟩, ?_⟩, hs.append hevent htrace⟩
    rw [Usb.setDev_same]
    exact hhub.2
  . rintro e ⟨⟨-, hf⟩, -⟩
    exact hf.elim

theorem AtRest.busy (h : AtRest u s) (hs : Peaceful s)
    : ∃ spot, Busy u.gDevIndex (u.gDevIndex + 2) 0 spot s := by
  obtain ⟨spot, hspread⟩ := h.spread
  refine ⟨spot, h.main.rootdev, hspread, fun q hq => ?_, hs⟩
  unfold Listening.At at hq
  rw [if_neg (by omega)] at hq
  have := hspread.range hq
  omega

theorem AtRest.atPort (h : AtRest u s) (hzero : ∀ p, s.1.2 p ≠ some 0) (hs : Peaceful s) (a port : Nat)
    : ∃ spot, Busy u.gDevIndex a port spot s := by
  obtain ⟨spot, hspread⟩ := h.spread
  have hunique : ∀ {p q}, s.1.2.At 1 a p → s.1.2.At 1 a q → p = q := by
    intro p q hp hq
    unfold Listening.At at hp hq
    by_cases hroot : (a : Int) = 1
    . rw [if_pos hroot] at hp hq
      rw [hp, hq]
    . rw [if_neg hroot] at hp hq
      exact hspread.unique hp hq
  have hpos : ∀ {q}, s.1.2.At 1 a q → a ≠ 0 := by
    rintro q hq rfl
    exact hzero q hq
  by_cases hhub : ∃ q, s.1.2.At 1 a q
  . obtain ⟨p, hp⟩ := hhub
    refine ⟨some (p ++ [port]), h.main.rootdev, hspread.settled hzero _, fun q hq => ?_, hs⟩
    exact ⟨hpos hq, by rw [hunique hp hq]⟩
  . exact ⟨none, h.main.rootdev, hspread.settled hzero _, fun q hq => absurd ⟨q, hq⟩ hhub, hs⟩

theorem BusRun.running (h : BusRun w place addr ConfigFits r t) : BusRunning r t := by
  induction h with
  | boot hscan => exact hscan.running (fun _ he => nomatch he) (fun _ he => nomatch he)
  | again _ hscan ih => exact hscan.running ih.routed ih.peaceful
  | hubInit _ hlt hr ih =>
    have hrest := ih.rest _ rfl
    obtain ⟨spot, hbusy⟩ := hrest.busy ih.peaceful
    apply busRunning_called _ hr
    have hmain := And.intro (And.intro hrest.main (hrest.main.hubIn hlt)) ih.routed
    apply wp_post (undisturbed_busy.and Sends.usbHubInit.isHarmless hbusy (wp_usbHubInit_hubIn hmain))
    rintro _ v t ⟨hmain, hs⟩
    refine ⟨⟨hmain.1.1, spot, ?_⟩, hmain.2, hs.peaceful⟩
    rw [hmain.1.2.1.index]
    exact hs.spread
  | @hubScan _ _ _ hub i _ _ hlt hi hzero hr ih =>
    have hrest := ih.rest _ rfl
    obtain ⟨spot, hbusy⟩ := hrest.atPort hzero ih.peaceful _ (i.toNat + 1)
    apply busRunning_called _ hr
    apply wp_post (wp_usbHubScan_bus hi ⟨_, ⟨⟨hrest.main, hrest.main.hubIn hlt⟩, ih.routed⟩, hbusy⟩)
    rintro _ v t ⟨n, hmain, hs⟩
    exact ⟨HubIn.atRest hmain hs, hmain.2, hs.peaceful⟩

/--
While `main` runs, every address is answered by one device at most, and that of the root hub by none:
whenever a transfer is sent, and in the end.
-/
theorem busRun_noConflict (h : BusRun w place addr ConfigFits r t)
    : (∀ e ∈ t.2, e.state.2.NoConflict e.state.1.1.rootdev) ∧
      (r.isSome → t.1.2.NoConflict t.1.1.1.rootdev) := by
  refine ⟨h.running.peaceful, fun hr => ?_⟩
  obtain ⟨v, rfl⟩ := Option.isSome_iff_exists.mp hr
  have hrest := h.running.rest v rfl
  obtain ⟨spot, hspread⟩ := hrest.spread
  rw [hrest.main.rootdev]
  exact hspread.noConflict

end

/-!
### A device behind the first port
-/

/-- What the device behind the first port of the root hub answers to after an operation. -/
def firstPortAfter (rootdev : Int) (o : HcdOp) (a : Option Nat) : Option Nat :=
  match o with
  | .submit x =>
    match x.setup with
    | some setup =>
      if setup.resetPort? = some 1 ∧ (x.address : Int) = rootdev then
        some 0
      else if setup.address?.isSome ∧ (x.address : Int) ≠ rootdev ∧ a = some x.address then
        setup.address?
      else
        a
    | none => a
  | _ => a

/-- The driver on a controller with one device, behind the first port. -/
def firstPortHcd (config : List Byte) (o : HcdOp) (s : BusState Ready)
    : Except Stop (HcdAns o) × BusState Ready :=
  ((readyHcd config o s.1).1, ((readyHcd config o s.1).2,
    fun p => if p = [1] then firstPortAfter s.1.1.rootdev o (s.2 [1]) else none))

theorem firstPortAfter_after (b : Listening) (rootdev : Int) (o : HcdOp)
    : b.After rootdev o fun p => if p = [1] then firstPortAfter rootdev o (b [1]) else none := by
  have hother : ∀ {a : Option Nat}, a = b [1] → ∀ p,
      (if p = [1] then a else none) = none ∨ (if p = [1] then a else none) = b p := by
    rintro a rfl p
    by_cases hp : p = [1]
    . subst hp
      exact .inr (if_pos rfl)
    . exact .inl (if_neg hp)
  cases o with
  | submit x =>
    intro p
    dsimp only
    by_cases hp : p = [1]
    . subst hp
      rw [if_pos rfl]
      cases hsetup : x.setup with
      | none =>
        have hsame : firstPortAfter rootdev (.submit x) (b [1]) = b [1] := by
          simp only [firstPortAfter, hsetup]
        rw [hsame]
        exact .same
      | some setup =>
        simp only [firstPortAfter, hsetup]
        split
        . next hreset =>
          have hroot : b.At rootdev x.address [] := by
            unfold Listening.At
            rw [if_pos hreset.2]
          exact .reset hsetup hreset.1 hroot rfl
        . split
          . next haddress =>
            obtain ⟨a, ha⟩ := Option.isSome_iff_exists.mp haddress.1
            rw [ha]
            exact .address hsetup ha haddress.2.1 haddress.2.2
          . exact .same
    . rw [if_neg hp]
      exact .silent
  | _ => exact hother rfl

def looseWorld {σ : Type} (w : EhciWorld σ) (place : Placement) : HcdWorld (BusState σ) := fun o s r t =>
  hcdWorld w place o s.1 r t.1 ∧ s.2.After s.1.1.rootdev o t.2

theorem firstPortHcd_serves (config : List Byte)
    : Prog.Serves (firstPortHcd config) (looseWorld (.ofHandler readyHandler) ⟨fun _ => 0, 0⟩) :=
  fun o s => ⟨hcdHandler_serves (Prog.ofHandler_serves readyHandler) _ _ o s.1,
    firstPortAfter_after s.2 s.1.1.rootdev o⟩

theorem busRun_mainBody {σ : Type} {w : EhciWorld σ} {place : Placement} {addr : BitVec 32} {u : Usb}
    {e e' : Ehci} {s s' : σ} {b : Listening} {t : BusTrace σ}
    {res : Except Stop ((Int × Option (Fin 32)) × Usb)}
    (hinit : (ehciInit addr).Run w e s (.ok (0, e')) s')
    (hrun : mainBody.Run (listeningWorld w place ConfigFits).traced u (((e', s'), fun _ => none), []) res t)
    (hres : res ≠ .error .hang)
    : BusRun w place addr ConfigFits (called res) t := by
  have hboot : ∀ {v t0 ret r t'}, usbInit.Run (listeningWorld w place ConfigFits).traced u
      (((e', s'), fun _ => none), []) (.ok (ret, v)) t0 →
      usbScanRoothub.Run (listeningWorld w place ConfigFits).traced v t0 r t' →
      BusRun w place addr ConfigFits (scanned r) t' :=
    fun husb hscan => .boot (s := ((e, s), b)) ⟨hinit, husb, hscan, rfl⟩
  have hsilent : ∀ {v t0 ret r v' t'}, usbInit.Run (listeningWorld w place ConfigFits).traced u
      (((e', s'), fun _ => none), []) (.ok (ret, v)) t0 →
      usbScanRoothub.Run (listeningWorld w place ConfigFits).traced v t0 (.ok (r, v')) t' → Silent t' := by
    intro v t0 ret r v' t' husb hscan
    obtain ⟨htable, hindex, hfresh, rfl⟩ := wp_run (E := fun _ _ => True) wp_usbInit husb
    have hpipes : ∀ i, (v.usbDev i).PipeFits := by
      intro i
      rw [hfresh]
      decide
    have hroot : wp (listeningWorld w place ConfigFits).traced usbScanRoothub _
        (fun _ t => Routed (forgetBus t) ∧ Peaceful t) v (((e', s'), fun _ => none), []) :=
      wp_usbScanRoothub_silent htable hindex hpipes (wp_run wp_ehciInit_rootdev hinit rfl)
        (fun _ he => nomatch he) ⟨fun _ => rfl, fun _ he => nomatch he⟩
    exact (wp_run hroot hscan).2
  unfold mainBody at hrun
  obtain ⟨r, v, t0, husb, hrun⟩ | ⟨x, -, hf⟩ := run_bind.mp hrun
  . obtain ⟨⟨ret, root⟩, v', t', hscan, hrun⟩ | ⟨x, rfl, hscan⟩ := run_bind.mp hrun
    . cases root with
      | none =>
        cases hrun
        exact absurd rfl hres
      | some roothub =>
        rw [run_get_bind] at hrun
        split at hrun
        . cases hrun
          exact absurd rfl hres
        . next hfound =>
          obtain ⟨hret, hlt⟩ := not_or.mp hfound
          have hrunning := hboot husb hscan
          rw [show scanned (.ok ((ret, some roothub), v')) = some v' from if_neg hret] at hrunning
          obtain ⟨_, v2, t2, hhub, hrun⟩ | ⟨x, rfl, hhub⟩ := run_bind.mp hrun
          . have hrunning : BusRun w place addr ConfigFits (some v2) t2 :=
              .hubInit hrunning (not_not.mp hlt) hhub
            rw [run_get_bind] at hrun
            split at hrun
            . next hlt =>
              refine .hubScan hrunning hlt (by decide) (fun p hp => ?_) hrun
              have hquiet := wp_run (undisturbed_silent.wp Sends.usbHubInit.isHarmless (hsilent husb hscan)) hhub
              rw [hquiet.silent] at hp
              cases hp
            . cases hrun
              exact absurd rfl hres
          . exact .hubInit hrunning (not_not.mp hlt) hhub
    . exact hboot husb hscan
  . exact (wp_run_error (E := fun _ _ => False) wp_usbInit hf).elim

def firstPortRound (config : List Byte) : Except Stop ((Int × Option (Fin 32)) × Usb) × BusTrace Ready :=
  match (ehciInit 0).exec readyHandler .boot ⟨1, 3⟩ with
  | (.ok (_, e), s) =>
    mainBody.exec (World.tracedHandler (firstPortHcd config)) bootUsb (((e, s), fun _ => none), [])
  | (.error x, s) => (.error x, (((.boot, s), fun _ => none), []))

/-- The round returned, everything fits, and the device has the address `a`. -/
def roundAssigns (a : Nat) : Except Stop ((Int × Option (Fin 32)) × Usb) × BusTrace Ready → Bool
  | (.ok _, t) => t.2.all (fun e => fitsCheck true e.op) && decide (t.1.2 [1] = some a)
  | _ => false

theorem exists_busRun_of_check (config : List Byte) {a : Nat}
    (hp : roundAssigns a (firstPortRound config) = true)
    : ∃ u t, BusRun (.ofHandler readyHandler) ⟨fun _ => 0, 0⟩ 0 ConfigFits (some u) t ∧
        t.1.2 [1] = some a := by
  have hinit := run_exec (Prog.ofHandler_serves readyHandler) (ehciInit 0) .boot ⟨1, 3⟩
  have hret : startedUp ((ehciInit 0).exec readyHandler .boot ⟨1, 3⟩) = true := by decide +kernel
  unfold firstPortRound at hp
  generalize (ehciInit 0).exec readyHandler .boot ⟨1, 3⟩ = start at hinit hret hp
  obtain ⟨x | ⟨ret, e⟩, s⟩ := start
  . cases hret
  . have hret : ret = 0 := of_decide_eq_true hret
    subst hret
    have hrun := World.run_exec_traced (P := HcdOp.Fits ConfigFits) (firstPortHcd_serves config)
      (mainBody.run bootUsb) (((e, s), fun _ => none), [])
    change roundAssigns a ((mainBody.run bootUsb).exec (World.tracedHandler (firstPortHcd config))
      (((e, s), fun _ => none), [])) = true at hp
    generalize (mainBody.run bootUsb).exec _ _ = res at hp hrun
    obtain ⟨x | ⟨ret, v⟩, t⟩ := res
    . cases hp
    . obtain ⟨hall, ha⟩ := Bool.and_eq_true_iff.mp hp
      have hrun := hrun fun e he =>
        fits_of_check (fun _ h => h.resolve_left (by decide)) (List.all_eq_true.mp hall e he)
      have hstrict : mainBody.Run (listeningWorld (.ofHandler readyHandler) ⟨fun _ => 0, 0⟩ ConfigFits).traced
          bootUsb (((e, s), fun _ => none), []) (.ok (ret, v)) t := by
        refine run_mono ?_ hrun
        rintro o s r t ⟨⟨hfits, hw, hafter⟩, ht⟩
        exact ⟨⟨⟨hfits, hw⟩, hafter⟩, ht⟩
      have hok : (.ok (ret, v) : Except Stop ((Int × Option (Fin 32)) × Usb)) ≠ .error .hang := by
        rintro ⟨⟩
      exact ⟨v, t, busRun_mainBody (b := fun _ => none) hinit hstrict hok, of_decide_eq_true ha⟩

theorem busRun_noConflict_two_interfaces
    : ∃ (u : Usb) (t : BusTrace Ready),
        BusRun (.ofHandler readyHandler) ⟨fun _ => 0, 0⟩ 0 ConfigFits (some u) t ∧ t.1.2 [1] = some 2 ∧
        (∀ e ∈ t.2, e.state.2.NoConflict e.state.1.1.rootdev) ∧
        t.1.2.NoConflict t.1.1.1.rootdev := by
  obtain ⟨u, t, hrun, ha⟩ := exists_busRun_of_check (a := 2) (interfaceList 2) (by decide +kernel)
  exact ⟨u, t, hrun, ha, (busRun_noConflict hrun).1, (busRun_noConflict hrun).2 rfl⟩
