import PureUsb.Main.Lemmas.Listening

/-!
This module contains how the calls that `main` makes keep the addresses on the bus apart.
-/

open Stateful

/-!
### What holds between two transfers
-/

section

variable {σ : Type} {w : EhciWorld σ} {place : Placement} {fits : Bytes 512 → Prop}
variable {n a port : Nat} {spot : Option (List Nat)} {s t : BusTrace σ} {o : HcdOp}

def forgetBus (t : BusTrace σ) : MainState σ := (t.1.1, t.2.map fun e => ⟨e.state.1, e.op, e.answer⟩)

theorem forget_step (o : HcdOp) (s : BusTrace σ) (x : Except Stop (HcdAns o)) (t : BusTrace σ)
    (h : (listeningWorld w place fits).traced o s x t)
    : mainWorld w place fits o (forgetBus s) x (forgetBus t) := by
  obtain ⟨⟨hw, -⟩, ht⟩ := h
  refine ⟨hw, ?_⟩
  unfold forgetBus
  rw [ht, List.map_append]
  rfl

/-- There was no conflict in any state that an operation was issued in. -/
def Peaceful (t : BusTrace σ) : Prop := ∀ e ∈ t.2, e.state.2.NoConflict e.state.1.1.rootdev

theorem Peaceful.step (h : Peaceful s) (hs : s.1.2.NoConflict s.1.1.1.rootdev)
    {x : Except Stop (HcdAns o)} (ht : (listeningWorld w place fits).traced o s x t)
    : Peaceful t := by
  intro e he
  rw [ht.2, List.mem_append, List.mem_singleton] at he
  rcases he with hold | rfl
  . exact h e hold
  . exact hs

/-- The bus while the devices behind `spot` are enumerated, which is a port of the hub `a`. -/
structure Busy (n a port : Nat) (spot : Option (List Nat)) (t : BusTrace σ) : Prop where
  rootdev : t.1.1.1.rootdev = 1
  spread : t.1.2.Spread n spot
  above : t.1.2.Above a port spot
  peaceful : Peaceful t

/-- The bus before the root hub has an address. -/
structure Silent (t : BusTrace σ) : Prop where
  silent : ∀ p, t.1.2 p = none
  peaceful : Peaceful t

theorem Busy.noConflict (h : Busy n a port spot t) : t.1.2.NoConflict t.1.1.1.rootdev := by
  rw [h.rootdev]
  exact h.spread.noConflict

theorem Busy.mono {m : Nat} (h : Busy n a port spot t) (hn : n ≤ m) : Busy m a port spot t :=
  ⟨h.rootdev, h.spread.mono hn, h.above, h.peaceful⟩

theorem Silent.noConflict (h : Silent t) : t.1.2.NoConflict t.1.1.1.rootdev := by
  constructor
  . intro p q a hp
    rw [h.silent] at hp
    cases hp
  . intro p a hp
    rw [h.silent] at hp
    cases hp

theorem rootdev_step {s t : Ehci × σ} {x : HcdAns o} (h : hcdWorld w place o s (.ok x) t)
    (hx : ∀ x, o = .submit x → x.rootdevAfter s.1.rootdev = s.1.rootdev)
    : t.1.rootdev = s.1.rootdev := by
  cases o with
  | submit y =>
    obtain ⟨data, hrun, -⟩ := h
    rw [(wp_run (wp_submitTransfer y) hrun).2]
    exact hx y rfl
  | _ =>
    rw [show t = s from h]

theorem Transfer.rootdevAfter_of_address {x : Transfer} (h : ∀ setup ∈ x.setup, setup.address? = none)
    (rootdev : Int)
    : x.rootdevAfter rootdev = rootdev := by
  unfold Transfer.rootdevAfter
  cases hx : x.setup with
  | none => rfl
  | some setup =>
    dsimp only
    rw [DevRequest.rootdevAfter_of_address (h setup hx)]
    exact ite_self _

/-- `J` survives what neither assigns an address nor resets a port. -/
structure Undisturbed (w : EhciWorld σ) (place : Placement) (fits : Bytes 512 → Prop)
    (J : BusTrace σ → Prop) : Prop where
  step : ∀ {o s x t}, o.Harmless → J s → (listeningWorld w place fits).traced o s (.ok x) t → J t
  noConflict : ∀ {s}, J s → s.1.2.NoConflict s.1.1.1.rootdev
  peaceful : ∀ {s}, J s → Peaceful s

theorem undisturbed_busy : Undisturbed w place fits (Busy n a port spot) where
  step {o s x t} ho h hw := by
    obtain ⟨⟨⟨-, hhcd⟩, hafter⟩, -⟩ := id hw
    have hless := hafter.less ho
    refine ⟨?_, h.spread.less hless, h.above.less hless, h.peaceful.step h.noConflict hw⟩
    rw [rootdev_step hhcd, h.rootdev]
    rintro x rfl
    exact Transfer.rootdevAfter_of_address (fun setup hsetup => (ho setup hsetup).address) _
  noConflict h := h.noConflict
  peaceful h := h.peaceful

theorem Silent.step {x : Except Stop (HcdAns o)}
    (ho : ∀ x, o = .submit x → ∀ setup ∈ x.setup, setup.resetPort? = none) (h : Silent s)
    (hw : (listeningWorld w place fits).traced o s x t)
    : Silent t := by
  refine ⟨fun p => ?_, h.peaceful.step h.noConflict hw⟩
  obtain ⟨⟨-, hafter⟩, -⟩ := hw
  cases o with
  | submit y =>
    have hchange : s.1.2.Change s.1.1.1.rootdev y p (t.1.2 p) := hafter p
    generalize t.1.2 p = r at hchange
    cases hchange with
    | silent => rfl
    | same => exact h.silent p
    | reset hx hport _ _ =>
      rw [ho y rfl _ hx] at hport
      cases hport
    | address _ _ _ hb =>
      rw [h.silent] at hb
      cases hb
  | _ =>
    rcases hafter p with hnone | hsame
    . exact hnone
    . rw [hsame, h.silent]

theorem undisturbed_silent : Undisturbed w place fits (Silent (σ := σ)) where
  step ho h hw := by
    refine h.step ?_ hw
    rintro x rfl setup hsetup
    exact (ho setup hsetup).resetPort
  noConflict h := h.noConflict
  peaceful h := h.peaceful

/-!
### Programs
-/

variable {α : Type} {m : UsbM α} {J : BusTrace σ → Prop} {u : Usb}

theorem Undisturbed.wp (hJ : Undisturbed w place fits J) (h : IsHarmless m) (hs : J s)
    : wp (listeningWorld w place fits).traced m (fun _ _ t => J t) (fun _ t => Peaceful t) u s :=
  h.wp_stoppable (fun _ _ _ _ ho hs hw => hJ.step ho hs hw)
    (fun _ _ _ _ _ hs hw => (hJ.peaceful hs).step (hJ.noConflict hs) hw) (fun _ => hJ.peaceful) hs

theorem wp_forget {Q : α → Usb → MainState σ → Prop} {E : Stop → MainState σ → Prop}
    (h : wp (mainWorld w place fits) m Q E u (forgetBus s))
    : wp (listeningWorld w place fits).traced m (fun r v t => Q r v (forgetBus t))
        (fun e t => E e (forgetBus t)) u s :=
  wp_map forget_step h

theorem Undisturbed.and {Q : α → Usb → MainState σ → Prop} {E : Stop → MainState σ → Prop}
    (hJ : Undisturbed w place fits J) (h : IsHarmless m) (hs : J s)
    (hm : Stateful.wp (mainWorld w place fits) m Q E u (forgetBus s))
    : Stateful.wp (listeningWorld w place fits).traced m (fun r v t => Q r v (forgetBus t) ∧ J t)
        (fun e t => E e (forgetBus t) ∧ Peaceful t) u s :=
  wp_and (wp_forget hm) (hJ.wp h hs)

/-!
### Resets and SET_ADDRESS
-/

theorem Busy.submit {x : Transfer} {setup : DevRequest} {r : Submitted} (h : Busy n a port spot s)
    (hx : x.setup = some setup) (hport : setup.resetPort? = some port) (haddress : x.address = a)
    (hw : (listeningWorld w place fits).traced (.submit x) s (.ok r) t)
    : Busy n a port spot t := by
  obtain ⟨⟨⟨-, hhcd⟩, hafter⟩, -⟩ := id hw
  have hchange : ∀ p, s.1.2.Change 1 x p (t.1.2 p) := by
    rw [← h.rootdev]
    exact hafter
  refine ⟨?_, h.spread.reset h.above hchange hx hport haddress, h.above.reset hchange hx hport haddress,
    h.peaceful.step h.noConflict hw⟩
  rw [rootdev_step hhcd, h.rootdev]
  rintro y ⟨⟩
  apply Transfer.rootdevAfter_of_address
  rintro _ hsetup
  rw [hx] at hsetup
  cases hsetup
  exact DevRequest.address_of_resetPort hport

theorem Busy.assigned {x : Transfer} {setup : DevRequest} {r : Submitted} (h : Busy n a port spot s)
    (hn : 1 ≤ n) (han : a ≤ n) (hx : x.setup = some setup) (hassign : setup.address? = some (n + 1))
    (haddress : x.address = 0) (hw : (listeningWorld w place fits).traced (.submit x) s (.ok r) t)
    : Busy (n + 1) a port spot t := by
  obtain ⟨⟨⟨-, hhcd⟩, hafter⟩, -⟩ := id hw
  have hchange : ∀ p, s.1.2.Change 1 x p (t.1.2 p) := by
    rw [← h.rootdev]
    exact hafter
  refine ⟨?_, h.spread.assign hn hchange hx hassign haddress,
    h.above.assign han hchange hx hassign haddress, h.peaceful.step h.noConflict hw⟩
  rw [rootdev_step hhcd, h.rootdev]
  rintro y ⟨⟩
  unfold Transfer.rootdevAfter backend
  have hne : ¬((usbPipedevice x.pipe).toNat : Int) = s.1.1.1.rootdev := by
    rw [h.rootdev, show (usbPipedevice x.pipe).toNat = 0 from haddress]
    decide
  rw [hx, if_neg hne]
  exact if_neg fun hf => nomatch hf.2.1

/-- A hub that gets reset requests for one of its ports. -/
structure HubFrame (w : EhciWorld σ) (place : Placement) (fits : Bytes 512 → Prop) (hub : Fin 32) (a : Nat)
    (I : Usb → Prop) : Prop where
  frame : Frame (mainWorld w place fits) (Main I) (fun _ t => Routed t) hub
  lt : ∀ {u}, I u → hub < u.gDevIndex
  devnum : ∀ {u}, I u → (u.usbDev hub).devnum = (a : Int)

variable {hub : Fin 32} {I : Usb → Prop} {i : Int}

theorem HubFrame.resetRequest (h : HubFrame w place fits hub a I) (hi : 0 ≤ i ∧ i < usbMaxchildren)
    (hI : Main I u (forgetBus s)) (hs : Busy n a (i.toNat + 1) spot s)
    : wp (listeningWorld w place fits).traced (usbSetPortFeature hub (i + 1) usbPortFeatReset)
        (fun _ v t => Main I v (forgetBus t) ∧ Busy n a (i.toNat + 1) spot t)
        (fun _ t => Routed (forgetBus t) ∧ Peaceful t) u s := by
  refine wp_and (wp_forget (h.frame.setPortFeature hI _ _)) ?_
  have hmain := hI.1.1
  have haddress : (usbPipedevice (usbSndctrlpipe (u.usbDev hub) 0)).toNat = a := by
    have hdevice := UsbDevice.Addresses.snd.device (hmain.pipes hub) (hmain.devnum_le (h.lt hI.1.2))
    have hdevnum := h.devnum hI.1.2
    omega
  have hport : (BitVec.ofInt 16 (i + 1)).toNat = i.toNat + 1 := by
    simp only [usbMaxchildren] at hi
    rw [BitVec.toNat_ofInt]
    omega
  unfold usbSetPortFeature
  rw [wp_bind, wp_getDev, wp_bind, wp_usbControlMsg (by decide)]
  intro setup x t
  have hx : x.setup = some setup := rfl
  have hreset : setup.resetPort? = some (i.toNat + 1) := by
    rw [← hport]
    rfl
  have haddress : x.address = a := haddress
  clear_value x setup
  exact ⟨fun r hw => hs.submit hx hreset haddress hw, fun e hw => hs.peaceful.step hs.noConflict hw⟩

theorem HubFrame.portResetTries (h : HubFrame w place fits hub a I) (hi : 0 ≤ i ∧ i < usbMaxchildren)
    (tries : Nat) {portsts : Bytes 4} {u : Usb} {s : BusTrace σ} (hI : Main I u (forgetBus s))
    (hs : Busy n a (i.toNat + 1) spot s)
    : wp (listeningWorld w place fits).traced (hubPortResetTries hub i portsts tries)
        (fun _ v t => Main I v (forgetBus t) ∧ Busy n a (i.toNat + 1) spot t)
        (fun _ t => Routed (forgetBus t) ∧ Peaceful t) u s := by
  induction tries generalizing u s portsts with
  | zero => exact ⟨hI, hs⟩
  | succ tries ih =>
    unfold hubPortResetTries
    rw [wp_bind]
    apply wp_post (h.resetRequest hi hI hs)
    rintro _ v t ⟨hI, hs⟩
    rw [wp_bind]
    apply wp_post (undisturbed_busy.and (Sends.usbGetPortStatus _).isHarmless hs (h.frame.getPortStatus hI _))
    rintro r v t hIs
    dsimp only
    split
    . exact hIs
    . split
      . exact hIs
      . split
        . exact hIs
        . exact ih hIs.1 hIs.2

theorem HubFrame.portReset (h : HubFrame w place fits hub a I) (hi : 0 ≤ i ∧ i < usbMaxchildren)
    (hI : Main I u (forgetBus s)) (hs : Busy n a (i.toNat + 1) spot s)
    : wp (listeningWorld w place fits).traced (hubPortReset hub i)
        (fun _ v t => Main I v (forgetBus t) ∧ Busy n a (i.toNat + 1) spot t)
        (fun _ t => Routed (forgetBus t) ∧ Peaceful t) u s := by
  unfold hubPortReset
  rw [wp_bind]
  apply wp_post (undisturbed_busy.and (Sends.stack _).isHarmless hs (h.frame.stack hI))
  rintro portsts v t ⟨hI, hs⟩
  rw [wp_bind]
  apply wp_post (h.portResetTries hi maxTries hI hs)
  rintro (_ | status) v t ⟨hI, hs⟩
  . exact ⟨hI, hs⟩
  . rw [wp_bind]
    exact undisturbed_busy.and (Sends.usbClearPortFeature _ _).isHarmless hs (h.frame.clearPortFeature hI _ _)

theorem wp_usbSetAddress_busy {new : Fin 32} (hn : 1 ≤ n) (hlt : n < 32) (han : a ≤ n)
    (hpipe : (u.usbDev new).PipeFits) (hdevnum : (u.usbDev new).devnum = (n : Int) + 1)
    (hs : Busy n a port spot s)
    : wp (listeningWorld w place fits).traced (usbSetAddress new) (fun _ _ t => Busy (n + 1) a port spot t)
        (fun _ t => Peaceful t) u s := by
  have haddress : (usbPipedevice (usbSnddefctrl (u.usbDev new))).toNat = 0 := by
    rw [(controlPipe_snddefctrl hpipe).device (by decide)]
    rfl
  have hvalue : (BitVec.ofInt 16 (u.usbDev new).devnum).toNat = n + 1 := by
    rw [hdevnum, BitVec.toNat_ofInt]
    omega
  unfold usbSetAddress
  rw [wp_bind, wp_getDev, wp_bind, wp_usbControlMsg (by decide)]
  intro setup x t
  have hx : x.setup = some setup := rfl
  have hassign : setup.address? = some (n + 1) := by
    rw [← hvalue]
    rfl
  have haddress : x.address = 0 := haddress
  clear_value x setup
  exact ⟨fun r hw => hs.assigned hn han hx hassign haddress hw,
    fun e hw => hs.peaceful.step hs.noConflict hw⟩

theorem wp_usbSetAddress_silent {new : Fin 32} (hs : Silent s)
    : wp (listeningWorld w place fits).traced (usbSetAddress new) (fun _ _ t => Silent t)
        (fun _ t => Peaceful t) u s := by
  unfold usbSetAddress
  rw [wp_bind, wp_getDev, wp_bind, wp_usbControlMsg (by decide)]
  intro setup x t
  have hstep : ∀ {r}, (listeningWorld w place fits).traced (.submit x) s r t → Silent t := by
    intro r hw
    refine hs.step ?_ hw
    rintro y hy setup' hsetup
    cases hy
    cases hsetup
    rfl
  exact ⟨fun r hw => hstep hw, fun e hw => (hstep hw).peaceful⟩

end
