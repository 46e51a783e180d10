import PureUsb.ControlRead
import PureUsb.Ehci.Toggle

/-!
This module contains the data toggles that the driver keeps, next to those of a device, over any sequence of
transfers and requests.
-/

open Stateful

def Bus.fresh (s : Bus) : Bus :=
  ⟨{ s.agent with moved := fun _ => none, stalled := false, erred := false }, s.toggle⟩

/--
The transfer was neither given up nor cut short, no part of it had an error, and if it is no control transfer
it was not stalled.
-/
structure ErrorFree (x : Transfer) (y : Submitted) (t : Bus) : Prop where
  accepted : 0 ≤ y.ret
  whole : t.agent.stalled = false
  clean : t.agent.erred = false
  success : x.setup = none → y.dev.status = 0

/--
The driver on a controller with a device to which all transfers go, as long as they are free of errors. The
device stalls the requests it gets if `stall` is set.
-/
def errorFreeWorld (endpoints : InterfaceEndpoints) (stall : Bool) (place : Placement)
    : HcdWorld (Ehci × Bus) := fun o s r t =>
  match o with
  | .submit x =>
    hcdWorld (busWorld endpoints x.setup stall) place (.submit x) (s.1, s.2.fresh) r t ∧
      ∀ y, r = .ok y → ErrorFree x y t.2
  | o => hcdWorld (busWorld endpoints none stall) place o s r t

/-!
### Calls
-/

/-- The calls that have to do with data toggles. -/
inductive ToggleCall where
  | bulk (pipe : BitVec 32) (data : Buffer) (len : Int)
  | clearHalt (pipe : BitVec 32)
  | setConfiguration (configuration : Byte)
  | setInterface (interface alternate : Int)

namespace ToggleCall

def exec (dev : Fin 32) : ToggleCall → UsbM Unit
  | bulk pipe data len => do
    let _ ← usbBulkMsg dev pipe data len
  | clearHalt pipe => do
    let _ ← usbClearHalt dev pipe
  | setConfiguration configuration => do
    let _ ← usbSetConfiguration dev configuration
  | setInterface interface alternate => do
    let _ ← usbSetInterface dev interface alternate

def target : ToggleCall → Option (Fin 2 × Fin 16)
  | bulk pipe _ _ => some (usbPipeout pipe, pipeEndpoint pipe)
  | clearHalt pipe => some (usbPipeout pipe, pipeEndpoint pipe)
  | _ => none

/-- The interface has several settings, so that `usb_set_interface` asks the device for one of them. -/
def Selects (dev : Fin 32) (u : Usb) (interface : Int) : Prop :=
  ∃ i num,
    findInterface (tableMem dev u.usbDevAddr) u.usbDev interface (u.usbDev dev).bNumInterfaces.toNat 0 =
      .ok (some i) ∧
    (tableMem dev u.usbDevAddr).ld u.usbDev (.ifDesc i 10) = .ok num ∧ num ≠ 1

/--
If the call gets a device to select a setting of an interface, none of the endpoints of that has its toggle
set.
-/
def Fits (endpoints : InterfaceEndpoints) (stall : Bool) (dev : Fin 32) (u : Usb) : ToggleCall → Prop
  | setInterface interface alternate =>
    Selects dev u interface → stall = false → ∀ out (ep : Fin 16), ep ≠ 0 →
      endpoints (BitVec.ofInt 16 interface) (BitVec.ofInt 16 alternate) out ep = true →
      ((u.usbDev dev).toggle out).getLsbD ep = false
  | _ => True

end ToggleCall

/-- The device is not the root hub, and nothing is under way. -/
structure Attached (dev : Fin 32) (u : Usb) (s : Ehci × Bus) : Prop where
  quiet : s.2.agent.Quiet
  pipe : (u.usbDev dev).PipeFits
  devnum : 0 ≤ (u.usbDev dev).devnum ∧ (u.usbDev dev).devnum < 128
  notRoot : (u.usbDev dev).devnum ≠ s.1.rootdev

/-- Both sides agree on the toggles. -/
structure Synced (dev : Fin 32) (u : Usb) (s : Ehci × Bus) : Prop extends Attached dev u s where
  agrees : Agrees (u.usbDev dev) s.2.toggle

/--
Calls one after the other, each of which satisfies `fits`. For each call the device decides anew whether it
stalls what is asked of it.
-/
inductive ToggleRun (endpoints : InterfaceEndpoints) (place : Placement) (dev : Fin 32)
    (fits : Bool → Usb → ToggleCall → Prop) : Usb → Ehci × Bus → Prop where
  | start {u : Usb} {s : Ehci × Bus} : Synced dev u s → ToggleRun endpoints place dev fits u s
  | call {u v : Usb} {s t : Ehci × Bus} (c : ToggleCall) (stall : Bool) :
      ToggleRun endpoints place dev fits u s → fits stall u c →
      (c.exec dev).Run (errorFreeWorld endpoints stall place) u s (.ok ((), v)) t →
      ToggleRun endpoints place dev fits v t

/-!
### Transfers
-/

section

variable {endpoints : InterfaceEndpoints} {stall : Bool} {place : Placement} {dev : Fin 32}
variable {u : Usb} {s : Ehci × Bus}

theorem rootdev_of_async {w : EhciWorld Bus} {d : UsbDevice} {parent : Option UsbDevice}
    {pipe buffer : BitVec 32} {length : Nat} {req : Option (BitVec 32)} {e : Ehci} {b : Bus}
    : wp w (ehciSubmitAsync d parent pipe buffer length req) (fun _ e' _ => e'.rootdev = e.rootdev)
        (fun _ _ => True) e b :=
  wp_post ((keeps_ehciSubmitAsync parent buffer req).spec w e b rfl) fun _ _ _ h => h.1

theorem wp_submitTransfer_control {x : Transfer} {setup : DevRequest} {e : Ehci} {b : Bus}
    (hidle : b.agent.Idle) (hsetup : x.setup = some setup)
    (htype : usbPipetype x.pipe = pipeControl) (hasync : backend e.rootdev x.pipe = .async)
    (hep : pipeEndpoint x.pipe = 0) (hstatus : (x.usbDev x.dev).status = usbStNotProc)
    : wp (busWorld endpoints (some setup) stall) (submitTransfer place x)
        (fun r e' t =>
          e'.rootdev = e.rootdev ∧
            (0 ≤ r.1 → t.agent.stalled = false → t.agent.erred = false →
              ControlToggles endpoints stall setup (x.usbDev x.dev) x.length b.toggle r.2.1 t))
        (fun _ _ => True) e b := by
  unfold submitTransfer
  rw [hsetup]
  dsimp only
  unfold submitControlMsg
  rw [if_neg (not_not.mpr htype), wp_bind, wp_get, hasync, wp_bind]
  apply wp_mono (wp_and rootdev_of_async (wp_ehciSubmitAsync_control hidle hstatus hep))
  . exact fun _ _ _ h => h
  . exact fun _ _ _ => trivial

theorem wp_submitTransfer_bulkToggles {x : Transfer} {e : Ehci} {b : Bus} (hidle : b.agent.Idle)
    (hsetup : x.setup = none) (hstatus : (x.usbDev x.dev).status = usbStNotProc)
    : wp (busWorld endpoints none stall) (submitTransfer place x)
        (fun r e' t =>
          e'.rootdev = e.rootdev ∧
            (0 ≤ r.1 → r.2.1.status = 0 → t.agent.stalled = false →
              BulkToggles (x.usbDev x.dev) x.pipe b.toggle r.2.1 t))
        (fun _ _ => True) e b := by
  unfold submitTransfer
  rw [hsetup]
  dsimp only
  unfold submitBulkMsg
  rw [wp_ite]
  constructor
  . exact fun _ => ⟨rfl, fun hret => absurd (show (0 : Int) ≤ -1 from hret) (by decide)⟩
  . intro _
    rw [wp_bind]
    apply wp_mono (wp_and rootdev_of_async (wp_ehciSubmitAsync_bulk hidle hstatus))
    . exact fun _ _ _ h => h
    . exact fun _ _ _ => trivial

theorem Agent.Quiet.idle_fresh {b : Bus} (h : b.agent.Quiet) : b.fresh.agent.Idle :=
  ⟨h.ase, h.ass, rfl, rfl, rfl⟩

theorem Attached.transferred {v : Usb} {t : Ehci × Bus} {d : UsbDevice} (h : Attached dev u s)
    (hquiet : t.2.agent.Quiet) (hroot : t.1.rootdev = s.1.rootdev)
    (hv : v.usbDev dev = d) (hd : d = { u.usbDev dev with
      status := d.status, actLen := d.actLen, toggle := d.toggle, halted := d.halted })
    : Attached dev v t := by
  have hspeed : d.speed = (u.usbDev dev).speed := by rw [hd]
  have hpacket : d.maxpacketsize = (u.usbDev dev).maxpacketsize := by rw [hd]
  have hdevnum : d.devnum = (u.usbDev dev).devnum := by rw [hd]
  refine ⟨hquiet, ?_, ?_, ?_⟩
  . rw [hv]
    exact ⟨by rw [hpacket]; exact h.pipe.packetSize, by rw [hspeed]; exact h.pipe.speed⟩
  . rw [hv, hdevnum]
    exact h.devnum
  . rw [hv, hdevnum, hroot]
    exact h.notRoot

/-- A request without a DATA stage that was sent to the device. -/
structure Requested (endpoints : InterfaceEndpoints) (stall : Bool) (dev : Fin 32) (setup : DevRequest)
    (u : Usb) (s : Ehci × Bus) (ret : Int) (v : Usb) (t : Ehci × Bus) : Prop where
  attached : Attached dev v t
  same : ∀ out (ep : Fin 16), ep ≠ 0 →
    ((v.usbDev dev).toggle out).getLsbD ep = ((u.usbDev dev).toggle out).getLsbD ep
  done : 0 ≤ ret →
    ret = 0 ∧ stall = false ∧ t.2.toggle = Toggles.after s.2.toggle endpoints (some setup)
  failed : ret < 0 → t.2.toggle = s.2.toggle

theorem wp_usbControlMsg_requested {request requesttype : Byte} {value index : BitVec 16} {timeout : Nat}
    (h : Attached dev u s) (htimeout : timeout ≠ 0)
    : wp (errorFreeWorld endpoints stall place)
        (usbControlMsg dev (usbSndctrlpipe (u.usbDev dev) 0) request requesttype value index .null 0 timeout)
        (fun r v t => Requested endpoints stall dev ⟨requesttype, request, value, index, 0⟩ u s r.1 v t)
        (fun _ _ => True) u s := by
  rw [wp_usbControlMsg htimeout]
  intro setup x t
  constructor
  . rintro y ⟨⟨data, hrun, -⟩, herror⟩
    have herror := herror y rfl
    have haddr : UsbDevice.Addresses (u.usbDev dev) x.pipe := .snd
    have hpipe := haddr.controlPipe h.pipe h.devnum
    have hstruct : x.usbDev x.dev = { u.usbDev dev with status := usbStNotProc } := Usb.request_dev
    have hasync : backend s.1.rootdev x.pipe = .async := by
      unfold backend
      rw [if_neg]
      rw [haddr.device h.pipe h.devnum]
      exact h.notRoot
    have hep : pipeEndpoint x.pipe = 0 := by
      apply Fin.ext
      rw [val_pipeEndpoint, hpipe.endpoint]
      rfl
    obtain ⟨hroot, hcontrol⟩ := wp_run
      (wp_submitTransfer_control h.quiet.idle_fresh rfl hpipe.type hasync hep (by rw [hstruct])) hrun
    have hcontrol := hcontrol herror.accepted herror.whole herror.clean
    rw [hstruct] at hcontrol
    have hdev : ((u.waiting dev setup).setDev dev y.dev).usbDev dev = y.dev := Usb.setDev_same ..
    have hrest : y.dev = _ := hcontrol.rest
    have hresult : y.result = if y.dev.status ≠ 0 then -1 else y.dev.actLen :=
      if_neg (Int.not_lt.mpr herror.accepted)
    refine ⟨h.transferred hcontrol.quiet hroot hdev ?_, ?_, ?_, ?_⟩
    . have hhalted : y.dev.halted = (u.usbDev dev).halted := by rw [hrest]
      rw [hhalted]
      exact hrest
    . rw [hdev]
      exact hcontrol.other
    . intro hret
      have hzero : y.dev.status = 0 := by
        by_contra hne
        rw [hresult, if_pos hne] at hret
        exact absurd (show (0 : Int) ≤ -1 from hret) (by decide)
      obtain ⟨htoggle, hstall, hlen⟩ := hcontrol.done hzero
      refine ⟨?_, hstall, htoggle⟩
      rw [hresult, if_neg (not_not.mpr hzero)]
      exact hlen
    . intro hret
      apply hcontrol.failed
      intro hzero
      obtain ⟨-, -, hlen⟩ := hcontrol.done hzero
      have hlen : y.dev.actLen = 0 := hlen
      rw [hresult, if_neg (not_not.mpr hzero), hlen] at hret
      exact absurd (show (0 : Int) < 0 from hret) (by decide)
  . exact fun _ _ => trivial

/-!
### One call
-/

/-- What a call leaves if the two sides agreed before it: the bits that it is not about are the same. -/
structure Kept (dev : Fin 32) (target : Option (Fin 2 × Fin 16)) (u : Usb) (v : Usb) : Prop where
  other : ∀ out (ep : Fin 16), ep ≠ 0 → (∃ a ∈ target, (out, ep) ≠ a) →
    ((v.usbDev dev).toggle out).getLsbD ep = ((u.usbDev dev).toggle out).getLsbD ep

theorem kept_none {v : Usb} : Kept dev none u v := ⟨fun _ _ _ h => absurd h (by simp)⟩

theorem Requested.synced_of_failed {setup : DevRequest} {ret : Int} {v : Usb} {t : Ehci × Bus}
    (h : Requested endpoints stall dev setup u s ret v t) (hret : ret < 0)
    (hagrees : Agrees (u.usbDev dev) s.2.toggle)
    : Synced dev v t := by
  refine ⟨h.attached, fun out ep hep => ?_⟩
  rw [h.same out ep hep, h.failed hret]
  exact hagrees out ep hep

theorem wp_usbSetConfiguration_synced (h : Synced dev u s) (configuration : Byte)
    : wp (errorFreeWorld endpoints stall place) (usbSetConfiguration dev configuration)
        (fun _ v t => Synced dev v t) (fun _ _ => True) u s := by
  unfold usbSetConfiguration
  rw [wp_bind, wp_getDev, wp_bind]
  apply wp_post (wp_usbControlMsg_requested h.toAttached (by decide))
  rintro ⟨ret, bytes⟩ v t hreq
  dsimp only
  split
  . next hneg => exact hreq.synced_of_failed hneg h.agrees
  . next hpos =>
    obtain ⟨hzero, -, htoggle⟩ := hreq.done (Int.not_lt.mp hpos)
    have hzero : ret = 0 := hzero
    rw [if_neg (by omega), wp_bind, wp_modifyDev]
    have hsame : (v.setDev dev { v.usbDev dev with toggle := fun _ => 0 }).usbDev dev =
        { v.usbDev dev with toggle := fun _ => 0 } := Usb.setDev_same ..
    refine ⟨hreq.attached.transferred hreq.attached.quiet rfl hsame rfl, ?_⟩
    rw [hsame]
    intro out ep _
    rw [htoggle]
    show (0 : BitVec 32).getLsbD ep = (!true && s.2.toggle out ep)
    rw [Bool.not_true, Bool.false_and]
    exact BitVec.getLsbD_zero

theorem wp_usbSetInterface_synced (h : Synced dev u s) {interface alternate : Int}
    (hfits : (ToggleCall.setInterface interface alternate).Fits endpoints stall dev u)
    : wp (errorFreeWorld endpoints stall place) (usbSetInterface dev interface alternate)
        (fun _ v t => Synced dev v t) (fun _ _ => True) u s := by
  unfold usbSetInterface
  rw [wp_bind, wp_get]
  dsimp only
  cases hfound : findInterface (tableMem dev u.usbDevAddr) u.usbDev interface
      (u.usbDev dev).bNumInterfaces.toNat 0 with
  | error x => trivial
  | ok found =>
    rw [wp_bind, wp_ofExcept_ok]
    cases found with
    | none => exact h
    | some i =>
      dsimp only
      cases hnum : (tableMem dev u.usbDevAddr).ld u.usbDev (.ifDesc i 10) with
      | error x => trivial
      | ok num =>
        rw [wp_bind, wp_ofExcept_ok]
        split
        . exact h
        . next hone =>
          rw [wp_bind]
          apply wp_post (wp_usbControlMsg_requested h.toAttached (by decide))
          rintro ⟨ret, bytes⟩ v t hreq
          have hsynced : Synced dev v t := by
            by_cases hneg : ret < 0
            . exact hreq.synced_of_failed hneg h.agrees
            . obtain ⟨-, hstall, htoggle⟩ := hreq.done (Int.not_lt.mp hneg)
              refine ⟨hreq.attached, fun out ep hep => ?_⟩
              rw [hreq.same out ep hep, htoggle]
              -- nothing is done to the bits of the driver, and there was nothing to do
              show _ = (!endpoints (BitVec.ofInt 16 interface) (BitVec.ofInt 16 alternate) out ep &&
                s.2.toggle out ep)
              rw [← h.agrees out ep hep]
              cases hin : endpoints (BitVec.ofInt 16 interface) (BitVec.ofInt 16 alternate) out ep with
              | false => rfl
              | true => exact hfits ⟨i, num, hfound, hnum, hone⟩ hstall out ep hep hin
          dsimp only
          split <;> exact hsynced

/-- `wIndex` of CLEAR_FEATURE(ENDPOINT_HALT). -/
theorem resets_clearHalt (endpoints : InterfaceEndpoints) (pipe : BitVec 32) (out : Fin 2) (ep : Fin 16)
    : DevRequest.resets endpoints
        ⟨usbRecipEndpoint, usbReqClearFeature, 0,
          (usbPipeendpoint pipe ||| (usbPipein pipe <<< 7)).setWidth 16, 0⟩ out ep =
        decide (out = usbPipeout pipe ∧ ep = pipeEndpoint pipe) := by
  have hindex : ∀ n < 16, ∀ b : BitVec 32, b = 0 ∨ b = 1 →
      (((BitVec.ofNat 32 n ||| (b <<< 7)).setWidth 16).getLsbD 7 = true ↔ b ≠ 0) ∧
      ((((BitVec.ofNat 32 n ||| (b <<< 7)).setWidth 16) &&& 0xf : BitVec 16)).toNat = n := by
    intro n hn b hb
    rcases hb with rfl | rfl <;> interval_cases n <;> decide
  obtain ⟨hdir, hep⟩ := hindex _ (usbPipeendpoint_lt pipe) _ (usbPipein_eq pipe)
  rw [BitVec.ofNat_toNat, BitVec.setWidth_eq] at hdir hep
  have hdevice : ¬(usbRecipEndpoint = usbRecipDevice ∧ usbReqClearFeature = usbReqSetConfiguration) := by
    decide
  have hinterface : ¬(usbRecipEndpoint = usbRecipInterface ∧ usbReqClearFeature = usbReqSetInterface) := by
    decide
  unfold DevRequest.resets
  rw [if_neg hdevice, if_neg hinterface, if_pos ⟨rfl, rfl, rfl⟩, hep]
  simp only [hdir]
  rw [← usbPipeout_eq]
  rfl

theorem wp_usbClearHalt_synced (h : Synced dev u s) (pipe : BitVec 32)
    : wp (errorFreeWorld endpoints stall place) (usbClearHalt dev pipe)
        (fun _ v t => Synced dev v t ∧ Kept dev (some (usbPipeout pipe, pipeEndpoint pipe)) u v)
        (fun _ _ => True) u s := by
  unfold usbClearHalt
  rw [wp_bind, wp_getDev]
  dsimp only
  rw [wp_bind]
  apply wp_post (wp_usbControlMsg_requested h.toAttached (by decide))
  rintro ⟨ret, bytes⟩ v t hreq
  dsimp only
  split
  . next hneg => exact ⟨hreq.synced_of_failed hneg h.agrees, ⟨fun out ep hep _ => hreq.same out ep hep⟩⟩
  . next hpos =>
    obtain ⟨-, -, htoggle⟩ := hreq.done (Int.not_lt.mp hpos)
    rw [wp_bind, wp_modifyDev, wp_bind, wp_modifyDev, Usb.setDev_same, Usb.setDev_setDev]
    have hlt := usbPipeendpoint_lt pipe
    generalize hd : usbSettoggle (usbEndpointRunning (v.usbDev dev) (usbPipeendpoint pipe) (usbPipeout pipe))
      (usbPipeendpoint pipe) (usbPipeout pipe) 0 = d
    have hsame : (v.setDev dev d).usbDev dev = d := Usb.setDev_same ..
    have hself : (d.toggle (usbPipeout pipe)).getLsbD (pipeEndpoint pipe) = false := by
      rw [← hd, val_pipeEndpoint, usbSettoggle_self _ _ _ (by omega)]
      rfl
    have hother : ∀ out (ep : Fin 16), out ≠ usbPipeout pipe ∨ ep ≠ pipeEndpoint pipe →
        (d.toggle out).getLsbD ep = ((v.usbDev dev).toggle out).getLsbD ep := by
      intro out ep hne
      rw [← hd, usbSettoggle_other _ (by decide)]
      . rfl
      . rw [← val_pipeEndpoint]
        exact hne.imp_right fun hne hf => hne (Fin.ext hf)
    refine ⟨⟨hreq.attached.transferred hreq.attached.quiet rfl hsame ?_, ?_⟩, ⟨?_⟩⟩
    . rw [← hd]
      rfl
    . rw [hsame]
      intro out ep hep
      rw [htoggle]
      show _ = (!DevRequest.resets endpoints _ out ep && s.2.toggle out ep)
      rw [resets_clearHalt]
      by_cases heq : out = usbPipeout pipe ∧ ep = pipeEndpoint pipe
      . obtain ⟨rfl, rfl⟩ := heq
        rw [hself]
        simp
      . rw [hother out ep (not_and_or.mp heq), hreq.same out ep hep, h.agrees out ep hep,
          decide_eq_false heq]
        rfl
    . rintro out ep hep ⟨_, ⟨rfl⟩, hne⟩
      rw [hsame, hother out ep ?_, hreq.same out ep hep]
      by_contra hf
      obtain ⟨hout, hep⟩ := not_or.mp hf
      exact hne (Prod.ext (not_not.mp hout) (not_not.mp hep))

theorem wp_usbBulkMsg_synced (h : Synced dev u s) (pipe : BitVec 32) (data : Buffer) (len : Int)
    : wp (errorFreeWorld endpoints stall place) (usbBulkMsg dev pipe data len)
        (fun _ v t => Synced dev v t ∧ Kept dev (some (usbPipeout pipe, pipeEndpoint pipe)) u v)
        (fun _ _ => True) u s := by
  unfold usbBulkMsg
  split
  . exact ⟨h, ⟨fun _ _ _ _ => rfl⟩⟩
  . rw [wp_bind, wp_modifyDev, wp_bind, wp_submit]
    intro t
    constructor
    . rintro y ⟨⟨bytes, hrun, -⟩, herror⟩
      have herror := herror y rfl
      generalize hx : (⟨(u.setDev dev { u.usbDev dev with status := usbStNotProc }).usbDev, dev, pipe, data,
        len.toNat, none⟩ : Transfer) = x at hrun herror
      have hstruct : x.usbDev x.dev = { u.usbDev dev with status := usbStNotProc } := by
        rw [← hx]
        exact Usb.setDev_same ..
      have hsetup : x.setup = none := by rw [← hx]
      have hpipe : x.pipe = pipe := by rw [← hx]
      rw [hsetup] at hrun
      obtain ⟨hroot, hbulk⟩ := wp_run
        (wp_submitTransfer_bulkToggles h.quiet.idle_fresh hsetup (by rw [hstruct])) hrun
      have hbulk := hbulk herror.accepted (herror.success hsetup) herror.whole
      rw [hstruct, hpipe] at hbulk
      rw [Usb.setDev_setDev]
      have hdev : (u.setDev dev y.dev).usbDev dev = y.dev := Usb.setDev_same ..
      have hrest : y.dev = _ := hbulk.rest
      have hsynced : Synced dev (u.setDev dev y.dev) t := by
        refine ⟨h.toAttached.transferred hbulk.quiet hroot hdev ?_, ?_⟩
        . have hhalted : y.dev.halted = (u.usbDev dev).halted := by rw [hrest]
          rw [hhalted]
          exact hrest
        . rw [hdev]
          exact hbulk.agrees h.agrees
      have hkept : Kept dev (some (usbPipeout pipe, pipeEndpoint pipe)) u (u.setDev dev y.dev) := by
        constructor
        rintro out ep hep ⟨_, ⟨rfl⟩, hne⟩
        rw [hdev, hbulk.other out ep]
        by_contra hf
        obtain ⟨hout, hep⟩ := not_or.mp hf
        exact hne (Prod.ext (not_not.mp hout) (not_not.mp hep))
      dsimp only
      split
      . exact ⟨hsynced, hkept⟩
      . rw [wp_bind, wp_getDev]
        split <;> exact ⟨hsynced, hkept⟩
    . exact fun _ _ => trivial

theorem wp_discard {α σ : Type} {w : HcdWorld σ} {m : UsbM α} {Q : Usb → σ → Prop} {E : Stop → σ → Prop}
    {u : Usb} {s : σ} (h : wp w m (fun _ v t => Q v t) E u s)
    : wp w (do let _ ← m) (fun _ v t => Q v t) E u s := by
  rw [wp_bind]
  exact h

theorem wp_exec_synced (h : Synced dev u s) {c : ToggleCall} (hfits : c.Fits endpoints stall dev u)
    : wp (errorFreeWorld endpoints stall place) (c.exec dev) (fun _ v t => Synced dev v t)
        (fun _ _ => True) u s := by
  cases c with
  | bulk pipe data len => exact wp_discard (wp_post (wp_usbBulkMsg_synced h pipe data len) fun _ _ _ hv => hv.1)
  | clearHalt pipe => exact wp_discard (wp_post (wp_usbClearHalt_synced h pipe) fun _ _ _ hv => hv.1)
  | setConfiguration configuration => exact wp_discard (wp_usbSetConfiguration_synced h configuration)
  | setInterface interface alternate => exact wp_discard (wp_usbSetInterface_synced h hfits)

theorem wp_exec_kept (h : Synced dev u s) (c : ToggleCall)
    : wp (errorFreeWorld endpoints stall place) (c.exec dev) (fun _ v _ => Kept dev c.target u v)
        (fun _ _ => True) u s := by
  cases c with
  | bulk pipe data len => exact wp_discard (wp_post (wp_usbBulkMsg_synced h pipe data len) fun _ _ _ hv => hv.2)
  | clearHalt pipe => exact wp_discard (wp_post (wp_usbClearHalt_synced h pipe) fun _ _ _ hv => hv.2)
  | setConfiguration configuration => exact wp_post (wp_true _ _ _ _) fun _ _ _ _ => kept_none
  | setInterface interface alternate => exact wp_post (wp_true _ _ _ _) fun _ _ _ _ => kept_none

theorem toggleRun_synced
    (h : ToggleRun endpoints place dev (fun stall u c => c.Fits endpoints stall dev u) u s)
    : Synced dev u s := by
  induction h with
  | start h => exact h
  | call c stall _ hfits hr ih =>
    exact (wp_iff_run.mp (wp_exec_synced ih hfits)).1 () _ _ hr

/--
Both sides agree on the toggles after any calls that do not select a setting of an interface one of whose
endpoints has its toggle set, and a call on one endpoint leaves the bits of all others.
-/
theorem toggleRun_agrees
    (h : ToggleRun endpoints place dev (fun stall u c => c.Fits endpoints stall dev u) u s)
    : Agrees (u.usbDev dev) s.2.toggle ∧
        ∀ (c : ToggleCall) (stall : Bool) (v : Usb) (t : Ehci × Bus),
          (c.exec dev).Run (errorFreeWorld endpoints stall place) u s (.ok ((), v)) t →
          Kept dev c.target u v := by
  have hsynced := toggleRun_synced h
  refine ⟨hsynced.agrees, fun c stall v t hr => ?_⟩
  exact (wp_iff_run.mp (wp_exec_kept hsynced c)).1 () v t hr

end

/-!
### A device that can be run
-/

/-- What is left of a token when one packet moved all of its bytes. -/
def packetToken (token : BitVec 32) : BitVec 32 := (token ^^^ 0x80000000) &&& 0x80000000

namespace Bus

/-- Execute the next qTD with one packet, if there is one and the toggles agree. -/
def executeNext (endpoints : InterfaceEndpoints) (req : Option DevRequest) (s : Bus) : Bus :=
  match s.agent.dma.ready with
  | some i =>
    let m := s.agent.dma.loadTd i
    let loaded : Bus := ⟨{ s.agent with dma := m }, s.toggle⟩
    let token := (s.agent.dma.td i).qtToken
    if s.agent.ass = true ∧ s.agent.dma.qhList.qhLink = .qh ∧
        (m.endpoint ≠ 0 → s.toggle m.direction m.endpoint = tokenToggle token) then
      { agent :=
          { s.agent with
            dma := m.writeBack i (packetToken token)
            moved := Function.update s.agent.moved i (some (tokenBytes token)) }
        toggle :=
          if (s.agent.dma.td i).qtNext = .terminate then
            Toggles.after (loaded.exchanged 1) endpoints req
          else
            loaded.exchanged 1 }
    else
      s
  | none => s

end Bus

/-- A controller that executes a qTD whenever the driver looks at the memory, and a device that accepts all. -/
def busHandler (endpoints : InterfaceEndpoints) (req : Option DevRequest) (o : EhciOp) (s : Bus)
    : Except Stop (EhciAns o) × Bus :=
  match o with
  | .readl .usbsts => (.ok (if s.agent.follow.ass then stdAss else 0), ⟨s.agent.follow, s.toggle⟩)
  | .readl _ => (.ok 0, s)
  | .writel .usbcmd v => (.ok (), ⟨{ s.agent with ase := decide (v &&& cmdAse ≠ 0) }, s.toggle⟩)
  | .writel _ _ => (.ok (), s)
  | .load => (.ok (s.executeNext endpoints req).agent.dma, s.executeNext endpoints req)
  | .store f => (.ok (), ⟨{ s.agent with dma := f s.agent.dma }, s.toggle⟩)

theorem packetToken_flags (token : BitVec 32) : packetToken token &&& tokenFlags = 0 := by
  unfold packetToken
  rw [BitVec.and_assoc, show (0x80000000 : BitVec 32) &&& tokenFlags = 0 by decide]
  exact BitVec.and_zero

theorem packetToken_bytes (token : BitVec 32) : tokenBytes (packetToken token) = 0 := by
  unfold tokenBytes packetToken
  rw [BitVec.ushiftRight_and_distrib, BitVec.and_assoc,
    show ((0x80000000 : BitVec 32) >>> 16) &&& 0x7fff = 0#32 by decide, BitVec.and_zero]
  rfl

theorem packetToken_toggle (token : BitVec 32) : tokenToggle (packetToken token) = !tokenToggle token := by
  unfold tokenToggle packetToken
  simp

namespace Bus

variable {endpoints : InterfaceEndpoints} {req : Option DevRequest}

theorem follow_steps (s : Bus)
    : Relation.ReflTransGen (Step endpoints req false) s ⟨s.agent.follow, s.toggle⟩ := by
  have hstep : ∀ {a : Agent}, Agent.Step s.agent a → a.dma = s.agent.dma →
      Step endpoints req false s ⟨a, s.toggle⟩ := by
    intro a ha hdma
    have hnot : s.Active → ¬s.Completes ⟨a, s.toggle⟩ := by
      rintro hactive ⟨hinactive, -⟩
      unfold Active at hinactive
      rw [hdma] at hinactive
      exact hinactive hactive
    refine ⟨ha, fun _ => rfl, fun hactive => ⟨0, ⟨?_, ?_, fun hf => absurd rfl hf⟩, ?_⟩, ?_⟩
    . intro _
      show a.dma.direction = _
      rw [hdma]
    . show tokenToggle a.dma.qh.qhOverlay.qtToken = _
      rw [hdma]
      simp
    . rw [if_neg (hnot hactive)]
      exact (exchanged_even (s := s) (p := 0) (by decide)).symm
    . exact fun hactive hc => absurd hc (hnot hactive)
  unfold Agent.follow
  split
  . next h => exact .single (hstep (.start h) rfl)
  . next h =>
    split
    . next h' => exact .single (hstep (.stop (by simpa using h) h') rfl)
    . exact .refl

theorem executeNext_steps (s : Bus)
    : Relation.ReflTransGen (Step endpoints req false) s (s.executeNext endpoints req) := by
  unfold executeNext
  split
  . next i hready =>
    dsimp only
    split
    . next h =>
      obtain ⟨hass, hlink, hexpected⟩ := h
      have hinactive := not_active_of_ready (s := s) hready
      have hload : Step endpoints req false s ⟨{ s.agent with dma := s.agent.dma.loadTd i }, s.toggle⟩ :=
        ⟨.load hass hlink hready, fun _ => rfl, fun hf => absurd hf hinactive, fun hf => absurd hf hinactive⟩
      have hactive := Dma.active_of_ready hready
      have hflags := packetToken_flags (s.agent.dma.td i).qtToken
      have hbytes : tokenBytes (packetToken (s.agent.dma.td i).qtToken) + tokenBytes (s.agent.dma.td i).qtToken =
          tokenBytes (s.agent.dma.td i).qtToken := by
        rw [packetToken_bytes, Nat.zero_add]
      have hretire : Agent.Step { s.agent with dma := s.agent.dma.loadTd i } _ :=
        .retire hass ⟨hlink, hactive, rfl⟩ (active_of_flags hflags) (halted_of_flags hflags) hbytes
      rw [decide_eq_false (not_not.mpr hflags), Bool.or_false] at hretire
      refine .tail (.single hload) ⟨hretire, ?_, ?_, ?_⟩
      . exact fun hf => absurd hactive hf
      . intro _
        refine ⟨1, ⟨?_, ?_, fun _ hne => hexpected hne⟩, ?_⟩
        . exact fun hf => absurd (active_of_flags hflags) hf
        . show tokenToggle (packetToken (s.agent.dma.td i).qtToken) = _
          rw [packetToken_toggle]
          exact (Bool.xor_true _).symm
        . by_cases hnext : (s.agent.dma.td i).qtNext = .terminate
          . rw [if_pos hnext, if_pos ⟨not_not.mpr (active_of_flags hflags), halted_of_flags hflags, hnext⟩]
          . rw [if_neg hnext, if_neg fun hc => hnext hc.2.2]
      . exact fun _ _ _ => rfl
    . exact .refl
  . exact .refl

end Bus

theorem busHandler_serves (endpoints : InterfaceEndpoints) (req : Option DevRequest)
    : Prog.Serves (busHandler endpoints req) (busWorld endpoints req false) := by
  intro o s
  unfold busHandler
  cases o with
  | readl r =>
    cases r with
    | usbsts =>
      refine World.interleaved_ok.mpr ⟨_, s.follow_steps, ⟨?_, rfl⟩, rfl⟩
      split
      . next h => exact iff_of_true (by decide) h
      . next h => exact iff_of_false (by decide) h
    | _ => exact World.interleaved_ok.mpr ⟨s, .refl, rfl, rfl⟩
  | writel r v => cases r <;> exact World.interleaved_ok.mpr ⟨s, .refl, rfl, rfl⟩
  | load => exact World.interleaved_ok.mpr ⟨_, s.executeNext_steps, ⟨rfl, rfl⟩, rfl⟩
  | store f => exact World.interleaved_ok.mpr ⟨s, .refl, rfl, rfl⟩

instance (x : Transfer) (y : Submitted) (t : Bus) : Decidable (ErrorFree x y t) :=
  decidable_of_iff (0 ≤ y.ret ∧ t.agent.stalled = false ∧ t.agent.erred = false ∧
      (x.setup.isNone → y.dev.status = 0))
    ⟨fun h => ⟨h.1, h.2.1, h.2.2.1, fun hx => h.2.2.2 (by rw [hx]; rfl)⟩,
      fun h => ⟨h.accepted, h.whole, h.clean, fun hx => h.success (Option.isNone_iff_eq_none.mp hx)⟩⟩

/-- The driver on it; a transfer with an error ends the run. -/
def errorFreeHandler (endpoints : InterfaceEndpoints) (place : Placement) (o : HcdOp) (s : Ehci × Bus)
    : Except Stop (HcdAns o) × (Ehci × Bus) :=
  match o with
  | .submit x =>
    match hcdHandler (busHandler endpoints x.setup) place (fun _ => []) (.submit x) (s.1, s.2.fresh) with
    | (.ok y, t) => if ErrorFree x y t.2 then (.ok y, t) else (.error .hang, t)
    | (.error e, t) => (.error e, t)
  | o => hcdHandler (busHandler endpoints none) place (fun _ => []) o s

theorem errorFreeHandler_offers (endpoints : InterfaceEndpoints) (place : Placement)
    : Prog.Offers (errorFreeHandler endpoints place) (errorFreeWorld endpoints false place) := by
  intro o s y t h
  cases o with
  | submit x =>
    have hserves := hcdHandler_serves (busHandler_serves endpoints x.setup) place (fun _ => []) (.submit x)
      (s.1, s.2.fresh)
    unfold errorFreeHandler at h
    dsimp only at h
    generalize hcdHandler (busHandler endpoints x.setup) place (fun _ => []) (.submit x) (s.1, s.2.fresh) = res
      at h hserves
    match res with
    | (.ok y', t') =>
      dsimp only at h
      split at h
      . next herror =>
        cases h
        exact ⟨hserves, fun _ hy => by cases hy; exact herror⟩
      . cases h
    | (.error e, t') => cases h
  | stack n => exact (hcdHandler_serves (busHandler_serves endpoints none) place (fun _ => [])).offers _ _ _ _ h
  | parsing dev buffer =>
    exact (hcdHandler_serves (busHandler_serves endpoints none) place (fun _ => [])).offers _ _ _ _ h
  | copyingHub dev buffer =>
    exact (hcdHandler_serves (busHandler_serves endpoints none) place (fun _ => [])).offers _ _ _ _ h

/-- The first interface of a device has two settings, each with the endpoint 1 OUT. -/
def firstConfig : Bytes 1002 := fun i => if i = 4 then 1 else if i = 20 then 2 else 0

/-- A device with one interface behind a hub in slot 0. -/
def toggleUsb : Usb :=
  { waitingUsb with
    usbDev := fun k =>
      if k = 1 then { waitingDevice with parent := .dev 0, config := firstConfig, epmaxpacketout := fun _ => 64 }
      else .zero }

def firstEndpoints : InterfaceEndpoints := fun interface _ out ep =>
  decide (interface = 0 ∧ out = 1 ∧ ep = 1)

def Bus.boot : Bus := ⟨.boot, fun _ _ => false⟩

def sendPacket : ToggleCall := .bulk (usbSndbulkpipe waitingDevice 1) .mybuf 8

theorem synced_boot : Synced 1 toggleUsb (.boot, .boot) where
  quiet := ⟨rfl, rfl⟩
  pipe := by decide
  devnum := by decide
  notRoot := by decide
  agrees := by
    intro out ep _
    exact BitVec.getLsbD_zero

theorem exists_calls_of_check (c c' : ToggleCall) (p : Usb → Ehci × Bus → Bool)
    (hp : (match (c.exec 1 >>= fun _ => c'.exec 1).exec (errorFreeHandler firstEndpoints .zero) toggleUsb
        (.boot, .boot) with
      | (.ok (_, v), t) => p v t
      | _ => false) = true)
    : ∃ u s v t, (c.exec 1).Run (errorFreeWorld firstEndpoints false .zero) toggleUsb (.boot, .boot)
          (.ok ((), u)) s ∧
        (c'.exec 1).Run (errorFreeWorld firstEndpoints false .zero) u s (.ok ((), v)) t ∧ p v t = true := by
  generalize hexec : (c.exec 1 >>= fun _ => c'.exec 1).exec (errorFreeHandler firstEndpoints .zero)
    toggleUsb (Ehci.boot, Bus.boot) = res at hp
  match res with
  | (.error x, t) => cases hp
  | (.ok ((), v), t) =>
    have hr := Prog.run_exec_ok (errorFreeHandler_offers firstEndpoints .zero) hexec
    rcases run_bind.mp hr with ⟨_, u, s, hfirst, hsecond⟩ | ⟨_, hf, -⟩
    . exact ⟨u, s, v, t, hfirst, hsecond, hp⟩
    . cases hf

/--
The device goes back to DATA0 when another setting of its interface is selected, the driver stays at DATA1.
-/
theorem setInterface_diverges
    : ∃ u s v t,
        (sendPacket.exec 1).Run (errorFreeWorld firstEndpoints false .zero) toggleUsb (.boot, .boot)
          (.ok ((), u)) s ∧
        ((ToggleCall.setInterface 0 1).exec 1).Run (errorFreeWorld firstEndpoints false .zero) u s
          (.ok ((), v)) t ∧
        ToggleRun firstEndpoints .zero 1 (fun _ _ _ => True) v t ∧ ¬Agrees (v.usbDev 1) t.2.toggle := by
  obtain ⟨u, s, v, t, hfirst, hsecond, hp⟩ := exists_calls_of_check sendPacket (.setInterface 0 1)
    (fun v t => ((v.usbDev 1).toggle 1).getLsbD 1 && !t.2.toggle 1 1) (by decide +kernel)
  refine ⟨u, s, v, t, hfirst, hsecond, ?_, fun hagrees => ?_⟩
  . exact .call _ false (.call _ false (.start synced_boot) trivial hfirst) trivial hsecond
  . have := hagrees 1 1 (by decide)
    rw [show ((1 : Fin 16) : Nat) = 1 from rfl] at this
    rw [this] at hp
    simp at hp

theorem toggleRun_agrees_configured
    : ∃ u s v t,
        (sendPacket.exec 1).Run (errorFreeWorld firstEndpoints false .zero) toggleUsb (.boot, .boot)
          (.ok ((), u)) s ∧
        ((ToggleCall.setConfiguration 1).exec 1).Run (errorFreeWorld firstEndpoints false .zero) u s
          (.ok ((), v)) t ∧
        Agrees (v.usbDev 1) t.2.toggle := by
  obtain ⟨u, s, v, t, hfirst, hsecond, -⟩ := exists_calls_of_check sendPacket (.setConfiguration 1)
    (fun _ _ => true) (by decide +kernel)
  have hrun : ToggleRun firstEndpoints .zero 1 (fun stall u c => c.Fits firstEndpoints stall 1 u) v t :=
    .call (.setConfiguration 1) false (.call sendPacket false (.start synced_boot) trivial hfirst) trivial
      hsecond
  exact ⟨u, s, v, t, hfirst, hsecond, (toggleRun_agrees hrun).1⟩
