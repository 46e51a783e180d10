import PureUsb.Ehci.Impl.Init
import PureUsb.Usb.Impl.Hub

/-!
This module contains `usb.c` on top of `ehci-hcd.c`: the calls of the one are answered by the other.
-/

/-- Where the linker and the stack put what the controller has to find. -/
structure Placement where
  buffer : Buffer → BitVec 32
  setup : BitVec 32

/-- The structure behind `dev->parent`, if it is in the device table. -/
def parentOf (t : UsbTable) (dev : UsbDevice) : Option UsbDevice :=
  match dev.parent with
  | .dev p => some (t p)
  | _ => none

/-- `submit_control_msg` or `submit_bulk_msg` with the arguments in `x`. -/
def submitTransfer (place : Placement) (x : Transfer) : EhciM (Int × UsbDevice × Option (List Byte)) :=
  let dev := x.usbDev x.dev
  let parent := parentOf x.usbDev dev
  match x.setup with
  | some setup =>
    submitControlMsg dev parent x.pipe (place.buffer x.buffer) x.length setup place.setup
  | none => submitBulkMsg dev parent x.pipe (place.buffer x.buffer) x.length

section

variable {σ : Type}

/--
What the driver in a world of registers does for `usb.c`. Bytes that the controller stored are only
bounded by the length of the transfer.
-/
def hcdWorld (w : EhciWorld σ) (place : Placement) : HcdWorld (Ehci × σ) := fun o s r t =>
  match o, r with
  | .submit x, .ok y =>
    ∃ data, (submitTransfer place x).Run w s.1 s.2 (.ok ((y.ret, y.dev, data), t.1)) t.2 ∧
      match data with
      | some bytes => y.data = bytes
      | none => y.data.length ≤ x.length
  | .submit x, .error e => (submitTransfer place x).Run w s.1 s.2 (.error e) t.2
  | _, .ok _ => t = s
  | _, .error _ => False

/-- The driver on a deterministic controller; `bytes x` is what that stores for `x`. -/
def hcdHandler (h : (o : EhciOp) → σ → Except Stop (EhciAns o) × σ) (place : Placement)
    (bytes : Transfer → List Byte) (o : HcdOp) (s : Ehci × σ)
    : Except Stop (HcdAns o) × (Ehci × σ) :=
  match o with
  | .submit x =>
    match (submitTransfer place x).exec h s.1 s.2 with
    | (.ok ((ret, dev, data), e), t) => (.ok ⟨ret, dev, data.getD ((bytes x).take x.length)⟩, (e, t))
    | (.error e, t) => (.error e, (s.1, t))
  | .stack _ => (.ok .zero, s)
  | .parsing _ _ => (.ok (), s)
  | .copyingHub _ _ => (.ok (), s)

theorem hcdHandler_serves {h : (o : EhciOp) → σ → Except Stop (EhciAns o) × σ} {w : EhciWorld σ}
    (hs : Prog.Serves h w) (place : Placement) (bytes : Transfer → List Byte)
    : Prog.Serves (hcdHandler h place bytes) (hcdWorld w place) := by
  intro o s
  cases o with
  | submit x =>
    have hr := Stateful.run_exec hs (submitTransfer place x) s.1 s.2
    unfold hcdHandler
    dsimp only
    generalize (submitTransfer place x).exec h s.1 s.2 = res at hr
    match res with
    | (.ok ((ret, dev, data), e), t) =>
      refine ⟨data, hr, ?_⟩
      cases data with
      | some bytes => rfl
      | none => exact List.length_take_le ..
    | (.error e, t) => exact hr
  | stack n => rfl
  | parsing dev buffer => rfl
  | copyingHub dev buffer => rfl

theorem wp_submit_hcd {w : EhciWorld σ} {place : Placement} {Q : Int × List Byte → Usb → Ehci × σ → Prop}
    {E : Stop → σ → Prop} {u : Usb} {e : Ehci} {s : σ} {dev : Fin 32} {pipe : BitVec 32}
    {data : Buffer} {length : Nat} {setup : Option DevRequest}
    (h : Stateful.wp w (submitTransfer place ⟨u.usbDev, dev, pipe, data, length, setup⟩)
      (fun r e' t => ∀ bytes, Q (r.1, bytes) (u.setDev dev r.2.1) (e', t)) E e s)
    : Stateful.wp (hcdWorld w place) (submit dev pipe data length setup) Q (fun x t => E x t.2) u
        (e, s) := by
  unfold submit
  rw [Stateful.wp_bind, Stateful.wp_get, Stateful.wp_bind, Stateful.wp_ask]
  rintro ⟨e', t⟩
  constructor
  . rintro y ⟨bytes, hr, -⟩
    exact Stateful.wp_run h hr y.data
  . intro x hr
    exact Stateful.wp_run_error h hr

end
