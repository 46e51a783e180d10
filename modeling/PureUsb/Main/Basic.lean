import PureUsb.Contract
import PureUsb.Usb.DeviceTable
import PureUsb.Usb.Lemmas.Pipe
import PureUsb.Usb.Lemmas.Trace

/-!
This module contains the runs of `main` on top of `usb.c` and `ehci-hcd.c`, and what it means that a
control transfer was routed.
-/

open Stateful

/-- A control transfer over `pipe` on the device `d` in slot `dev` gets where it belongs. -/
structure Routes (d : UsbDevice) (dev : Fin 32) (rootdev : Int) (pipe : BitVec 32) : Prop where
  control : usbPipetype pipe = pipeControl
  root : dev = 0 → backend rootdev pipe = .root
  async : dev ≠ 0 → backend rootdev pipe = .async ∧ d.parent ≠ .null

/-- Whatever happened here was no control transfer, or one that got where it belongs. -/
def Event.Routed {σ : Type} (e : HcdEvent (Ehci × σ)) : Prop :=
  match e.op with
  | .submit x => x.setup.isSome → Routes (x.usbDev x.dev) x.dev e.state.1.rootdev x.pipe
  | _ => True

def HcdOp.Fits (fits : Bytes 512 → Prop) : HcdOp → Prop
  | .parsing _ buffer => fits buffer
  | .copyingHub _ buffer => HubFits buffer
  | _ => True

/-- The state of the driver and of the controller, and what `usb.c` asked for. -/
abbrev MainState (σ : Type) := (Ehci × σ) × List (HcdEvent (Ehci × σ))

/-- What `usb.c` sees in `main`, followed as long as the descriptors fit. -/
def mainWorld {σ : Type} (w : EhciWorld σ) (place : Placement) (fits : Bytes 512 → Prop)
    : HcdWorld (MainState σ) :=
  ((hcdWorld w place).restrict (HcdOp.Fits fits)).traced

/-!
### Runs of `main`
-/

/-- What `main` goes on with after `usb_scan_roothub`. -/
def scanned (r : Except Stop ((Int × Option (Fin 32)) × Usb)) : Option Usb :=
  match r with
  | .ok ((ret, some _), v) => if ret < 0 then none else some v
  | _ => none

/-- What `main` goes on with after a call on a hub. -/
def called {α : Type} (r : Except Stop (α × Usb)) : Option Usb :=
  match r with
  | .ok (_, v) => some v
  | .error _ => none

section

variable {σ : Type} (w : EhciWorld σ) (place : Placement) (addr : BitVec 32) (fits : Bytes 512 → Prop)

/-- A successful `ehci_init`, `usb_init` and `usb_scan_roothub`, however the latter ends. -/
inductive ScanLoop (u : Usb) (s : MainState σ) (r : Option Usb) (t : MainState σ) : Prop where
  | mk {v : Usb} {e : Ehci} {s' : σ} {t' : MainState σ} {ret : Int}
      {res : Except Stop ((Int × Option (Fin 32)) × Usb)} :
      (ehciInit addr).Run w s.1.1 s.1.2 (.ok (0, e)) s' →
      usbInit.Run (mainWorld w place fits) u ((e, s'), s.2) (.ok (ret, v)) t' →
      usbScanRoothub.Run (mainWorld w place fits) v t' res t → r = scanned res →
      ScanLoop u s r t

/-- `main`: `none` is a run that is over. -/
inductive MainRun : Option Usb → MainState σ → Prop where
  | boot {u : Usb} {e : Ehci} {s : σ} {r : Option Usb} {t : MainState σ} :
      ScanLoop w place addr fits u ((e, s), []) r t → MainRun r t
  | again {u : Usb} {s t : MainState σ} {r : Option Usb} :
      MainRun (some u) s → ScanLoop w place addr fits u s r t → MainRun r t
  | hubInit {u : Usb} {s t : MainState σ} {dev : Fin 32} {res : Except Stop (Int × Usb)} :
      MainRun (some u) s → dev < u.gDevIndex →
      (usbHubInit dev).Run (mainWorld w place fits) u s res t → MainRun (called res) t
  | hubScan {u : Usb} {s t : MainState σ} {dev : Fin 32} {i : Int}
      {res : Except Stop ((Int × Option (Fin 32)) × Usb)} :
      MainRun (some u) s → dev < u.gDevIndex → 0 ≤ i ∧ i < usbMaxchildren →
      (usbHubScan dev i).Run (mainWorld w place fits) u s res t → MainRun (called res) t

end
