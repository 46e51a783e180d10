import PureUsb.Main.Basic
import PureUsb.Usb.Lemmas.Requests

/-!
This module contains the addresses that the devices on the bus answer to, and the runs of `main` with
such a bus behind the controller.
-/

open Stateful

/--
The address that the device at the end of a path of ports answers to, if there is a device and its port
is enabled. Paths start at the root hub.
-/
abbrev Listening := List Nat → Option Nat

def Transfer.address (x : Transfer) : Nat := (usbPipedevice x.pipe).toNat

namespace Listening

/-- The device at `p` is the one to receive what is sent to `a`; `[]` is the root hub. -/
def At (b : Listening) (rootdev : Int) (a : Nat) (p : List Nat) : Prop :=
  if (a : Int) = rootdev then p = [] else b p = some a

/-- No two devices answer to one address, and none to that of the root hub. -/
structure NoConflict (b : Listening) (rootdev : Int) : Prop where
  unique : ∀ {p q a}, b p = some a → b q = some a → p = q
  root : ∀ {p a}, b p = some a → (a : Int) ≠ rootdev

/--
What the device at `p` may answer to after the transfer `x`. It may be unplugged or disabled at any
time. Only a reset of its port makes it answer to address 0, and only SET_ADDRESS to another one.
-/
inductive Change (b : Listening) (rootdev : Int) (x : Transfer) (p : List Nat) : Option Nat → Prop where
  | silent : Change b rootdev x p none
  | same : Change b rootdev x p (b p)
  | reset {setup : DevRequest} {port : Nat} {q : List Nat} :
      x.setup = some setup → setup.resetPort? = some port → b.At rootdev x.address q → p = q ++ [port] →
      Change b rootdev x p (some 0)
  | address {setup : DevRequest} {a : Nat} :
      x.setup = some setup → setup.address? = some a → (x.address : Int) ≠ rootdev →
      b p = some x.address → Change b rootdev x p (some a)

def After (b : Listening) (rootdev : Int) (o : HcdOp) (b' : Listening) : Prop :=
  match o with
  | .submit x => ∀ p, b.Change rootdev x p (b' p)
  | _ => ∀ p, b' p = none ∨ b' p = b p

end Listening

/-- The state of the driver, of the controller and of the bus. -/
abbrev BusState (σ : Type) := (Ehci × σ) × Listening

abbrev BusTrace (σ : Type) := BusState σ × List (HcdEvent (BusState σ))

section

variable {σ : Type} (w : EhciWorld σ) (place : Placement) (addr : BitVec 32) (fits : Bytes 512 → Prop)

def listeningWorld : HcdWorld (BusState σ) := fun o s r t =>
  ((hcdWorld w place).restrict (HcdOp.Fits fits)) o s.1 r t.1 ∧ s.2.After s.1.1.rootdev o t.2

/-- The first calls in the loop of `main`. The reset of the controller disables all ports. -/
inductive BusScanLoop (u : Usb) (s : BusTrace σ) (r : Option Usb) (t : BusTrace σ) : Prop where
  | mk {v : Usb} {e : Ehci} {s' : σ} {t' : BusTrace σ} {ret : Int}
      {res : Except Stop ((Int × Option (Fin 32)) × Usb)} :
      (ehciInit addr).Run w s.1.1.1 s.1.1.2 (.ok (0, e)) s' →
      usbInit.Run (listeningWorld w place fits).traced u (((e, s'), fun _ => none), s.2) (.ok (ret, v)) t' →
      usbScanRoothub.Run (listeningWorld w place fits).traced v t' res t → r = scanned res →
      BusScanLoop u s r t

/--
`main` with a bus. Whenever a port is scanned, the devices that were found before have an address or do
not answer any more.
-/
inductive BusRun : Option Usb → BusTrace σ → Prop where
  | boot {u : Usb} {s : BusState σ} {r : Option Usb} {t : BusTrace σ} :
      BusScanLoop w place addr fits u (s, []) r t → BusRun r t
  | again {u : Usb} {s t : BusTrace σ} {r : Option Usb} :
      BusRun (some u) s → BusScanLoop w place addr fits u s r t → BusRun r t
  | hubInit {u : Usb} {s t : BusTrace σ} {dev : Fin 32} {res : Except Stop (Int × Usb)} :
      BusRun (some u) s → dev < u.gDevIndex →
      (usbHubInit dev).Run (listeningWorld w place fits).traced u s res t → BusRun (called res) t
  | hubScan {u : Usb} {s t : BusTrace σ} {dev : Fin 32} {i : Int}
      {res : Except Stop ((Int × Option (Fin 32)) × Usb)} :
      BusRun (some u) s → dev < u.gDevIndex → 0 ≤ i ∧ i < usbMaxchildren →
      (∀ p, s.1.2 p ≠ some 0) →
      (usbHubScan dev i).Run (listeningWorld w place fits).traced u s res t → BusRun (called res) t

end
