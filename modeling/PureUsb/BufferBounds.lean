import PureUsb.Contract
import PureUsb.Usb.Lemmas.Requests
import PureUsb.Usb.Lemmas.Trace

/-!
This module contains the proof that no device makes the host write past a receive buffer.
-/

open Stateful

section

variable {σ : Type}

/--
The transfer is not longer than the object it was given, and what was stored there is not longer than
the transfer.
-/
def Event.InBuffer (e : HcdEvent σ) : Prop :=
  match e with
  | ⟨_, .submit x, r⟩ => x.length ≤ x.buffer.size ∧ ∀ y, r = .ok y → y.data.length ≤ x.length
  | _ => True

/-- In every run of `m` each transfer stays in its buffer. -/
def StaysInBuffers {α : Type} (w : HcdWorld σ) (m : UsbM α) : Prop :=
  ∀ u s r t l, m.Run w.traced u (s, []) r (t, l) → ∀ e ∈ l, e.InBuffer

theorem FitsBuffers.staysInBuffers {α : Type} {w : HcdWorld σ} {m : UsbM α} (h : FitsBuffers m)
    (hw : Lawful w)
    : StaysInBuffers w m := by
  intro u s r t l hr e he
  obtain hnil | ⟨hfits, m, hans⟩ := h.trace hr e he
  . cases hnil
  . obtain ⟨s, o, x⟩ := e
    cases o with
    | submit y =>
      refine ⟨hfits, ?_⟩
      rintro r rfl
      exact (hw.submit hans).length_le
    | stack n => trivial
    | parsing dev buffer => trivial
    | copyingHub dev buffer => trivial

theorem ehciSubmitRoot_length_le {w : EhciWorld σ} {dev d : UsbDevice} {length : Nat} {req : DevRequest}
    {e e' : Ehci} {s t : σ} {ret : Int} {bytes : List Byte}
    (hr : (ehciSubmitRoot dev length req).Run w e s (.ok ((ret, d, bytes), e')) t)
    : bytes.length ≤ length := by
  have hwp : wp w (ehciSubmitRoot dev length req) (fun r _ _ => r.2.2.length ≤ length)
      (fun _ _ => True) e s := by
    rw [wp_ehciSubmitRoot]
    split
    . apply Nat.zero_le
    . refine wp_post (wp_rootRequest_kept (keptByRoot_true w) trivial) ?_
      rintro (_ | src) e' t -
      . apply Nat.zero_le
      . show (src.take _).length ≤ length
        rw [List.length_take]
        omega
  have := wp_run hwp hr
  exact this

end

/--
Whatever the devices and the controller do, the transfers of the functions that `main` calls stay in
the buffers they were given, and so do the copies of the emulated root hub.
-/
theorem enumeration_staysInBuffers {σ : Type} (w : EhciWorld σ) (place : Placement)
    : StaysInBuffers (hcdWorld w place) usbScanRoothub ∧
      (∀ dev, StaysInBuffers (hcdWorld w place) (usbHubInit dev)) ∧
      (∀ dev i, StaysInBuffers (hcdWorld w place) (usbHubScan dev i)) ∧
      ∀ dev length req e s ret d bytes e' t,
        (ehciSubmitRoot dev length req).Run w e s (.ok ((ret, d, bytes), e')) t →
        bytes.length ≤ length := by
  have hw := hcdWorld_lawful w place
  refine ⟨?_, ?_, ?_, ?_⟩
  . exact Sends.usbScanRoothub.fitsBuffers.staysInBuffers hw
  . intro dev
    exact Sends.usbHubInit.fitsBuffers.staysInBuffers hw
  . intro dev i
    exact (Sends.usbHubScan i).fitsBuffers.staysInBuffers hw
  . intro dev length req e s ret d bytes e' t hr
    exact ehciSubmitRoot_length_le hr
