import PureUsb.Usb.Contract

/-!
This module contains the specification of `usb_control_msg` and the parts of a pipe.
-/

open Stateful

/-- What `usb_control_msg` makes of the answer, when it waits for it. -/
def Submitted.result (r : Submitted) : Int :=
  if r.ret < 0 then r.ret else if r.dev.status ≠ 0 then -1 else r.dev.actLen

theorem Submitted.Allowed.result_le {x : Transfer} {r : Submitted} (h : r.Allowed x)
    : r.result ≤ x.length := by
  unfold result
  split
  . omega
  . split
    . omega
    . exact h.actLen_le (by omega)

/-- The state in which `usb_control_msg` hands the request down. -/
def Usb.waiting (u : Usb) (dev : Fin 32) (setup : DevRequest) : Usb :=
  { u with setupPacket := setup }.setDev dev { u.usbDev dev with status := usbStNotProc }

namespace Usb

def request (u : Usb) (dev : Fin 32) (pipe : BitVec 32) (data : Buffer) (setup : DevRequest)
    : Transfer :=
  ⟨(u.waiting dev setup).usbDev, dev, pipe, data, setup.length.toNat, some setup⟩

def answered (u : Usb) (dev : Fin 32) (setup : DevRequest) (r : Submitted) : Usb :=
  (u.waiting dev setup).setDev dev r.dev

variable {u : Usb} {dev : Fin 32} {pipe : BitVec 32} {data : Buffer} {setup : DevRequest}
variable {r : Submitted}

@[simp]
theorem request_dev
    : (u.request dev pipe data setup).usbDev dev = { u.usbDev dev with status := usbStNotProc } := by
  apply setDev_same

@[simp]
theorem answered_dev : (u.answered dev setup r).usbDev dev = r.dev := by
  apply setDev_same

theorem answered_ne {k : Fin 32} (h : k ≠ dev) : (u.answered dev setup r).usbDev k = u.usbDev k := by
  unfold answered waiting
  rw [setDev_ne _ _ h, setDev_ne _ _ h]

theorem afterTransfer_answered (h : r.Allowed (u.request dev pipe data setup))
    : ({ u.usbDev dev with status := usbStNotProc }).AfterTransfer pipe
        ((u.answered dev setup r).usbDev dev) := by
  have := h.dev
  rw [answered_dev]
  rwa [show (u.request dev pipe data setup).dev = dev from rfl, request_dev] at this

end Usb

section

variable {σ : Type} {w : HcdWorld σ} {E : Stop → σ → Prop} {u : Usb} {s : σ} {dev : Fin 32}
variable {pipe : BitVec 32} {data : Buffer}

theorem wp_submit {length : Nat} {setup : Option DevRequest} {Q : Int × List Byte → Usb → σ → Prop}
    : wp w (submit dev pipe data length setup) Q E u s
        ↔
      ∀ t,
        (∀ r : Submitted, w (.submit ⟨u.usbDev, dev, pipe, data, length, setup⟩) s (.ok r) t →
          Q (r.ret, r.data) (u.setDev dev r.dev) t) ∧
        (∀ e, w (.submit ⟨u.usbDev, dev, pipe, data, length, setup⟩) s (.error e) t → E e t) :=
  Iff.rfl

theorem wp_usbControlMsg {request requesttype : Byte} {value index size : BitVec 16} {timeout : Nat}
    {Q : Int × List Byte → Usb → σ → Prop} (htimeout : timeout ≠ 0)
    : wp w (usbControlMsg dev pipe request requesttype value index data size timeout) Q E u s
        ↔
      let setup : DevRequest := ⟨requesttype, request, value, index, size⟩
      let x : Transfer := ⟨(u.waiting dev setup).usbDev, dev, pipe, data, size.toNat, some setup⟩
      ∀ t,
        (∀ r : Submitted, w (.submit x) s (.ok r) t →
          Q (r.result, r.data) ((u.waiting dev setup).setDev dev r.dev) t) ∧
        (∀ e, w (.submit x) s (.error e) t → E e t) := by
  unfold usbControlMsg
  rw [wp_bind, wp_get, if_neg fun h => htimeout h.1]
  simp only [wp_bind, wp_modify, wp_modifyDev, wp_submit]
  have hwaiting : ∀ setup : DevRequest, Usb.setDev { u with setupPacket := setup } dev
      { u.usbDev dev with status := usbStNotProc } = u.waiting dev setup := fun _ => rfl
  simp only [hwaiting]
  refine forall_congr' fun t => and_congr_left' (forall₂_congr fun r _ => ?_)
  unfold Submitted.result
  split
  . rfl
  . rw [wp_bind, wp_getDev, Usb.setDev_same]
    split <;> rfl

end
