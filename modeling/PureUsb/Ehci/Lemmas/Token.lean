import PureUsb.Ehci.Bus
import PureUsb.Ehci.Lemmas.Effects
import PureUsb.Usb.Lemmas.Pipe
import PureUsb.Word

/-!
This module contains the fields of tokens and queue heads that the controller and the device look at.
-/

theorem tokenToggle_dataToken {toggle : BitVec 32} {length : Nat} (h : length < 2 ^ 15) (control : Bool)
    (pipe : BitVec 32)
    : tokenToggle (dataToken toggle length control pipe) = toggle.getLsbD 0 := by
  have hlength : (BitVec.ofNat 32 length).getLsbD 15 = false := by
    apply BitVec.getLsbD_of_toNat_lt
    rw [BitVec.toNat_ofNat]
    exact Nat.lt_of_le_of_lt (Nat.mod_le _ _) h
  unfold tokenToggle dataToken
  simp only [BitVec.getLsbD_or, BitVec.getLsbD_shiftLeft, hlength]
  split <;> split <;> simp

theorem direction_dataToken (toggle : BitVec 32) (length : Nat) (control : Bool) (pipe : BitVec 32)
    : (dataToken toggle length control pipe).getLsbD 8 = decide (usbPipein pipe ≠ 0) := by
  unfold dataToken
  simp only [BitVec.getLsbD_or, BitVec.getLsbD_shiftLeft]
  split <;> split <;> simp_all

theorem usbPipeendpoint_lt (pipe : BitVec 32) : (usbPipeendpoint pipe).toNat < 16 := by
  unfold usbPipeendpoint
  rw [BitVec.toNat_and]
  exact Nat.and_lt_two_pow _ (n := 4) (by decide)

theorem endpoint_qhEndpt1 (dev : UsbDevice) (pipe : BitVec 32)
    : (qhEndpt1 dev pipe >>> 8) &&& 0xf = usbPipeendpoint pipe := by
  apply BitVec.eq_of_getLsbD_eq
  intro i hi
  rw [BitVec.getLsbD_and]
  by_cases h4 : i < 4
  . have hmask : BitVec.getLsbD (0xf : BitVec 32) i = true := by
      interval_cases i <;> rfl
    have hdevice : (usbPipedevice pipe).getLsbD (8 + i) = false := by
      unfold usbPipedevice
      rw [BitVec.getLsbD_and, getLsbD_of_small (x := 0x7f) (k := 7) (by decide) (by omega),
        Bool.and_false]
    unfold qhEndpt1
    simp only [BitVec.getLsbD_ushiftRight, BitVec.getLsbD_or, BitVec.getLsbD_shiftLeft, Nat.sub_zero,
      hmask, hdevice]
    have h32 : 8 + i < 32 := by omega
    have h28 : 8 + i < 28 := by omega
    have h27 : 8 + i < 27 := by omega
    have h16 : 8 + i < 16 := by omega
    have h15 : 8 + i < 15 := by omega
    have h14 : 8 + i < 14 := by omega
    have h12 : 8 + i < 12 := by omega
    simp [h32, h28, h27, h16, h15, h14, h12]
  . rw [getLsbD_of_small (x := (0xf : BitVec 32)) (k := 4) (by decide) (by omega),
      getLsbD_of_small (k := 4) (usbPipeendpoint_lt pipe) (by omega), Bool.and_false]

theorem getLsbD_gettoggle (d : UsbDevice) (ep : BitVec 32) (out : Fin 2)
    : (usbGettoggle d ep out).getLsbD 0 = (d.toggle out).getLsbD ep.toNat := by
  unfold usbGettoggle
  rw [BitVec.getLsbD_and, BitVec.ushiftRight_eq', BitVec.getLsbD_ushiftRight]
  simp

theorem toggle_usbSettoggle (d : UsbDevice) (ep : BitVec 32) (out : Fin 2) (bit : BitVec 32)
    : (usbSettoggle d ep out bit).toggle =
        Function.update d.toggle out
          ((d.toggle out &&& ~~~(1#32 <<< ep.toNat)) ||| (bit <<< ep.toNat)) := rfl

theorem usbSettoggle_self (d : UsbDevice) {ep : BitVec 32} (out : Fin 2) (bit : BitVec 32)
    (hep : ep.toNat < 32)
    : ((usbSettoggle d ep out bit).toggle out).getLsbD ep.toNat = bit.getLsbD 0 := by
  rw [toggle_usbSettoggle, Function.update_self, BitVec.getLsbD_or, BitVec.getLsbD_and,
    BitVec.getLsbD_not, BitVec.getLsbD_shiftLeft, BitVec.getLsbD_shiftLeft]
  simp [hep]

theorem usbSettoggle_other (d : UsbDevice) {ep : BitVec 32} {out out' : Fin 2} {bit : BitVec 32} {i : Nat}
    (hbit : bit.toNat < 2) (hother : out' ≠ out ∨ i ≠ ep.toNat)
    : ((usbSettoggle d ep out bit).toggle out').getLsbD i = (d.toggle out').getLsbD i := by
  rw [toggle_usbSettoggle]
  by_cases hout : out' = out
  . subst hout
    rw [Function.update_self]
    exact getLsbD_settoggle _ hbit (hother.resolve_left (not_not.mpr rfl))
  . rw [Function.update_of_ne hout]
