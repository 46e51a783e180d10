import PureUsb.Usb.Lemmas.Frame
import Mathlib.Tactic.IntervalCases

/-!
This module contains the fields of the pipes to endpoint 0.
-/

/-- The fields of a device structure that a pipe is made of do not run into each other. -/
structure UsbDevice.PipeFits (d : UsbDevice) : Prop where
  packetSize : 0 ≤ d.maxpacketsize ∧ d.maxpacketsize ≤ 3
  speed : 0 ≤ d.speed ∧ d.speed ≤ 2

instance (d : UsbDevice) : Decidable d.PipeFits :=
  decidable_of_iff ((0 ≤ d.maxpacketsize ∧ d.maxpacketsize ≤ 3) ∧ 0 ≤ d.speed ∧ d.speed ≤ 2)
    ⟨fun h => ⟨h.1, h.2⟩, fun h => ⟨h.1, h.2⟩⟩

/-- `pipe` is a control pipe to endpoint 0 of the device `n`. -/
def ControlPipe (n s pipe : BitVec 32) : Prop :=
  ∀ i, 8 ≤ i → i < 32 → pipe.getLsbD i =
    if i < 15 then n.getLsbD (i - 8)
    else if i < 26 then false
    else if i < 30 then s.getLsbD (i - 26)
    else decide (i = 31)

theorem getLsbD_of_small {x : BitVec 32} {k i : Nat} (h : x.toNat < 2 ^ k) (hi : k ≤ i)
    : x.getLsbD i = false :=
  Nat.testBit_lt_two_pow (Nat.lt_of_lt_of_le h (Nat.pow_le_pow_right (by decide) hi))

theorem toNat_ofInt_lt {x : Int} (h : 0 ≤ x) {k : Nat} (hx : x < k) (hk : k ≤ 2 ^ 32)
    : (BitVec.ofInt 32 x).toNat < k := by
  rw [BitVec.toNat_ofInt]
  omega

theorem controlPipe_mk {n s p c : BitVec 32} (hn : n.toNat < 2 ^ 7) (hs : s.toNat < 2 ^ 4)
    (hp : p.toNat < 2 ^ 2) (hc : c.toNat < 2 ^ 8)
    : ControlPipe n s
        ((2#32 <<< 30) ||| ((n <<< 8) ||| (0#32 <<< 15) ||| (s <<< 26) ||| p) ||| c) := by
  intro i h8 h32
  have hp := getLsbD_of_small hp (i := i) (by omega)
  have hc := getLsbD_of_small hc h8
  have htype : (2#32).getLsbD (i - 30) = decide (i = 31) ∨ i < 30 := by
    by_cases hlt : i < 30
    . exact .inr hlt
    . obtain rfl | rfl : i = 30 ∨ i = 31 := by omega
      . exact .inl (by decide)
      . exact .inl (by decide)
  simp only [BitVec.getLsbD_or, BitVec.getLsbD_shiftLeft, hp, hc, Bool.or_false,
    BitVec.getLsbD_zero, Bool.and_false]
  split
  . have h30 : i < 30 := by omega
    have h26 : i < 26 := by omega
    have h8' : ¬i < 8 := by omega
    simp [h30, h26, h8', h32]
  . have hn := getLsbD_of_small hn (i := i - 8) (by omega)
    split
    . have h30 : i < 30 := by omega
      simp_all
    . split
      . have h26 : ¬i < 26 := by omega
        simp_all
      . have hs := getLsbD_of_small hs (i := i - 26) (by omega)
        have h30 : ¬i < 30 := by omega
        simp_all

namespace ControlPipe

variable {n s pipe : BitVec 32}

theorem device (h : ControlPipe n s pipe) (hn : n.toNat < 2 ^ 7) : usbPipedevice pipe = n := by
  apply BitVec.eq_of_getLsbD_eq
  intro i hi
  unfold usbPipedevice
  rw [BitVec.getLsbD_and, BitVec.getLsbD_ushiftRight]
  by_cases h7 : i < 7
  . rw [h _ (by omega) (by omega), if_pos (by omega), Nat.add_sub_cancel_left]
    have hmask : BitVec.getLsbD (0x7f : BitVec 32) i = true := by
      interval_cases i <;> rfl
    rw [hmask, Bool.and_true]
  . rw [getLsbD_of_small (x := 0x7f) (k := 7) (by decide) (by omega), Bool.and_false,
      getLsbD_of_small hn (by omega)]

theorem endpoint (h : ControlPipe n s pipe) : usbPipeendpoint pipe = 0 := by
  apply BitVec.eq_of_getLsbD_eq
  intro i hi
  unfold usbPipeendpoint
  have hzero : BitVec.getLsbD (0 : BitVec 32) i = false := BitVec.getLsbD_zero
  rw [BitVec.getLsbD_and, BitVec.getLsbD_ushiftRight, hzero]
  by_cases h4 : i < 4
  . rw [h _ (by omega) (by omega), if_neg (by omega), if_pos (by omega), Bool.false_and]
  . rw [getLsbD_of_small (x := 0xf) (k := 4) (by decide) (by omega), Bool.and_false]

theorem type (h : ControlPipe n s pipe) : usbPipetype pipe = pipeControl := by
  apply BitVec.eq_of_getLsbD_eq
  intro i hi
  unfold usbPipetype
  rw [BitVec.getLsbD_and, BitVec.getLsbD_ushiftRight]
  by_cases h2 : i < 2
  . rw [h _ (by omega) (by omega), if_neg (by omega), if_neg (by omega), if_neg (by omega)]
    interval_cases i <;> rfl
  . rw [getLsbD_of_small (x := 3) (k := 2) (by decide) (by omega), Bool.and_false,
      getLsbD_of_small (x := pipeControl) (k := 2) (by decide) (by omega)]

end ControlPipe

section

variable {d : UsbDevice} {pipe : BitVec 32}

theorem UsbDevice.Addresses.controlPipe (h : d.Addresses pipe) (hfits : d.PipeFits)
    (hnum : 0 ≤ d.devnum ∧ d.devnum < 128)
    : ControlPipe (BitVec.ofInt 32 d.devnum) (BitVec.ofInt 32 d.speed) pipe := by
  have hn := toNat_ofInt_lt hnum.1 (k := 2 ^ 7) hnum.2 (by decide)
  have hs := toNat_ofInt_lt hfits.speed.1 (k := 2 ^ 4) (by have := hfits.speed.2; omega) (by decide)
  have hp := toNat_ofInt_lt hfits.packetSize.1 (k := 2 ^ 2) (by have := hfits.packetSize.2; omega)
    (by decide)
  cases h with
  | rcv => exact controlPipe_mk hn hs hp (c := usbDirIn.setWidth 32) (by decide)
  | snd =>
    have := controlPipe_mk hn hs hp (c := 0#32) (by decide)
    rwa [BitVec.or_zero] at this

theorem UsbDevice.Addresses.device (h : d.Addresses pipe) (hfits : d.PipeFits)
    (hnum : 0 ≤ d.devnum ∧ d.devnum < 128)
    : ((usbPipedevice pipe).toNat : Int) = d.devnum := by
  rw [(h.controlPipe hfits hnum).device (toNat_ofInt_lt hnum.1 (k := 2 ^ 7) hnum.2 (by decide)),
    BitVec.toNat_ofInt]
  omega

theorem controlPipe_snddefctrl (hfits : d.PipeFits)
    : ControlPipe 0 (BitVec.ofInt 32 d.speed) (usbSnddefctrl d) := by
  have hs := toNat_ofInt_lt hfits.speed.1 (k := 2 ^ 4) (by have := hfits.speed.2; omega) (by decide)
  have h := controlPipe_mk (n := 0#32) (by decide) hs (p := 0#32) (by decide) (c := 0#32) (by decide)
  have heq : usbSnddefctrl d = (2#32 <<< 30) ||| ((0#32 <<< 8) ||| (0#32 <<< 15) |||
      (BitVec.ofInt 32 d.speed <<< 26) ||| 0#32) ||| 0#32 := by
    simp [usbSnddefctrl, defaultPipe]
  rwa [heq]

end
