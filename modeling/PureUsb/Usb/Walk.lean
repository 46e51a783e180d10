import PureUsb.Usb.Impl.Config

/-!
This module contains the walk over the descriptors in a configuration, with no memory to store them
in: it only counts what the device sent.
-/

/-- Byte `o` of the descriptor at `i`, 0 behind its end. -/
def descField (buffer : Bytes 512) (i o : Nat) : Byte :=
  if o < (buffer.byte i).toNat then buffer.byte (i + o) else 0

def totalLength (buffer : Bytes 512) : Nat := le16 (descField buffer 0 2) (descField buffer 0 3)

/-- A new interface can be stored as `if_desc[n]`. -/
def NewFits (buffer : Bytes 512) (i n : Nat) : Prop :=
  n < 8 ∧ (buffer.byte i).toNat ≤ 124 ∧ i + (buffer.byte i).toNat ≤ 512

instance (buffer : Bytes 512) (i n : Nat) : Decidable (NewFits buffer i n) :=
  inferInstanceAs (Decidable (_ ∧ _))

/-- An endpoint can be stored as `ep_desc[e]`. -/
def EndpointFits (buffer : Bytes 512) (i e : Nat) : Prop :=
  e < 16 ∧ (buffer.byte i).toNat ≤ 7 ∧ i + (buffer.byte i).toNat ≤ 512

instance (buffer : Bytes 512) (i e : Nat) : Decidable (EndpointFits buffer i e) :=
  inferInstanceAs (Decidable (_ ∧ _))

/-- What was seen on the way. -/
structure Tally where
  /-- how many endpoints each interface announced -/
  announced : List Nat
  /-- the number of the last interface, or -1 -/
  number : Int
  /-- how many endpoint descriptors belong to the last interface, in all of its settings -/
  endpoints : Nat

namespace Tally

def empty : Tally := ⟨[], -1, 0⟩

/-- The descriptor at `i` is the first setting of an interface. -/
def IsNew (t : Tally) (buffer : Bytes 512) (i : Nat) : Prop :=
  buffer.byte (i + 1) = usbDtInterface ∧ ((buffer.byte (i + 2)).toNat : Int) ≠ t.number

instance (t : Tally) (buffer : Bytes 512) (i : Nat) : Decidable (t.IsNew buffer i) :=
  inferInstanceAs (Decidable (_ ∧ _))

def next (t : Tally) (buffer : Bytes 512) (i : Nat) : Tally :=
  if t.IsNew buffer i then
    ⟨t.announced ++ [(descField buffer i 4).toNat], (descField buffer i 2).toNat, 0⟩
  else if buffer.byte (i + 1) = usbDtEndpoint then
    { t with endpoints := t.endpoints + 1 }
  else
    t

/--
There is room for the descriptor at `i`: it lies in the buffer, it is not too long, it is not the
ninth interface, nor the 17th endpoint of an interface, nor an endpoint of none.
-/
def HasRoom (t : Tally) (buffer : Bytes 512) (i : Nat) : Prop :=
  if buffer.byte (i + 1) = usbDtInterface then
    i + 2 < 512 ∧ (t.IsNew buffer i → NewFits buffer i t.announced.length)
  else if buffer.byte (i + 1) = usbDtEndpoint then
    i + 1 < 512 ∧ t.announced ≠ [] ∧ EndpointFits buffer i t.endpoints
  else
    i + 1 < 512 ∧ i + (buffer.byte i).toNat ≤ 512

/-- There are no more interfaces and endpoints announced than can be stored. -/
def Announces (t : Tally) (buffer : Bytes 512) : Prop :=
  (descField buffer 0 4).toNat ≤ 8 ∧
  ∀ j < (descField buffer 0 4).toNat, t.announced.getD j 0 ≤ 16

instance (t : Tally) (buffer : Bytes 512) : Decidable (t.Announces buffer) :=
  inferInstanceAs (Decidable (_ ∧ _))

end Tally

/-- The walk is over: it reached the total length, or an unknown descriptor of length 0. -/
def WalkEnds (buffer : Bytes 512) (i : Nat) : Prop :=
  i + 1 < totalLength buffer →
    buffer.byte (i + 1) ≠ usbDtInterface ∧ buffer.byte (i + 1) ≠ usbDtEndpoint ∧
    buffer.byte i = 0 ∧ i + 1 < 512

instance (buffer : Bytes 512) (i : Nat) : Decidable (WalkEnds buffer i) :=
  inferInstanceAs (Decidable (_ → _))

/-- The walk comes to offset `i` after it saw `t`. -/
inductive Walk (buffer : Bytes 512) : Nat → Tally → Prop where
  | start : Walk buffer (buffer.byte 0).toNat .empty
  | next {i : Nat} {t : Tally} :
      Walk buffer i t → ¬WalkEnds buffer i → t.HasRoom buffer i →
      Walk buffer (i + (buffer.byte i).toNat) (t.next buffer i)

/--
The buffer holds no configuration at all, or one for whose descriptors there is room wherever the
walk comes.
-/
def ConfigFits (buffer : Bytes 512) : Prop :=
  buffer.byte 1 = usbDtConfig →
    (buffer.byte 0).toNat ≤ 9 ∧
    ∀ i t, Walk buffer i t →
      if WalkEnds buffer i then t.Announces buffer else t.HasRoom buffer i
