import PureUsb.Usb.Defs
import PureUsb.Prog.Stateful

/-!
This module contains the data of `usb.c`: the device table, the calls made into the host controller
driver and how the table lies in memory.
-/

structure DevRequest where
  requesttype : Byte
  request : Byte
  value : BitVec 16
  index : BitVec 16
  length : BitVec 16
  deriving DecidableEq

/--
A `struct usb_device *`. Device structures only live in the table `usb_dev`, `wild a` is an address
that points to none of them.
-/
inductive DevPtr where
  | null
  | dev (k : Fin 32)
  | wild (a : BitVec 32)
  deriving DecidableEq

/-- `struct usb_device`, with the packed descriptors in it as the bytes they consist of. -/
structure UsbDevice where
  devnum : Int
  speed : Int
  mf : Bytes 32
  prod : Bytes 32
  serial : Bytes 32
  maxpacketsize : Int
  /-- one bit for each endpoint (`[0]` = IN, `[1]` = OUT) -/
  toggle : Fin 2 → BitVec 32
  halted : Fin 2 → BitVec 32
  epmaxpacketin : Fin 16 → Int
  epmaxpacketout : Fin 16 → Int
  configno : Int
  /-- `struct usb_device_descriptor` -/
  descriptor : Bytes 18
  /-- `struct usb_config` -/
  config : Bytes 1002
  haveLangid : Int
  stringLangid : Int
  irqHandle : BitVec 32
  irqStatus : BitVec 32
  irqActLen : Int
  privptr : BitVec 32
  status : BitVec 32
  actLen : Int
  maxchild : Int
  portnr : Int
  parent : DevPtr
  children : Fin 8 → DevPtr
  /-- `struct usb_hub_descriptor` -/
  hubdescriptor : Bytes 11

namespace UsbDevice

def zero : UsbDevice where
  devnum := 0
  speed := 0
  mf := .zero
  prod := .zero
  serial := .zero
  maxpacketsize := 0
  toggle := fun _ => 0
  halted := fun _ => 0
  epmaxpacketin := fun _ => 0
  epmaxpacketout := fun _ => 0
  configno := 0
  descriptor := .zero
  config := .zero
  haveLangid := 0
  stringLangid := 0
  irqHandle := 0
  irqStatus := 0
  irqActLen := 0
  privptr := 0
  status := 0
  actLen := 0
  maxchild := 0
  portnr := 0
  parent := .null
  children := fun _ => .null
  hubdescriptor := .zero

/-- `struct usb_device_descriptor` -/
def bMaxPacketSize0 (d : UsbDevice) : Byte := d.descriptor 7

def iManufacturer (d : UsbDevice) : Byte := d.descriptor 14

def iProduct (d : UsbDevice) : Byte := d.descriptor 15

def iSerialNumber (d : UsbDevice) : Byte := d.descriptor 16

/-- `struct usb_configuration_descriptor`, the first 9 bytes of `config` -/
def wTotalLength (d : UsbDevice) : Nat := le16 (d.config 2) (d.config 3)

def bNumInterfaces (d : UsbDevice) : Byte := d.config 4

def bConfigurationValue (d : UsbDevice) : Byte := d.config 5

end UsbDevice

/-!
### Memory layout

Where the fields of a `struct usb_device` lie. The sizes are those of ARM's AAPCS: `int`, `long` and
pointers take four bytes, the packed descriptors follow each other without padding.
-/

/-- `sizeof(struct usb_device)` -/
abbrev sizeofUsbDevice : Nat := 1364

/-- `offsetof(struct usb_device, config)` -/
abbrev offsetofConfig : Nat := 274

/-- `offsetof(struct usb_device, hubdescriptor)` -/
abbrev offsetofHubdescriptor : Nat := 1352

namespace DevPtr

/-- The address behind a pointer when `usb_dev` lies at `base`. -/
def addr (base : BitVec 32) : DevPtr → BitVec 32
  | null => 0
  | dev k => base + BitVec.ofNat 32 (sizeofUsbDevice * k)
  | wild a => a

def ofAddr (base a : BitVec 32) : DevPtr :=
  if a = 0 then
    null
  else
    match (List.finRange 32).find? (fun k => (dev k).addr base = a) with
    | some k => dev k
    | none => wild a

end DevPtr

namespace UsbDevice

private def intByte (x : Int) (i : Nat) : Byte := wordByte (BitVec.ofInt 32 x) i

private def pokeInt (x : Int) (i : Nat) (b : Byte) : Int :=
  (pokeWord (BitVec.ofInt 32 x) i b).toInt

private def ptrByte (base : BitVec 32) (p : DevPtr) (i : Nat) : Byte := wordByte (p.addr base) i

private def pokePtr (base : BitVec 32) (p : DevPtr) (i : Nat) (b : Byte) : DevPtr :=
  .ofAddr base (pokeWord (p.addr base) i b)

/-- The byte at offset `o` of a `struct usb_device`. -/
def getByte (base : BitVec 32) (d : UsbDevice) (o : Nat) : Byte :=
  if o < 4 then intByte d.devnum o
  else if o < 8 then intByte d.speed (o - 4)
  else if h : o < 40 then d.mf ⟨o - 8, by omega⟩
  else if h : o < 72 then d.prod ⟨o - 40, by omega⟩
  else if h : o < 104 then d.serial ⟨o - 72, by omega⟩
  else if o < 108 then intByte d.maxpacketsize (o - 104)
  else if h : o < 116 then wordByte (d.toggle ⟨(o - 108) / 4, by omega⟩) (o % 4)
  else if h : o < 124 then wordByte (d.halted ⟨(o - 116) / 4, by omega⟩) (o % 4)
  else if h : o < 188 then intByte (d.epmaxpacketin ⟨(o - 124) / 4, by omega⟩) (o % 4)
  else if h : o < 252 then intByte (d.epmaxpacketout ⟨(o - 188) / 4, by omega⟩) (o % 4)
  else if o < 256 then intByte d.configno (o - 252)
  else if h : o < 274 then d.descriptor ⟨o - 256, by omega⟩
  else if h : o < 1276 then d.config ⟨o - 274, by omega⟩
  else if o < 1280 then intByte d.haveLangid (o - 1276)
  else if o < 1284 then intByte d.stringLangid (o - 1280)
  else if o < 1288 then wordByte d.irqHandle (o - 1284)
  else if o < 1292 then wordByte d.irqStatus (o - 1288)
  else if o < 1296 then intByte d.irqActLen (o - 1292)
  else if o < 1300 then wordByte d.privptr (o - 1296)
  else if o < 1304 then wordByte d.status (o - 1300)
  else if o < 1308 then intByte d.actLen (o - 1304)
  else if o < 1312 then intByte d.maxchild (o - 1308)
  else if o < 1316 then intByte d.portnr (o - 1312)
  else if o < 1320 then ptrByte base d.parent (o - 1316)
  else if h : o < 1352 then ptrByte base (d.children ⟨(o - 1320) / 4, by omega⟩) (o % 4)
  else if h : o < 1363 then d.hubdescriptor ⟨o - 1352, by omega⟩
  else 0

def setByte (base : BitVec 32) (d : UsbDevice) (o : Nat) (b : Byte) : UsbDevice :=
  if o < 4 then { d with devnum := pokeInt d.devnum o b }
  else if o < 8 then { d with speed := pokeInt d.speed (o - 4) b }
  else if o < 40 then { d with mf := d.mf.write (o - 8) [b] }
  else if o < 72 then { d with prod := d.prod.write (o - 40) [b] }
  else if o < 104 then { d with serial := d.serial.write (o - 72) [b] }
  else if o < 108 then { d with maxpacketsize := pokeInt d.maxpacketsize (o - 104) b }
  else if o < 116 then
    { d with toggle := fun i =>
        if (i : Nat) = (o - 108) / 4 then pokeWord (d.toggle i) (o % 4) b else d.toggle i }
  else if o < 124 then
    { d with halted := fun i =>
        if (i : Nat) = (o - 116) / 4 then pokeWord (d.halted i) (o % 4) b else d.halted i }
  else if o < 188 then
    { d with epmaxpacketin := fun i =>
        if (i : Nat) = (o - 124) / 4 then pokeInt (d.epmaxpacketin i) (o % 4) b
        else d.epmaxpacketin i }
  else if o < 252 then
    { d with epmaxpacketout := fun i =>
        if (i : Nat) = (o - 188) / 4 then pokeInt (d.epmaxpacketout i) (o % 4) b
        else d.epmaxpacketout i }
  else if o < 256 then { d with configno := pokeInt d.configno (o - 252) b }
  else if o < 274 then { d with descriptor := d.descriptor.write (o - 256) [b] }
  else if o < 1276 then { d with config := d.config.write (o - 274) [b] }
  else if o < 1280 then { d with haveLangid := pokeInt d.haveLangid (o - 1276) b }
  else if o < 1284 then { d with stringLangid := pokeInt d.stringLangid (o - 1280) b }
  else if o < 1288 then { d with irqHandle := pokeWord d.irqHandle (o - 1284) b }
  else if o < 1292 then { d with irqStatus := pokeWord d.irqStatus (o - 1288) b }
  else if o < 1296 then { d with irqActLen := pokeInt d.irqActLen (o - 1292) b }
  else if o < 1300 then { d with privptr := pokeWord d.privptr (o - 1296) b }
  else if o < 1304 then { d with status := pokeWord d.status (o - 1300) b }
  else if o < 1308 then { d with actLen := pokeInt d.actLen (o - 1304) b }
  else if o < 1312 then { d with maxchild := pokeInt d.maxchild (o - 1308) b }
  else if o < 1316 then { d with portnr := pokeInt d.portnr (o - 1312) b }
  else if o < 1320 then { d with parent := pokePtr base d.parent (o - 1316) b }
  else if o < 1352 then
    { d with children := fun i =>
        if (i : Nat) = (o - 1320) / 4 then pokePtr base (d.children i) (o % 4) b
        else d.children i }
  else if o < 1363 then { d with hubdescriptor := d.hubdescriptor.write (o - 1352) [b] }
  else d

theorem getByte_config (base : BitVec 32) (d : UsbDevice) {o : Nat} (h : o < 1002)
    : d.getByte base (offsetofConfig + o) = d.config ⟨o, h⟩ := by
  unfold getByte offsetofConfig
  simp (disch := omega) only [if_neg, dif_neg, dif_pos, Nat.add_sub_cancel_left]

theorem setByte_config (base : BitVec 32) (d : UsbDevice) {o : Nat} (b : Byte) (h : o < 1002)
    : d.setByte base (offsetofConfig + o) b = { d with config := d.config.write o [b] } := by
  unfold setByte offsetofConfig
  simp (disch := omega) only [if_neg, if_pos, Nat.add_sub_cancel_left]

end UsbDevice
