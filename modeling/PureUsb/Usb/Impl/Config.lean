import PureUsb.Usb.Impl.Control

/-!
This module contains the parser for configuration descriptors. It is written against an interface to
the memory behind `dev->config`, which has two implementations: the memory that is really there,
where an index or a length out of range hits the neighbouring fields and devices, and a memory that
refuses such an access.
-/

/-- A place in `dev->config`, as the source names it. -/
inductive ConfigLoc where
  /-- byte `o` of `config.desc` -/
  | desc (o : Nat)
  /-- `config.no_of_if` -/
  | noOfIf
  /-- byte `o` of `config.if_desc[i]` -/
  | ifDesc (i : Int) (o : Nat)
  /-- byte `o` of `config.if_desc[i].ep_desc[e]` -/
  | epDesc (i : Int) (e : Nat) (o : Nat)

namespace ConfigLoc

/-- The distance to the first byte of `config`. -/
def offset : ConfigLoc → Int
  | desc o => o
  | noOfIf => 9
  | ifDesc i o => 10 + 124 * i + o
  | epDesc i e o => 10 + 124 * i + 12 + 7 * e + o

/-- How many bytes the object has from this place on. -/
def room : ConfigLoc → Nat
  | desc o => 9 - o
  | noOfIf => 1
  | ifDesc _ o => 124 - o
  | epDesc _ _ o => 7 - o

/-- The place is in an object that exists. -/
def InBounds : ConfigLoc → Prop
  | desc o => o < 9
  | noOfIf => True
  | ifDesc i o => 0 ≤ i ∧ i < usbMaxinterfaces ∧ o < 124
  | epDesc i e o => 0 ≤ i ∧ i < usbMaxinterfaces ∧ e < usbMaxendpoints ∧ o < 7

instance : DecidablePred InBounds := fun l =>
  match l with
  | desc o => inferInstanceAs (Decidable (o < 9))
  | noOfIf => .isTrue trivial
  | ifDesc i o => inferInstanceAs (Decidable (0 ≤ i ∧ i < usbMaxinterfaces ∧ o < 124))
  | epDesc i e o =>
    inferInstanceAs (Decidable (0 ≤ i ∧ i < usbMaxinterfaces ∧ e < usbMaxendpoints ∧ o < 7))

theorem InBounds.offset_lt {l : ConfigLoc} (h : l.InBounds)
    : 0 ≤ l.offset ∧ l.offset.toNat < 1002 := by
  cases l <;> simp only [InBounds, offset, usbMaxinterfaces, usbMaxendpoints] at * <;> omega

theorem InBounds.offset_add_room_le {l : ConfigLoc} (h : l.InBounds)
    : l.offset.toNat + l.room ≤ 1002 := by
  cases l <;> simp only [InBounds, offset, room, usbMaxinterfaces, usbMaxendpoints] at * <;> omega

end ConfigLoc

/-- What the parser does to the memory behind `dev->config`. -/
structure ConfigMem (M : Type) where
  ld : M → ConfigLoc → Except Stop Byte
  st : M → ConfigLoc → Byte → Except Stop M
  /-- `memcpy` to the object that starts at the location -/
  copy : M → ConfigLoc → List Byte → Except Stop M

/-- The memory of slot `k` and of whatever surrounds it in the device table. -/
def tableMem (k : Fin 32) (base : BitVec 32) : ConfigMem UsbTable where
  ld t l := peek t base (sizeofUsbDevice * k + offsetofConfig + l.offset)
  st t l b := poke t base (sizeofUsbDevice * k + offsetofConfig + l.offset) b
  copy t l bs := pokes t base (sizeofUsbDevice * k + offsetofConfig + l.offset) bs

/-- A memory in which each access has to stay in the object that it names. -/
def strictMem : ConfigMem (Bytes 1002) where
  ld c l := if h : l.InBounds then .ok (c ⟨l.offset.toNat, h.offset_lt.2⟩) else .error .fault
  st c l b := if l.InBounds then .ok (c.write l.offset.toNat [b]) else .error .fault
  copy c l bs :=
    if l.InBounds ∧ bs.length ≤ l.room then .ok (c.write l.offset.toNat bs) else .error .fault

/-- `buffer[i]` -/
def rd (buffer : Bytes 512) (i : Nat) : Except Stop Byte :=
  match buffer.get? i with
  | some b => .ok b
  | none => .error .fault

/-- The `len` bytes from `buffer[i]` on. -/
def rdRange (buffer : Bytes 512) (i len : Nat) : Except Stop (List Byte) :=
  if len = 0 then
    .ok []
  else
    match buffer.slice? i len with
    | some l => .ok l
    | none => .error .fault

/-!
### `usb_parse_config`
-/

/-- The variables of the loop in `usb_parse_config`. -/
structure ParseState (M : Type) where
  mem : M
  index : Nat
  ifno : Int
  currIfNum : Int

section

variable {M : Type}

/-- The case `USB_DT_INTERFACE`. -/
def parseInterface (m : ConfigMem M) (buffer : Bytes 512) (s : ParseState M)
    : Except Stop (ParseState M) := do
  let num ← rd buffer (s.index + 2)
  if (num.toNat : Int) ≠ s.currIfNum then
    -- a new interface
    let ifno ← m.ld s.mem .noOfIf
    let mem ← m.st s.mem .noOfIf (ifno + 1)
    let len ← rd buffer s.index
    let bytes ← rdRange buffer s.index len.toNat
    let mem ← m.copy mem (.ifDesc ifno.toNat 0) bytes
    let mem ← m.st mem (.ifDesc ifno.toNat 9) 0
    let mem ← m.st mem (.ifDesc ifno.toNat 10) 1
    let curr ← m.ld mem (.ifDesc ifno.toNat 2)
    return { s with mem, ifno := ifno.toNat, currIfNum := curr.toNat }
  else
    -- an alternate setting
    let n ← m.ld s.mem (.ifDesc s.ifno 10)
    let mem ← m.st s.mem (.ifDesc s.ifno 10) (n + 1)
    return { s with mem }

/-- The case `USB_DT_ENDPOINT`. -/
def parseEndpoint (m : ConfigMem M) (buffer : Bytes 512) (s : ParseState M)
    : Except Stop (ParseState M) := do
  let epno ← m.ld s.mem (.ifDesc s.ifno 9)
  let mem ← m.st s.mem (.ifDesc s.ifno 9) (epno + 1)
  let len ← rd buffer s.index
  let bytes ← rdRange buffer s.index len.toNat
  let mem ← m.copy mem (.epDesc s.ifno epno.toNat 0) bytes
  return { s with mem }

/--
One round of the loop: either the loop goes on, or the function returns 1.
-/
def parseStep (m : ConfigMem M) (buffer : Bytes 512) (s : ParseState M)
    : Except Stop (ParseState M ⊕ M) := do
  let lo ← m.ld s.mem (.desc 2)
  let hi ← m.ld s.mem (.desc 3)
  if s.index + 1 < le16 lo hi then
    let type ← rd buffer (s.index + 1)
    if type = usbDtInterface then
      let s ← parseInterface m buffer s
      let len ← rd buffer s.index
      return .inl { s with index := s.index + len.toNat }
    else if type = usbDtEndpoint then
      let s ← parseEndpoint m buffer s
      let len ← rd buffer s.index
      return .inl { s with index := s.index + len.toNat }
    else
      let len ← rd buffer s.index
      if len = 0 then
        return .inr s.mem
      else
        -- the bytes of the unknown descriptor are printed
        let _ ← rdRange buffer s.index len.toNat
        return .inl { s with index := s.index + len.toNat }
  else
    return .inr s.mem

/-- At most `fuel` rounds of the loop. -/
def parseLoop (m : ConfigMem M) (buffer : Bytes 512) (fuel : Nat) (s : ParseState M)
    : Except Stop M :=
  match fuel with
  | 0 => .error .hang
  | fuel + 1 => do
    match ← parseStep m buffer s with
    | .inl s => parseLoop m buffer fuel s
    | .inr mem => return mem

/-- What comes before the loop: `none` if the first descriptor is no configuration descriptor. -/
def parseHeader (m : ConfigMem M) (buffer : Bytes 512) (mem : M)
    : Except Stop (Option (ParseState M)) := do
  let type ← rd buffer 1
  if type ≠ usbDtConfig then
    return none
  else
    let len ← rd buffer 0
    let bytes ← rdRange buffer 0 len.toNat
    let mem ← m.copy mem (.desc 0) bytes
    let mem ← m.st mem .noOfIf 0
    let index ← m.ld mem (.desc 0)
    return some ⟨mem, index.toNat, -1, -1⟩

/--
`index` is below 65536 as long as the loop runs and each round adds a byte to it: when there are
more rounds, one of them adds nothing and is repeated forever.
-/
abbrev parseFuel : Nat := 65537

/-- `usb_parse_config` apart from `dev->configno`. -/
def parseConfig (m : ConfigMem M) (buffer : Bytes 512) (mem : M) : Except Stop (Int × M) := do
  match ← parseHeader m buffer mem with
  | none => return (-1, mem)
  | some s =>
    let mem ← parseLoop m buffer parseFuel s
    return (1, mem)

/-!
### `usb_set_maxpacket`
-/

/-- The fields of a `struct usb_endpoint_descriptor` that are looked at. -/
structure EndpointDescriptor where
  bEndpointAddress : Byte
  bmAttributes : Byte
  wMaxPacketSize : Nat
  deriving DecidableEq

/-- Read `if_desc[i].ep_desc[e]`. -/
def loadEndpoint (m : ConfigMem M) (mem : M) (i e : Nat) : Except Stop EndpointDescriptor := do
  let bEndpointAddress ← m.ld mem (.epDesc i e 2)
  let bmAttributes ← m.ld mem (.epDesc i e 3)
  let lo ← m.ld mem (.epDesc i e 4)
  let hi ← m.ld mem (.epDesc i e 5)
  return ⟨bEndpointAddress, bmAttributes, le16 lo hi⟩

/-- The endpoints of interface `i` that `usb_set_maxpacket` visits. -/
def interfaceEndpoints (m : ConfigMem M) (mem : M) (i : Nat)
    : Except Stop (List EndpointDescriptor) := do
  let n ← m.ld mem (.ifDesc i 4)
  (List.range n.toNat).mapM (loadEndpoint m mem i)

/-- All endpoints that `usb_set_maxpacket` visits, in this order. -/
def configEndpoints (m : ConfigMem M) (mem : M) : Except Stop (List EndpointDescriptor) := do
  let n ← m.ld mem (.desc 4)
  let eps ← (List.range n.toNat).mapM (interfaceEndpoints m mem)
  return eps.flatten

end

def usbSetMaxpacketEp (d : UsbDevice) (ep : EndpointDescriptor) : UsbDevice :=
  let b : Fin 16 := Fin.ofNat 16 (ep.bEndpointAddress &&& 0x0f).toNat
  let size : Int := ep.wMaxPacketSize
  if ep.bmAttributes &&& 0x03 = 0 then
    { d with
      epmaxpacketout := Function.update d.epmaxpacketout b size
      epmaxpacketin := Function.update d.epmaxpacketin b size }
  else if ep.bEndpointAddress &&& 0x80 = 0 then
    if size > d.epmaxpacketout b then
      { d with epmaxpacketout := Function.update d.epmaxpacketout b size }
    else
      d
  else
    if size > d.epmaxpacketin b then
      { d with epmaxpacketin := Function.update d.epmaxpacketin b size }
    else
      d

/-!
### The functions of `usb.c`
-/

def usbParseConfig (dev : Fin 32) (buffer : Bytes 512) (cfgno : Int) : UsbM Int := do
  Stateful.ask (HcdOp.parsing dev buffer)
  modifyDev dev fun d => { d with configno := cfgno }
  let u ← get
  let (ret, usbDev) ← Stateful.ofExcept (parseConfig (tableMem dev u.usbDevAddr) buffer u.usbDev)
  set { u with usbDev }
  return ret

/--
`usb_set_maxpacket`. The descriptors lie behind the tables that are written, so reading all of them
first makes no difference.
-/
def usbSetMaxpacket (dev : Fin 32) : UsbM Int := do
  let u ← get
  let eps ← Stateful.ofExcept (configEndpoints (tableMem dev u.usbDevAddr) u.usbDev)
  modifyDev dev fun d => eps.foldl usbSetMaxpacketEp d
  return 0

/-- The interface that `usb_set_interface` selects among those from `i` on. -/
def findInterface (m : ConfigMem M) (mem : M) (interface : Int) (n i : Nat)
    : Except Stop (Option Nat) :=
  match n with
  | 0 => return none
  | n + 1 => do
    let num ← m.ld mem (.ifDesc i 2)
    if (num.toNat : Int) = interface then
      return some i
    else
      findInterface m mem interface n (i + 1)

def usbSetInterface (dev : Fin 32) (interface alternate : Int) : UsbM Int := do
  let u ← get
  let d := u.usbDev dev
  let m := tableMem dev u.usbDevAddr
  let found ← Stateful.ofExcept (findInterface m u.usbDev interface d.bNumInterfaces.toNat 0)
  match found with
  | none => return -1
  | some i =>
    let n ← Stateful.ofExcept (m.ld u.usbDev (.ifDesc i 10))
    if n = 1 then
      return 0
    else
      let (ret, _) ← usbControlMsg dev (usbSndctrlpipe d 0) usbReqSetInterface usbRecipInterface
        (BitVec.ofInt 16 alternate) (BitVec.ofInt 16 interface) .null 0 (usbCntlTimeout * 5)
      if ret < 0 then
        return ret
      else
        return 0

def usbIsHub (dev : Fin 32) (ifnum : Nat) : UsbM Int := do
  let u ← get
  let m := tableMem dev u.usbDevAddr
  let cls ← Stateful.ofExcept (m.ld u.usbDev (.ifDesc ifnum 5))
  let subClass ← Stateful.ofExcept (m.ld u.usbDev (.ifDesc ifnum 6))
  let bNumEndpoints ← Stateful.ofExcept (m.ld u.usbDev (.ifDesc ifnum 4))
  let ep ← Stateful.ofExcept (loadEndpoint m u.usbDev ifnum 0)
  if cls ≠ usbClassHub then
    return 0
  else if subClass ≠ 0 ∧ subClass ≠ 1 then
    return 0
  else if bNumEndpoints ≠ 1 then
    return 0
  else if ep.bEndpointAddress &&& usbDirIn = 0 then
    return 0
  else if ep.bmAttributes &&& 3 ≠ 3 then
    return 0
  else
    return 1
