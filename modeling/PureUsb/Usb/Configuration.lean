import PureUsb.Usb.Impl.Config

/-!
This module contains well-formed configurations and the bytes that a device sends for them.
-/

/-- A descriptor that belongs to a class or a vendor. -/
structure ClassDescriptor where
  bDescriptorType : Byte
  data : List Byte
  type_ne_interface : bDescriptorType ≠ usbDtInterface
  type_ne_endpoint : bDescriptorType ≠ usbDtEndpoint
  length_le : data.length ≤ 253

def ClassDescriptor.bytes (d : ClassDescriptor) : List Byte :=
  BitVec.ofNat 8 (d.data.length + 2) :: d.bDescriptorType :: d.data

/-- What follows the descriptor of an interface. -/
inductive Item where
  | endpoint (bEndpointAddress bmAttributes : Byte) (wMaxPacketSize : BitVec 16) (bInterval : Byte)
  | other (d : ClassDescriptor)

namespace Item

def bytes : Item → List Byte
  | endpoint bEndpointAddress bmAttributes wMaxPacketSize bInterval =>
    [7, usbDtEndpoint, bEndpointAddress, bmAttributes, wMaxPacketSize.setWidth 8,
      (wMaxPacketSize >>> 8).setWidth 8, bInterval]
  | other d => d.bytes

theorem bytes_other (d : ClassDescriptor) : (other d).bytes = d.bytes := rfl

def endpoint? : Item → Option EndpointDescriptor
  | endpoint bEndpointAddress bmAttributes wMaxPacketSize _ =>
    some ⟨bEndpointAddress, bmAttributes, wMaxPacketSize.toNat⟩
  | other _ => none

end Item

/-- A setting of an interface. -/
structure Setting where
  bAlternateSetting : Byte
  bInterfaceClass : Byte
  bInterfaceSubClass : Byte
  bInterfaceProtocol : Byte
  iInterface : Byte
  items : List Item

namespace Setting

def endpoints (s : Setting) : List EndpointDescriptor := s.items.filterMap Item.endpoint?

def descriptor (bInterfaceNumber : Byte) (s : Setting) : List Byte :=
  [9, usbDtInterface, bInterfaceNumber, s.bAlternateSetting, BitVec.ofNat 8 s.endpoints.length,
    s.bInterfaceClass, s.bInterfaceSubClass, s.bInterfaceProtocol, s.iInterface]

def bytes (bInterfaceNumber : Byte) (s : Setting) : List Byte :=
  s.descriptor bInterfaceNumber ++ s.items.flatMap Item.bytes

end Setting

/-- An interface with all of its settings. -/
structure Interface where
  bInterfaceNumber : Byte
  first : Setting
  alternates : List Setting

namespace Interface

def endpoints (i : Interface) : List EndpointDescriptor :=
  i.first.endpoints ++ i.alternates.flatMap Setting.endpoints

def bytes (i : Interface) : List Byte :=
  i.first.bytes i.bInterfaceNumber ++ i.alternates.flatMap (Setting.bytes i.bInterfaceNumber)

end Interface

abbrev configHeaderSize : Nat := 9

/--
A configuration with at most 8 interfaces, at most 16 endpoints in an interface and at most 512 bytes.
-/
structure Configuration where
  bConfigurationValue : Byte
  iConfiguration : Byte
  bmAttributes : Byte
  bMaxPower : Byte
  /-- the descriptors in front of the first interface -/
  classes : List ClassDescriptor
  interfaces : List Interface
  numbers : (interfaces.map Interface.bInterfaceNumber).Nodup
  interfaces_le : interfaces.length ≤ 8
  endpoints_le : ∀ i ∈ interfaces, i.endpoints.length ≤ 16
  size_le : configHeaderSize + (classes.flatMap ClassDescriptor.bytes ++
    interfaces.flatMap Interface.bytes).length ≤ 512

namespace Configuration

def body (c : Configuration) : List Byte :=
  c.classes.flatMap ClassDescriptor.bytes ++ c.interfaces.flatMap Interface.bytes

def totalLength (c : Configuration) : Nat := configHeaderSize + c.body.length

def header (c : Configuration) : List Byte :=
  [9, usbDtConfig, BitVec.ofNat 8 c.totalLength, BitVec.ofNat 8 (c.totalLength / 256),
    BitVec.ofNat 8 c.interfaces.length, c.bConfigurationValue, c.iConfiguration, c.bmAttributes,
    c.bMaxPower]

def bytes (c : Configuration) : List Byte := c.header ++ c.body

def endpoints (c : Configuration) : List EndpointDescriptor :=
  c.interfaces.flatMap fun i => i.first.endpoints

theorem length_bytes (c : Configuration) : c.bytes.length = c.totalLength := by
  unfold bytes totalLength
  rw [List.length_append]
  rfl

theorem totalLength_le (c : Configuration) : c.totalLength ≤ 512 := c.size_le

end Configuration
