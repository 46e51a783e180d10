import PureUsb.Usb.Configuration

/-!
This module contains the descriptors of a configuration as a sequence, what is to be remembered of them for
each interface, and the sequences that belong to a well-formed configuration.
-/

/-! ### Sequences of descriptors -/

/-- A `struct usb_interface_descriptor` behind its type. -/
structure InterfaceDescriptor where
  bInterfaceNumber : Byte
  bAlternateSetting : Byte
  bNumEndpoints : Byte
  bInterfaceClass : Byte
  bInterfaceSubClass : Byte
  bInterfaceProtocol : Byte
  iInterface : Byte

def InterfaceDescriptor.bytes (d : InterfaceDescriptor) : List Byte :=
  [9, usbDtInterface, d.bInterfaceNumber, d.bAlternateSetting, d.bNumEndpoints, d.bInterfaceClass,
    d.bInterfaceSubClass, d.bInterfaceProtocol, d.iInterface]

/-- A descriptor behind the one of the configuration. -/
inductive Descriptor where
  | interface (d : InterfaceDescriptor)
  | item (i : Item)

namespace Descriptor

def bytes : Descriptor → List Byte
  | interface d => d.bytes
  | item i => i.bytes

theorem two_le_length_bytes (d : Descriptor) : 2 ≤ d.bytes.length := by
  cases d with
  | interface d => simp [bytes, InterfaceDescriptor.bytes]
  | item i => cases i <;> simp [bytes, Item.bytes, ClassDescriptor.bytes]

end Descriptor

/-- What the seven bytes of an endpoint are, if the item describes one. -/
def Item.endpointBytes? : Item → Option (List Byte)
  | endpoint bEndpointAddress bmAttributes wMaxPacketSize bInterval =>
    some (endpoint bEndpointAddress bmAttributes wMaxPacketSize bInterval).bytes
  | other _ => none

/-- What is remembered of an interface. -/
structure InterfaceEntry where
  /-- the descriptor of its first setting -/
  desc : InterfaceDescriptor
  numAltsetting : Nat
  /-- the endpoints of all settings -/
  endpoints : List (List Byte)

namespace InterfaceEntry

def alternate (e : InterfaceEntry) : InterfaceEntry := { e with numAltsetting := e.numAltsetting + 1 }

def append (e : InterfaceEntry) (endpoints : List (List Byte)) : InterfaceEntry :=
  { e with endpoints := e.endpoints ++ endpoints }

/--
What is remembered after one more descriptor, if there is room for it. The last interface comes first.
-/
def step : List InterfaceEntry → Descriptor → Option (List InterfaceEntry)
  | [], .interface d => some [⟨d, 1, []⟩]
  | e :: es, .interface d =>
    if d.bInterfaceNumber = e.desc.bInterfaceNumber then
      some (e.alternate :: es)
    else if es.length + 1 < 8 then
      some (⟨d, 1, []⟩ :: e :: es)
    else
      none
  | es, .item i =>
    match i.endpointBytes?, es with
    | none, es => some es
    | some _, [] => none
    | some bytes, e :: es => if e.endpoints.length < 16 then some (e.append [bytes] :: es) else none

def steps (es : List InterfaceEntry) (ds : List Descriptor) : Option (List InterfaceEntry) := ds.foldlM step es

section

variable {e : InterfaceEntry} {es es' : List InterfaceEntry} {d : Descriptor} {ds ds' : List Descriptor}

@[simp]
theorem steps_nil : steps es [] = some es := rfl

@[simp]
theorem steps_cons : steps es (d :: ds) = (step es d).bind fun es => steps es ds := rfl

theorem steps_append (h : steps es ds = some es') : steps es (ds ++ ds') = steps es' ds' := by
  unfold steps at h ⊢
  rw [List.foldlM_append, h]
  rfl

@[simp]
theorem append_nil : e.append [] = e := by
  simp [append]

@[simp]
theorem append_append (endpoints endpoints' : List (List Byte))
    : (e.append endpoints).append endpoints' = e.append (endpoints ++ endpoints') := by
  simp [append]

end

end InterfaceEntry

/-! ### Well-formed sequences -/

/-- The descriptor of a setting, and the descriptors behind it. -/
structure SettingDescriptors where
  bAlternateSetting : Byte
  bNumEndpoints : Byte
  bInterfaceClass : Byte
  bInterfaceSubClass : Byte
  bInterfaceProtocol : Byte
  iInterface : Byte
  items : List Item

namespace SettingDescriptors

def desc (bInterfaceNumber : Byte) (s : SettingDescriptors) : InterfaceDescriptor :=
  ⟨bInterfaceNumber, s.bAlternateSetting, s.bNumEndpoints, s.bInterfaceClass, s.bInterfaceSubClass,
    s.bInterfaceProtocol, s.iInterface⟩

def endpoints (s : SettingDescriptors) : List (List Byte) := s.items.filterMap Item.endpointBytes?

def descriptors (bInterfaceNumber : Byte) (s : SettingDescriptors) : List Descriptor :=
  .interface (s.desc bInterfaceNumber) :: s.items.map .item

end SettingDescriptors

/-- The descriptors of an interface in all of its settings. -/
structure InterfaceDescriptors where
  bInterfaceNumber : Byte
  first : SettingDescriptors
  alternates : List SettingDescriptors

namespace InterfaceDescriptors

def settings (i : InterfaceDescriptors) : List SettingDescriptors := i.first :: i.alternates

def endpoints (i : InterfaceDescriptors) : List (List Byte) := i.settings.flatMap SettingDescriptors.endpoints

def descriptors (i : InterfaceDescriptors) : List Descriptor :=
  i.settings.flatMap (SettingDescriptors.descriptors i.bInterfaceNumber)

def entry (i : InterfaceDescriptors) : InterfaceEntry :=
  ⟨i.first.desc i.bInterfaceNumber, i.settings.length, i.endpoints⟩

end InterfaceDescriptors

def AdjacentDiffer (is : List InterfaceDescriptors) : Prop :=
  ∀ (j : Nat) (i i' : InterfaceDescriptors), is[j]? = some i → is[j + 1]? = some i' →
    i.bInterfaceNumber ≠ i'.bInterfaceNumber

/--
A configuration with at most 8 interfaces, at most 16 endpoints in an interface and at most 512 bytes. A number
may come back once another interface was between.
-/
structure ConfigDescriptors where
  bNumInterfaces : Byte
  bConfigurationValue : Byte
  iConfiguration : Byte
  bmAttributes : Byte
  bMaxPower : Byte
  /-- the descriptors in front of the first interface -/
  classes : List ClassDescriptor
  interfaces : List InterfaceDescriptors
  numbers : AdjacentDiffer interfaces
  interfaces_le : interfaces.length ≤ 8
  endpoints_le : ∀ i ∈ interfaces, i.endpoints.length ≤ 16
  size_le : configHeaderSize + (((classes.map fun d => Descriptor.item (.other d)) ++
    interfaces.flatMap InterfaceDescriptors.descriptors).flatMap Descriptor.bytes).length ≤ 512

namespace ConfigDescriptors

def descriptors (c : ConfigDescriptors) : List Descriptor :=
  (c.classes.map fun d => Descriptor.item (.other d)) ++ c.interfaces.flatMap InterfaceDescriptors.descriptors

def totalLength (c : ConfigDescriptors) : Nat :=
  configHeaderSize + (c.descriptors.flatMap Descriptor.bytes).length

def header (c : ConfigDescriptors) : List Byte :=
  [9, usbDtConfig, BitVec.ofNat 8 c.totalLength, BitVec.ofNat 8 (c.totalLength / 256), c.bNumInterfaces,
    c.bConfigurationValue, c.iConfiguration, c.bmAttributes, c.bMaxPower]

def bytes (c : ConfigDescriptors) : List Byte := c.header ++ c.descriptors.flatMap Descriptor.bytes

theorem length_bytes (c : ConfigDescriptors) : c.bytes.length = c.totalLength := by
  unfold bytes totalLength
  rw [List.length_append]
  rfl

theorem totalLength_le (c : ConfigDescriptors) : c.totalLength ≤ 512 := c.size_le

end ConfigDescriptors

/-! ### What is remembered of a well-formed sequence -/

namespace InterfaceEntry

variable {e : InterfaceEntry} {es : List InterfaceEntry}

theorem steps_items {items : List Item}
    (h : e.endpoints.length + (items.filterMap Item.endpointBytes?).length ≤ 16)
    : steps (e :: es) (items.map .item) = some (e.append (items.filterMap Item.endpointBytes?) :: es) := by
  induction items generalizing e with
  | nil => simp
  | cons item items ih =>
    rw [List.map_cons, steps_cons]
    cases hitem : item.endpointBytes? with
    | none =>
      rw [List.filterMap_cons_none hitem] at h ⊢
      simp only [step, hitem, Option.bind_some]
      exact ih h
    | some bytes =>
      rw [List.filterMap_cons_some hitem, List.length_cons] at h
      have hlt : e.endpoints.length < 16 := by omega
      have hrest : (e.append [bytes]).endpoints.length + (items.filterMap Item.endpointBytes?).length ≤
          16 := by
        simp only [append, List.length_append, List.length_singleton]
        omega
      rw [List.filterMap_cons_some hitem]
      simp only [step, hitem, if_pos hlt, Option.bind_some]
      rw [ih hrest, append_append, List.singleton_append]

theorem steps_alternates {settings : List SettingDescriptors}
    (h : e.endpoints.length + (settings.flatMap SettingDescriptors.endpoints).length ≤ 16)
    : steps (e :: es) (settings.flatMap (SettingDescriptors.descriptors e.desc.bInterfaceNumber)) =
        some (⟨e.desc, e.numAltsetting + settings.length,
          e.endpoints ++ settings.flatMap SettingDescriptors.endpoints⟩ :: es) := by
  induction settings generalizing e with
  | nil => simp
  | cons setting settings ih =>
    rw [List.flatMap_cons, List.length_append] at h
    have hfirst : e.alternate.endpoints.length + setting.endpoints.length ≤ 16 := by
      simp only [alternate]
      omega
    have hitems : steps (e.alternate :: es) (setting.items.map .item) =
      some (e.alternate.append setting.endpoints :: es) := steps_items hfirst
    have hlast : (e.alternate.append setting.endpoints).endpoints.length +
        (settings.flatMap SettingDescriptors.endpoints).length ≤ 16 := by
      simp only [alternate, append, List.length_append]
      omega
    rw [List.flatMap_cons, SettingDescriptors.descriptors, List.cons_append, steps_cons]
    simp only [step, SettingDescriptors.desc, if_pos, Option.bind_some]
    rw [steps_append hitems]
    refine (ih hlast).trans ?_
    simp [alternate, append, Nat.add_comm, Nat.add_left_comm]

theorem step_new {d : InterfaceDescriptor} (hlt : es.length < 8)
    (hnumber : ∀ e ∈ es.head?, e.desc.bInterfaceNumber ≠ d.bInterfaceNumber)
    : step es (.interface d) = some (⟨d, 1, []⟩ :: es) := by
  cases es with
  | nil => rfl
  | cons e es =>
    have hne : d.bInterfaceNumber ≠ e.desc.bInterfaceNumber := (hnumber e rfl).symm
    simp only [step, if_neg hne]
    exact if_pos hlt

theorem steps_interface {i : InterfaceDescriptors} (hlt : es.length < 8) (hle : i.endpoints.length ≤ 16)
    (hnumber : ∀ e ∈ es.head?, e.desc.bInterfaceNumber ≠ i.bInterfaceNumber)
    : steps es i.descriptors = some (i.entry :: es) := by
  have hendpoints : i.endpoints = i.first.endpoints ++ i.alternates.flatMap SettingDescriptors.endpoints := rfl
  have hdescriptors : i.descriptors = .interface (i.first.desc i.bInterfaceNumber) ::
      (i.first.items.map .item ++
        i.alternates.flatMap (SettingDescriptors.descriptors i.bInterfaceNumber)) := rfl
  rw [hendpoints, List.length_append] at hle
  generalize he : InterfaceEntry.mk (i.first.desc i.bInterfaceNumber) 1 [] = e
  have hfirst : steps (e :: es) (i.first.items.map .item) = some (e.append i.first.endpoints :: es) := by
    apply steps_items
    rw [← he, List.length_nil, Nat.zero_add]
    exact Nat.le_trans (Nat.le_add_right ..) hle
  have hlast : (e.append i.first.endpoints).endpoints.length +
      (i.alternates.flatMap SettingDescriptors.endpoints).length ≤ 16 := by
    rw [← he]
    simpa [append] using hle
  have hrest : steps (e.append i.first.endpoints :: es) _ = _ := steps_alternates hlast
  rw [hdescriptors, steps_cons, step_new hlt hnumber, Option.bind_some, he, steps_append hfirst]
  rw [← he] at hrest ⊢
  refine hrest.trans ?_
  simp [append, InterfaceDescriptors.entry, InterfaceDescriptors.settings, hendpoints, Nat.add_comm]

theorem steps_interfaces {is : List InterfaceDescriptors} (hlen : es.length + is.length ≤ 8)
    (hle : ∀ i ∈ is, i.endpoints.length ≤ 16)
    (hnumbers : AdjacentDiffer is)
    (hnumber : ∀ i ∈ is.head?, ∀ e ∈ es.head?, e.desc.bInterfaceNumber ≠ i.bInterfaceNumber)
    : steps es (is.flatMap InterfaceDescriptors.descriptors) =
        some ((is.map InterfaceDescriptors.entry).reverse ++ es) := by
  induction is generalizing es with
  | nil => rfl
  | cons i is ih =>
    rw [List.length_cons] at hlen
    have hi : steps es i.descriptors = some (i.entry :: es) :=
      steps_interface (by omega) (hle i List.mem_cons_self) (hnumber i rfl)
    rw [List.flatMap_cons, steps_append hi, ih]
    . simp
    . rw [List.length_cons]
      omega
    . exact fun j hj => hle j (List.mem_cons_of_mem i hj)
    . exact fun j => hnumbers (j + 1)
    . intro j hj e he
      cases Option.mem_some.mp he
      apply hnumbers 0 i j rfl
      rw [Nat.zero_add, List.getElem?_cons_succ, ← List.head?_eq_getElem?]
      exact hj

theorem steps_classes {ds : List ClassDescriptor}
    : steps es (ds.map fun d => .item (.other d)) = some es := by
  induction ds with
  | nil => rfl
  | cons d ds ih =>
    rw [List.map_cons, steps_cons]
    simp only [step, Item.endpointBytes?, Option.bind_some]
    exact ih

end InterfaceEntry

theorem ConfigDescriptors.steps_descriptors (c : ConfigDescriptors)
    : InterfaceEntry.steps [] c.descriptors = some (c.interfaces.map InterfaceDescriptors.entry).reverse := by
  unfold descriptors
  rw [InterfaceEntry.steps_append InterfaceEntry.steps_classes]
  rw [InterfaceEntry.steps_interfaces (by simpa using c.interfaces_le) c.endpoints_le c.numbers (by simp)]
  rw [List.append_nil]
