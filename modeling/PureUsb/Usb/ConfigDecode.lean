import PureUsb.Usb.Descriptors
import PureUsb.Usb.Lemmas.Configuration
import PureUsb.Usb.DeviceTable

/-!
This module contains what `usb_parse_config` decodes: it remembers each interface, whatever was in the tables
before.
-/

open Stateful

theorem Bytes.range_congr {m n i i' len : Nat} {b : Bytes m} {b' : Bytes n}
    (h : ∀ k < len, b.byte (i + k) = b'.byte (i' + k))
    : b.range i len = b'.range i' len := by
  unfold range
  congr 1
  funext k
  exact h k k.isLt

section

variable {buffer : Bytes 512} {c c' : Bytes 1002} {i j n e o : Nat}

theorem Holds.range {l : List Byte} (h : Holds buffer i l) : buffer.range i l.length = l := by
  apply List.ext_getElem
  . simp
  . intro k hk hk'
    rw [Bytes.getElem_range]
    exact h.byte (List.getElem?_eq_getElem hk')

/-! ### Memory -/

theorem range_storeEndpoint (hn : n < 8) (he : e < 16) {l : List Byte} (hl : l.length = 7)
    (hlen : (buffer.byte i).toNat = 7) (hd : Holds buffer i l)
    : (storeEndpoint c buffer i n e).range (epOffset n e) 7 = l := by
  rw [← hd.range, hl]
  apply Bytes.range_congr
  intro k hk
  have hofs : epOffset n e + k < 1002 := by
    unfold epOffset
    omega
  unfold storeEndpoint
  rw [hlen, Bytes.byte_write _ _ (by simpa using hk) hofs, Bytes.getElem_range]

end

namespace InterfaceEntry

/-- The entry is stored as `if_desc[j]`. -/
structure StoredAt (e : InterfaceEntry) (c : Bytes 1002) (j : Nat) : Prop where
  desc : c.range (ifOffset j) 9 = e.desc.bytes
  noOfEp : (c.byte (ifOffset j + 9)).toNat = e.endpoints.length
  numAltsetting : c.byte (ifOffset j + 10) = BitVec.ofNat 8 e.numAltsetting
  fits : e.endpoints.length ≤ 16
  epDesc : ∀ {k l}, e.endpoints[k]? = some l → c.range (epOffset j k) 7 = l

/-- The entries are stored in `if_desc`, the last one first. -/
def AllStored (c : Bytes 1002) : List InterfaceEntry → Prop
  | [] => True
  | e :: es => e.StoredAt c es.length ∧ AllStored c es

def lastNumber : List InterfaceEntry → Int
  | [] => -1
  | e :: _ => e.desc.bInterfaceNumber.toNat

section

variable {e : InterfaceEntry} {es : List InterfaceEntry} {c c' : Bytes 1002} {j : Nat}

theorem StoredAt.congr (h : e.StoredAt c j)
    (hsame : ∀ o, ifOffset j ≤ o → o < ifOffset (j + 1) → c'.byte o = c.byte o)
    : e.StoredAt c' j := by
  have hnext := ifOffset_succ j
  refine ⟨?_, ?_, ?_, h.fits, ?_⟩
  . rw [← h.desc]
    exact Bytes.range_congr fun k hk => hsame _ (by omega) (by omega)
  . rw [hsame _ (by omega) (by omega)]
    exact h.noOfEp
  . rw [hsame _ (by omega) (by omega)]
    exact h.numAltsetting
  . intro k l hl
    have hk := (List.getElem?_eq_some_iff.mp hl).1
    obtain ⟨hlo, hhi⟩ := epOffset_bounds (j := j) (Nat.lt_of_lt_of_le hk h.fits)
    rw [← h.epDesc hl]
    exact Bytes.range_congr fun o ho => hsame _ (by omega) (by omega)

theorem storedAt_storeInterface {buffer : Bytes 512} {i n : Nat} {d : InterfaceDescriptor}
    (hfits : NewFits buffer i n) (hlen : (buffer.byte i).toNat = 9) (hd : Holds buffer i d.bytes)
    : StoredAt ⟨d, 1, []⟩ (storeInterface c buffer i n) n := by
  have hbyte := byte_storeInterface_of_fits (c := c) hfits
  rw [hlen] at hbyte
  refine ⟨?_, ?_, ?_, Nat.zero_le _, nofun⟩
  . rw [← hd.range]
    apply Bytes.range_congr
    intro k hk
    have hk9 : k < 9 := hk
    rw [hbyte, if_neg (by omega), if_neg (by omega), if_pos (by omega), Nat.add_sub_cancel_left]
  . rw [hbyte, if_neg (by omega), if_pos rfl]
    rfl
  . rw [hbyte, if_pos rfl]
    rfl

theorem StoredAt.alternate (h : e.StoredAt c j)
    (hcount : c'.byte (ifOffset j + 10) = c.byte (ifOffset j + 10) + 1)
    (hsame : ∀ o, o ≠ ifOffset j + 10 → c'.byte o = c.byte o)
    : e.alternate.StoredAt c' j := by
  refine ⟨?_, ?_, ?_, h.fits, ?_⟩
  . refine Eq.trans (Bytes.range_congr fun k hk => ?_) h.desc
    exact hsame _ (by omega)
  . rw [hsame _ (by omega)]
    exact h.noOfEp
  . rw [hcount, h.numAltsetting]
    exact (BitVec.ofNat_add ..).symm
  . intro k l hl
    have hk := (List.getElem?_eq_some_iff.mp hl).1
    obtain ⟨hlo, -⟩ := epOffset_bounds (j := j) (Nat.lt_of_lt_of_le hk h.fits)
    rw [← h.epDesc hl]
    exact Bytes.range_congr fun o ho => hsame _ (by omega)

theorem StoredAt.append (h : e.StoredAt c j) (hlt : e.endpoints.length < 16) {l : List Byte}
    (hcount : c'.byte (ifOffset j + 9) = c.byte (ifOffset j + 9) + 1)
    (hsame : ∀ o < epOffset j e.endpoints.length, o ≠ ifOffset j + 9 → c'.byte o = c.byte o)
    (hep : c'.range (epOffset j e.endpoints.length) 7 = l)
    : (e.append [l]).StoredAt c' j := by
  obtain ⟨hlo, -⟩ := epOffset_bounds (j := j) hlt
  have hlength : (e.append [l]).endpoints.length = e.endpoints.length + 1 := List.length_append
  refine ⟨?_, ?_, ?_, ?_, ?_⟩
  . refine Eq.trans (Bytes.range_congr fun k hk => ?_) h.desc
    exact hsame _ (by omega) (by omega)
  . rw [hcount, hlength]
    exact toNat_succ h.noOfEp (by omega)
  . rw [hsame _ (by omega) (by omega)]
    exact h.numAltsetting
  . rw [hlength]
    exact hlt
  . intro k l' hl
    rcases getElem?_concat_cases hl with hl | ⟨rfl, rfl⟩
    . have hk := (List.getElem?_eq_some_iff.mp hl).1
      have hbefore : epOffset j k + 7 ≤ epOffset j e.endpoints.length := by
        unfold epOffset
        omega
      obtain ⟨hstart, -⟩ := epOffset_bounds (j := j) (Nat.lt_trans hk hlt)
      rw [← h.epDesc hl]
      exact Bytes.range_congr fun o ho => hsame _ (by omega) (by omega)
    . exact hep

theorem AllStored.congr (h : AllStored c es)
    (hsame : ∀ o, 10 ≤ o → o < ifOffset es.length → c'.byte o = c.byte o)
    : AllStored c' es := by
  induction es with
  | nil => trivial
  | cons e es ih =>
    have hnext := ifOffset_succ es.length
    have hfirst : 10 ≤ ifOffset es.length := Nat.le_add_right ..
    rw [List.length_cons] at hsame
    constructor
    . exact h.1.congr fun o hle hlt => hsame o (by omega) hlt
    . exact ih h.2 fun o hle hlt => hsame o hle (by omega)

theorem AllStored.get (h : AllStored c es) {j : Nat} {e : InterfaceEntry} (hj : es.reverse[j]? = some e)
    : e.StoredAt c j := by
  induction es with
  | nil => simp at hj
  | cons e' es ih =>
    rw [List.reverse_cons] at hj
    rcases getElem?_concat_cases hj with hj | ⟨rfl, rfl⟩
    . exact ih h.2 hj
    . rw [List.length_reverse]
      exact h.1

theorem lastNumber_ne {b : Byte} (h : ∀ e ∈ es.head?, e.desc.bInterfaceNumber ≠ b)
    : (b.toNat : Int) ≠ lastNumber es := by
  cases es with
  | nil =>
    show (b.toNat : Int) ≠ -1
    omega
  | cons e es =>
    intro heq
    exact h e rfl (BitVec.eq_of_toNat_eq (Int.ofNat_inj.mp heq.symm))

end

end InterfaceEntry

/-! ### The loop -/

/-- The parser has stored the configuration descriptor and the entries. -/
structure Remembers (buffer : Bytes 512) (es : List InterfaceEntry) (s : ParseState (Bytes 1002)) : Prop where
  desc : ∀ o < 9, s.mem.byte o = descField buffer 0 o
  noOfIf : (s.mem.byte 9).toNat = es.length
  le : es.length ≤ 8
  ifno : s.ifno = es.length - 1
  currIfNum : s.currIfNum = InterfaceEntry.lastNumber es
  stored : InterfaceEntry.AllStored s.mem es

/-- One round gets over the next `len` bytes, and then the entries are stored. -/
def StepsOver (buffer : Bytes 512) (s : ParseState (Bytes 1002)) (len : Nat) (es : List InterfaceEntry)
    : Prop :=
  ∃ s', parseStep strictMem buffer s = .ok (.inl s') ∧ s'.index = s.index + len ∧ Remembers buffer es s'

section

variable {buffer : Bytes 512} {es es' : List InterfaceEntry} {e : InterfaceEntry}
variable {s s' : ParseState (Bytes 1002)}

theorem parseStep_interface (h : Remembers buffer es s) (hin : s.index + 1 < totalLength buffer)
    (h512 : s.index + 1 < 512) (htype : buffer.byte (s.index + 1) = usbDtInterface)
    (hs : parseInterface strictMem buffer s = .ok s') (hindex : s'.index = s.index)
    : parseStep strictMem buffer s = .ok (.inl { s' with index := s.index + (buffer.byte s.index).toNat }) := by
  rw [parseStep_of_desc h.desc, if_pos hin, rd_eq, if_pos h512]
  dsimp only [Bind.bind, Except.bind]
  rw [if_pos htype, hs]
  dsimp only
  rw [hindex, rd_eq, if_pos (by omega)]
  rfl

theorem parseStep_endpoint (h : Remembers buffer es s) (hin : s.index + 1 < totalLength buffer)
    (h512 : s.index + 1 < 512) (htype : buffer.byte (s.index + 1) = usbDtEndpoint)
    (hs : parseEndpoint strictMem buffer s = .ok s') (hindex : s'.index = s.index)
    : parseStep strictMem buffer s = .ok (.inl { s' with index := s.index + (buffer.byte s.index).toNat }) := by
  have hif : buffer.byte (s.index + 1) ≠ usbDtInterface := by
    rw [htype]
    decide
  rw [parseStep_of_desc h.desc, if_pos hin, rd_eq, if_pos h512]
  dsimp only [Bind.bind, Except.bind]
  rw [if_neg hif, if_pos htype, hs]
  dsimp only
  rw [hindex, rd_eq, if_pos (by omega)]
  rfl

theorem Remembers.other (h : Remembers buffer es s) {d : ClassDescriptor} (hd : Holds buffer s.index d.bytes)
    (h512 : totalLength buffer ≤ 512)
    : StepsOver buffer s d.bytes.length es := by
  have hle := hd.le
  have htwo : 2 ≤ d.bytes.length := Nat.le_add_left ..
  have hlen : (buffer.byte s.index).toNat = d.bytes.length := by
    rw [← length_classBytes]
    exact congrArg _ (hd.byte (j := 0) rfl)
  have htype : buffer.byte (s.index + 1) = d.bDescriptorType := hd.byte (j := 1) rfl
  have hne : buffer.byte s.index ≠ 0 := by
    intro hzero
    rw [hzero] at hlen
    have : (0 : Byte).toNat = 0 := rfl
    omega
  refine ⟨{ s with index := s.index + d.bytes.length }, ?_, rfl, h.desc, h.noOfIf, h.le, h.ifno, h.currIfNum,
    h.stored⟩
  rw [parseStep_of_desc h.desc, if_pos (by omega), rd_eq, if_pos (by omega)]
  dsimp only [Bind.bind, Except.bind]
  rw [htype, if_neg d.type_ne_interface, if_neg d.type_ne_endpoint, rd_eq, if_pos (by omega)]
  dsimp only
  rw [if_neg hne, rdRange_eq buffer (by omega), hlen, if_pos (by omega)]
  rfl

theorem Remembers.new (h : Remembers buffer es s) {d : InterfaceDescriptor} (hd : Holds buffer s.index d.bytes)
    (h512 : totalLength buffer ≤ 512) (hlt : es.length < 8)
    (hnumber : ∀ e ∈ es.head?, e.desc.bInterfaceNumber ≠ d.bInterfaceNumber)
    : StepsOver buffer s d.bytes.length (⟨d, 1, []⟩ :: es) := by
  have hle : s.index + 9 ≤ totalLength buffer := hd.le
  have hlen : (buffer.byte s.index).toNat = 9 := congrArg _ (hd.byte (j := 0) rfl)
  have htype : buffer.byte (s.index + 1) = usbDtInterface := hd.byte (j := 1) rfl
  have hnum : ((buffer.byte (s.index + 2)).toNat : Int) ≠ s.currIfNum := by
    rw [h.currIfNum, hd.byte (j := 2) rfl]
    exact InterfaceEntry.lastNumber_ne hnumber
  have hfits : NewFits buffer s.index es.length := ⟨hlt, by omega, by omega⟩
  have hparse := parseInterface_new (by omega) h.noOfIf hnum
  rw [if_pos hfits] at hparse
  have hbyte := byte_storeInterface_of_fits (c := s.mem) hfits
  rw [hlen] at hbyte
  have hge : 10 ≤ ifOffset es.length := Nat.le_add_right ..
  refine ⟨_, parseStep_interface h (by omega) (by omega) htype hparse rfl, ?_, ?_⟩
  . rw [hlen]
    rfl
  refine ⟨?_, ?_, hlt, ?_, ?_, ?_, ?_⟩
  . intro o ho
    dsimp only
    rw [hbyte, if_neg (by omega), if_neg (by omega), if_neg (by omega), if_neg (by omega), h.desc o ho]
  . dsimp only
    rw [hbyte, if_neg (by omega), if_neg (by omega), if_neg (by omega), if_pos rfl]
    exact toNat_succ h.noOfIf (by omega)
  . simp
  . dsimp only
    rw [hbyte, if_neg (by omega), if_neg (by omega), if_pos (by omega), Nat.add_sub_cancel_left,
      hd.byte (j := 2) rfl]
    rfl
  . exact InterfaceEntry.storedAt_storeInterface hfits hlen hd
  . apply h.stored.congr
    intro o hle hlt
    dsimp only
    rw [hbyte, if_neg (by omega), if_neg (by omega), if_neg (by omega), if_neg (by omega)]

theorem Remembers.alternate (h : Remembers buffer (e :: es) s) {d : InterfaceDescriptor}
    (hd : Holds buffer s.index d.bytes) (h512 : totalLength buffer ≤ 512)
    (hnumber : d.bInterfaceNumber = e.desc.bInterfaceNumber)
    : StepsOver buffer s d.bytes.length (e.alternate :: es) := by
  have hle : s.index + 9 ≤ totalLength buffer := hd.le
  have hlen : (buffer.byte s.index).toNat = 9 := congrArg _ (hd.byte (j := 0) rfl)
  have htype : buffer.byte (s.index + 1) = usbDtInterface := hd.byte (j := 1) rfl
  have hnum : ((buffer.byte (s.index + 2)).toNat : Int) = s.currIfNum := by
    rw [h.currIfNum, hd.byte (j := 2) rfl, hnumber]
    rfl
  have hifno : s.ifno = es.length := by
    rw [h.ifno, List.length_cons]
    omega
  have hn : es.length < 8 := h.le
  have hofs : ifOffset es.length + 10 < 1002 := by
    unfold ifOffset
    omega
  have hge : 10 ≤ ifOffset es.length := Nat.le_add_right ..
  have hparse := parseInterface_alt (by omega) hifno hn hnum
  generalize hc : s.mem.write (ifOffset es.length + 10) [s.mem.byte (ifOffset es.length + 10) + 1] = c at hparse
  have hbyte : ∀ o, c.byte o = if o = ifOffset es.length + 10 then s.mem.byte (ifOffset es.length + 10) + 1
      else s.mem.byte o := by
    intro o
    rw [← hc, Bytes.byte_write_singleton _ _ hofs]
  refine ⟨_, parseStep_interface h (by omega) (by omega) htype hparse rfl, ?_, ?_⟩
  . rw [hlen]
    rfl
  refine ⟨?_, ?_, h.le, h.ifno, h.currIfNum, ?_, ?_⟩
  . intro o ho
    dsimp only
    rw [hbyte, if_neg (by omega), h.desc o ho]
  . dsimp only
    rw [hbyte, if_neg (by omega)]
    exact h.noOfIf
  . apply h.stored.1.alternate
    . dsimp only
      rw [hbyte, if_pos rfl]
    . intro o ho
      dsimp only
      rw [hbyte, if_neg ho]
  . apply h.stored.2.congr
    intro o hle hlt
    dsimp only
    rw [hbyte, if_neg (by omega)]

theorem Remembers.endpoint (h : Remembers buffer (e :: es) s) {i : Item} {l : List Byte}
    (hi : i.endpointBytes? = some l) (hd : Holds buffer s.index i.bytes) (h512 : totalLength buffer ≤ 512)
    (hlt : e.endpoints.length < 16)
    : StepsOver buffer s i.bytes.length (e.append [l] :: es) := by
  obtain ⟨bEndpointAddress, bmAttributes, wMaxPacketSize, bInterval⟩ | d := i
  case other => cases hi
  cases hi
  have hle : s.index + 7 ≤ totalLength buffer := hd.le
  have hlen : (buffer.byte s.index).toNat = 7 := congrArg _ (hd.byte (j := 0) rfl)
  have htype : buffer.byte (s.index + 1) = usbDtEndpoint := hd.byte (j := 1) rfl
  have hifno : s.ifno = es.length := by
    rw [h.ifno, List.length_cons]
    omega
  have hn : es.length < 8 := h.le
  have hfits : EndpointFits buffer s.index e.endpoints.length := ⟨hlt, by omega, by omega⟩
  have hparse : parseEndpoint strictMem buffer s = _ :=
    parseEndpoint_some (by omega) hifno hn h.stored.1.noOfEp
  rw [if_pos hfits] at hparse
  generalize hc : storeEndpoint s.mem buffer s.index es.length e.endpoints.length = c at hparse
  have hbyte : ∀ {o},
      o < epOffset es.length e.endpoints.length ∨ epOffset es.length e.endpoints.length + 7 ≤ o →
      c.byte o = if o = ifOffset es.length + 9 then s.mem.byte (ifOffset es.length + 9) + 1
        else s.mem.byte o := by
    intro o ho
    rw [← hc]
    exact byte_storeEndpoint hn hfits ho
  obtain ⟨hlo, hhi⟩ := epOffset_bounds (j := es.length) hlt
  have hge : 10 ≤ ifOffset es.length := Nat.le_add_right ..
  refine ⟨_, parseStep_endpoint h (by omega) (by omega) htype hparse rfl, ?_, ?_⟩
  . rw [hlen]
    rfl
  refine ⟨?_, ?_, h.le, h.ifno, h.currIfNum, ?_, ?_⟩
  . intro o ho
    dsimp only
    rw [hbyte (by omega), if_neg (by omega), h.desc o ho]
  . dsimp only
    rw [hbyte (by omega), if_neg (by omega)]
    exact h.noOfIf
  . apply h.stored.1.append hlt
    . dsimp only
      rw [hbyte (by omega), if_pos rfl]
    . intro o ho hne
      dsimp only
      rw [hbyte (.inl ho), if_neg hne]
    . dsimp only
      rw [← hc]
      exact range_storeEndpoint hn hlt rfl hlen hd
  . apply h.stored.2.congr
    intro o hle hlt
    dsimp only
    rw [hbyte (by omega), if_neg (by omega)]

theorem Remembers.step (h : Remembers buffer es s) {d : Descriptor} (hd : Holds buffer s.index d.bytes)
    (h512 : totalLength buffer ≤ 512) (hstep : InterfaceEntry.step es d = some es')
    : StepsOver buffer s d.bytes.length es' := by
  cases d with
  | interface d =>
    cases es with
    | nil =>
      cases hstep
      exact h.new hd h512 (by decide) nofun
    | cons e es =>
      simp only [InterfaceEntry.step] at hstep
      split at hstep
      . next hnumber =>
        cases hstep
        exact h.alternate hd h512 hnumber
      . next hnumber =>
        split at hstep
        . next hlt =>
          cases hstep
          apply h.new hd h512 hlt
          rintro _ ⟨⟩
          exact Ne.symm hnumber
        . cases hstep
  | item i =>
    cases hi : i.endpointBytes? with
    | none =>
      simp only [InterfaceEntry.step, hi] at hstep
      cases hstep
      cases i with
      | endpoint => cases hi
      | other d => exact h.other hd h512
    | some l =>
      cases es with
      | nil =>
        simp only [InterfaceEntry.step, hi] at hstep
        cases hstep
      | cons e es =>
        simp only [InterfaceEntry.step, hi] at hstep
        split at hstep
        . next hlt =>
          cases hstep
          exact h.endpoint hi hd h512 hlt
        . cases hstep

theorem Remembers.steps (h : Remembers buffer es s) {ds : List Descriptor}
    (hd : Holds buffer s.index (ds.flatMap Descriptor.bytes)) (h512 : totalLength buffer ≤ 512)
    (hsteps : InterfaceEntry.steps es ds = some es')
    : ∃ s', Goes buffer s s' ∧ s'.index = s.index + (ds.flatMap Descriptor.bytes).length ∧
        Remembers buffer es' s' := by
  induction ds generalizing es s with
  | nil =>
    cases hsteps
    exact ⟨s, .refl _ _, rfl, h⟩
  | cons d ds ih =>
    rw [List.flatMap_cons] at hd ⊢
    rw [InterfaceEntry.steps_cons] at hsteps
    obtain ⟨es₁, hstep, hsteps⟩ := Option.bind_eq_some_iff.mp hsteps
    obtain ⟨s₁, hs₁, hindex₁, h₁⟩ := h.step hd.left h512 hstep
    have htwo := d.two_le_length_bytes
    obtain ⟨s', hgoes, hindex, h'⟩ := ih h₁ (hindex₁ ▸ hd.right) hsteps
    refine ⟨s', (Goes.step hs₁ (by omega)).trans hgoes, ?_, h'⟩
    rw [hindex, hindex₁, List.length_append, Nat.add_assoc]

end

/-! ### Configurations -/

def Bytes.StartsWithBytes (buffer : Bytes 512) (l : List Byte) : Prop :=
  ∀ {j b}, l[j]? = some b → buffer.byte j = b

theorem Bytes.startsWithBytes_write (b : Bytes 512) {l : List Byte} (h : l.length ≤ 512)
    : (b.write 0 l).StartsWithBytes l := by
  intro j x hx
  obtain ⟨hj, rfl⟩ := List.getElem?_eq_some_iff.mp hx
  have hbyte : (b.write 0 l).byte (0 + j) = l[j] := Bytes.byte_write b l hj (by omega)
  rwa [Nat.zero_add] at hbyte

/-- What `if_desc[j]` holds of an interface. -/
structure InterfaceDescriptors.DecodedAt (i : InterfaceDescriptors) (config : Bytes 1002) (j : Nat) : Prop where
  desc : config.range (ifOffset j) 9 = (i.first.desc i.bInterfaceNumber).bytes
  numAltsetting : (config.byte (ifOffset j + 10)).toNat = i.settings.length
  noOfEp : (config.byte (ifOffset j + 9)).toNat = i.endpoints.length
  epDesc : (List.range i.endpoints.length).map (fun e => config.range (epOffset j e) 7) = i.endpoints
  /-- the first setting, if it announces as many endpoints as it has -/
  first : i.first.bNumEndpoints.toNat = i.first.endpoints.length →
    (List.range (endpointCount config j)).map (fun e => config.range (epOffset j e) 7) = i.first.endpoints

/-- What `dev->config` holds of a configuration. -/
structure ConfigDescriptors.Decoded (c : ConfigDescriptors) (config : Bytes 1002) : Prop where
  desc : config.range 0 9 = c.header
  noOfIf : (config.byte 9).toNat = c.interfaces.length
  interfaces : ∀ {j : Nat} {i : InterfaceDescriptors}, c.interfaces[j]? = some i → i.DecodedAt config j

theorem mul_length_le_length_flatMap {α β : Type} {l : List α} {f : α → List β} {k : Nat}
    (h : ∀ a ∈ l, k ≤ (f a).length)
    : l.length * k ≤ (l.flatMap f).length := by
  induction l with
  | nil => simp
  | cons a l ih =>
    have ha := h a List.mem_cons_self
    have hl := ih fun b hb => h b (List.mem_cons_of_mem a hb)
    rw [List.length_cons, List.flatMap_cons, List.length_append, Nat.succ_mul]
    omega

section

variable {c : ConfigDescriptors} {i : InterfaceDescriptors} {config : Bytes 1002} {j : Nat}

theorem ConfigDescriptors.settings_lt (hi : i ∈ c.interfaces) : i.settings.length < 256 := by
  have hbytes : c.descriptors.length * 2 ≤ (c.descriptors.flatMap Descriptor.bytes).length :=
    mul_length_le_length_flatMap fun d _ => d.two_le_length_bytes
  have hsettings : i.settings.length * 1 ≤ i.descriptors.length :=
    mul_length_le_length_flatMap fun _ _ => Nat.le_add_left ..
  have hinterface : i.descriptors.length ≤ (c.interfaces.flatMap InterfaceDescriptors.descriptors).length := by
    rw [List.flatMap_def]
    exact (List.sublist_flatten_of_mem (List.mem_map_of_mem hi)).length_le
  have hle : 9 + (c.descriptors.flatMap Descriptor.bytes).length ≤ 512 := c.size_le
  have hall : (c.interfaces.flatMap InterfaceDescriptors.descriptors).length ≤ c.descriptors.length := by
    unfold ConfigDescriptors.descriptors
    rw [List.length_append]
    exact Nat.le_add_left ..
  omega

theorem InterfaceEntry.StoredAt.decodedAt (h : i.entry.StoredAt config j) (hi : i ∈ c.interfaces)
    : i.DecodedAt config j := by
  have hepDesc : ∀ {n : Nat} {l : List (List Byte)}, n = l.length →
      (∀ {k : Nat} {bytes : List Byte}, l[k]? = some bytes → i.endpoints[k]? = some bytes) →
      (List.range n).map (fun e => config.range (epOffset j e) 7) = l := by
    rintro _ l rfl hl
    apply List.ext_getElem
    . simp
    . intro k hk hk'
      rw [List.getElem_map, List.getElem_range]
      exact h.epDesc (hl (List.getElem?_eq_getElem hk'))
  refine ⟨h.desc, ?_, h.noOfEp, hepDesc rfl id, ?_⟩
  . rw [h.numAltsetting, BitVec.toNat_ofNat]
    exact Nat.mod_eq_of_lt (c.settings_lt hi)
  . intro hannounced
    apply hepDesc
    . rw [← hannounced]
      have hbyte := congrArg (fun l : List Byte => l[4]?) h.desc
      rw [List.getElem?_eq_getElem (by simp), Bytes.getElem_range] at hbyte
      exact congrArg BitVec.toNat (Option.some.inj hbyte)
    . intro k bytes hk
      have hlt := (List.getElem?_eq_some_iff.mp hk).1
      show (i.first.endpoints ++ i.alternates.flatMap SettingDescriptors.endpoints)[k]? = _
      rw [List.getElem?_append_left hlt, hk]

end

/-! ### `usb_parse_config` -/

section

variable {buffer : Bytes 512} {c : ConfigDescriptors}

theorem parseHeader_remembers (mem : Bytes 1002) (htype : buffer.byte 1 = usbDtConfig)
    (hlen : (buffer.byte 0).toNat = 9)
    : ∃ s, parseHeader strictMem buffer mem = .ok (some s) ∧ s.index = 9 ∧ Remembers buffer [] s := by
  have hin : (ConfigLoc.desc 0).InBounds := ConfigLoc.inBounds_desc (by decide)
  generalize hc : (mem.write 0 (buffer.range 0 9)).write 9 [0] = c
  have hbyte : ∀ o < 9, c.byte o = descField buffer 0 o := by
    intro o ho
    rw [← hc, Bytes.byte_write_of_lt _ _ ho]
    unfold descField
    rw [hlen, if_pos ho]
    have hwritten : (mem.write 0 (buffer.range 0 9)).byte (0 + o) = _ :=
      Bytes.byte_write mem _ (by simpa using ho) (by omega)
    rw [Bytes.getElem_range, Nat.zero_add] at hwritten
    rw [hwritten, Nat.zero_add]
  have hindex : (c.byte 0).toNat = 9 := by
    rw [hbyte 0 (by decide)]
    unfold descField
    rw [hlen, if_pos (by decide), hlen]
  refine ⟨⟨c, 9, -1, -1⟩, ?_, rfl, hbyte, ?_, Nat.zero_le _, rfl, rfl, trivial⟩
  . unfold parseHeader
    rw [rd_eq, if_pos (by decide)]
    dsimp only [Bind.bind, Except.bind]
    rw [if_neg (not_not.mpr htype), rd_eq, if_pos (by decide)]
    dsimp only
    rw [rdRange_eq buffer (by decide), hlen, if_pos (by decide)]
    dsimp only
    rw [strictMem_copy hin (by simp [ConfigLoc.room])]
    dsimp only
    rw [strictMem_st ConfigLoc.inBounds_noOfIf]
    dsimp only
    rw [strictMem_ld hin, ConfigLoc.offset_desc, ConfigLoc.offset_noOfIf, hc]
    show Except.ok (some (ParseState.mk c (c.byte 0).toNat (-1) (-1))) = _
    rw [hindex]
  . dsimp only
    rw [← hc, Bytes.byte_write_singleton _ _ (by decide), if_pos rfl]
    rfl

theorem Bytes.StartsWithBytes.headerField (h : buffer.StartsWithBytes c.bytes) {o : Nat} {b : Byte}
    (hb : c.header[o]? = some b)
    : buffer.byte o = b := by
  have ho := (List.getElem?_eq_some_iff.mp hb).1
  apply h
  unfold ConfigDescriptors.bytes
  rw [List.getElem?_append_left ho, hb]

theorem Bytes.StartsWithBytes.total (h : buffer.StartsWithBytes c.bytes)
    : totalLength buffer = c.totalLength := by
  have hle := c.totalLength_le
  apply totalLength_of_header (by omega) (congrArg _ (h.headerField (o := 0) rfl))
  . exact h.headerField (o := 2) rfl
  . exact h.headerField (o := 3) rfl

theorem Bytes.StartsWithBytes.decoded (h : buffer.StartsWithBytes c.bytes) (mem : Bytes 1002)
    : ∃ config, parseConfig strictMem buffer mem = .ok (1, config) ∧ c.Decoded config := by
  have hlen : (buffer.byte 0).toNat = 9 := congrArg _ (h.headerField (o := 0) rfl)
  have htype : buffer.byte 1 = usbDtConfig := h.headerField (o := 1) rfl
  have htotal := h.total
  have h512 : totalLength buffer ≤ 512 := htotal ▸ c.totalLength_le
  obtain ⟨s, hheader, hindex, hs⟩ := parseHeader_remembers mem htype hlen
  have hholds : Holds buffer s.index (c.descriptors.flatMap Descriptor.bytes) := by
    rw [hindex]
    have hall : Holds buffer 0 c.bytes := by
      constructor
      . intro j b hb
        rw [Nat.zero_add]
        exact h hb
      . rw [Nat.zero_add, htotal]
        exact Nat.le_of_eq c.length_bytes
    exact hall.right
  obtain ⟨s', hgoes, hindex', hs'⟩ := hs.steps hholds h512 c.steps_descriptors
  have hend : s'.index = totalLength buffer := by
    rw [htotal, hindex', hindex]
    rfl
  have hstep : parseStep strictMem buffer s' = .ok (.inr s'.mem) := by
    rw [parseStep_of_desc hs'.desc, if_neg (by omega)]
  refine ⟨s'.mem, ?_, ?_, ?_, ?_⟩
  . unfold parseConfig
    rw [hheader, Except.ok_bind]
    dsimp only
    rw [hgoes.parseLoop_eq (by omega) hstep]
    rfl
  . apply List.ext_getElem
    . simp [ConfigDescriptors.header]
    . intro o ho ho'
      rw [Bytes.length_range] at ho
      rw [Bytes.getElem_range, Nat.zero_add, hs'.desc o ho, ← h.headerField (List.getElem?_eq_getElem ho')]
      unfold descField
      rw [hlen, if_pos ho, Nat.zero_add]
  . simpa using hs'.noOfIf
  . intro j i hi
    apply InterfaceEntry.StoredAt.decodedAt _ (List.mem_of_getElem? hi)
    apply hs'.stored.get
    rw [List.reverse_reverse, List.getElem?_map, hi]
    rfl

end

/--
`usb_parse_config` returns 1 for every well-formed configuration and stores what it decoded in the slot of the
device, whatever was in the slot and is in the buffer behind the configuration. Nothing else changes. The world
only has to take notice of the call.
-/
theorem usbParseConfig_decoded {σ : Type} {w : HcdWorld σ} {buffer : Bytes 512} {c : ConfigDescriptors}
    {dev : Fin 32} {cfgno : Int} {u : Usb} {s t : σ} {r : Except Stop (Int × Usb)}
    (hw : ∀ s e t, ¬w (.parsing dev buffer) s (.error e) t) (h : buffer.StartsWithBytes c.bytes)
    (hr : (usbParseConfig dev buffer cfgno).Run w u s r t)
    : ∃ config, c.Decoded config ∧
        r = .ok (1, u.setDev dev { u.usbDev dev with configno := cfgno, config }) := by
  obtain ⟨config, hparse, hconfig⟩ := h.decoded (u.usbDev dev).config
  have hwp : wp w (usbParseConfig dev buffer cfgno)
      (fun ret v _ => ret = 1 ∧ v = u.setDev dev { u.usbDev dev with configno := cfgno, config })
      (fun _ _ => False) u s := by
    apply wp_usbParseConfig_ok hparse
    exact fun t => ⟨fun _ _ => ⟨rfl, rfl, rfl⟩, fun e he => hw s e t he⟩
  refine ⟨config, hconfig, ?_⟩
  cases r with
  | ok a =>
    obtain ⟨ret, v⟩ := a
    obtain ⟨rfl, rfl⟩ := wp_run hwp hr
    rfl
  | error e => exact absurd (wp_run_error hwp hr) id

/-- A camera, which has a second setting with an endpoint for its pictures. -/
def cameraConfig : ConfigDescriptors where
  bNumInterfaces := 2
  bConfigurationValue := 1
  iConfiguration := 0
  bmAttributes := 0x80
  bMaxPower := 250
  classes := [⟨0x0b, [0, 2, 0x0e, 3, 0, 0], by decide, by decide, by decide⟩]
  interfaces :=
    [⟨0, ⟨0, 1, 0x0e, 1, 0, 0,
        [.other ⟨0x24, [1, 0, 1], by decide, by decide, by decide⟩, .endpoint 0x83 3 16 6]⟩, []⟩,
      ⟨1, ⟨0, 0, 0x0e, 2, 0, 0, []⟩, [⟨1, 1, 0x0e, 2, 0, 0, [.endpoint 0x81 5 1024 1]⟩]⟩]
  numbers := by
    intro j i i' hi hi'
    cases j with
    | zero =>
      cases hi
      cases hi'
      decide
    | succ j => simp at hi'
  interfaces_le := by decide
  endpoints_le := by decide
  size_le := by decide

theorem usbParseConfig_decoded_camera
    : ∃ v, (usbParseConfig 0 (Bytes.zero.write 0 cameraConfig.bytes) 0).Run
          (scriptWorld 0 fun _ s => (none, s)) bootUsb () (.ok (1, v)) () ∧
        cameraConfig.Decoded (v.usbDev 0).config := by
  have hr := run_exec (Prog.ofHandler_serves (scriptHandler 0 fun _ s => (none, s)))
    (usbParseConfig 0 (Bytes.zero.write 0 cameraConfig.bytes) 0) bootUsb ()
  have hbuffer : (Bytes.zero.write 0 cameraConfig.bytes).StartsWithBytes cameraConfig.bytes :=
    Bytes.startsWithBytes_write _ (by decide)
  obtain ⟨config, hconfig, hend⟩ := usbParseConfig_decoded (fun _ _ _ => nofun) hbuffer hr
  rw [hend] at hr
  refine ⟨_, hr, ?_⟩
  rw [Usb.setDev_same]
  exact hconfig
