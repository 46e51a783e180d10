import PureUsb.Usb.Configuration
import PureUsb.Usb.ConfigBounds

/-!
This module contains what `usb_parse_config` stores for a well-formed configuration.
-/

theorem getElem?_concat_cases {α : Type} {l : List α} {a x : α} {j : Nat} (h : (l ++ [a])[j]? = some x)
    : l[j]? = some x ∨ j = l.length ∧ a = x := by
  have hj := (List.getElem?_eq_some_iff.mp h).1
  rw [List.length_append, List.length_singleton] at hj
  rcases Nat.lt_or_eq_of_le (Nat.le_of_lt_succ hj) with hlt | rfl
  . rw [List.getElem?_append_left hlt] at h
    exact .inl h
  . rw [List.getElem?_concat_length] at h
    exact .inr ⟨rfl, Option.some.inj h⟩

/-- The bytes `l` stand in the buffer from offset `i` on, in front of the end of the configuration. -/
structure Holds (buffer : Bytes 512) (i : Nat) (l : List Byte) : Prop where
  byte : ∀ {j b}, l[j]? = some b → buffer.byte (i + j) = b
  le : i + l.length ≤ totalLength buffer

section

variable {buffer : Bytes 512} {i : Nat} {l l' : List Byte}

theorem Holds.left (h : Holds buffer i (l ++ l')) : Holds buffer i l := by
  constructor
  . intro j b hb
    obtain ⟨hj, -⟩ := List.getElem?_eq_some_iff.mp hb
    apply h.byte
    rw [List.getElem?_append_left hj, hb]
  . have := h.le
    rw [List.length_append] at this
    omega

theorem Holds.right (h : Holds buffer i (l ++ l')) : Holds buffer (i + l.length) l' := by
  constructor
  . intro j b hb
    rw [Nat.add_assoc]
    apply h.byte
    rw [List.getElem?_append_right (Nat.le_add_right ..), Nat.add_sub_cancel_left, hb]
  . have := h.le
    rwa [List.length_append, ← Nat.add_assoc] at this

theorem Holds.field (h : Holds buffer i l) {len o : Nat} {b : Byte} (hlen : (buffer.byte i).toNat = len)
    (ho : o < len) (hb : l[o]? = some b)
    : descField buffer i o = b := by
  unfold descField
  rw [hlen, if_pos ho, h.byte hb]

end

/-- The loop comes from `s` to `s'`, in no more rounds than there are bytes between them. -/
def Goes (buffer : Bytes 512) (s s' : ParseState (Bytes 1002)) : Prop :=
  ∃ n, s.index + n ≤ s'.index ∧
    ∀ fuel, parseLoop strictMem buffer (fuel + n) s = parseLoop strictMem buffer fuel s'

theorem Goes.refl (buffer : Bytes 512) (s : ParseState (Bytes 1002)) : Goes buffer s s :=
  ⟨0, Nat.le_refl _, fun _ => rfl⟩

theorem Goes.trans {buffer : Bytes 512} {s s' s'' : ParseState (Bytes 1002)} (h : Goes buffer s s')
    (h' : Goes buffer s' s'')
    : Goes buffer s s'' := by
  obtain ⟨n, hn, hloop⟩ := h
  obtain ⟨n', hn', hloop'⟩ := h'
  refine ⟨n' + n, by omega, fun fuel => ?_⟩
  rw [← Nat.add_assoc, hloop, hloop']

theorem Goes.step {buffer : Bytes 512} {s s' : ParseState (Bytes 1002)}
    (h : parseStep strictMem buffer s = .ok (.inl s')) (hlt : s.index < s'.index)
    : Goes buffer s s' := by
  refine ⟨1, hlt, fun fuel => ?_⟩
  conv_lhs => unfold parseLoop
  rw [h]
  rfl

theorem Goes.parseLoop_eq {buffer : Bytes 512} {s s' : ParseState (Bytes 1002)} {mem : Bytes 1002}
    (h : Goes buffer s s') (hindex : s'.index ≤ 512)
    (hend : parseStep strictMem buffer s' = .ok (.inr mem))
    : parseLoop strictMem buffer parseFuel s = .ok mem := by
  obtain ⟨n, hn, hloop⟩ := h
  have hfuel : parseFuel = 65536 - n + 1 + n := by
    unfold parseFuel
    omega
  rw [hfuel, hloop]
  unfold parseLoop
  rw [hend]
  rfl

/--
The parser has counted `t` and stored the endpoints `eps`, which are listed by interface.
-/
structure Tracks (buffer : Bytes 512) (t : Tally) (eps : List (List EndpointDescriptor))
    (s : ParseState (Bytes 1002)) : Prop where
  counts : Counts buffer t s
  length : eps.length = t.announced.length
  last : ∀ {past cur}, eps = past ++ [cur] → cur.length = t.endpoints
  le : ∀ l ∈ eps, l.length ≤ 16
  stored : ∀ {j l}, eps[j]? = some l → ∀ {e ep}, l[e]? = some ep → endpointAt s.mem j e = ep

/-- The loop gets over the next `len` bytes, and then it has counted `t` and stored `eps`. -/
def Passes (buffer : Bytes 512) (s : ParseState (Bytes 1002)) (len : Nat) (t : Tally)
    (eps : List (List EndpointDescriptor)) : Prop :=
  ∃ s', Goes buffer s s' ∧ s'.index = s.index + len ∧ Tracks buffer t eps s'

theorem Goes.passes {buffer : Bytes 512} {s s' : ParseState (Bytes 1002)} {len len' : Nat} {t : Tally}
    {eps : List (List EndpointDescriptor)} (h : Goes buffer s s') (hindex : s'.index = s.index + len)
    (h' : Passes buffer s' len' t eps)
    : Passes buffer s (len + len') t eps := by
  obtain ⟨s'', hgoes, hindex', htracks⟩ := h'
  refine ⟨s'', h.trans hgoes, ?_, htracks⟩
  rw [hindex', hindex, Nat.add_assoc]

theorem Passes.trans {buffer : Bytes 512} {s : ParseState (Bytes 1002)} {len len' : Nat} {t t' : Tally}
    {eps eps' : List (List EndpointDescriptor)} (h : Passes buffer s len t eps)
    (h' : ∀ s', s'.index = s.index + len → Tracks buffer t eps s' → Passes buffer s' len' t' eps')
    : Passes buffer s (len + len') t' eps' := by
  obtain ⟨s', hgoes, hindex, htracks⟩ := h
  exact hgoes.passes hindex (h' s' hindex htracks)

theorem endpointAt_congr {c c' : Bytes 1002} {j e : Nat}
    (h : ∀ o, epOffset j e ≤ o → o < epOffset j e + 7 → c'.byte o = c.byte o)
    : endpointAt c' j e = endpointAt c j e := by
  unfold endpointAt
  rw [h _ (by omega) (by omega), h _ (by omega) (by omega), h _ (by omega) (by omega),
    h _ (by omega) (by omega)]

theorem epOffset_bounds {j e : Nat} (he : e < 16)
    : ifOffset j + 12 ≤ epOffset j e ∧ epOffset j e + 7 ≤ ifOffset (j + 1) := by
  unfold epOffset ifOffset
  omega

section

variable {buffer : Bytes 512} {c : Bytes 1002} {i n e : Nat}

theorem endpointAt_storeEndpoint_of_lt {j k : Nat} (hn : n < 8) (hfits : EndpointFits buffer i e)
    (hk : k < 16) (hlt : j < n ∨ j = n ∧ k < e)
    : endpointAt (storeEndpoint c buffer i n e) j k = endpointAt c j k := by
  have hbefore : epOffset j k + 7 ≤ epOffset n e := by
    unfold epOffset
    omega
  have hcount : epOffset j k + 7 ≤ ifOffset n ∨ ifOffset n + 12 ≤ epOffset j k := by
    unfold epOffset ifOffset
    omega
  apply endpointAt_congr
  intro o hle hlt
  rw [byte_storeEndpoint hn hfits (.inl (by omega)), if_neg (by omega)]

theorem le16_setWidth (x : BitVec 16) : le16 (x.setWidth 8) ((x >>> 8).setWidth 8) = x.toNat := by
  unfold le16
  rw [BitVec.toNat_setWidth, BitVec.toNat_setWidth, BitVec.toNat_ushiftRight, Nat.shiftRight_eq_div_pow]
  omega

theorem endpointAt_storeEndpoint_self {bEndpointAddress bmAttributes bInterval : Byte}
    {wMaxPacketSize : BitVec 16} (hn : n < 8) (he : e < 16)
    (hd : Holds buffer i (Item.endpoint bEndpointAddress bmAttributes wMaxPacketSize bInterval).bytes)
    : endpointAt (storeEndpoint c buffer i n e) n e =
        ⟨bEndpointAddress, bmAttributes, wMaxPacketSize.toNat⟩ := by
  have hlen : (buffer.byte i).toNat = 7 := congrArg _ (hd.byte (j := 0) rfl)
  have hbyte : ∀ k < 7, (storeEndpoint c buffer i n e).byte (epOffset n e + k) = buffer.byte (i + k) := by
    intro k hk
    have hofs : epOffset n e + k < 1002 := by
      unfold epOffset
      omega
    unfold storeEndpoint
    rw [hlen, Bytes.byte_write _ _ (by simpa using hk) hofs, Bytes.getElem_range]
  unfold endpointAt
  rw [hbyte 2 (by decide), hbyte 3 (by decide), hbyte 4 (by decide), hbyte 5 (by decide),
    hd.byte (j := 2) rfl, hd.byte (j := 3) rfl, hd.byte (j := 4) rfl, hd.byte (j := 5) rfl, le16_setWidth]

end

section

variable {buffer : Bytes 512} {t : Tally} {eps : List (List EndpointDescriptor)}
variable {s : ParseState (Bytes 1002)}

theorem Tracks.next (h : Tracks buffer t eps s) {len : Nat} (hlen : (buffer.byte s.index).toNat = len)
    (htwo : 2 ≤ len) (hle : s.index + len ≤ totalLength buffer) (hroom : t.HasRoom buffer s.index)
    {eps' : List (List EndpointDescriptor)}
    (heps : ∀ s', Counts buffer (t.next buffer s.index) s' → s'.mem = t.stored buffer s.index s.mem →
      Tracks buffer (t.next buffer s.index) eps' s')
    : Passes buffer s len (t.next buffer s.index) eps' := by
  have hends : ¬WalkEnds buffer s.index := by
    intro hends
    obtain ⟨-, -, hzero, -⟩ := hends (by omega)
    rw [hzero] at hlen
    have : (0 : Byte).toNat = 0 := rfl
    omega
  obtain ⟨s', hs', hindex, hcounts, hmem⟩ := h.counts.parseStep_next hends hroom
  rw [hlen] at hindex
  exact ⟨s', .step hs' (by omega), hindex, heps s' hcounts hmem⟩

theorem length_classBytes (d : ClassDescriptor)
    : (BitVec.ofNat 8 (d.data.length + 2)).toNat = d.bytes.length := by
  have := d.length_le
  unfold ClassDescriptor.bytes
  rw [BitVec.toNat_ofNat, List.length_cons, List.length_cons]
  omega

theorem Tracks.other (h : Tracks buffer t eps s) {d : ClassDescriptor}
    (hd : Holds buffer s.index d.bytes) (h512 : totalLength buffer ≤ 512)
    : Passes buffer s d.bytes.length t eps := by
  have hle := hd.le
  have hlen : (buffer.byte s.index).toNat = d.bytes.length := by
    rw [← length_classBytes]
    exact congrArg _ (hd.byte (j := 0) rfl)
  have htype : buffer.byte (s.index + 1) = d.bDescriptorType := hd.byte (j := 1) rfl
  have hif : buffer.byte (s.index + 1) ≠ usbDtInterface := htype ▸ d.type_ne_interface
  have hep : buffer.byte (s.index + 1) ≠ usbDtEndpoint := htype ▸ d.type_ne_endpoint
  have hnew : ¬t.IsNew buffer s.index := fun hnew => hif hnew.1
  have htwo : 2 ≤ d.bytes.length := Nat.le_add_left ..
  have hnext : t.next buffer s.index = t := by
    unfold Tally.next
    rw [if_neg hnew, if_neg hep]
  have hstored : t.stored buffer s.index s.mem = s.mem := by
    unfold Tally.stored
    rw [if_neg hnew, if_neg hif, if_neg hep]
  have hroom : t.HasRoom buffer s.index := by
    unfold Tally.HasRoom
    rw [if_neg hif, if_neg hep, hlen]
    omega
  rw [← hnext]
  apply h.next hlen htwo hle hroom
  intro s' hcounts hmem
  rw [hnext] at hcounts ⊢
  rw [hstored] at hmem
  exact ⟨hcounts, h.length, h.last, h.le, hmem ▸ h.stored⟩

theorem Tracks.stored_endpoint {past : List (List EndpointDescriptor)} {cur : List EndpointDescriptor}
    (h : Tracks buffer t (past ++ [cur]) s) {bEndpointAddress bmAttributes bInterval : Byte}
    {wMaxPacketSize : BitVec 16}
    (hd : Holds buffer s.index
      (Item.endpoint bEndpointAddress bmAttributes wMaxPacketSize bInterval).bytes)
    (hn : past.length < 8) (hfits : EndpointFits buffer s.index cur.length) {j : Nat}
    {l : List EndpointDescriptor}
    (hl : (past ++ [cur ++ [⟨bEndpointAddress, bmAttributes, wMaxPacketSize.toNat⟩]])[j]? = some l)
    {e : Nat} {ep : EndpointDescriptor} (hep : l[e]? = some ep)
    : endpointAt (storeEndpoint s.mem buffer s.index past.length cur.length) j e = ep := by
  have hcur := hfits.1
  rcases getElem?_concat_cases hl with hl | ⟨rfl, rfl⟩
  . have hlt := (List.getElem?_eq_some_iff.mp hl).1
    have hl' : (past ++ [cur])[j]? = some l := by
      rw [List.getElem?_append_left hlt, hl]
    have hle16 := h.le l (List.mem_of_getElem? hl')
    have he := (List.getElem?_eq_some_iff.mp hep).1
    rw [endpointAt_storeEndpoint_of_lt hn hfits (by omega) (.inl hlt)]
    exact h.stored hl' hep
  . have hl' : (past ++ [cur])[past.length]? = some cur := List.getElem?_concat_length
    rcases getElem?_concat_cases hep with hep | ⟨rfl, rfl⟩
    . have hlt := (List.getElem?_eq_some_iff.mp hep).1
      rw [endpointAt_storeEndpoint_of_lt hn hfits (by omega) (.inr ⟨rfl, hlt⟩)]
      exact h.stored hl' hep
    . exact endpointAt_storeEndpoint_self hn hcur hd

theorem Tracks.endpoint {past : List (List EndpointDescriptor)} {cur : List EndpointDescriptor}
    (h : Tracks buffer t (past ++ [cur]) s) {bEndpointAddress bmAttributes bInterval : Byte}
    {wMaxPacketSize : BitVec 16}
    (hd : Holds buffer s.index
      (Item.endpoint bEndpointAddress bmAttributes wMaxPacketSize bInterval).bytes)
    (h512 : totalLength buffer ≤ 512) (hcur : cur.length < 16)
    : Passes buffer s (Item.endpoint bEndpointAddress bmAttributes wMaxPacketSize bInterval).bytes.length
        { t with endpoints := t.endpoints + 1 }
        (past ++ [cur ++ [⟨bEndpointAddress, bmAttributes, wMaxPacketSize.toNat⟩]]) := by
  have hle : s.index + 7 ≤ totalLength buffer := hd.le
  have hlen : (buffer.byte s.index).toNat = 7 := congrArg _ (hd.byte (j := 0) rfl)
  have htype : buffer.byte (s.index + 1) = usbDtEndpoint := hd.byte (j := 1) rfl
  have hif : buffer.byte (s.index + 1) ≠ usbDtInterface := by
    rw [htype]
    decide
  have hnew : ¬t.IsNew buffer s.index := fun hnew => hif hnew.1
  have hlast : cur.length = t.endpoints := h.last rfl
  have hannounced : t.announced.length = past.length + 1 := by
    rw [← h.length, List.length_append]
    rfl
  have hn : past.length < 8 := by
    have := h.counts.le
    omega
  have hfits : EndpointFits buffer s.index t.endpoints := ⟨by omega, by omega, by omega⟩
  have hnext : t.next buffer s.index = { t with endpoints := t.endpoints + 1 } := by
    unfold Tally.next
    rw [if_neg hnew, if_pos htype]
  have hstored : t.stored buffer s.index s.mem =
      storeEndpoint s.mem buffer s.index past.length cur.length := by
    unfold Tally.stored
    rw [if_neg hnew, if_neg hif, if_pos htype, hannounced, hlast]
    rfl
  have hroom : t.HasRoom buffer s.index := by
    unfold Tally.HasRoom
    rw [if_neg hif, if_pos htype]
    refine ⟨by omega, ?_, hfits⟩
    rw [← List.length_pos_iff, hannounced]
    apply Nat.succ_pos
  rw [← hnext]
  apply h.next hlen (by decide) hle hroom
  intro s' hcounts hmem
  rw [hnext] at hcounts ⊢
  rw [hstored] at hmem
  refine ⟨hcounts, ?_, ?_, ?_, ?_⟩
  . rw [List.length_append, hannounced]
    rfl
  . intro past' cur' heq
    obtain ⟨-, hcur'⟩ := List.append_inj' heq rfl
    cases hcur'
    rw [List.length_append, hlast]
    rfl
  . intro l hl
    rcases List.mem_append.mp hl with hl | hl
    . exact h.le l (List.mem_append_left _ hl)
    . cases List.mem_singleton.mp hl
      rw [List.length_append]
      exact hcur
  . rw [← hlast] at hfits
    intro j l hl e ep hep
    rw [hmem]
    exact h.stored_endpoint hd hn hfits hl hep

theorem Tracks.new (h : Tracks buffer t eps s) {bInterfaceNumber : Byte} {setting : Setting}
    (hd : Holds buffer s.index (setting.descriptor bInterfaceNumber))
    (h512 : totalLength buffer ≤ 512) (height : eps.length < 8)
    (heps : setting.endpoints.length ≤ 16) (hnumber : (bInterfaceNumber.toNat : Int) ≠ t.number)
    : Passes buffer s (setting.descriptor bInterfaceNumber).length
        ⟨t.announced ++ [setting.endpoints.length], bInterfaceNumber.toNat, 0⟩
        (eps ++ [[]]) := by
  have hle : s.index + 9 ≤ totalLength buffer := hd.le
  have hlen : (buffer.byte s.index).toNat = 9 := congrArg _ (hd.byte (j := 0) rfl)
  have htype : buffer.byte (s.index + 1) = usbDtInterface := hd.byte (j := 1) rfl
  have hnew : t.IsNew buffer s.index := by
    refine ⟨htype, ?_⟩
    rwa [hd.byte (j := 2) rfl]
  have hannounced : (BitVec.ofNat 8 setting.endpoints.length).toNat = setting.endpoints.length := by
    rw [BitVec.toNat_ofNat]
    omega
  have hnext : t.next buffer s.index =
      ⟨t.announced ++ [setting.endpoints.length], bInterfaceNumber.toNat, 0⟩ := by
    unfold Tally.next
    rw [if_pos hnew, hd.field hlen (by decide) rfl, hd.field hlen (by decide) rfl, hannounced]
  have hstored : t.stored buffer s.index s.mem = storeInterface s.mem buffer s.index eps.length := by
    unfold Tally.stored
    rw [if_pos hnew, h.length]
  have hfits : NewFits buffer s.index eps.length := ⟨height, by omega, by omega⟩
  have hroom : t.HasRoom buffer s.index := by
    unfold Tally.HasRoom
    rw [if_pos htype]
    exact ⟨by omega, fun _ => h.length ▸ hfits⟩
  have hfresh : ∀ o, ifOffset eps.length ≤ o → s.mem.byte o = 0 := by
    rw [h.length]
    exact h.counts.fresh
  rw [← hnext]
  apply h.next hlen (by decide) hle hroom
  intro s' hcounts hmem
  rw [hnext] at hcounts ⊢
  rw [hstored] at hmem
  refine ⟨hcounts, ?_, ?_, ?_, ?_⟩
  . rw [List.length_append, List.length_append, h.length]
    rfl
  . intro past cur heq
    obtain ⟨-, hcur⟩ := List.append_inj' heq rfl
    cases hcur
    rfl
  . intro l hl
    rcases List.mem_append.mp hl with hl | hl
    . exact h.le l hl
    . cases List.mem_singleton.mp hl
      apply Nat.zero_le
  . intro j l hl e ep hep
    rw [hmem]
    rcases getElem?_concat_cases hl with hl | ⟨rfl, rfl⟩
    . have hlt := (List.getElem?_eq_some_iff.mp hl).1
      rw [← h.stored hl hep]
      have he := (List.getElem?_eq_some_iff.mp hep).1
      have hle16 := h.le l (List.mem_of_getElem? hl)
      have hbefore : epOffset j e + 7 ≤ ifOffset eps.length := by
        unfold epOffset ifOffset
        omega
      apply endpointAt_congr
      intro o hle hlt
      rw [byte_storeInterface hfits hfresh, if_neg (by omega), if_neg (by omega), if_neg (by omega),
        if_neg]
      have : 22 ≤ epOffset j e := by
        unfold epOffset
        omega
      omega
    . cases hep

theorem Tracks.alternate {past : List (List EndpointDescriptor)} {cur : List EndpointDescriptor}
    (h : Tracks buffer t (past ++ [cur]) s) {bInterfaceNumber : Byte} {setting : Setting}
    (hd : Holds buffer s.index (setting.descriptor bInterfaceNumber))
    (h512 : totalLength buffer ≤ 512) (hnumber : (bInterfaceNumber.toNat : Int) = t.number)
    : Passes buffer s (setting.descriptor bInterfaceNumber).length t (past ++ [cur]) := by
  have hle : s.index + 9 ≤ totalLength buffer := hd.le
  have hlen : (buffer.byte s.index).toNat = 9 := congrArg _ (hd.byte (j := 0) rfl)
  have htype : buffer.byte (s.index + 1) = usbDtInterface := hd.byte (j := 1) rfl
  have hold : ¬t.IsNew buffer s.index := by
    rintro ⟨-, hne⟩
    rw [hd.byte (j := 2) rfl] at hne
    exact hne hnumber
  have hannounced : t.announced.length = past.length + 1 := by
    rw [← h.length, List.length_append]
    rfl
  have hn : past.length < 8 := by
    have := h.counts.le
    omega
  have hnext : t.next buffer s.index = t := by
    unfold Tally.next
    rw [if_neg hold, htype, if_neg (by decide)]
  have hstored : t.stored buffer s.index s.mem =
      s.mem.write (ifOffset past.length + 10) [s.mem.byte (ifOffset past.length + 10) + 1] := by
    unfold Tally.stored
    rw [if_neg hold, if_pos htype, hannounced]
    rfl
  have hroom : t.HasRoom buffer s.index := by
    unfold Tally.HasRoom
    rw [if_pos htype]
    exact ⟨by omega, fun hnew => absurd hnew hold⟩
  rw [← hnext]
  apply h.next hlen (by decide) hle hroom
  intro s' hcounts hmem
  rw [hnext] at hcounts ⊢
  rw [hstored] at hmem
  refine ⟨hcounts, h.length, h.last, h.le, ?_⟩
  intro j l hl e ep hep
  rw [hmem, ← h.stored hl hep]
  have hj := (List.getElem?_eq_some_iff.mp hl).1
  rw [List.length_append, List.length_singleton] at hj
  have he := (List.getElem?_eq_some_iff.mp hep).1
  have hle16 := h.le l (List.mem_of_getElem? hl)
  have hcases := Nat.lt_or_eq_of_le (Nat.le_of_lt_succ hj)
  have hcount : epOffset j e + 7 ≤ ifOffset past.length ∨ ifOffset past.length + 12 ≤ epOffset j e := by
    unfold epOffset ifOffset
    omega
  have hin : ifOffset past.length + 10 < 1002 := by
    unfold ifOffset
    omega
  apply endpointAt_congr
  intro o hle hlt
  rw [Bytes.byte_write_singleton _ _ hin, if_neg (by omega)]

/-!
### Sequences of descriptors
-/

theorem Tracks.items {items : List Item} {past : List (List EndpointDescriptor)}
    {cur : List EndpointDescriptor} (h : Tracks buffer t (past ++ [cur]) s)
    (hd : Holds buffer s.index (items.flatMap Item.bytes)) (h512 : totalLength buffer ≤ 512)
    (hcur : cur.length + (items.filterMap Item.endpoint?).length ≤ 16)
    : Passes buffer s (items.flatMap Item.bytes).length
        { t with endpoints := t.endpoints + (items.filterMap Item.endpoint?).length }
        (past ++ [cur ++ items.filterMap Item.endpoint?]) := by
  induction items generalizing t cur s with
  | nil =>
    rw [List.filterMap_nil, List.append_nil]
    exact ⟨s, .refl _ _, rfl, h⟩
  | cons item items ih =>
    rw [List.flatMap_cons] at hd ⊢
    rw [List.length_append]
    cases item with
    | other d =>
      have hnone : (Item.other d :: items).filterMap Item.endpoint? = items.filterMap Item.endpoint? := rfl
      rw [Item.bytes_other] at hd ⊢
      rw [hnone] at hcur ⊢
      apply (h.other hd.left h512).trans
      intro s' hindex h
      exact ih h (hindex ▸ hd.right) hcur
    | endpoint bEndpointAddress bmAttributes wMaxPacketSize bInterval =>
      have hcons : (Item.endpoint bEndpointAddress bmAttributes wMaxPacketSize bInterval :: items).filterMap
            Item.endpoint? =
          [⟨bEndpointAddress, bmAttributes, wMaxPacketSize.toNat⟩] ++ items.filterMap Item.endpoint? := rfl
      rw [hcons, List.length_append, ← Nat.add_assoc] at hcur
      rw [hcons, List.length_append, ← List.append_assoc, ← Nat.add_assoc]
      have hlt : cur.length < 16 := Nat.le_trans (Nat.le_add_right ..) hcur
      apply (h.endpoint hd.left h512 hlt).trans
      intro s' hindex h
      apply ih h (hindex ▸ hd.right)
      rwa [List.length_append]

theorem Tracks.alternates {settings : List Setting} {bInterfaceNumber : Byte}
    {past : List (List EndpointDescriptor)} {cur : List EndpointDescriptor}
    (h : Tracks buffer t (past ++ [cur]) s)
    (hd : Holds buffer s.index (settings.flatMap (Setting.bytes bInterfaceNumber)))
    (h512 : totalLength buffer ≤ 512) (hnumber : (bInterfaceNumber.toNat : Int) = t.number)
    (hcur : cur.length + (settings.flatMap Setting.endpoints).length ≤ 16)
    : Passes buffer s (settings.flatMap (Setting.bytes bInterfaceNumber)).length
        { t with endpoints := t.endpoints + (settings.flatMap Setting.endpoints).length }
        (past ++ [cur ++ settings.flatMap Setting.endpoints]) := by
  induction settings generalizing t cur s with
  | nil =>
    rw [List.flatMap_nil, List.flatMap_nil, List.append_nil]
    exact ⟨s, .refl _ _, rfl, h⟩
  | cons setting settings ih =>
    rw [List.flatMap_cons, List.length_append, ← Nat.add_assoc] at hcur
    rw [List.flatMap_cons, Setting.bytes, List.append_assoc] at hd ⊢
    rw [List.length_append, List.length_append, List.flatMap_cons, List.length_append, ← List.append_assoc,
      ← Nat.add_assoc t.endpoints]
    apply (h.alternate hd.left h512 hnumber).trans
    intro s' hindex h
    have hd := hindex ▸ hd.right
    apply (h.items hd.left h512 (Nat.le_trans (Nat.le_add_right ..) hcur)).trans
    intro s'' hindex h
    apply ih h (hindex ▸ hd.right) hnumber
    rwa [List.length_append]

theorem Tracks.interface (h : Tracks buffer t eps s) {i : Interface} (hd : Holds buffer s.index i.bytes)
    (h512 : totalLength buffer ≤ 512) (height : eps.length < 8)
    (heps : i.endpoints.length ≤ 16) (hnumber : (i.bInterfaceNumber.toNat : Int) ≠ t.number)
    : Passes buffer s i.bytes.length
        ⟨t.announced ++ [i.first.endpoints.length], i.bInterfaceNumber.toNat, i.endpoints.length⟩
        (eps ++ [i.endpoints]) := by
  have hbytes : i.bytes = i.first.descriptor i.bInterfaceNumber ++ (i.first.items.flatMap Item.bytes ++
      i.alternates.flatMap (Setting.bytes i.bInterfaceNumber)) := List.append_assoc ..
  unfold Interface.endpoints at heps ⊢
  rw [List.length_append] at heps ⊢
  rw [hbytes] at hd ⊢
  rw [List.length_append, List.length_append]
  have hfirst : i.first.endpoints.length ≤ 16 := Nat.le_trans (Nat.le_add_right ..) heps
  apply (h.new hd.left h512 height hfirst hnumber).trans
  intro s' hindex h
  have hd := hindex ▸ hd.right
  have hitems := h.items hd.left h512 ((Nat.zero_add _).symm ▸ hfirst)
  rw [List.nil_append, Nat.zero_add] at hitems
  apply hitems.trans
  intro s'' hindex h
  exact h.alternates (hindex ▸ hd.right) h512 rfl heps

theorem Tracks.interfaces {is : List Interface} (h : Tracks buffer t eps s)
    (hd : Holds buffer s.index (is.flatMap Interface.bytes)) (h512 : totalLength buffer ≤ 512)
    (height : eps.length + is.length ≤ 8) (heps : ∀ i ∈ is, i.endpoints.length ≤ 16)
    (hnodup : (is.map Interface.bInterfaceNumber).Nodup)
    (hnumber : ∀ i ∈ is, (i.bInterfaceNumber.toNat : Int) ≠ t.number)
    : ∃ number endpoints, Passes buffer s (is.flatMap Interface.bytes).length
        ⟨t.announced ++ is.map fun i => i.first.endpoints.length, number, endpoints⟩
        (eps ++ is.map Interface.endpoints) := by
  induction is generalizing t eps s with
  | nil =>
    refine ⟨t.number, t.endpoints, s, .refl _ _, rfl, ?_⟩
    rw [List.map_nil, List.map_nil, List.append_nil, List.append_nil]
    exact h
  | cons i is ih =>
    rw [List.length_cons] at height
    rw [List.map_cons, List.nodup_cons] at hnodup
    rw [List.flatMap_cons] at hd ⊢
    have hi := List.mem_cons_self (a := i) (l := is)
    obtain ⟨s', hgoes, hindex, htracks⟩ :=
      h.interface hd.left h512 (by omega) (heps i hi) (hnumber i hi)
    have hother : ∀ j ∈ is, (j.bInterfaceNumber.toNat : Int) ≠ i.bInterfaceNumber.toNat := by
      intro j hj heq
      apply hnodup.1
      have heq : j.bInterfaceNumber = i.bInterfaceNumber := BitVec.eq_of_toNat_eq (Int.ofNat_inj.mp heq)
      exact heq ▸ List.mem_map_of_mem hj
    have heps := fun j hj => heps j (List.mem_cons_of_mem i hj)
    have height : (eps ++ [i.endpoints]).length + is.length ≤ 8 := by
      rw [List.length_append, List.length_singleton]
      omega
    obtain ⟨number, endpoints, hrest⟩ := ih htracks (hindex ▸ hd.right) height heps hnodup.2 hother
    refine ⟨number, endpoints, ?_⟩
    rw [List.append_assoc, List.append_assoc] at hrest
    rw [List.length_append]
    exact hgoes.passes hindex hrest

theorem Tracks.classes {ds : List ClassDescriptor} (h : Tracks buffer t eps s)
    (hd : Holds buffer s.index (ds.flatMap ClassDescriptor.bytes)) (h512 : totalLength buffer ≤ 512)
    : Passes buffer s (ds.flatMap ClassDescriptor.bytes).length t eps := by
  induction ds generalizing s with
  | nil => exact ⟨s, .refl _ _, rfl, h⟩
  | cons d ds ih =>
    rw [List.flatMap_cons] at hd ⊢
    rw [List.length_append]
    apply (h.other hd.left h512).trans
    intro s' hindex h
    exact ih h (hindex ▸ hd.right)

end

/-!
### Configurations
-/

def Bytes.StartsWith (buffer : Bytes 512) (c : Configuration) : Prop :=
  ∀ {j b}, c.bytes[j]? = some b → buffer.byte j = b

section

variable {buffer : Bytes 512} {c : Configuration}

theorem le16_ofNat {n : Nat} (h : n < 65536) : le16 (BitVec.ofNat 8 n) (BitVec.ofNat 8 (n / 256)) = n := by
  unfold le16
  rw [BitVec.toNat_ofNat, BitVec.toNat_ofNat]
  omega

theorem totalLength_of_header {n : Nat} (hn : n < 65536) (hlen : (buffer.byte 0).toNat = 9)
    (hlo : buffer.byte 2 = BitVec.ofNat 8 n) (hhi : buffer.byte 3 = BitVec.ofNat 8 (n / 256))
    : totalLength buffer = n := by
  unfold totalLength descField
  rw [hlen, if_pos (by decide), if_pos (by decide), Nat.zero_add, Nat.zero_add, hlo, hhi]
  exact le16_ofNat hn

theorem Bytes.StartsWith.total (h : buffer.StartsWith c) : totalLength buffer = c.totalLength := by
  have hle := c.totalLength_le
  apply totalLength_of_header (by omega) (congrArg _ (h (j := 0) rfl))
  . exact h (j := 2) rfl
  . exact h (j := 3) rfl

theorem tracks_startState (h9 : (buffer.byte 0).toNat ≤ 9) : Tracks buffer .empty [] (startState buffer) where
  counts := counts_startState h9
  length := rfl
  last heq := absurd heq (by simp)
  le _ hl := nomatch hl
  stored hl := nomatch hl

theorem Bytes.StartsWith.passes (h : buffer.StartsWith c)
    : ∃ number endpoints, Passes buffer (startState buffer) c.body.length
        ⟨c.interfaces.map fun i => i.first.endpoints.length, number, endpoints⟩
        (c.interfaces.map Interface.endpoints) := by
  have hlen : (buffer.byte 0).toNat = 9 := congrArg _ (h (j := 0) rfl)
  have htotal := h.total
  have h512 : totalLength buffer ≤ 512 := htotal ▸ c.totalLength_le
  have hstart : (startState buffer).index = c.header.length := hlen
  have hholds : Holds buffer (0 + c.header.length) c.body := by
    apply Holds.right
    constructor
    . intro j b hb
      rw [Nat.zero_add]
      exact h hb
    . rw [Nat.zero_add, htotal]
      exact Nat.le_of_eq c.length_bytes
  rw [Nat.zero_add, ← hstart] at hholds
  unfold Configuration.body at hholds ⊢
  obtain ⟨s', hgoes, hindex, htracks⟩ := (tracks_startState (by omega)).classes hholds.left h512
  obtain ⟨number, endpoints, hrest⟩ := htracks.interfaces (hindex ▸ hholds.right) h512
    (by simpa using c.interfaces_le) c.endpoints_le c.numbers fun i _ => by
      have := i.bInterfaceNumber.isLt
      simp only [Tally.empty]
      omega
  refine ⟨number, endpoints, ?_⟩
  rw [List.length_append]
  exact hgoes.passes hindex hrest

theorem flatMap_range_eq {α β : Type} {l : List α} {f : Nat → List β} {g : α → List β}
    (h : ∀ {j a}, l[j]? = some a → f j = g a)
    : (List.range l.length).flatMap f = l.flatMap g := by
  rw [List.flatMap_def, List.flatMap_def]
  congr 1
  apply List.ext_getElem?
  intro j
  by_cases hj : j < l.length
  . rw [List.getElem?_map, List.getElem?_range hj, List.getElem?_map, List.getElem?_eq_getElem hj]
    exact congrArg some (h (List.getElem?_eq_getElem hj))
  . rw [List.getElem?_eq_none (by simpa using hj), List.getElem?_eq_none (by simpa using hj)]

/-- What `usb_parse_config` leaves for a well-formed configuration. -/
structure ParsedAs (c : Configuration) (config : Bytes 1002) : Prop where
  header : ∀ {o b}, c.header[o]? = some b → config.byte o = b
  endpoints : endpointsOf config = c.endpoints

theorem Bytes.StartsWith.headerField (h : buffer.StartsWith c) {o : Nat} {b : Byte}
    (hb : c.header[o]? = some b)
    : descField buffer 0 o = b := by
  have hlen : (buffer.byte 0).toNat = 9 := congrArg _ (h (j := 0) rfl)
  have ho : o < 9 := (List.getElem?_eq_some_iff.mp hb).1
  unfold descField
  rw [hlen, if_pos ho, Nat.zero_add]
  apply h
  unfold Configuration.bytes
  rw [List.getElem?_append_left ho, hb]

theorem Tracks.parsedAs {s : ParseState (Bytes 1002)} {number : Int} {endpoints : Nat}
    (h : buffer.StartsWith c)
    (ht : Tracks buffer ⟨c.interfaces.map fun i => i.first.endpoints.length, number, endpoints⟩
      (c.interfaces.map Interface.endpoints) s)
    : ParsedAs c s.mem := by
  constructor
  . intro o b hb
    have ho : o < 9 := (List.getElem?_eq_some_iff.mp hb).1
    rw [ht.counts.desc o ho, h.headerField hb]
  . have hcount : (s.mem.byte 4).toNat = c.interfaces.length := by
      have := c.interfaces_le
      rw [ht.counts.desc 4 (by decide), h.headerField (o := 4) rfl, BitVec.toNat_ofNat]
      omega
    unfold endpointsOf
    rw [hcount]
    apply flatMap_range_eq
    intro j i hi
    have hj := (List.getElem?_eq_some_iff.mp hi).1
    have hle := c.interfaces_le
    have hannounced : endpointCount s.mem j = i.first.endpoints.length := by
      unfold endpointCount
      rw [ht.counts.announced j (by omega), List.getD_eq_getElem?_getD, List.getElem?_map, hi]
      rfl
    have hstored : (c.interfaces.map Interface.endpoints)[j]? = some i.endpoints := by
      rw [List.getElem?_map, hi]
      rfl
    rw [hannounced]
    apply List.ext_getElem?
    intro e
    by_cases he : e < i.first.endpoints.length
    . rw [List.getElem?_map, List.getElem?_range he, List.getElem?_eq_getElem he]
      apply congrArg some
      apply ht.stored hstored
      unfold Interface.endpoints
      rw [List.getElem?_append_left he, List.getElem?_eq_getElem he]
    . rw [List.getElem?_eq_none (by simpa using he), List.getElem?_eq_none (by simpa using he)]

theorem Bytes.StartsWith.parsed (h : buffer.StartsWith c)
    : ConfigFits buffer ∧
        ∃ config, parseConfig strictMem buffer .zero = .ok (1, config) ∧ ParsedAs c config := by
  have hlen : (buffer.byte 0).toNat = 9 := congrArg _ (h (j := 0) rfl)
  have htype : buffer.byte 1 = usbDtConfig := h (j := 1) rfl
  have h9 : (buffer.byte 0).toNat ≤ 9 := Nat.le_of_eq hlen
  obtain ⟨number, endpoints, s, hgoes, hindex, htracks⟩ := h.passes
  have hstart : (startState buffer).index = configHeaderSize := hlen
  have hend : s.index = totalLength buffer := by
    rw [h.total, hindex, hstart]
    rfl
  have hle : totalLength buffer ≤ 512 := h.total ▸ c.totalLength_le
  have hparsed : parseLoop strictMem buffer parseFuel (startState buffer) = .ok s.mem := by
    apply hgoes.parseLoop_eq (by omega)
    exact htracks.counts.parseStep_ends fun hlt => absurd hlt (by omega)
  have hannounces : Tally.Announces ⟨c.interfaces.map fun i => i.first.endpoints.length, number, endpoints⟩
      buffer := by
    have hle := c.interfaces_le
    unfold Tally.Announces
    rw [h.headerField (o := 4) rfl, BitVec.toNat_ofNat]
    refine ⟨by omega, fun j hj => ?_⟩
    have hj : j < c.interfaces.length := by omega
    rw [List.getD_eq_getElem?_getD, List.getElem?_map, List.getElem?_eq_getElem hj]
    have := c.endpoints_le _ (List.getElem_mem hj)
    unfold Interface.endpoints at this
    rw [List.length_append] at this
    exact Nat.le_trans (Nat.le_add_right ..) this
  have hvisited : parseAndVisit strictMem buffer parseFuel .zero = .ok (endpointsOf s.mem) := by
    rw [parseAndVisit_config htype h9, hparsed]
    exact htracks.counts.configEndpoints_eq.trans (if_pos hannounces)
  refine ⟨fits_of_parsed hvisited, s.mem, ?_, htracks.parsedAs h⟩
  unfold parseConfig
  rw [parseHeader_zero htype, if_pos h9, Except.ok_bind]
  dsimp only
  rw [hparsed]
  rfl

end
