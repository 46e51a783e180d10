import PureUsb.Usb.Lemmas.Walk

/-!
This module contains the bounds of `usb_parse_config` and `usb_set_maxpacket`: for which
configurations all accesses stay in the objects they are meant for.
-/

/--
`usb_parse_config` with at most `fuel` rounds of its loop, followed by `usb_set_maxpacket`.
-/
def parseAndVisit {M : Type} (m : ConfigMem M) (buffer : Bytes 512) (fuel : Nat) (mem : M)
    : Except Stop (List EndpointDescriptor) := do
  match ← parseHeader m buffer mem with
  | none => configEndpoints m mem
  | some s =>
    let mem ← parseLoop m buffer fuel s
    configEndpoints m mem

/-- However long the loop runs, no access leaves the object that it names. -/
def ParsedInBounds (buffer : Bytes 512) : Prop :=
  ∀ fuel, parseAndVisit strictMem buffer fuel .zero ≠ .error .fault

section

variable {buffer : Bytes 512} {t : Tally} {s : ParseState (Bytes 1002)} {c : Bytes 1002}

/-!
### The configuration descriptor
-/

def headerMem (buffer : Bytes 512) : Bytes 1002 :=
  (Bytes.zero.write 0 (buffer.range 0 (buffer.byte 0).toNat)).write 9 [0]

def startState (buffer : Bytes 512) : ParseState (Bytes 1002) :=
  ⟨headerMem buffer, (buffer.byte 0).toNat, -1, -1⟩

theorem byte_headerMem (h : (buffer.byte 0).toNat ≤ 9) {o : Nat} (ho : o < 1002)
    : (headerMem buffer).byte o = if o < 9 then descField buffer 0 o else 0 := by
  unfold headerMem
  rw [Bytes.byte_write_singleton _ _ (by decide)]
  have hfield : ((Bytes.zero : Bytes 1002).write 0 (buffer.range 0 (buffer.byte 0).toNat)).byte (0 + o) =
      descField buffer 0 o :=
    byte_descField _ buffer (Bytes.byte_zero _) (by omega)
  rw [Nat.zero_add] at hfield
  by_cases h9 : o < 9
  . rw [if_neg (by omega), if_pos h9, hfield]
  . rw [if_neg h9]
    split
    . rfl
    . rw [hfield]
      unfold descField
      rw [if_neg (by omega)]

theorem counts_startState (h : (buffer.byte 0).toNat ≤ 9) : Counts buffer .empty (startState buffer) := by
  refine ⟨?_, Nat.zero_le _, rfl, rfl, fun _ => rfl, ?_, ?_, ?_, Nat.zero_le _, ?_⟩
  . intro o ho
    exact (byte_headerMem h (by omega)).trans (if_pos ho)
  . show ((headerMem buffer).byte 9).toNat = 0
    rw [byte_headerMem h (by decide)]
    rfl
  . intro j hj
    have hofs : ifOffset j + 4 < 1002 := by
      unfold ifOffset
      omega
    show ((headerMem buffer).byte (ifOffset j + 4)).toNat = 0
    rw [byte_headerMem h hofs, if_neg (by unfold ifOffset; omega)]
    rfl
  . intro n hn
    cases hn
  . intro i hi
    have hi10 : 10 ≤ i := hi
    show (headerMem buffer).byte i = 0
    by_cases hlt : i < 1002
    . rw [byte_headerMem h hlt, if_neg (by omega)]
    . simp [Bytes.byte, Bytes.get?, hlt]

theorem parseHeader_zero (htype : buffer.byte 1 = usbDtConfig)
    : parseHeader strictMem buffer .zero =
        if (buffer.byte 0).toNat ≤ 9 then .ok (some (startState buffer)) else .error .fault := by
  have hlen := (buffer.byte 0).isLt
  unfold parseHeader
  rw [rd_eq, if_pos (by decide)]
  dsimp only [Bind.bind, Except.bind]
  rw [if_neg (not_not.mpr htype), rd_eq, if_pos (by decide)]
  dsimp only
  rw [rdRange_eq buffer (by decide), if_pos (by omega)]
  dsimp only
  by_cases h9 : (buffer.byte 0).toNat ≤ 9
  . rw [if_pos h9]
    have hin : (ConfigLoc.desc 0).InBounds := ConfigLoc.inBounds_desc (by decide)
    rw [strictMem_copy hin (by simpa [ConfigLoc.room] using h9)]
    dsimp only
    rw [strictMem_st ConfigLoc.inBounds_noOfIf]
    dsimp only
    rw [strictMem_ld hin]
    have hstart : (headerMem buffer).byte 0 = buffer.byte 0 := by
      rw [byte_headerMem h9 (by decide), if_pos (by decide)]
      unfold descField
      split
      . rfl
      . next h0 =>
        apply BitVec.eq_of_toNat_eq
        simpa using (Nat.eq_zero_of_not_pos h0).symm
    have hstate : startState buffer = ⟨headerMem buffer, ((headerMem buffer).byte 0).toNat, -1, -1⟩ := by
      unfold startState
      rw [hstart]
    rw [hstate]
    rfl
  . rw [if_neg h9, strictMem_copy_fault]
    rintro ⟨-, h⟩
    rw [Bytes.length_range] at h
    exact h9 h

theorem parseHeader_none {M : Type} (m : ConfigMem M) (mem : M) (htype : buffer.byte 1 ≠ usbDtConfig)
    : parseHeader m buffer mem = .ok none := by
  unfold parseHeader
  rw [rd_eq, if_pos (by decide)]
  dsimp only [Bind.bind, Except.bind]
  rw [if_pos htype]
  rfl

/-!
### The endpoints
-/

/-- The fields of `if_desc[j].ep_desc[e]`. -/
def endpointAt (c : Bytes 1002) (j e : Nat) : EndpointDescriptor :=
  ⟨c.byte (epOffset j e + 2), c.byte (epOffset j e + 3),
    le16 (c.byte (epOffset j e + 4)) (c.byte (epOffset j e + 5))⟩

def endpointCount (c : Bytes 1002) (j : Nat) : Nat := (c.byte (ifOffset j + 4)).toNat

theorem loadEndpoint_strict {j e : Nat} (hj : j < 8)
    : loadEndpoint strictMem c j e = if e < 16 then .ok (endpointAt c j e) else .error .fault := by
  unfold loadEndpoint
  split
  . next he =>
    have hin : ∀ o, o < 7 → (ConfigLoc.epDesc j e o).InBounds :=
      fun o ho => ConfigLoc.inBounds_epDesc hj he ho
    rw [strictMem_ld (hin 2 (by decide)), strictMem_ld (hin 3 (by decide)),
      strictMem_ld (hin 4 (by decide)), strictMem_ld (hin 5 (by decide))]
    simp only [ConfigLoc.offset_epDesc]
    rfl
  . next he =>
    rw [strictMem_ld_fault]
    . rfl
    . rintro ⟨-, -, h, -⟩
      exact he h

theorem interfaceEndpoints_strict {j : Nat}
    : interfaceEndpoints strictMem c j =
        if j < 8 ∧ endpointCount c j ≤ 16 then
          .ok ((List.range (endpointCount c j)).map (endpointAt c j))
        else
          .error .fault := by
  unfold interfaceEndpoints
  by_cases hj : j < 8
  . rw [strictMem_ld (ConfigLoc.inBounds_ifDesc hj (by decide)), ConfigLoc.offset_ifDesc]
    show (List.range (endpointCount c j)).mapM (loadEndpoint strictMem c j) = _
    split
    . next h =>
      refine Except.mapM_ok fun e he => ?_
      have := List.mem_range.mp he
      rw [loadEndpoint_strict hj, if_pos (by omega)]
    . next h =>
      have h17 : 16 < endpointCount c j := by omega
      refine Except.mapM_error (g := endpointAt c j) ?_ (List.mem_range.mpr h17) ?_
      . intro e _
        rw [loadEndpoint_strict hj]
        split
        . exact .inl rfl
        . exact .inr rfl
      . rw [loadEndpoint_strict hj, if_neg (by omega)]
  . rw [if_neg fun h => hj h.1, strictMem_ld_fault]
    . rfl
    . rintro ⟨-, h, -⟩
      exact hj (Int.ofNat_lt.mp h)

/-- The endpoints that `usb_set_maxpacket` visits. -/
def endpointsOf (c : Bytes 1002) : List EndpointDescriptor :=
  (List.range (c.byte 4).toNat).flatMap fun j =>
    (List.range (endpointCount c j)).map (endpointAt c j)

theorem configEndpoints_strict
    : configEndpoints strictMem c =
        if (c.byte 4).toNat ≤ 8 ∧ ∀ j < (c.byte 4).toNat, endpointCount c j ≤ 16 then
          .ok (endpointsOf c)
        else
          .error .fault := by
  unfold configEndpoints
  rw [strictMem_ld (ConfigLoc.inBounds_desc (by decide)), ConfigLoc.offset_desc]
  show (do
    let eps ← (List.range (c.byte 4).toNat).mapM (interfaceEndpoints strictMem c)
    return eps.flatten) = _
  split
  . next h =>
    rw [Except.mapM_ok (g := fun j => (List.range (endpointCount c j)).map (endpointAt c j))]
    . rfl
    . intro j hj
      have hlt := List.mem_range.mp hj
      rw [interfaceEndpoints_strict, if_pos ⟨by omega, h.2 j hlt⟩]
  . next h =>
    have hbad : ∃ j < (c.byte 4).toNat, ¬(j < 8 ∧ endpointCount c j ≤ 16) := by
      by_cases hn : (c.byte 4).toNat ≤ 8
      . by_contra hall
        refine h ⟨hn, fun j hj => ?_⟩
        by_contra hgt
        exact hall ⟨j, hj, fun hf => hgt hf.2⟩
      . exact ⟨8, by omega, fun hf => absurd hf.1 (by decide)⟩
    obtain ⟨j, hj, hbad⟩ := hbad
    rw [Except.mapM_error (g := fun j => (List.range (endpointCount c j)).map (endpointAt c j)) _
      (List.mem_range.mpr hj)]
    . rfl
    . rw [interfaceEndpoints_strict, if_neg hbad]
    . intro j _
      rw [interfaceEndpoints_strict]
      split
      . exact .inl rfl
      . exact .inr rfl

/-!
### The walk and the parser
-/

theorem Counts.configEndpoints_eq (h : Counts buffer t s)
    : configEndpoints strictMem s.mem =
        if t.Announces buffer then .ok (endpointsOf s.mem) else .error .fault := by
  rw [configEndpoints_strict]
  have hcond : ((s.mem.byte 4).toNat ≤ 8 ∧ ∀ j < (s.mem.byte 4).toNat, endpointCount s.mem j ≤ 16)
      ↔ t.Announces buffer := by
    unfold Tally.Announces endpointCount
    rw [h.desc 4 (by decide)]
    refine and_congr_right fun hn => forall₂_congr fun j hj => ?_
    rw [h.announced j (by omega)]
  simp only [hcond]

theorem parseLoop_of_room (hroom : ∀ i t, Walk buffer i t → ¬WalkEnds buffer i → t.HasRoom buffer i)
    (fuel : Nat) (h : Counts buffer t s) (hwalk : Walk buffer s.index t)
    : parseLoop strictMem buffer fuel s = .error .hang ∨
      ∃ t' s', Walk buffer s'.index t' ∧ WalkEnds buffer s'.index ∧ Counts buffer t' s' ∧
        parseLoop strictMem buffer fuel s = .ok s'.mem := by
  induction fuel generalizing s t with
  | zero => exact .inl rfl
  | succ fuel ih =>
    unfold parseLoop
    by_cases hends : WalkEnds buffer s.index
    . rw [h.parseStep_ends hends]
      exact .inr ⟨t, s, hwalk, hends, h, rfl⟩
    . have hr := hroom _ _ hwalk hends
      obtain ⟨s', hs', hindex, hcounts, -⟩ := h.parseStep_next hends hr
      rw [hs']
      refine ih hcounts ?_
      rw [hindex]
      exact .next hwalk hends hr

theorem Walk.exists_state (h9 : (buffer.byte 0).toNat ≤ 9) {i : Nat} (h : Walk buffer i t)
    : ∃ s n, s.index = i ∧ Counts buffer t s ∧
        ∀ fuel, parseLoop strictMem buffer (fuel + n) (startState buffer) =
          parseLoop strictMem buffer fuel s := by
  induction h with
  | start => exact ⟨startState buffer, 0, rfl, counts_startState h9, fun fuel => rfl⟩
  | next _ hends hroom ih =>
    obtain ⟨s, n, rfl, hcounts, hloop⟩ := ih
    obtain ⟨s', hs', hindex, hcounts', -⟩ := hcounts.parseStep_next hends hroom
    refine ⟨s', n + 1, hindex, hcounts', fun fuel => ?_⟩
    rw [Nat.add_comm n 1, ← Nat.add_assoc, hloop]
    show parseLoop strictMem buffer (fuel + 1) s = _
    conv_lhs => unfold parseLoop
    rw [hs']
    rfl

theorem parseAndVisit_config (htype : buffer.byte 1 = usbDtConfig) (h9 : (buffer.byte 0).toNat ≤ 9)
    (fuel : Nat)
    : parseAndVisit strictMem buffer fuel .zero =
        (parseLoop strictMem buffer fuel (startState buffer)).bind (configEndpoints strictMem) := by
  unfold parseAndVisit
  rw [parseHeader_zero htype, if_pos h9]
  rfl

theorem ConfigFits.hasRoom (h : ConfigFits buffer) (htype : buffer.byte 1 = usbDtConfig) (i : Nat)
    (t : Tally) (hw : Walk buffer i t) (hends : ¬WalkEnds buffer i)
    : t.HasRoom buffer i := by
  have := (h htype).2 i t hw
  rwa [if_neg hends] at this

theorem parsedInBounds_of_fits (h : ConfigFits buffer) : ParsedInBounds buffer := by
  intro fuel
  by_cases htype : buffer.byte 1 = usbDtConfig
  . obtain ⟨h9, hwalk⟩ := h htype
    have hroom := h.hasRoom htype
    rw [parseAndVisit_config htype h9]
    rcases parseLoop_of_room hroom fuel (counts_startState h9) .start with
      hloop | ⟨t', s', hw, hends, hcounts, hloop⟩
    . rw [hloop]
      exact fun hf => by cases hf
    . have hannounces := hwalk _ _ hw
      rw [if_pos hends] at hannounces
      rw [hloop]
      show configEndpoints strictMem s'.mem ≠ _
      rw [hcounts.configEndpoints_eq, if_pos hannounces]
      exact fun hf => by cases hf
  . unfold parseAndVisit
    rw [parseHeader_none _ _ htype]
    show configEndpoints strictMem .zero ≠ _
    rw [configEndpoints_strict, if_pos]
    . exact fun hf => by cases hf
    . simp

theorem fits_of_parsedInBounds (h : ParsedInBounds buffer) : ConfigFits buffer := by
  intro htype
  by_cases h9 : (buffer.byte 0).toNat ≤ 9
  . refine ⟨h9, fun i t hw => ?_⟩
    obtain ⟨s, n, rfl, hcounts, hloop⟩ := hw.exists_state h9
    have hrun := h (1 + n)
    rw [parseAndVisit_config htype h9, hloop] at hrun
    split
    . next hends =>
      have hend : parseLoop strictMem buffer 1 s = .ok s.mem := by
        unfold parseLoop
        rw [hcounts.parseStep_ends hends]
        rfl
      rw [hend] at hrun
      by_contra hannounces
      apply hrun
      show configEndpoints strictMem s.mem = _
      rw [hcounts.configEndpoints_eq, if_neg hannounces]
    . next hends =>
      by_contra hroom
      apply hrun
      have hfault : parseLoop strictMem buffer 1 s = .error .fault := by
        unfold parseLoop
        rw [hcounts.parseStep_fault hends hroom]
        rfl
      rw [hfault]
      rfl
  . exfalso
    apply h 0
    unfold parseAndVisit
    rw [parseHeader_zero htype, if_neg h9]
    rfl

/--
Every access of `usb_parse_config` and of `usb_set_maxpacket` stays in bounds if and only if the
configuration fits.
-/
theorem parsedInBounds_iff : ParsedInBounds buffer ↔ ConfigFits buffer :=
  ⟨fits_of_parsedInBounds, parsedInBounds_of_fits⟩

theorem parseConfig_counts {ret : Int} (hfits : ConfigFits buffer) (htype : buffer.byte 1 = usbDtConfig)
    (h : parseConfig strictMem buffer .zero = .ok (ret, c))
    : ret = 1 ∧ ∃ t s, Walk buffer s.index t ∧ WalkEnds buffer s.index ∧ Counts buffer t s ∧
        s.mem = c := by
  have h9 := (hfits htype).1
  unfold parseConfig at h
  rw [parseHeader_zero htype, if_pos h9, Except.ok_bind] at h
  dsimp only at h
  rcases parseLoop_of_room (hfits.hasRoom htype) parseFuel (counts_startState h9) .start with
    hloop | ⟨t, s, hwalk, hends, hcounts, hloop⟩
  . rw [hloop] at h
    cases h
  . rw [hloop] at h
    cases h
    exact ⟨rfl, t, s, hwalk, hends, hcounts, rfl⟩

theorem parseLoop_ok_or_hang {M : Type} {m : ConfigMem M} {s : ParseState M} {mem : M} {fuel : Nat}
    (h : parseLoop m buffer fuel s = .ok mem) (fuel' : Nat)
    : parseLoop m buffer fuel' s = .ok mem ∨ parseLoop m buffer fuel' s = .error .hang := by
  induction fuel generalizing s fuel' with
  | zero => cases h
  | succ fuel ih =>
    cases fuel' with
    | zero => exact .inr rfl
    | succ fuel' =>
      unfold parseLoop at h ⊢
      cases hstep : parseStep m buffer s with
      | error e =>
        rw [hstep] at h
        cases h
      | ok r =>
        rw [hstep] at h
        cases r with
        | inl s => exact ih h fuel'
        | inr c => exact .inl h

theorem fits_of_parsed {fuel : Nat} {eps : List EndpointDescriptor}
    (h : parseAndVisit strictMem buffer fuel .zero = .ok eps)
    : ConfigFits buffer := by
  refine fits_of_parsedInBounds fun fuel' hfault => ?_
  unfold parseAndVisit at h hfault
  cases hheader : parseHeader strictMem buffer .zero with
  | error e =>
    rw [hheader] at h
    cases h
  | ok r =>
    rw [hheader] at h hfault
    cases r with
    | none => cases h.symm.trans hfault
    | some s =>
      dsimp only [Bind.bind, Except.bind] at h hfault
      cases hloop : parseLoop strictMem buffer fuel s with
      | error e =>
        rw [hloop] at h
        cases h
      | ok mem =>
        rw [hloop] at h
        rcases parseLoop_ok_or_hang hloop fuel' with h' | h'
        . rw [h'] at hfault
          cases h.symm.trans hfault
        . rw [h'] at hfault
          cases hfault

end

/-- A configuration with `n` interfaces of one setting and no endpoint each. -/
def interfaceList (n : Nat) : List Byte :=
  [9, 2, BitVec.ofNat 8 (9 + 9 * n), 0, BitVec.ofNat 8 n, 1, 0, 0x80, 50] ++
    (List.range n).flatMap fun i => [9, 4, BitVec.ofNat 8 i, 0, 0, 0xff, 0, 0, 0]

def interfaces (n : Nat) : Bytes 512 := Bytes.zero.write 0 (interfaceList n)

/-- The ninth interface is stored behind the eight that there is room for. -/
theorem nine_interfaces_not_inBounds : ¬ParsedInBounds (interfaces 9) := by
  intro h
  exact h 9 (by decide +kernel)
