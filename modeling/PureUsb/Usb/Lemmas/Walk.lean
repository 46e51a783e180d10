import PureUsb.Usb.Lemmas.Strict
import Mathlib.Data.List.GetD

/-!
This module contains the connection between the walk over the descriptors and the parser on a memory
that refuses bad accesses: where the walk has room, the parser gets on and agrees with its counts.
-/

/-- The memory of the parser agrees with what the walk saw. -/
structure Counts (buffer : Bytes 512) (t : Tally) (s : ParseState (Bytes 1002)) : Prop where
  desc : ∀ o, o < 9 → s.mem.byte o = descField buffer 0 o
  le : t.announced.length ≤ 8
  ifno : s.ifno = t.announced.length - 1
  currIfNum : s.currIfNum = t.number
  number : t.announced = [] → t.number = -1
  noOfIf : (s.mem.byte 9).toNat = t.announced.length
  announced : ∀ j, j < 8 → (s.mem.byte (ifOffset j + 4)).toNat = t.announced.getD j 0
  endpoints : ∀ n, t.announced.length = n + 1 → (s.mem.byte (ifOffset n + 9)).toNat = t.endpoints
  endpoints_le : t.endpoints ≤ 16
  fresh : ∀ i, ifOffset t.announced.length ≤ i → s.mem.byte i = 0

theorem byte_descField {n : Nat} (c : Bytes n) (buffer : Bytes 512) {off i o : Nat}
    (hfresh : c.byte (off + o) = 0) (h : off + o < n)
    : (c.write off (buffer.range i (buffer.byte i).toNat)).byte (off + o) = descField buffer i o := by
  unfold descField
  split
  . next ho =>
    rw [Bytes.byte_write _ _ (by simpa using ho) h, Bytes.getElem_range]
  . next ho =>
    rw [Bytes.byte_write_of_ge _ _ (by simp; omega), hfresh]

section

variable {buffer : Bytes 512} {t : Tally} {s : ParseState (Bytes 1002)}

theorem byte_storeInterface_of_fits {c : Bytes 1002} {i n : Nat} (h : NewFits buffer i n) (o : Nat)
    : (storeInterface c buffer i n).byte o =
        if o = ifOffset n + 10 then 1
        else if o = ifOffset n + 9 then 0
        else if ifOffset n ≤ o ∧ o < ifOffset n + (buffer.byte i).toNat then
          buffer.byte (i + (o - ifOffset n))
        else if o = 9 then c.byte 9 + 1
        else c.byte o := by
  obtain ⟨hn, hlen, -⟩ := h
  have hofs : ifOffset n ≤ 878 := by
    unfold ifOffset
    omega
  have hge : 10 ≤ ifOffset n := Nat.le_add_right ..
  unfold storeInterface
  rw [Bytes.byte_write_singleton _ _ (by omega), Bytes.byte_write_singleton _ _ (by omega)]
  generalize ifOffset n = off at *
  split
  . rfl
  . split
    . rfl
    . have h9 := Bytes.byte_write_singleton c (c.byte 9 + 1) (show 9 < 1002 by decide) o
      split
      . next ho =>
        obtain ⟨k, rfl⟩ := Nat.exists_eq_add_of_le ho.1
        rw [Nat.add_sub_cancel_left, Bytes.byte_write _ _ (by simp; omega) (by omega), Bytes.getElem_range]
      . next ho =>
        rw [← h9]
        rcases Nat.lt_or_ge o off with hlt | hle
        . exact Bytes.byte_write_of_lt _ _ hlt
        . exact Bytes.byte_write_of_ge _ _ (by simp; omega)

/-- In a memory that was fresh, the fields behind the end of the descriptor are 0. -/
theorem byte_storeInterface {c : Bytes 1002} {i n : Nat} (h : NewFits buffer i n)
    (hfresh : ∀ o, ifOffset n ≤ o → c.byte o = 0) (o : Nat)
    : (storeInterface c buffer i n).byte o =
        if o = ifOffset n + 10 then 1
        else if o = ifOffset n + 9 then 0
        else if ifOffset n ≤ o ∧ o < ifOffset n + 124 then descField buffer i (o - ifOffset n)
        else if o = 9 then c.byte 9 + 1
        else c.byte o := by
  have hlen := h.2.1
  have hge : 10 ≤ ifOffset n := Nat.le_add_right ..
  rw [byte_storeInterface_of_fits h]
  unfold descField
  split
  . rfl
  . split
    . rfl
    . by_cases hin : ifOffset n ≤ o ∧ o < ifOffset n + (buffer.byte i).toNat
      . rw [if_pos hin, if_pos (by omega), if_pos (by omega)]
      . rw [if_neg hin]
        by_cases hout : ifOffset n ≤ o ∧ o < ifOffset n + 124
        . rw [if_pos hout, if_neg (by omega), if_neg (by omega)]
          exact hfresh o hout.1
        . rw [if_neg hout]

theorem byte_storeEndpoint {c : Bytes 1002} {i n e : Nat} (hn : n < 8) (h : EndpointFits buffer i e)
    {o : Nat} (ho : o < epOffset n e ∨ epOffset n e + 7 ≤ o)
    : (storeEndpoint c buffer i n e).byte o =
        if o = ifOffset n + 9 then c.byte (ifOffset n + 9) + 1 else c.byte o := by
  obtain ⟨he, hlen, -⟩ := h
  have hofs : ifOffset n + 9 < 1002 := by
    unfold ifOffset
    omega
  unfold storeEndpoint
  rw [← Bytes.byte_write_singleton c _ hofs]
  rcases ho with hlt | hle
  . exact Bytes.byte_write_of_lt _ _ hlt
  . exact Bytes.byte_write_of_ge _ _ (by simp; omega)

theorem ifOffset_succ (n : Nat) : ifOffset (n + 1) = ifOffset n + 124 := by
  unfold ifOffset
  omega

theorem toNat_succ {b : Byte} {n : Nat} (hb : b.toNat = n) (hn : n < 255) : (b + 1).toNat = n + 1 := by
  rw [BitVec.toNat_add, hb]
  exact Nat.mod_eq_of_lt (Nat.succ_lt_succ hn)

theorem Counts.index (i : Nat) (h : Counts buffer t s) : Counts buffer t { s with index := i } :=
  ⟨h.desc, h.le, h.ifno, h.currIfNum, h.number, h.noOfIf, h.announced, h.endpoints, h.endpoints_le,
    h.fresh⟩

theorem Counts.new (h : Counts buffer t s) (hnew : t.IsNew buffer s.index)
    (hfits : NewFits buffer s.index t.announced.length)
    : Counts buffer (t.next buffer s.index)
        { s with
          mem := storeInterface s.mem buffer s.index t.announced.length
          ifno := t.announced.length
          currIfNum := ((storeInterface s.mem buffer s.index t.announced.length).byte
            (ifOffset t.announced.length + 2)).toNat } := by
  have hbyte := byte_storeInterface hfits h.fresh
  have hn := hfits.1
  have hge : 10 ≤ ifOffset t.announced.length := Nat.le_add_right ..
  have hnext : t.next buffer s.index =
      ⟨t.announced ++ [(descField buffer s.index 4).toNat], (descField buffer s.index 2).toNat, 0⟩ :=
    if_pos hnew
  rw [hnext]
  constructor
  . intro o ho
    dsimp only
    rw [hbyte, if_neg (by omega), if_neg (by omega), if_neg (by omega), if_neg (by omega)]
    exact h.desc o ho
  . dsimp only
    rw [List.length_append]
    exact hn
  . simp
  . dsimp only
    rw [hbyte, if_neg (by omega), if_neg (by omega), if_pos (by omega), Nat.add_sub_cancel_left]
  . simp
  . dsimp only
    rw [hbyte, if_neg (by omega), if_neg (by omega), if_neg (by omega), if_pos rfl]
    rw [toNat_succ h.noOfIf (by omega)]
    simp
  . intro j hj
    dsimp only
    rw [hbyte]
    rcases Nat.lt_trichotomy j t.announced.length with hlt | rfl | hgt
    . have : ifOffset j + 124 ≤ ifOffset t.announced.length := by
        unfold ifOffset
        omega
      have h10 : 10 ≤ ifOffset j := Nat.le_add_right ..
      rw [if_neg (by omega), if_neg (by omega), if_neg (by omega), if_neg (by omega),
        List.getD_append _ _ _ _ hlt]
      exact h.announced j hj
    . rw [if_neg (by omega), if_neg (by omega), if_pos (by omega), Nat.add_sub_cancel_left]
      simp
    . have : ifOffset t.announced.length + 124 ≤ ifOffset j := by
        unfold ifOffset
        omega
      rw [if_neg (by omega), if_neg (by omega), if_neg (by omega), if_neg (by omega),
        h.fresh _ (by omega), List.getD_eq_default _ _ (by simp; omega)]
      rfl
  . intro n hn'
    have : n = t.announced.length := by simpa using hn'.symm
    subst this
    dsimp only
    rw [hbyte, if_neg (by omega), if_pos rfl]
    rfl
  . exact Nat.zero_le _
  . intro i hi
    have : ifOffset t.announced.length + 124 ≤ i := by
      rw [← ifOffset_succ]
      simpa using hi
    dsimp only
    rw [hbyte, if_neg (by omega), if_neg (by omega), if_neg (by omega), if_neg (by omega)]
    exact h.fresh i (by omega)

theorem Counts.alt {n : Nat} (h : Counts buffer t s) (hn : t.announced.length = n + 1)
    (hold : ¬t.IsNew buffer s.index) (htype : buffer.byte (s.index + 1) = usbDtInterface)
    : Counts buffer (t.next buffer s.index)
        { s with
          mem := s.mem.write (ifOffset n + 10) [s.mem.byte (ifOffset n + 10) + 1] } := by
  have hle := h.le
  have hnext : t.next buffer s.index = t := by
    unfold Tally.next
    rw [if_neg hold, if_neg (by rw [htype]; decide)]
  have hofs : ifOffset n + 10 < 1002 := by
    unfold ifOffset
    omega
  have hkeep : ∀ o, o ≠ ifOffset n + 10 →
      (s.mem.write (ifOffset n + 10) [s.mem.byte (ifOffset n + 10) + 1]).byte o = s.mem.byte o := by
    intro o ho
    rw [Bytes.byte_write_singleton _ _ hofs, if_neg ho]
  have h10 : 10 ≤ ifOffset n := Nat.le_add_right ..
  rw [hnext]
  refine ⟨?_, h.le, h.ifno, h.currIfNum, h.number, ?_, ?_, ?_, h.endpoints_le, ?_⟩
  . exact fun o ho => (hkeep o (by omega)).trans (h.desc o ho)
  . dsimp only
    rw [hkeep 9 (by omega)]
    exact h.noOfIf
  . intro j hj
    dsimp only
    rw [hkeep]
    . exact h.announced j hj
    . unfold ifOffset
      omega
  . intro n' hn'
    dsimp only
    rw [hkeep]
    . exact h.endpoints n' hn'
    . unfold ifOffset
      omega
  . intro i hi
    have := ifOffset_succ n
    rw [hn] at hi
    dsimp only
    rw [hkeep i (by omega)]
    exact h.fresh i (by rw [hn]; exact hi)

theorem Counts.endpoint {n : Nat} (h : Counts buffer t s) (hn : t.announced.length = n + 1)
    (htype : buffer.byte (s.index + 1) = usbDtEndpoint)
    (hfits : EndpointFits buffer s.index t.endpoints)
    : Counts buffer (t.next buffer s.index)
        { s with mem := storeEndpoint s.mem buffer s.index n t.endpoints } := by
  have hle := h.le
  have he := hfits.1
  have hnext : t.next buffer s.index = { t with endpoints := t.endpoints + 1 } := by
    have hold : ¬t.IsNew buffer s.index := by
      rintro ⟨hif, -⟩
      rw [htype] at hif
      exact absurd hif (by decide)
    unfold Tally.next
    rw [if_neg hold, if_pos htype]
  have hep : epOffset n t.endpoints = ifOffset n + (12 + 7 * t.endpoints) := by
    unfold epOffset ifOffset
    omega
  have hbyte : ∀ o, o < ifOffset n + 12 ∨ ifOffset n + 124 ≤ o →
      (storeEndpoint s.mem buffer s.index n t.endpoints).byte o =
        if o = ifOffset n + 9 then s.mem.byte (ifOffset n + 9) + 1 else s.mem.byte o := by
    intro o ho
    exact byte_storeEndpoint (by omega) hfits (by omega)
  have h10 : 10 ≤ ifOffset n := Nat.le_add_right ..
  rw [hnext]
  refine ⟨?_, h.le, h.ifno, h.currIfNum, h.number, ?_, ?_, ?_, he, ?_⟩
  . intro o ho
    dsimp only
    rw [hbyte o (by omega), if_neg (by omega)]
    exact h.desc o ho
  . dsimp only
    rw [hbyte 9 (by omega), if_neg (by omega)]
    exact h.noOfIf
  . intro j hj
    have hsep : ifOffset j + 4 < ifOffset n + 12 ∨ ifOffset n + 124 ≤ ifOffset j + 4 := by
      unfold ifOffset
      omega
    have hne : ifOffset j + 4 ≠ ifOffset n + 9 := by
      unfold ifOffset
      omega
    dsimp only
    rw [hbyte _ hsep, if_neg hne]
    exact h.announced j hj
  . intro n' hn'
    have : n' = n := by
      have : t.announced.length = n' + 1 := hn'
      omega
    subst this
    dsimp only
    rw [hbyte _ (by omega), if_pos rfl]
    exact toNat_succ (h.endpoints _ hn) (by omega)
  . intro i hi
    have hi : ifOffset n + 124 ≤ i := by
      rw [← ifOffset_succ, ← hn]
      exact hi
    dsimp only
    rw [hbyte i (by omega), if_neg (by omega)]
    exact h.fresh i (by rw [hn, ifOffset_succ]; exact hi)

/-!
### One round of the loop
-/

theorem parseStep_of_desc (hdesc : ∀ o < 9, s.mem.byte o = descField buffer 0 o)
    : parseStep strictMem buffer s =
        if s.index + 1 < totalLength buffer then do
          let type ← rd buffer (s.index + 1)
          if type = usbDtInterface then
            let s ← parseInterface strictMem buffer s
            let len ← rd buffer s.index
            return .inl { s with index := s.index + len.toNat }
          else if type = usbDtEndpoint then
            let s ← parseEndpoint strictMem buffer s
            let len ← rd buffer s.index
            return .inl { s with index := s.index + len.toNat }
          else
            let len ← rd buffer s.index
            if len = 0 then
              return .inr s.mem
            else
              let _ ← rdRange buffer s.index len.toNat
              return .inl { s with index := s.index + len.toNat }
        else
          .ok (.inr s.mem) := by
  have hlo : strictMem.ld s.mem (.desc 2) = .ok (descField buffer 0 2) := by
    rw [strictMem_ld (ConfigLoc.inBounds_desc (by decide)), ConfigLoc.offset_desc, hdesc 2 (by decide)]
  have hhi : strictMem.ld s.mem (.desc 3) = .ok (descField buffer 0 3) := by
    rw [strictMem_ld (ConfigLoc.inBounds_desc (by decide)), ConfigLoc.offset_desc, hdesc 3 (by decide)]
  unfold parseStep
  rw [hlo, hhi]
  rfl

theorem Counts.parseStep_ends (h : Counts buffer t s) (hends : WalkEnds buffer s.index)
    : parseStep strictMem buffer s = .ok (.inr s.mem) := by
  rw [parseStep_of_desc h.desc]
  split
  . next hlt =>
    obtain ⟨hif, hep, hlen, hin⟩ := hends hlt
    have hin0 : s.index < 512 := by omega
    rw [rd_eq, if_pos hin]
    dsimp only [Bind.bind, Except.bind]
    rw [if_neg hif, if_neg hep, rd_eq, if_pos hin0]
    dsimp only
    rw [if_pos hlen]
    rfl
  . rfl

theorem Counts.last (h : Counts buffer t s) (hne : t.announced ≠ [])
    : ∃ n : Nat, t.announced.length = n + 1 ∧ s.ifno = n ∧ n < 8 := by
  have hpos := List.length_pos_iff.mpr hne
  have hle := h.le
  have hifno := h.ifno
  refine ⟨t.announced.length - 1, ?_, ?_, ?_⟩ <;> omega

/-- The memory after the descriptor at `i`, if there is room for it. -/
def Tally.stored (t : Tally) (buffer : Bytes 512) (i : Nat) (c : Bytes 1002) : Bytes 1002 :=
  if t.IsNew buffer i then
    storeInterface c buffer i t.announced.length
  else if buffer.byte (i + 1) = usbDtInterface then
    c.write (ifOffset (t.announced.length - 1) + 10) [c.byte (ifOffset (t.announced.length - 1) + 10) + 1]
  else if buffer.byte (i + 1) = usbDtEndpoint then
    storeEndpoint c buffer i (t.announced.length - 1) t.endpoints
  else
    c

theorem Counts.parseStep_next (h : Counts buffer t s) (hends : ¬WalkEnds buffer s.index)
    (hroom : t.HasRoom buffer s.index)
    : ∃ s', parseStep strictMem buffer s = .ok (.inl s') ∧
        s'.index = s.index + (buffer.byte s.index).toNat ∧
        Counts buffer (t.next buffer s.index) s' ∧
        s'.mem = t.stored buffer s.index s.mem := by
  have hlt : s.index + 1 < totalLength buffer := by
    by_contra hge
    exact hends fun hlt => absurd hlt hge
  rw [parseStep_of_desc h.desc, if_pos hlt]
  dsimp only [Tally.HasRoom] at hroom
  split at hroom
  . next htype =>
    have hin1 : s.index + 1 < 512 := by omega
    have hin0 : s.index < 512 := by omega
    rw [rd_eq, if_pos hin1]
    dsimp only [Bind.bind, Except.bind]
    rw [if_pos htype]
    by_cases hnew : t.IsNew buffer s.index
    . have hfits : NewFits buffer s.index t.announced.length := hroom.2 hnew
      have hnum : ((buffer.byte (s.index + 2)).toNat : Int) ≠ s.currIfNum := by
        rw [h.currIfNum]
        exact hnew.2
      rw [parseInterface_new hroom.1 h.noOfIf hnum, if_pos hfits]
      dsimp only
      rw [rd_eq, if_pos hin0]
      refine ⟨_, rfl, rfl, Counts.index _ (h.new hnew hfits), ?_⟩
      unfold Tally.stored
      rw [if_pos hnew]
    . have hnum : ((buffer.byte (s.index + 2)).toNat : Int) = s.currIfNum := by
        rw [h.currIfNum]
        by_contra hne
        exact hnew ⟨htype, hne⟩
      have hne : t.announced ≠ [] := by
        intro hnil
        have := h.number hnil
        rw [h.currIfNum] at hnum
        omega
      obtain ⟨n, hn, hifno, hn8⟩ := h.last hne
      rw [parseInterface_alt hroom.1 hifno hn8 hnum]
      dsimp only
      rw [rd_eq, if_pos hin0]
      refine ⟨_, rfl, rfl, Counts.index _ (h.alt hn hnew htype), ?_⟩
      unfold Tally.stored
      rw [if_neg hnew, if_pos htype, hn]
      rfl
  . next hif =>
    split at hroom
    . next htype =>
      obtain ⟨hin1, hne, hfits⟩ := hroom
      have hin0 : s.index < 512 := by omega
      obtain ⟨n, hn, hifno, hn8⟩ := h.last hne
      rw [rd_eq, if_pos hin1]
      dsimp only [Bind.bind, Except.bind]
      rw [if_neg hif, if_pos htype, parseEndpoint_some hin0 hifno hn8 (h.endpoints n hn),
        if_pos hfits]
      dsimp only
      rw [rd_eq, if_pos hin0]
      refine ⟨_, rfl, rfl, Counts.index _ (h.endpoint hn htype hfits), ?_⟩
      unfold Tally.stored
      rw [if_neg fun hnew => hif hnew.1, if_neg hif, if_pos htype, hn]
      rfl
    . next hep =>
      obtain ⟨hin1, hlen⟩ := hroom
      have hin0 : s.index < 512 := by omega
      have hne : buffer.byte s.index ≠ 0 := fun hz => hends fun _ => ⟨hif, hep, hz, hin1⟩
      have hnext : t.next buffer s.index = t := by
        unfold Tally.next
        rw [if_neg fun hnew => hif hnew.1, if_neg hep]
      rw [rd_eq, if_pos hin1]
      dsimp only [Bind.bind, Except.bind]
      rw [if_neg hif, if_neg hep, rd_eq, if_pos hin0]
      dsimp only
      rw [if_neg hne, rdRange_eq buffer hin0, if_pos hlen, hnext]
      refine ⟨_, rfl, rfl, Counts.index _ h, ?_⟩
      unfold Tally.stored
      rw [if_neg fun hnew => hif hnew.1, if_neg hif, if_neg hep]

theorem Counts.parseStep_fault (h : Counts buffer t s) (hends : ¬WalkEnds buffer s.index)
    (hroom : ¬t.HasRoom buffer s.index)
    : parseStep strictMem buffer s = .error .fault := by
  have hlt : s.index + 1 < totalLength buffer := by
    by_contra hge
    exact hends fun hlt => absurd hlt hge
  rw [parseStep_of_desc h.desc, if_pos hlt, rd_eq]
  by_cases hin1 : s.index + 1 < 512
  . have hin0 : s.index < 512 := by omega
    rw [if_pos hin1]
    dsimp only [Bind.bind, Except.bind]
    dsimp only [Tally.HasRoom] at hroom
    split at hroom
    . next htype =>
      rw [if_pos htype]
      by_cases hin2 : s.index + 2 < 512
      . have hnew : t.IsNew buffer s.index := by
          by_contra hold
          exact hroom ⟨hin2, fun hnew => absurd hnew hold⟩
        have hnum : ((buffer.byte (s.index + 2)).toNat : Int) ≠ s.currIfNum := by
          rw [h.currIfNum]
          exact hnew.2
        rw [parseInterface_new hin2 h.noOfIf hnum,
          if_neg fun hfits => hroom ⟨hin2, fun _ => hfits⟩]
      . rw [parseInterface_fault hin2]
    . next hif =>
      split at hroom
      . next htype =>
        rw [if_neg hif, if_pos htype]
        by_cases hne : t.announced = []
        . have hifno : s.ifno = -1 := by
            rw [h.ifno, hne]
            rfl
          rw [parseEndpoint_none hifno]
        . obtain ⟨n, hn, hifno, hn8⟩ := h.last hne
          rw [parseEndpoint_some hin0 hifno hn8 (h.endpoints n hn),
            if_neg fun hfits => hroom ⟨hin1, hne, hfits⟩]
      . next hep =>
        have hne : buffer.byte s.index ≠ 0 := fun hz => hends fun _ => ⟨hif, hep, hz, hin1⟩
        rw [if_neg hif, if_neg hep, rd_eq, if_pos hin0]
        dsimp only
        rw [if_neg hne, rdRange_eq buffer hin0, if_neg fun hlen => hroom ⟨hin1, hlen⟩]
  . rw [if_neg hin1]
    rfl

end
