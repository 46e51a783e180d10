import PureUsb.Usb.ConfigBounds
import PureUsb.Usb.ConfigLoop
import PureUsb.Usb.Impl.Strings

/-!
This module contains what `usb.c` makes of a buffer of which only the first bytes were received: the
rest of it does not matter, where nobody looks at it.
-/

def SameBytes (n : Nat) (b b' : Bytes 512) : Prop := ∀ i < n, b'.byte i = b.byte i

namespace SameBytes

variable {n : Nat} {b b' : Bytes 512}

theorem zero (b b' : Bytes 512) : SameBytes 0 b b' := fun _ hi => absurd hi (Nat.not_lt_zero _)

theorem mono {m : Nat} (h : SameBytes n b b') (hm : m ≤ n) : SameBytes m b b' :=
  fun i hi => h i (Nat.lt_of_lt_of_le hi hm)

theorem write (h : SameBytes n b b') (l : List Byte)
    : SameBytes (max n l.length) (b.write 0 l) (b'.write 0 l) := by
  intro i hi
  rcases Nat.lt_or_ge i l.length with hlt | hge
  . by_cases hin : i < 512
    . have hbyte := Bytes.byte_write b l hlt (show 0 + i < 512 by omega)
      have hbyte' := Bytes.byte_write b' l hlt (show 0 + i < 512 by omega)
      rw [Nat.zero_add] at hbyte hbyte'
      rw [hbyte, hbyte']
    . simp [Bytes.byte, Bytes.get?, hin]
  . rw [Bytes.byte_write_of_ge b l (by omega), Bytes.byte_write_of_ge b' l (by omega)]
    exact h i (by omega)

theorem apply (h : SameBytes n b b') {i : Fin 512} (hi : i < n) : b' i = b i := by
  rw [← Bytes.byte_of_lt b' i.isLt, ← Bytes.byte_of_lt b i.isLt]
  exact h i hi

theorem read (h : SameBytes n b b') {i : Nat} (hi : i < n) : rd b' i = rd b i := by
  rw [rd_eq, rd_eq, h i hi]

theorem range (h : SameBytes n b b') {i len : Nat} (hi : i + len ≤ n) : b'.range i len = b.range i len := by
  apply List.ext_getElem
  . simp
  . intro j hj _
    rw [Bytes.length_range] at hj
    rw [Bytes.getElem_range, Bytes.getElem_range]
    exact h _ (by omega)

theorem readRange (h : SameBytes n b b') {i len : Nat} (hi : i + len ≤ n)
    : rdRange b' i len = rdRange b i len := by
  by_cases hin : i < 512
  . rw [rdRange_eq b' hin, rdRange_eq b hin, h.range hi]
  . unfold rdRange Bytes.slice?
    split
    . rfl
    . rw [dif_neg (by omega), dif_neg (by omega)]

end SameBytes

/-!
### Configurations
-/

/--
The parser looks at no byte from `n` on: the configuration descriptor ends before, and so does what it
reads of each descriptor that it comes to. Of descriptors that are not stored this is the beginning.
-/
def PartsReceived (buffer : Bytes 512) (n : Nat) : Prop :=
  buffer.byte 1 = usbDtConfig →
    (buffer.byte 0).toNat ≤ n ∧
    ∀ i t, Walk buffer i t → i + 1 < totalLength buffer →
      i + 2 ≤ n ∧
      (buffer.byte (i + 1) = usbDtInterface → i + 3 ≤ n) ∧
      (t.IsNew buffer i ∨ buffer.byte (i + 1) = usbDtEndpoint → i + (buffer.byte i).toNat ≤ n)

section

variable {n : Nat} {buffer buffer' : Bytes 512} {t : Tally} {s : ParseState (Bytes 1002)}

theorem SameBytes.headerField (h : SameBytes n buffer buffer') (h0 : 0 < n)
    (hlen : (buffer.byte 0).toNat ≤ n) (o : Nat)
    : descField buffer' 0 o = descField buffer 0 o := by
  unfold descField
  rw [h 0 h0]
  split
  . next ho => exact h _ (by omega)
  . rfl

theorem Counts.sameBytes (hcounts : Counts buffer t s) (h : SameBytes n buffer buffer') (h0 : 0 < n)
    (hlen : (buffer.byte 0).toNat ≤ n)
    : Counts buffer' t s := by
  refine ⟨?_, hcounts.le, hcounts.ifno, hcounts.currIfNum, hcounts.number, hcounts.noOfIf, hcounts.announced,
    hcounts.endpoints, hcounts.endpoints_le, hcounts.fresh⟩
  intro o ho
  rw [h.headerField h0 hlen]
  exact hcounts.desc o ho

theorem parseInterface_same (h : SameBytes n buffer buffer') (hcounts : Counts buffer t s)
    (htype : buffer.byte (s.index + 1) = usbDtInterface) (hnumber : s.index + 3 ≤ n)
    (hnew : t.IsNew buffer s.index → s.index + (buffer.byte s.index).toNat ≤ n)
    : parseInterface strictMem buffer' s = parseInterface strictMem buffer s := by
  unfold parseInterface
  rw [h.read (show s.index + 2 < n by omega), h.read (show s.index < n by omega), rd_eq, rd_eq]
  split
  . next hin =>
    rw [if_pos (show s.index < 512 by omega)]
    dsimp only [Bind.bind, Except.bind]
    split
    . next hnum =>
      rw [hcounts.currIfNum] at hnum
      rw [h.readRange (hnew ⟨htype, hnum⟩)]
    . rfl
  . rfl

theorem parseEndpoint_same (h : SameBytes n buffer buffer')
    (hlen : s.index + (buffer.byte s.index).toNat ≤ n) (hindex : s.index + 2 ≤ n)
    : parseEndpoint strictMem buffer' s = parseEndpoint strictMem buffer s := by
  unfold parseEndpoint
  rw [h.read (show s.index < n by omega), rd_eq]
  split
  . dsimp only [Bind.bind, Except.bind]
    rw [h.readRange hlen]
  . rfl

theorem parseStep_same (h : SameBytes n buffer buffer') (hcounts : Counts buffer t s)
    (hlen : (buffer.byte 0).toNat ≤ n) (h0 : 0 < n)
    (hparts : s.index + 1 < totalLength buffer →
      s.index + 2 ≤ n ∧
      (buffer.byte (s.index + 1) = usbDtInterface → s.index + 3 ≤ n) ∧
      (t.IsNew buffer s.index ∨ buffer.byte (s.index + 1) = usbDtEndpoint →
        s.index + (buffer.byte s.index).toNat ≤ n))
    : parseStep strictMem buffer' s = parseStep strictMem buffer s := by
  have htotal : totalLength buffer' = totalLength buffer := by
    unfold totalLength
    rw [h.headerField h0 hlen, h.headerField h0 hlen]
  rw [parseStep_of_desc (hcounts.sameBytes h h0 hlen).desc, parseStep_of_desc hcounts.desc, htotal]
  split
  . next hlt =>
    obtain ⟨hindex, hinterface, hstored⟩ := hparts hlt
    have hlen : ∀ {s' : ParseState (Bytes 1002)}, s'.index = s.index → rd buffer' s'.index = rd buffer s'.index := by
      intro s' hs'
      rw [hs', h.read (show s.index < n by omega)]
    rw [h.read (show s.index + 1 < n by omega), rd_eq]
    split
    . next hin1 =>
      dsimp only [Bind.bind, Except.bind]
      split
      . next htype =>
        rw [parseInterface_same h hcounts htype (hinterface htype) fun hnew => hstored (.inl hnew)]
        cases hs : parseInterface strictMem buffer s with
        | error e => rfl
        | ok s' =>
          dsimp only
          rw [hlen (index_parseInterface hs)]
      . split
        . next htype =>
          rw [parseEndpoint_same h (hstored (.inr htype)) hindex]
          cases hs : parseEndpoint strictMem buffer s with
          | error e => rfl
          | ok s' =>
            dsimp only
            rw [hlen (index_parseEndpoint hs)]
        . have hin : s.index < 512 := by omega
          rw [hlen rfl, rd_eq, if_pos hin]
          dsimp only
          rw [rdRange_eq buffer' hin, rdRange_eq buffer hin]
          by_cases hend : s.index + (buffer.byte s.index).toNat ≤ 512
          . rw [if_pos hend, if_pos hend]
          . rw [if_neg hend, if_neg hend]
    . rfl
  . rfl

theorem parseLoop_same (h : SameBytes n buffer buffer') (h0 : 0 < n) (hfits : ConfigFits buffer)
    (hparts : PartsReceived buffer n) (htype : buffer.byte 1 = usbDtConfig) (fuel : Nat)
    (hcounts : Counts buffer t s) (hwalk : Walk buffer s.index t)
    : parseLoop strictMem buffer' fuel s = parseLoop strictMem buffer fuel s := by
  obtain ⟨hlen, hall⟩ := hparts htype
  induction fuel generalizing s t with
  | zero => rfl
  | succ fuel ih =>
    unfold parseLoop
    rw [parseStep_same h hcounts hlen h0 (hall _ _ hwalk)]
    by_cases hends : WalkEnds buffer s.index
    . rw [hcounts.parseStep_ends hends]
      rfl
    . have hroom := hfits.hasRoom htype _ _ hwalk hends
      obtain ⟨s', hs', hindex, hcounts', -⟩ := hcounts.parseStep_next hends hroom
      rw [hs', Except.ok_bind, Except.ok_bind]
      apply ih hcounts'
      rw [hindex]
      exact .next hwalk hends hroom

theorem parseConfig_same (h : SameBytes n buffer buffer') (hn : 1 < n) (hfits : ConfigFits buffer)
    (hparts : PartsReceived buffer n)
    : parseConfig strictMem buffer' .zero = parseConfig strictMem buffer .zero := by
  have htype' := h 1 hn
  unfold parseConfig
  by_cases htype : buffer.byte 1 = usbDtConfig
  . have hlen := (hparts htype).1
    have hstart : startState buffer' = startState buffer := by
      unfold startState headerMem
      rw [h 0 (by omega), h.range (by omega)]
    rw [parseHeader_zero (htype'.trans htype), parseHeader_zero htype, h 0 (by omega), hstart]
    have h9 := (hfits htype).1
    rw [if_pos h9, Except.ok_bind, Except.ok_bind]
    dsimp only
    rw [parseLoop_same h (by omega) hfits hparts htype _ (counts_startState h9) .start]
  . rw [parseHeader_none _ _ fun hf => htype (htype'.symm.trans hf), parseHeader_none _ _ htype,
      Except.ok_bind, Except.ok_bind]

end

/-!
### Strings
-/

section

variable {n : Nat} {buf buf' : Bytes 512}

theorem workaroundLength_same (h : SameBytes n buf buf') {oldlength : Int} (hlength : oldlength ≤ n)
    (fuel newlength : Nat)
    : workaroundLength buf' oldlength fuel newlength = workaroundLength buf oldlength fuel newlength := by
  induction fuel generalizing newlength with
  | zero => rfl
  | succ fuel ih =>
    unfold workaroundLength
    split
    . next hlt =>
      rw [h.read (show newlength < n by omega), h.read (show newlength + 1 < n by omega), ih]
    . rfl

theorem workaroundLength_le {oldlength : Int} {fuel newlength m : Nat}
    (h : workaroundLength buf oldlength fuel newlength = .ok m)
    : m = newlength ∨ (m : Int) ≤ oldlength := by
  induction fuel generalizing newlength with
  | zero => cases h
  | succ fuel ih =>
    unfold workaroundLength at h
    split at h
    . obtain ⟨lo, -, h⟩ := Except.bind_eq_ok.mp h
      obtain ⟨hi, -, h⟩ := Except.bind_eq_ok.mp h
      split at h
      . cases h
        exact .inl rfl
      . rcases ih h with rfl | hle
        . right
          omega
        . exact .inr hle
    . cases h
      exact .inl rfl

/-- Two strings of the same length, which is at most `n`. -/
structure SameString (n : Nat) (r r' : Bytes 512 × Int) : Prop where
  bytes : SameBytes n r.1 r'.1
  length : r'.2 = r.2
  le : r.2 ≤ n

theorem fixString_same (h : SameBytes n buf buf') (hn : 2 ≤ n) {rc : Int} (hrc : rc ≤ n)
    : (∃ e, fixString buf rc = .error e) ∨
      ∃ r r', fixString buf rc = .ok r ∧ fixString buf' rc = .ok r' ∧ SameString n r r' := by
  unfold fixString
  rw [h.apply (show ((0 : Fin 512) : Nat) < n by exact Nat.lt_of_lt_of_le (by decide) hn),
    h.apply (show ((1 : Fin 512) : Nat) < n by exact Nat.lt_of_lt_of_le (by decide) hn)]
  split
  . unfold usbTryStringWorkarounds
    rw [workaroundLength_same h hrc]
    cases hlength : workaroundLength buf rc usbBufsiz 2 with
    | error e => exact .inl ⟨e, rfl⟩
    | ok newlength =>
      rw [Except.ok_bind, Except.ok_bind]
      split
      . next hlong =>
        have hle := (workaroundLength_le hlength).resolve_left (by omega)
        exact .inr ⟨_, _, rfl, rfl, (h.write _).mono (Nat.le_max_left ..), rfl,
          Int.le_trans hle hrc⟩
      . exact .inr ⟨_, _, rfl, rfl, h, rfl, hrc⟩
  . exact .inr ⟨_, _, rfl, rfl, h, rfl, hrc⟩

theorem stringChars_same (h : SameBytes n buf buf') {err : Nat} (herr : err ≤ n) (heven : err % 2 = 0)
    (size fuel : Nat) {u : Nat} (hu : u % 2 = 0) (idx : Nat)
    : stringChars buf' err size fuel u idx = stringChars buf err size fuel u idx := by
  induction fuel generalizing u idx with
  | zero => rfl
  | succ fuel ih =>
    unfold stringChars
    split
    . next hlt =>
      rw [h.read (show u + 1 < n by omega), h.read (show u < n by omega), ih (by omega)]
    . rfl

end
