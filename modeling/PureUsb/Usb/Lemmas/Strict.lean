import PureUsb.Prog.Sim
import PureUsb.Usb.Walk

/-!
This module contains the effect of the parser for configuration descriptors on a memory that refuses
every access outside of the object that is named.
-/

def Bytes.range {n : Nat} (b : Bytes n) (i len : Nat) : List Byte :=
  List.ofFn fun j : Fin len => b.byte (i + j)

@[simp]
theorem Bytes.length_range {n : Nat} (b : Bytes n) (i len : Nat) : (b.range i len).length = len := by
  simp [range]

@[simp]
theorem Bytes.getElem_range {n : Nat} (b : Bytes n) (i len j : Nat) (h : j < (b.range i len).length)
    : (b.range i len)[j] = b.byte (i + j) := by
  simp [range]

theorem rd_eq (buffer : Bytes 512) (i : Nat)
    : rd buffer i = if i < 512 then .ok (buffer.byte i) else .error .fault := by
  unfold rd
  split
  . next b h =>
    obtain ⟨hi, -⟩ := (Bytes.get?_eq_some_iff buffer).mp h
    rw [if_pos hi]
    simp [Bytes.byte, h]
  . next h =>
    rw [if_neg]
    intro hi
    rw [Bytes.get?_of_lt buffer hi] at h
    cases h

theorem rdRange_eq (buffer : Bytes 512) {i len : Nat} (hi : i < 512)
    : rdRange buffer i len = if i + len ≤ 512 then .ok (buffer.range i len) else .error .fault := by
  unfold rdRange
  split
  . next h =>
    subst h
    rw [if_pos (by omega)]
    rfl
  . unfold Bytes.slice?
    by_cases h : i + len ≤ 512
    . have hrange : buffer.range i len = List.ofFn fun j : Fin len => buffer ⟨i + j, by omega⟩ := by
        unfold Bytes.range
        congr
        funext j
        exact Bytes.byte_of_lt buffer _
      rw [dif_pos h, if_pos h, hrange]
    . rw [dif_neg h, if_neg h]

/-!
### The memory
-/

section

variable {c : Bytes 1002} {l : ConfigLoc}

theorem strictMem_ld (h : l.InBounds) : strictMem.ld c l = .ok (c.byte l.offset.toNat) := by
  unfold strictMem
  dsimp only
  rw [dif_pos h, Bytes.byte_of_lt]

theorem strictMem_ld_fault (h : ¬l.InBounds) : strictMem.ld c l = .error .fault := by
  unfold strictMem
  dsimp only
  rw [dif_neg h]

theorem strictMem_st {b : Byte} (h : l.InBounds)
    : strictMem.st c l b = .ok (c.write l.offset.toNat [b]) := by
  unfold strictMem
  dsimp only
  rw [if_pos h]

theorem strictMem_st_fault {b : Byte} (h : ¬l.InBounds) : strictMem.st c l b = .error .fault := by
  unfold strictMem
  dsimp only
  rw [if_neg h]

theorem strictMem_copy {bs : List Byte} (h : l.InBounds) (hbs : bs.length ≤ l.room)
    : strictMem.copy c l bs = .ok (c.write l.offset.toNat bs) := by
  unfold strictMem
  dsimp only
  rw [if_pos ⟨h, hbs⟩]

theorem strictMem_copy_fault {bs : List Byte} (h : ¬(l.InBounds ∧ bs.length ≤ l.room))
    : strictMem.copy c l bs = .error .fault := by
  unfold strictMem
  dsimp only
  rw [if_neg h]

end

abbrev ifOffset (j : Nat) : Nat := 10 + 124 * j

abbrev epOffset (j e : Nat) : Nat := 22 + 124 * j + 7 * e

namespace ConfigLoc

theorem inBounds_desc {o : Nat} (ho : o < 9) : (desc o).InBounds := ho

theorem inBounds_noOfIf : noOfIf.InBounds := trivial

theorem inBounds_ifDesc {j o : Nat} (hj : j < 8) (ho : o < 124) : (ifDesc j o).InBounds :=
  ⟨Int.natCast_nonneg j, Int.ofNat_lt.mpr hj, ho⟩

theorem inBounds_epDesc {j e o : Nat} (hj : j < 8) (he : e < 16) (ho : o < 7)
    : (epDesc j e o).InBounds :=
  ⟨Int.natCast_nonneg j, Int.ofNat_lt.mpr hj, he, ho⟩

@[simp]
theorem offset_desc (o : Nat) : (desc o).offset.toNat = o := rfl

@[simp]
theorem offset_noOfIf : noOfIf.offset.toNat = 9 := rfl

@[simp]
theorem offset_ifDesc (j o : Nat) : (ifDesc j o).offset.toNat = ifOffset j + o := by
  simp only [offset, ifOffset]
  omega

@[simp]
theorem offset_epDesc (j e o : Nat) : (epDesc j e o).offset.toNat = epOffset j e + o := by
  simp only [offset, epOffset]
  omega

end ConfigLoc

/-!
### Descriptors
-/

section

variable {buffer : Bytes 512} {s : ParseState (Bytes 1002)}

/-- The memory after the descriptor at `i` was stored as `if_desc[n]`. -/
def storeInterface (c : Bytes 1002) (buffer : Bytes 512) (i n : Nat) : Bytes 1002 :=
  (((c.write 9 [c.byte 9 + 1]).write (ifOffset n) (buffer.range i (buffer.byte i).toNat)).write
    (ifOffset n + 9) [0]).write (ifOffset n + 10) [1]

theorem parseInterface_new {n : Nat} (hi : s.index + 2 < 512) (hn : (s.mem.byte 9).toNat = n)
    (hnum : ((buffer.byte (s.index + 2)).toNat : Int) ≠ s.currIfNum)
    : parseInterface strictMem buffer s =
        if NewFits buffer s.index n then
          .ok { s with
            mem := storeInterface s.mem buffer s.index n
            ifno := n
            currIfNum := ((storeInterface s.mem buffer s.index n).byte (ifOffset n + 2)).toNat }
        else
          .error .fault := by
  have hi0 : s.index < 512 := by omega
  unfold parseInterface
  rw [rd_eq, if_pos hi]
  dsimp only [Bind.bind, Except.bind]
  rw [if_pos hnum, strictMem_ld ConfigLoc.inBounds_noOfIf, ConfigLoc.offset_noOfIf]
  dsimp only
  rw [hn, strictMem_st ConfigLoc.inBounds_noOfIf, ConfigLoc.offset_noOfIf]
  dsimp only
  rw [rd_eq, if_pos hi0]
  dsimp only
  rw [rdRange_eq buffer hi0]
  by_cases hlen : s.index + (buffer.byte s.index).toNat ≤ 512
  . rw [if_pos hlen]
    dsimp only
    by_cases h : n < 8 ∧ (buffer.byte s.index).toNat ≤ 124
    . obtain ⟨hn8, h124⟩ := h
      rw [if_pos ⟨hn8, h124, hlen⟩]
      have hin : ∀ o, o < 124 → (ConfigLoc.ifDesc n o).InBounds :=
        fun o ho => ConfigLoc.inBounds_ifDesc hn8 ho
      rw [strictMem_copy (hin 0 (by omega)) (by simpa [ConfigLoc.room] using h124)]
      dsimp only
      rw [strictMem_st (hin 9 (by omega))]
      dsimp only
      rw [strictMem_st (hin 10 (by omega))]
      dsimp only
      rw [strictMem_ld (hin 2 (by omega))]
      simp only [ConfigLoc.offset_ifDesc]
      rfl
    . rw [if_neg fun hf => h ⟨hf.1, hf.2.1⟩, strictMem_copy_fault]
      rintro ⟨⟨-, h8, -⟩, h124⟩
      rw [Bytes.length_range] at h124
      simp only [usbMaxinterfaces] at h8
      exact h ⟨by omega, h124⟩
  . rw [if_neg hlen, if_neg fun hf => hlen hf.2.2]

theorem parseInterface_fault (hi : ¬s.index + 2 < 512)
    : parseInterface strictMem buffer s = .error .fault := by
  unfold parseInterface
  rw [rd_eq, if_neg hi]
  rfl

theorem parseInterface_alt {n : Nat} (hi : s.index + 2 < 512) (hifno : s.ifno = n) (hn : n < 8)
    (hnum : ((buffer.byte (s.index + 2)).toNat : Int) = s.currIfNum)
    : parseInterface strictMem buffer s =
        .ok { s with
          mem := s.mem.write (ifOffset n + 10) [s.mem.byte (ifOffset n + 10) + 1] } := by
  unfold parseInterface
  rw [rd_eq, if_pos hi]
  dsimp only [Bind.bind, Except.bind]
  have hin : (ConfigLoc.ifDesc n 10).InBounds := ConfigLoc.inBounds_ifDesc hn (by omega)
  rw [if_neg (not_not.mpr hnum), hifno, strictMem_ld hin]
  dsimp only
  rw [strictMem_st hin]
  simp only [ConfigLoc.offset_ifDesc]
  rfl

/-- The memory after the descriptor at `i` was stored as `ep_desc[e]` of interface `n`. -/
def storeEndpoint (c : Bytes 1002) (buffer : Bytes 512) (i n e : Nat) : Bytes 1002 :=
  (c.write (ifOffset n + 9) [c.byte (ifOffset n + 9) + 1]).write (epOffset n e)
    (buffer.range i (buffer.byte i).toNat)

theorem parseEndpoint_some {n e : Nat} (hi : s.index < 512) (hifno : s.ifno = n) (hn : n < 8)
    (he : (s.mem.byte (ifOffset n + 9)).toNat = e)
    : parseEndpoint strictMem buffer s =
        if EndpointFits buffer s.index e then
          .ok { s with mem := storeEndpoint s.mem buffer s.index n e }
        else
          .error .fault := by
  have hin : (ConfigLoc.ifDesc n 9).InBounds := ConfigLoc.inBounds_ifDesc hn (by omega)
  unfold parseEndpoint
  rw [hifno, strictMem_ld hin]
  dsimp only [Bind.bind, Except.bind]
  rw [strictMem_st hin, ConfigLoc.offset_ifDesc]
  dsimp only
  rw [rd_eq, if_pos hi]
  dsimp only
  rw [rdRange_eq buffer hi, he]
  by_cases hlen : s.index + (buffer.byte s.index).toNat ≤ 512
  . rw [if_pos hlen]
    dsimp only
    by_cases h : e < 16 ∧ (buffer.byte s.index).toNat ≤ 7
    . obtain ⟨he16, h7⟩ := h
      have hep : (ConfigLoc.epDesc n e 0).InBounds :=
        ConfigLoc.inBounds_epDesc hn he16 (by omega)
      rw [if_pos ⟨he16, h7, hlen⟩, strictMem_copy hep (by simpa [ConfigLoc.room] using h7)]
      simp only [ConfigLoc.offset_epDesc]
      rfl
    . rw [if_neg fun hf => h ⟨hf.1, hf.2.1⟩, strictMem_copy_fault]
      rintro ⟨⟨-, -, h16, -⟩, h7⟩
      rw [Bytes.length_range] at h7
      exact h ⟨h16, h7⟩
  . rw [if_neg hlen, if_neg fun hf => hlen hf.2.2]

theorem parseEndpoint_none (hifno : s.ifno = -1)
    : parseEndpoint strictMem buffer s = .error .fault := by
  unfold parseEndpoint
  rw [hifno, strictMem_ld_fault]
  . rfl
  . rintro ⟨h, -⟩
    exact absurd h (by decide)

end
