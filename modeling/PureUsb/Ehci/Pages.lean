import PureUsb.Ehci.Impl.Async
import Mathlib.Tactic.IntervalCases

/-!
This module contains the buffers that fit the page pointers of a qTD, and the addresses that the controller
finds behind these.
-/

def pageBase (addr : BitVec 32) : BitVec 32 := addr &&& ~~~4095#32

/-- Where the controller looks for the byte at the offset `o` from the start of the first page. -/
def QTD.address (td : QTD) (o : Nat) : Option (BitVec 32) :=
  if h : o / 4096 < 5 then
    some (pageBase (td.qtBuffer ⟨o / 4096, h⟩) + BitVec.ofNat 32 (o % 4096))
  else
    none

/-- The controller finds the `sz` bytes from `addr` on in the pages of `td`. -/
def QTD.Maps (td : QTD) (addr : BitVec 32) (sz : Nat) : Prop :=
  ∀ k < sz, td.address (addr.toNat % 4096 + k) = some (addr + BitVec.ofNat 32 k)

section

variable {td : QTD} {addr : BitVec 32} {sz n idx : Nat}

theorem toNat_pageBase (addr : BitVec 32) : (pageBase addr).toNat = addr.toNat / 4096 * 4096 := by
  have hshift : pageBase addr = (addr >>> 12) <<< 12 := by
    unfold pageBase
    ext i hi
    interval_cases i <;> simp
  have hlt := addr.isLt
  rw [hshift, BitVec.toNat_shiftLeft, BitVec.toNat_ushiftRight, Nat.shiftRight_eq_div_pow, Nat.shiftLeft_eq]
  omega

def pageRest (addr : BitVec 32) : Nat := 4096 - addr.toNat % 4096

theorem pageBase_next (addr : BitVec 32)
    : pageBase (addr + 4096) = addr + BitVec.ofNat 32 (pageRest addr) := by
  have hpage : (4096 : BitVec 32).toNat = 4096 := rfl
  have hlt := addr.isLt
  apply BitVec.eq_of_toNat_eq
  rw [toNat_pageBase, BitVec.toNat_add, BitVec.toNat_add, BitVec.toNat_ofNat, hpage]
  unfold pageRest
  omega

theorem toNat_pageBase_sub (addr : BitVec 32) : (pageBase (addr + 4096) - addr).toNat = pageRest addr := by
  have hrest : pageRest addr ≤ 4096 := Nat.sub_le _ _
  rw [pageBase_next, BitVec.add_comm, BitVec.add_sub_cancel, BitVec.toNat_ofNat]
  omega

theorem pageRest_next (addr : BitVec 32) : pageRest (pageBase (addr + 4096)) = 4096 := by
  unfold pageRest
  rw [toNat_pageBase]
  omega

def QTD.withPage (td : QTD) (idx : Nat) (addr : BitVec 32) : QTD :=
  { td with
    qtBuffer := fun i => if (i : Nat) = idx then addr else td.qtBuffer i
    qtBufferHi := fun i => if (i : Nat) = idx then 0 else td.qtBufferHi i }

theorem tdBufferFrom_succ
    : tdBufferFrom td addr sz (n + 1) idx =
        if pageRest addr ≥ sz then
          (td.withPage idx addr, 0)
        else
          tdBufferFrom (td.withPage idx addr) (pageBase (addr + 4096)) (sz - pageRest addr) n (idx + 1) := by
  rw [← toNat_pageBase_sub]
  rfl

theorem tdBufferFrom_eq_zero_iff (h : 0 < sz ∨ 0 < n)
    : (tdBufferFrom td addr sz n idx).2 = 0 ↔ sz ≤ n * 4096 - addr.toNat % 4096 := by
  induction n generalizing td addr sz idx with
  | zero =>
    show (-1 : Int) = 0 ↔ _
    omega
  | succ n ih =>
    have hrest : pageRest addr = 4096 - addr.toNat % 4096 := rfl
    rw [tdBufferFrom_succ]
    split
    . simp only [true_iff]
      omega
    . have hnext := pageRest_next addr
      unfold pageRest at hnext
      rw [ih (.inl (by omega))]
      omega

theorem tdBufferFrom_qtBuffer {i : Fin 5} (h : (i : Nat) < idx)
    : (tdBufferFrom td addr sz n idx).1.qtBuffer i = td.qtBuffer i := by
  induction n generalizing td addr sz idx with
  | zero => rfl
  | succ n ih =>
    have hpage : (td.withPage idx addr).qtBuffer i = td.qtBuffer i := if_neg (by omega)
    rw [tdBufferFrom_succ]
    split
    . exact hpage
    . rw [ih (by omega), hpage]

theorem tdBufferFrom_self {i : Fin 5} (h : (i : Nat) = idx)
    : (tdBufferFrom td addr sz (n + 1) idx).1.qtBuffer i = addr := by
  have hpage : (td.withPage idx addr).qtBuffer i = addr := if_pos h
  rw [tdBufferFrom_succ]
  split
  . exact hpage
  . rw [tdBufferFrom_qtBuffer (by omega), hpage]

theorem tdBufferFrom_maps (hidx : idx + n = 5)
    (h : (tdBufferFrom td addr sz n idx).2 = 0) {k : Nat} (hk : k < sz)
    : ∃ i : Fin 5, (i : Nat) = idx + (addr.toNat % 4096 + k) / 4096 ∧
        pageBase ((tdBufferFrom td addr sz n idx).1.qtBuffer i) +
          BitVec.ofNat 32 ((addr.toNat % 4096 + k) % 4096) = addr + BitVec.ofNat 32 k := by
  induction n generalizing td addr sz idx k with
  | zero => exact absurd (show (-1 : Int) = 0 from h) (by decide)
  | succ n ih =>
    have hrest : pageRest addr = 4096 - addr.toNat % 4096 := rfl
    by_cases hfirst : k < pageRest addr
    . -- on the first page
      have hself : (tdBufferFrom td addr sz (n + 1) idx).1.qtBuffer ⟨idx, by omega⟩ = addr := tdBufferFrom_self rfl
      refine ⟨⟨idx, by omega⟩, by dsimp only; omega, ?_⟩
      rw [hself]
      have hlt := addr.isLt
      apply BitVec.eq_of_toNat_eq
      rw [BitVec.toNat_add, BitVec.toNat_add, toNat_pageBase, BitVec.toNat_ofNat, BitVec.toNat_ofNat]
      omega
    . -- on one of the pages behind it
      have hnext := pageRest_next addr
      unfold pageRest at hnext
      rw [tdBufferFrom_succ] at h ⊢
      rw [if_neg (by omega)] at h ⊢
      obtain ⟨i, hi, hmaps⟩ := ih (by omega) h (k := k - pageRest addr) (by omega)
      refine ⟨i, by omega, ?_⟩
      have hoffset : (addr.toNat % 4096 + k) % 4096 =
          ((pageBase (addr + 4096)).toNat % 4096 + (k - pageRest addr)) % 4096 := by omega
      rw [hoffset, hmaps, pageBase_next, BitVec.add_assoc, ← BitVec.ofNat_add]
      congr 2
      omega

end

theorem ehciTdBuffer_eq_zero_iff {td : QTD} {addr : BitVec 32} {sz : Nat}
    : (ehciTdBuffer td addr sz).2 = 0 ↔ sz ≤ 5 * 4096 - addr.toNat % 4096 :=
  tdBufferFrom_eq_zero_iff (.inr (by decide))

theorem ehciTdBuffer_maps {td : QTD} {addr : BitVec 32} {sz : Nat} (h : (ehciTdBuffer td addr sz).2 = 0)
    : (ehciTdBuffer td addr sz).1.Maps addr sz := by
  intro k hk
  obtain ⟨i, hi, hmaps⟩ := tdBufferFrom_maps (Nat.zero_add 5) h hk
  have hlt : (addr.toNat % 4096 + k) / 4096 < 5 := by omega
  have hi' : i = ⟨(addr.toNat % 4096 + k) / 4096, hlt⟩ := Fin.ext (by dsimp only; omega)
  subst hi'
  unfold QTD.address
  rw [dif_pos hlt]
  exact congrArg some hmaps
