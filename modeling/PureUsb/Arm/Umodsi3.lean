import PureUsb.Arm.LongDivision

/-!
This module contains the unsigned remainder `__umodsi3`. Its last round may subtract too much; which subtractions it
made is noted in the top three bits of a register, so that they can be undone.
-/

namespace Arm

open LongDivision

namespace umodsi3

/-! ### Subtractions that are undone -/

section

variable {k j : Nat} {N c d n : Word}

/-- The bit `2 ^ k`, rotated by `j`, is one of the top three bits. -/
def Top (k j : Nat) : Prop := 29 ≤ (k + 32 - j) % 32

instance : Decidable (Top k j) := inferInstanceAs (Decidable (_ ≤ _))

/-- How the bits of a round are noted. The first one is not. -/
def mark (c : Word) : Nat → Word
  | 0 => 0
  | j + 1 => c.rotateRight (j + 1)

/-- The subtraction for the bit `j` is undone if it was made, and is noted at the top. -/
def undo (k : Nat) (d n x : Word) (j : Nat) : Word := if fits d n j ∧ Top k j then x + d >>> j else x

/-- What the routine returns after a last round with the divisor `d`, shifted up by `k`, and the dividend `n`. -/
def fixup (k : Nat) (d n : Word) : Word :=
  undo k d n (undo k d n (undo k d n (remaining d n 4) 3) 2) 1

def notes (c : Word) (f₁ f₂ f₃ : Bool) : Word :=
  (bif f₁ then c.rotateRight 1 else 0) ||| (bif f₂ then c.rotateRight 2 else 0) |||
    (bif f₃ then c.rotateRight 3 else 0)

theorem noted_mark
    : noted (mark c) d n 0 4 = notes c (decide (fits d n 1)) (decide (fits d n 2)) (decide (fits d n 3)) := by
  simp only [noted, notes, mark]
  by_cases h₀ : fits d n 0 <;> by_cases h₁ : fits d n 1 <;> by_cases h₂ : fits d n 2 <;>
    by_cases h₃ : fits d n 3 <;> simp [h₀, h₁, h₂, h₃]

theorem notes_top : ∀ k < 32, ∀ f₁ f₂ f₃ : Bool, ∀ c o : Word, c = 1#32 <<< k → o = notes c f₁ f₂ f₃ &&& 0xe0000000#32 →
    (o &&& c.rotateRight 1 ≠ 0 ↔ f₁ = true ∧ Top k 1) ∧ (o &&& c.rotateRight 2 ≠ 0 ↔ f₂ = true ∧ Top k 2) ∧
      (o &&& c.rotateRight 3 ≠ 0 ↔ f₃ = true ∧ Top k 3) := by
  have hall : ∀ k < 32, ∀ f₁ f₂ f₃ : Bool, ∀ j ∈ [(1, f₁), (2, f₂), (3, f₃)],
      (notes (1#32 <<< k) f₁ f₂ f₃ &&& 0xe0000000#32 &&& (1#32 <<< k).rotateRight j.1 ≠ 0
        ↔ j.2 = true ∧ Top k j.1) := by
    decide +kernel
  rintro k hk f₁ f₂ f₃ c o rfl rfl
  have h := hall k hk f₁ f₂ f₃
  exact ⟨h (1, f₁) (by simp), h (2, f₂) (by simp), h (3, f₃) (by simp)⟩

theorem undo_test {x o : Word} (hc : c.toNat = 2 ^ k) (hk : k < 32) (ho : o = noted (mark c) d n 0 4 &&& 0xe0000000#32)
    (hj : j = 1 ∨ j = 2 ∨ j = 3)
    : (if o &&& c.rotateRight j = 0 then x else x + d >>> j) = undo k d n x j := by
  have hone : c = 1#32 <<< k := by
    have hlt : 2 ^ k < 2 ^ 32 := Nat.pow_lt_pow_right (by decide) hk
    apply BitVec.eq_of_toNat_eq
    rw [hc, BitVec.toNat_shiftLeft, Nat.shiftLeft_eq, BitVec.toNat_ofNat, Nat.one_mod, Nat.one_mul,
      Nat.mod_eq_of_lt hlt]
  rw [noted_mark] at ho
  obtain ⟨h₁, h₂, h₃⟩ := notes_top k hk _ _ _ c o hone ho
  rw [decide_eq_true_eq] at h₁ h₂ h₃
  have hiff : o &&& c.rotateRight j ≠ 0 ↔ fits d n j ∧ Top k j := by
    rcases hj with rfl | rfl | rfl
    . exact h₁
    . exact h₂
    . exact h₃
  unfold undo
  by_cases hzero : o &&& c.rotateRight j = 0
  . rw [if_pos hzero, if_neg (fun h => hiff.2 h hzero)]
  . rw [if_neg hzero, if_pos (hiff.1 hzero)]

theorem undo_remaining (h : Top k j) : undo k d n (remaining d n (j + 1)) j = remaining d n j := by
  unfold undo
  rw [remaining_succ]
  by_cases hf : fits d n j
  . rw [if_pos ⟨hf, h⟩, if_pos hf, BitVec.sub_add_cancel]
  . rw [if_neg (fun h => hf h.1), if_neg hf]

theorem undo_of_not_top {x : Word} (h : ¬Top k j) : undo k d n x j = x := if_neg (fun hh => h hh.2)

theorem fixup_of_lt (hk : k < 4) : fixup k d n = remaining d n (k + 1) := by
  unfold fixup
  rcases k with _ | _ | _ | _ | k
  . rw [undo_remaining (by decide), undo_remaining (by decide), undo_remaining (by decide)]
  . rw [undo_remaining (by decide), undo_remaining (by decide), undo_of_not_top (by decide)]
  . rw [undo_remaining (by decide), undo_of_not_top (by decide), undo_of_not_top (by decide)]
  . rw [undo_of_not_top (by decide), undo_of_not_top (by decide), undo_of_not_top (by decide)]
  . omega

theorem fixup_of_le (hk : 4 ≤ k) (hk' : k < 30) : fixup k d n = remaining d n 4 := by
  have hnot (j : Nat) (hj : 0 < j ∧ j < 4) : ¬Top k j := by
    unfold Top
    omega
  unfold fixup
  rw [undo_of_not_top (hnot 3 (by decide)), undo_of_not_top (hnot 2 (by decide)), undo_of_not_top (hnot 1 (by decide))]

/--
Dividends and divisors that the first round finishes with a bit so high that its notes are taken for superfluous
subtractions.
-/
def wronglyUndone : List (Word × Word) :=
  [5, 6, 7, 10, 11, 12, 13, 14, 15].map (fun x => (x * 0x10000000, 1)) ++
    [5, 6, 7].map (fun x => (x * 0x8000000, 1)) ++
    [5, 6, 7, 12, 13, 14, 15].map (fun x => (x * 0x10000000, 2)) ++
    [5, 6, 7].map (fun x => (x * 3 * 0x8000000, 3))

/-- What the loops that shift the divisor up establish, with the dividend `n` and the divisor `b * 2 ^ k`. -/
structure Shifted (n b k : Nat) : Prop where
  lt : b * 2 ^ k < 2 ^ 32
  stop : 2 ^ 31 ≤ b * 2 ^ k ∨ n ≤ b * 2 ^ k
  /-- the last shift was by four bits, or by one bit because it had to be -/
  last : 4 ∣ k ∨ b * 2 ^ (k - 1) < n

instance (n b k : Nat) : Decidable (Shifted n b k) :=
  decidable_of_iff (b * 2 ^ k < 2 ^ 32 ∧ (2 ^ 31 ≤ b * 2 ^ k ∨ n ≤ b * 2 ^ k) ∧ (4 ∣ k ∨ b * 2 ^ (k - 1) < n))
    ⟨fun h => ⟨h.1, h.2.1, h.2.2⟩, fun h => ⟨h.lt, h.stop, h.last⟩⟩

theorem shifted_of_wronglyUndone : ∀ p ∈ wronglyUndone, ∀ k < 32, Shifted p.1.toNat p.2.toNat k →
    30 ≤ k ∧ remaining (p.2 <<< k) p.1 4 = 0 := by
  have hall : wronglyUndone.all (fun p => (List.range 32).all (fun k =>
      !decide (Shifted p.1.toNat p.2.toNat k) || decide (30 ≤ k ∧ remaining (p.2 <<< k) p.1 4 = 0))) = true := by
    decide +kernel
  intro p hp k hk hs
  have hk' := List.all_eq_true.1 (List.all_eq_true.1 hall p hp) k (List.mem_range.2 hk)
  rw [decide_eq_true hs, Bool.not_true, Bool.false_or] at hk'
  exact of_decide_eq_true hk'

def subtracted (d : Word) (f₀ f₁ f₂ f₃ : Bool) : Word :=
  (bif f₃ then d >>> 3 else 0) + (bif f₂ then d >>> 2 else 0) + (bif f₁ then d >>> 1 else 0) +
    (bif f₀ then d >>> 0 else 0)

theorem eq_subtracted (h : remaining d n 4 = 0)
    : n = subtracted d (decide (fits d n 0)) (decide (fits d n 1)) (decide (fits d n 2)) (decide (fits d n 3)) := by
  have hadd (j : Nat) : remaining d n j = remaining d n (j + 1) + bif decide (fits d n j) then d >>> j else 0 := by
    rw [remaining_succ]
    by_cases hf : fits d n j
    . simp only [hf, if_true, decide_true, cond_true, BitVec.sub_add_cancel]
    . simp [hf]
  have hlast : remaining d n 3 = bif decide (fits d n 3) then d >>> 3 else 0 := by
    rw [hadd 3, h]
    exact BitVec.zero_add _
  calc n = remaining d n 0 := rfl
    _ = subtracted d _ _ _ _ := by
      rw [hadd 0, hadd 1, hadd 2, hlast]
      rfl

theorem fixup_subtracted : ∀ p ∈ ([(31, 1), (30, 1), (30, 2), (30, 3)] : List (Nat × Word)), ∀ f₀ f₁ f₂ f₃ : Bool,
    Shifted (subtracted (p.2 <<< p.1) f₀ f₁ f₂ f₃).toNat p.2.toNat p.1 →
      remaining (p.2 <<< p.1) (subtracted (p.2 <<< p.1) f₀ f₁ f₂ f₃) 4 = 0 →
        (fixup p.1 (p.2 <<< p.1) (subtracted (p.2 <<< p.1) f₀ f₁ f₂ f₃) = 0
          ↔ (subtracted (p.2 <<< p.1) f₀ f₁ f₂ f₃, p.2) ∉ wronglyUndone) := by
  decide +kernel

/-- A first round with one of the two highest bits that leaves nothing of the dividend. -/
theorem fixup_first {b : Word} (hb : 0 < b.toNat) (hs : Shifted n.toNat b.toNat k) (hk : 30 ≤ k)
    (h : remaining (b <<< k) n 4 = 0)
    : fixup k (b <<< k) n = 0 ↔ (n, b) ∉ wronglyUndone := by
  have hlt : b.toNat * 2 ^ k < 2 ^ 32 := hs.lt
  have hk' := lt_of_mul_two_pow_lt hb hlt
  have hmem : (k, b) ∈ ([(31, 1), (30, 1), (30, 2), (30, 3)] : List (Nat × Word)) := by
    obtain rfl | rfl : k = 30 ∨ k = 31 := by omega
    . obtain h | h | h : b = 1 ∨ b = 2 ∨ b = 3 := by bv_omega
      all_goals simp [h]
    . have h : b = 1 := by bv_omega
      simp [h]
  have hsum := eq_subtracted h
  rw [hsum] at hs h ⊢
  exact fixup_subtracted _ hmem _ _ _ _ hs h

/-- A round with the divisor `d`, shifted up by `k`, and the dividend `n`. The first round has shifted it by `k₀`. -/
structure Rest (N B : Word) (k₀ k : Nat) (n d c : Word) : Prop where
  divisor : d.toNat = B.toNat * 2 ^ k
  curbit : c.toNat = 2 ^ k
  part : ∃ q : Word, Partial N.toNat B.toNat n.toNat q.toNat (2 ^ (k + 1))
  first : n = N ∧ k = k₀ ∨ k + 4 ≤ k₀ ∧ remaining (B <<< k₀) N 4 ≠ 0

section

variable {B : Word} {k₀ : Nat}

theorem Rest.divisor_eq (h : Rest N B k₀ k n d c) : d = B <<< k := by
  have hlt := d.isLt
  rw [h.divisor] at hlt
  apply BitVec.eq_of_toNat_eq
  rw [h.divisor, BitVec.toNat_shiftLeft, Nat.shiftLeft_eq, Nat.mod_eq_of_lt hlt]

theorem Rest.next (h : Rest N B k₀ k n d c) (hk : 4 ≤ k) (hn : remaining d n 4 ≠ 0)
    : Rest N B k₀ (k - 4) (remaining d n 4) (d >>> 4) (c >>> 4) := by
  obtain ⟨q, hpart⟩ := h.part
  refine ⟨toNat_shiftRight_mul h.divisor hk, toNat_shiftRight_pow h.curbit hk, ?_, ?_⟩
  . have hbits := hpart.bits h.divisor h.curbit (show 4 ≤ k + 1 by omega)
    rw [← Nat.sub_add_comm hk]
    exact ⟨_, hbits⟩
  . right
    rw [Nat.sub_add_cancel hk]
    rcases h.first with ⟨rfl, rfl⟩ | ⟨hle, hne⟩
    . rw [h.divisor_eq] at hn
      exact ⟨Nat.le_refl _, hn⟩
    . exact ⟨by omega, hne⟩

/-- After the last round, the fixups leave the remainder, unless they undo what they should not. -/
theorem Rest.fixup (h : Rest N B k₀ k n d c) (hs : Shifted N.toNat B.toNat k₀) (hB : 0 < B.toNat)
    (hexit : k < 4 ∨ remaining d n 4 = 0)
    : fixup k d n = N % B ↔ (N, B) ∉ wronglyUndone := by
  obtain ⟨q, hpart⟩ := h.part
  have hk₀ := lt_of_mul_two_pow_lt hB hs.lt
  -- an early round of the bad inputs is the first one, with one of the highest bits
  have hgood (hk : k < 30) : (N, B) ∉ wronglyUndone := by
    intro hmem
    obtain ⟨hhigh, hzero⟩ := shifted_of_wronglyUndone _ hmem k₀ hk₀ hs
    rcases h.first with ⟨-, heq⟩ | ⟨-, hne⟩
    . omega
    . exact hne hzero
  by_cases hk : k < 4
  . have hmod : Arm.umodsi3.fixup k d n = N % B := by
      rw [fixup_of_lt hk]
      apply BitVec.eq_of_toNat_eq
      rw [hpart.modulo h.divisor h.curbit, BitVec.toNat_umod]
    exact iff_of_true hmod (hgood (by omega))
  . have hzero : remaining d n 4 = 0 := hexit.resolve_left hk
    have hmod : N % B = 0 := by
      have hbits := hpart.bits h.divisor h.curbit (show 4 ≤ k + 1 by omega)
      rw [hzero] at hbits
      apply BitVec.eq_of_toNat_eq
      rw [BitVec.toNat_umod]
      exact hbits.of_zero.2
    rw [hmod]
    by_cases hhigh : k < 30
    . rw [fixup_of_le (by omega) hhigh]
      exact iff_of_true hzero (hgood hhigh)
    . rcases h.first with ⟨rfl, rfl⟩ | ⟨hle, -⟩
      . rw [h.divisor_eq] at hzero ⊢
        exact fixup_first hB hs (by omega) hzero
      . omega

end

end

/-! ### The routine -/

abbrev dividend : Reg := .r0
abbrev divisor : Reg := .r1
abbrev overdone : Reg := .r2
abbrev curbit : Reg := .r3

inductive Label where
  | Loop1 | Lbignum | Loop3 | Ldiv0 | __div0
  deriving DecidableEq

open Label

/-- `__umodsi3` -/
def listing : List (Line Label) :=
  [.op (.test .cmp .al divisor (.imm 0)),
   .op (.b .eq Ldiv0),
   .op (.mov .al false curbit (.imm 1)),
   .op (.test .cmp .al dividend (.reg divisor)),
   .op (.ret .cc),
   .label Loop1,
   .op (.test .cmp .al divisor (.imm 0x10000000)),
   .op (.test .cmp .cc divisor (.reg dividend)),
   .op (.mov .cc false divisor (.shift divisor .lsl 4)),
   .op (.mov .cc false curbit (.shift curbit .lsl 4)),
   .op (.b .cc Loop1),
   .label Lbignum,
   .op (.test .cmp .al divisor (.imm 0x80000000)),
   .op (.test .cmp .cc divisor (.reg dividend)),
   .op (.mov .cc false divisor (.shift divisor .lsl 1)),
   .op (.mov .cc false curbit (.shift curbit .lsl 1)),
   .op (.b .cc Lbignum),
   .label Loop3,
   .op (.mov .al false overdone (.imm 0)),
   .op (.test .cmp .al dividend (.reg divisor)),
   .op (.alu .sub .cs false dividend dividend (.reg divisor)),
   .op (.test .cmp .al dividend (.shift divisor .lsr 1)),
   .op (.alu .sub .cs false dividend dividend (.shift divisor .lsr 1)),
   .op (.alu .orr .cs false overdone overdone (.shift curbit .ror 1)),
   .op (.test .cmp .al dividend (.shift divisor .lsr 2)),
   .op (.alu .sub .cs false dividend dividend (.shift divisor .lsr 2)),
   .op (.alu .orr .cs false overdone overdone (.shift curbit .ror 2)),
   .op (.test .cmp .al dividend (.shift divisor .lsr 3)),
   .op (.alu .sub .cs false dividend dividend (.shift divisor .lsr 3)),
   .op (.alu .orr .cs false overdone overdone (.shift curbit .ror 3)),
   .op (.mov .al false .ip (.reg curbit)),
   .op (.test .cmp .al dividend (.imm 0)),
   .op (.mov .ne true curbit (.shift curbit .lsr 4)),
   .op (.mov .ne false divisor (.shift divisor .lsr 4)),
   .op (.b .ne Loop3),
   .op (.alu .and .al true overdone overdone (.imm 0xe0000000)),
   .op (.ret .eq),
   .op (.test .tst .al overdone (.shift .ip .ror 3)),
   .op (.alu .add .ne false dividend dividend (.shift divisor .lsr 3)),
   .op (.test .tst .al overdone (.shift .ip .ror 2)),
   .op (.alu .add .ne false dividend dividend (.shift divisor .lsr 2)),
   .op (.test .tst .al overdone (.shift .ip .ror 1)),
   .op (.alu .add .ne false dividend dividend (.shift divisor .lsr 1)),
   .op (.ret .al),
   .label Ldiv0,
   .op (.push [.lr]),
   .op (.bl __div0),
   .op (.mov .al false .r0 (.imm 0)),
   .op .popPc]

/-- The labels, for a routine at `base` that calls `__div0` at `div0`. -/
def target (base div0 : Word) : Label → Word
  | __div0 => div0
  | l => address base (indexOf l listing)

def work : Work where
  dividend := dividend
  divisor := divisor
  result := overdone
  curbit := curbit
  nodup := by decide

def regs : List Reg := [.r0, .r1, .r2, .r3, .ip]

def roundBits : List (Instr Word) :=
  [.mov .al false overdone (.imm 0)] ++
    (bit work 0 ++ bitNoted work (.shift curbit .ror 1) 1 ++ bitNoted work (.shift curbit .ror 2) 2 ++
      bitNoted work (.shift curbit .ror 3) 3) ++ [.mov .al false .ip (.reg curbit)]

/-- What a round leaves for the fixups, with the divisor `d`, the dividend `n`, and the bit `c`. -/
structure Round (d n c : Word) (s t : State) : Prop where
  dividend : t.reg dividend = remaining d n 4
  divisor : t.reg divisor = d
  overdone : t.reg overdone = noted (mark c) d n 0 4
  curbit : t.reg curbit = c
  ip : t.reg .ip = c
  keeps : Keeps regs s t

section

variable {code : Code} {base div0 : Word} {s t : State}

theorem round_roundBits
    : Round (s.reg divisor) (s.reg dividend) (s.reg curbit) s (roundBits.foldl State.run s) := by
  have hstart : Found work (mark (s.reg curbit)) (s.set overdone 0) (s.set overdone 0) 0 := .start
  have hmark (j : Nat) (u : State) (h : Keeps [work.dividend, work.result] (s.set overdone 0) u)
      : (Operand.shift curbit .ror (j + 1)).value u = mark (s.reg curbit) (j + 1) := by
    rw [Operand.value_ror, h.reg _ (by decide), State.set_reg_of_ne (by decide), mark]
  have hfound := (((hstart.bit rfl).bitNoted (hmark 0)).bitNoted (hmark 1)).bitNoted (hmark 2)
  unfold roundBits
  simp only [List.foldl_append, List.foldl_cons, List.foldl_nil, State.run_mov, State.holds_al, if_true,
    Operand.value_imm, Operand.value_reg]
  generalize List.foldl State.run _ (bitNoted work (.shift curbit .ror 3) 3) = u at hfound ⊢
  have hkeeps : Keeps regs s u := (Keeps.set .refl (by decide)).trans (hfound.keeps.mono (by decide))
  have hcurbit : u.reg .r3 = s.reg .r3 := (hfound.keeps.reg .r3 (by decide)).trans (State.set_reg_of_ne (by decide))
  refine ⟨?_, ?_, ?_, ?_, ?_, hkeeps.set (by decide)⟩
  . exact hfound.dividend
  . exact hfound.divisor
  . exact hfound.result
  . exact hcurbit
  . rw [State.set_reg_self]
    exact hcurbit

theorem reaches_fixups {N B : Word} {k₀ : Nat} (hcode : CodeAt code base (assemble (target base div0) listing))
    (hs : Rest N B k₀ k₀ (s.reg dividend) (s.reg divisor) (s.reg curbit))
    : Reaches code (address base 15, s) (fun (pc, t) => pc = address base 32 ∧ ∃ k n d c,
        Rest N B k₀ k n d c ∧ (k < 4 ∨ remaining d n 4 = 0) ∧ t.reg dividend = remaining d n 4 ∧
        t.reg divisor = d ∧ t.reg overdone = noted (mark c) d n 0 4 ∧ t.reg .ip = c ∧ Keeps regs s t) := by
  refine Reaches.loop (P := fun t => ∃ k, Rest N B k₀ k (t.reg dividend) (t.reg divisor) (t.reg curbit) ∧ Keeps regs s t)
    (fun t => (t.reg curbit).toNat) ⟨k₀, hs, .refl⟩ ?_
  rintro t ⟨k, h, hkeeps⟩
  have hblock := hcode.branchAt 15 (roundBits ++ nextBits work) rfl rfl t
  rw [List.foldl_append] at hblock
  have hround := round_roundBits (s := t)
  generalize roundBits.foldl State.run t = u at hblock hround
  obtain ⟨hne, hdiv, hcur, hnext⟩ := run_nextBits (w := work) (s := u) rfl
  generalize (nextBits work).foldl State.run u = v at hblock hne hdiv hcur hnext
  have hdividend : v.reg .r0 = remaining (t.reg divisor) (t.reg dividend) 4 :=
    (hnext.reg .r0 (by decide)).trans hround.dividend
  have hall : Keeps regs s v := (hkeeps.trans hround.keeps).trans (hnext.mono (by decide))
  refine .next hblock (.here ?_)
  have hne' : v.holds .ne = true ↔ 4 ≤ k ∧ remaining (t.reg divisor) (t.reg dividend) 4 ≠ 0 := by
    rw [hne, and_comm, ← shiftRight_pow_ne_zero h.curbit, ← hround.curbit, ← hround.dividend]
    rfl
  by_cases hgo : v.holds .ne = true
  . right
    rw [if_pos hgo] at hdiv
    obtain ⟨hk, hn⟩ := hne'.1 hgo
    have hv : Rest N B k₀ (k - 4) (v.reg .r0) (v.reg .r1) (v.reg .r3) := by
      have hnext := h.next hk hn
      rw [← hround.divisor, ← hround.curbit] at hnext
      rw [hdividend, ← hround.divisor]
      exact hdiv ▸ hcur hgo ▸ hnext
    refine ⟨if_pos hgo, ⟨k - 4, hv, hall⟩, ?_⟩
    show (v.reg .r3).toNat < (t.reg .r3).toNat
    rw [hv.curbit, h.curbit]
    exact Nat.pow_lt_pow_right (by decide) (by omega)
  . left
    rw [if_neg hgo] at hdiv
    rw [if_neg hgo]
    refine ⟨rfl, k, _, _, _, h, ?_, hdividend, ?_, ?_, ?_, hall⟩
    . rw [hne', not_and_or, Nat.not_le, not_not] at hgo
      exact hgo
    . exact hdiv.trans hround.divisor
    . exact (hnext.reg .r2 (by decide)).trans hround.overdone
    . exact (hnext.reg .ip (by decide)).trans hround.ip

def undoBit (j : Nat) : List (Instr Word) :=
  [.test .tst .al overdone (.shift .ip .ror j), .alu .add .ne false dividend dividend (.shift divisor .lsr j)]

/-- What the fixups work on. -/
structure Fixing (d c o x : Word) (s t : State) : Prop where
  dividend : t.reg dividend = x
  divisor : t.reg divisor = d
  overdone : t.reg overdone = o
  ip : t.reg .ip = c
  keeps : Keeps [.r0, .r2] s t

theorem Fixing.undoBit {d c o x : Word} {j : Nat} (h : Fixing d c o x s t)
    : Fixing d c o (if o &&& c.rotateRight j = 0 then x else x + d >>> j) s ((undoBit j).foldl State.run t) := by
  unfold Arm.umodsi3.undoBit
  rw [List.foldl_cons, List.foldl_cons, List.foldl_nil, State.run_tst, State.run_add]
  refine ⟨?_, h.divisor, h.overdone, h.ip, Keeps.set ⟨h.keeps.reg, h.keeps.mem⟩ (by decide)⟩
  have hdividend := h.dividend
  have hdivisor := h.divisor
  have hover := h.overdone
  by_cases hzero : o &&& c.rotateRight j = 0#32 <;> simp [hdividend, hdivisor, hover, h.ip, hzero]

theorem exec_fixups {k : Nat} {d n c : Word} (hcode : CodeAt code base (assemble (target base div0) listing))
    (hc : c.toNat = 2 ^ k) (hk : k < 32) (hdividend : s.reg dividend = remaining d n 4) (hdivisor : s.reg divisor = d)
    (hover : s.reg overdone = noted (mark c) d n 0 4) (hip : s.reg .ip = c)
    : ∃ t, Exec code (address base 32, s) (s.reg .lr, t) ∧ t.reg .r0 = fixup k d n ∧ Keeps [.r0, .r2] s t := by
  have hands := hcode.retAt 32 [.alu .and .al true overdone overdone (.imm 0xe0000000)] rfl rfl s
  have hundo := hcode.retAt 34 (undoBit 3 ++ undoBit 2 ++ undoBit 1) rfl rfl
  rw [List.foldl_cons, List.foldl_nil, State.run_ands, Operand.value_imm, hover] at hands
  generalize ho : noted (mark c) d n 0 4 &&& 0xe0000000 = o at hands
  have htest (x : Word) (j : Nat) := @undo_test k j c d n x o hc hk ho.symm
  generalize hu : (State.set _ overdone o) = u at hands
  have hfixing : Fixing d c o (remaining d n 4) s u := by
    subst hu
    exact ⟨hdividend, hdivisor, State.set_reg_self, hip, Keeps.set ⟨fun _ _ => rfl, rfl⟩ (by decide)⟩
  have hz : u.holds .eq = decide (o = 0) := by
    subst hu
    rfl
  have hlr : u.reg .lr = s.reg .lr := hfixing.keeps.reg .lr (by decide)
  rw [hz, hlr] at hands
  by_cases hzero : o = 0
  . rw [if_pos (decide_eq_true hzero)] at hands
    refine ⟨u, hands, ?_, hfixing.keeps⟩
    have hnone (x : Word) (j : Nat) (hj : j = 1 ∨ j = 2 ∨ j = 3) : undo k d n x j = x := by
      rw [← htest x j hj, hzero]
      exact if_pos BitVec.zero_and
    rw [fixup, hnone _ 3 (by decide), hnone _ 2 (by decide), hnone _ 1 (by decide)]
    exact hfixing.dividend
  . rw [if_neg (by simpa using hzero)] at hands
    have hret := hundo u
    simp only [List.foldl_append] at hret
    have hdone := (hfixing.undoBit (j := 3)).undoBit (j := 2) |>.undoBit (j := 1)
    rw [htest _ 3 (by decide), htest _ 2 (by decide), htest _ 1 (by decide)] at hdone
    generalize List.foldl State.run _ (undoBit 1) = v at hret hdone
    have hvlr : v.reg .lr = s.reg .lr := hdone.keeps.reg .lr (by decide)
    rw [State.holds_al, if_pos rfl, hvlr] at hret
    exact ⟨v, hands.trans hret, hdone.dividend, hdone.keeps⟩

theorem reaches_loop3 {N B : Word} (hcode : CodeAt code base (assemble (target base div0) listing)) (hB : 0 < B.toNat)
    (hN : s.reg dividend = N) (hd : s.reg divisor = B) (hcur : s.reg curbit = 1)
    : Reaches code (address base 5, s) (fun (pc, t) => pc = address base 15 ∧ ∃ k,
        Shifted N.toNat B.toNat k ∧ Rest N B k k (t.reg dividend) (t.reg divisor) (t.reg curbit) ∧ Keeps regs s t) := by
  have hloops := reaches_shiftUps (w := work) (a := address base 5) (s := s) (k := 0) (b := B.toNat)
    (I := fun k x => x.toNat = 2 ^ k ∧ 4 ∣ k)
    (J := fun k x => x.toNat = 2 ^ k ∧ (4 ∣ k ∨ B.toNat * 2 ^ (k - 1) < N.toNat)) hB
    (ticks_shift 4) (ticks_shift 1)
    (fun k x hlt _ hx => ⟨toNat_curbit hB (by decide) hlt hx.1, by omega⟩)
    (fun k x hx => ⟨hx.1, .inl hx.2⟩)
    (fun k x hlt hn hx => ⟨toNat_curbit hB (by decide) hlt hx.1, .inr hn⟩)
    (address_address base 5 5).symm (hcode.block 5 _ rfl) hN
    (by rw [Nat.pow_zero, Nat.mul_one]; exact congrArg BitVec.toNat hd)
    ⟨congrArg BitVec.toNat hcur, by decide⟩
  refine hloops.bind ?_
  rintro ⟨pc, t⟩ ⟨rfl, k, hdiv, ⟨hbit, hlast⟩, hstop, hkeeps⟩
  have hlt := (t.reg work.divisor).isLt
  rw [hdiv] at hlt
  have hdividend : t.reg dividend = N := (hkeeps.reg _ (by decide)).trans hN
  refine .here ⟨address_address base 5 10, k, ⟨hlt, hstop, hlast⟩, ⟨hdiv, hbit, ⟨0, ?_⟩, .inl ⟨hdividend, rfl⟩⟩,
    hkeeps.mono (by decide)⟩
  rw [hdividend]
  exact .start (lt_of_shiftedUp hB hstop)

theorem exec_start (hcode : CodeAt code base (assemble (target base div0) listing)) (hdiv : s.reg .r1 ≠ 0)
    : ∃ t, Exec code (base, s)
          (if (s.reg .r0).toNat < (s.reg .r1).toNat then s.reg .lr else address base 5, t) ∧
        t.reg curbit = 1 ∧ t.reg dividend = s.reg .r0 ∧ t.reg divisor = s.reg .r1 ∧ Keeps regs s t := by
  have hdz : s.reg .r1 ≠ 0#32 := hdiv
  have hcheck := hcode.branchAt 0 [.test .cmp .al divisor (.imm 0)] rfl rfl s
  have hstart := hcode.retAt 2 [.mov .al false curbit (.imm 1), .test .cmp .al dividend (.reg divisor)] rfl rfl
  generalize hu : List.foldl State.run s _ = u at hcheck
  obtain ⟨hz, hreg, hmem⟩ : u.holds .eq = false ∧ u.reg = s.reg ∧ u.mem = s.mem := by
    subst hu
    simp [hdz]
  have hkeeps : Keeps regs s u := ⟨fun r _ => congrFun hreg r, hmem⟩
  rw [address_zero, hz] at hcheck
  have hrun := hcheck.trans (hstart u)
  generalize ht : List.foldl State.run u _ = t at hrun
  obtain ⟨hcur, hdividend, hdivisor, hlr⟩
      : t.reg curbit = 1 ∧ t.reg dividend = s.reg .r0 ∧ t.reg divisor = s.reg .r1 ∧ t.reg .lr = s.reg .lr := by
    subst ht
    simp [hreg]
  have hbelow : t.holds .cc = true ↔ (s.reg .r0).toNat < (s.reg .r1).toNat := by
    subst ht
    simp [hreg]
  have hkeeps : Keeps regs s t := by
    subst ht
    have hset := hkeeps.set (r := .r3) (x := 1) (by decide)
    exact ⟨hset.reg, hset.mem⟩
  simp only [hbelow, hlr] at hrun
  exact ⟨t, hrun, hcur, hdividend, hdivisor, hkeeps⟩

theorem not_wronglyUndone_of_lt : ∀ p ∈ wronglyUndone, ¬p.1.toNat < p.2.toNat := by
  have hall : wronglyUndone.all (fun p => decide (¬p.1.toNat < p.2.toNat)) = true := by
    decide +kernel
  intro p hp
  exact of_decide_eq_true (List.all_eq_true.1 hall p hp)

/-- `__umodsi3` returns the remainder, unless it undoes subtractions that it should not undo. -/
theorem umodsi3_correct_iff (hcode : CodeAt code base (assemble (target base div0) listing)) (hdiv : s.reg .r1 ≠ 0)
    : ∃ t, Exec code (base, s) (s.reg .lr, t) ∧
        (t.reg .r0 = s.reg .r0 % s.reg .r1 ↔ (s.reg .r0, s.reg .r1) ∉ wronglyUndone) ∧ Keeps regs s t := by
  have hB : 0 < (s.reg .r1).toNat := Nat.pos_of_ne_zero (fun h => hdiv (BitVec.eq_of_toNat_eq h))
  obtain ⟨t, hstart, hcur, hdividend, hdivisor, hkeeps⟩ := exec_start hcode hdiv
  split at hstart
  . next hlt =>
    refine ⟨t, hstart, ?_, hkeeps⟩
    have hmod : s.reg .r0 = s.reg .r0 % s.reg .r1 := by
      apply BitVec.eq_of_toNat_eq
      rw [BitVec.toNat_umod, Nat.mod_eq_of_lt hlt]
    exact iff_of_true (hdividend.trans hmod) (fun hmem => not_wronglyUndone_of_lt _ hmem hlt)
  . obtain ⟨⟨pc, u⟩, hloops, rfl, k₀, hshifted, hrest, hkeeps₁⟩ := reaches_loop3 hcode hB hdividend hdivisor hcur
    obtain ⟨⟨pc, v⟩, hround, rfl, k, n, d, c, hlast, hexit, hd, hv, ho, hip, hkeeps₂⟩ := reaches_fixups hcode hrest
    have hk : k < 32 := by
      have hlt := c.isLt
      rw [hlast.curbit] at hlt
      exact (Nat.pow_lt_pow_iff_right (by decide)).1 hlt
    obtain ⟨w, hfix, hw, hkeeps₃⟩ := exec_fixups hcode hlast.curbit hk hd hv ho hip
    have hall : Keeps regs s v := (hkeeps.trans hkeeps₁).trans hkeeps₂
    rw [hall.reg .lr (by decide)] at hfix
    refine ⟨w, ((hstart.trans hloops).trans hround).trans hfix, ?_, hall.trans (hkeeps₃.mono (by decide))⟩
    rw [hw]
    exact hlast.fixup hshifted hB hexit

theorem umodsi3_correct_iff_1000
    : (∃ t, Exec (load 0 (assemble (target 0 0x200) listing)) (0, .call 1000 7) (0x100, t) ∧ t.reg .r0 = 6) ∧
      ∃ t, Exec (load 0 (assemble (target 0 0x200) listing)) (0, .call 0x50000000 1) (0x100, t) ∧ t.reg .r0 ≠ 0 := by
  have hcode := codeAt_load 0 (assemble (target 0 0x200) listing) (by decide)
  refine ⟨?_, ?_⟩
  . obtain ⟨t, hexec, hiff, -⟩ := umodsi3_correct_iff (s := .call 1000 7) hcode (by decide)
    exact ⟨t, hexec, (hiff.2 (by decide)).trans (by decide)⟩
  . obtain ⟨t, hexec, hiff, -⟩ := umodsi3_correct_iff (s := .call 0x50000000 1) hcode (by decide)
    exact ⟨t, hexec, fun hzero => hiff.1 (hzero.trans (by decide)) (by decide)⟩

end

end umodsi3

end Arm
