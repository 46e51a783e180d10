import PureUsb.Arm.LongDivision
import PureUsb.Arm.Absolute

/-!
This module contains the signed remainder `__modsi3`. It counts the shifts of the divisor, so that no comparison is
made with a divisor that has been shifted below its lowest bit.
-/

namespace Arm

open LongDivision

namespace modsi3

inductive Label where
  | l1a | l1b | l1c | l2 | l3 | l4 | l5 | l10 | Ldiv0 | __div0
  deriving DecidableEq

open Label

/-- `ARM_MOD_BODY dividend, divisor, order, spare`, which has no use for `spare` -/
def ARM_MOD_BODY (dividend divisor order : Reg) : List (Line Label) :=
  [.op (.mov .al false order (.imm 0)),
   .label l1a,
   .op (.test .cmp .al divisor (.imm 0x10000000)),
   .op (.test .cmp .lo divisor (.reg dividend)),
   .op (.mov .lo false divisor (.shift divisor .lsl 4)),
   .op (.alu .add .lo false order order (.imm 4)),
   .op (.b .lo l1a),
   .label l1b,
   .op (.test .cmp .al divisor (.imm 0x80000000)),
   .op (.test .cmp .lo divisor (.reg dividend)),
   .op (.mov .lo false divisor (.shift divisor .lsl 1)),
   .op (.alu .add .lo false order order (.imm 1)),
   .op (.b .lo l1b),
   .op (.alu .sub .al true order order (.imm 3)),
   .op (.b .lt l2),
   .label l1c,
   .op (.test .cmp .al dividend (.reg divisor)),
   .op (.alu .sub .hs false dividend dividend (.reg divisor)),
   .op (.test .cmp .al dividend (.shift divisor .lsr 1)),
   .op (.alu .sub .hs false dividend dividend (.shift divisor .lsr 1)),
   .op (.test .cmp .al dividend (.shift divisor .lsr 2)),
   .op (.alu .sub .hs false dividend dividend (.shift divisor .lsr 2)),
   .op (.test .cmp .al dividend (.shift divisor .lsr 3)),
   .op (.alu .sub .hs false dividend dividend (.shift divisor .lsr 3)),
   .op (.test .cmp .al dividend (.imm 1)),
   .op (.mov .al false divisor (.shift divisor .lsr 4)),
   .op (.alu .sub .ge true order order (.imm 4)),
   .op (.b .ge l1c),
   .op (.test .tst .al order (.imm 3)),
   .op (.test .teq .ne dividend (.imm 0)),
   .op (.b .eq l5),
   .label l2,
   .op (.test .cmn .al order (.imm 2)),
   .op (.b .lt l4),
   .op (.b .eq l3),
   .op (.test .cmp .al dividend (.reg divisor)),
   .op (.alu .sub .hs false dividend dividend (.reg divisor)),
   .op (.mov .al false divisor (.shift divisor .lsr 1)),
   .label l3,
   .op (.test .cmp .al dividend (.reg divisor)),
   .op (.alu .sub .hs false dividend dividend (.reg divisor)),
   .op (.mov .al false divisor (.shift divisor .lsr 1)),
   .label l4,
   .op (.test .cmp .al dividend (.reg divisor)),
   .op (.alu .sub .hs false dividend dividend (.reg divisor)),
   .label l5]

/-- `__modsi3` -/
def listing : List (Line Label) :=
  [.op (.test .cmp .al .r1 (.imm 0)),
   .op (.b .eq Ldiv0),
   .op (.alu .rsb .mi false .r1 .r1 (.imm 0)),
   .op (.mov .al true .ip (.reg .r0)),
   .op (.alu .rsb .mi false .r0 .r0 (.imm 0)),
   .op (.alu .sub .al true .r2 .r1 (.imm 1)),
   .op (.test .cmp .ne .r0 (.reg .r1)),
   .op (.mov .eq false .r0 (.imm 0)),
   .op (.test .tst .hi .r1 (.reg .r2)),
   .op (.alu .and .eq false .r0 .r0 (.reg .r2)),
   .op (.b .ls l10)] ++
  ARM_MOD_BODY .r0 .r1 .r2 ++
  [.label l10,
   .op (.test .cmp .al .ip (.imm 0)),
   .op (.alu .rsb .mi false .r0 .r0 (.imm 0)),
   .op (.ret .al),
   .label Ldiv0,
   .op (.push [.lr]),
   .op (.bl __div0),
   .op (.mov .al false .r0 (.imm 0)),
   .op .popPc]

/-- The labels, for a routine at `base` that calls `__div0` at `div0`. -/
def target (base div0 : Word) : Label → Word
  | __div0 => div0
  | l => address base (indexOf l listing)

def work : Work where
  dividend := .r0
  divisor := .r1
  result := .r3
  curbit := .r2
  nodup := by decide

def regs : List Reg := [.r0, .r1, .r2, .r3]

/-- The divisor is shifted up by `k`; the comparisons with it and its lower shifts are left. -/
structure Rest (N b k : Nat) (n d : Word) : Prop where
  divisor : d.toNat = b * 2 ^ k
  part : ∃ q : Word, Partial N b n.toNat q.toNat (2 ^ (k + 1))

section

variable {N b k j : Nat} {n d : Word}

theorem Rest.bits (h : Rest N b k n d) (hj : j ≤ k) : Rest N b (k - j) (remaining d n j) (d >>> j) where
  divisor := toNat_shiftRight_mul h.divisor hj
  part := by
    rw [← Nat.sub_add_comm hj]
    exact Partial.exists_bits h.part h.divisor (Nat.le_succ_of_le hj)

theorem Rest.modulo (h : Rest N b k n d) : (remaining d n (k + 1)).toNat = N % b := by
  obtain ⟨q, hpart⟩ := Partial.exists_bits h.part h.divisor (Nat.le_refl _)
  rw [Nat.sub_self] at hpart
  exact hpart.remainder

theorem Rest.modulo_of_zero (h : Rest N b k 0 d) : N % b = 0 := by
  obtain ⟨q, hpart⟩ := h.part
  exact hpart.of_zero.2

end

section

variable {code : Code} {base div0 : Word} {s t : State} {N b k : Nat}

/-! ### The last comparisons -/

/-- A comparison, and on to the next lower shift of the divisor. -/
def bitDown : List (Instr Word) := bit work 0 ++ [.mov .al false .r1 (.shift .r1 .lsr 1)]

/-- Comparisons with the divisor and its lower shifts. -/
structure Compared (j : Nat) (s t : State) : Prop where
  dividend : t.reg .r0 = remaining (s.reg .r1) (s.reg .r0) j
  divisor : t.reg .r1 = s.reg .r1
  keeps : Keeps [.r0, .r3] s t

theorem Compared.of_found {mark : Nat → Word} {j : Nat} (h : Found work mark s t j) : Compared j s t where
  dividend := h.dividend
  divisor := h.divisor
  keeps := h.keeps

theorem compared_bit : Compared 1 s ((bit work 0).foldl State.run s) :=
  .of_found ((Found.start : Found work (fun _ => 0) s s 0).bit rfl)

theorem run_bitDown (h : Rest N b (k + 1) (s.reg .r0) (s.reg .r1)) (ht : bitDown.foldl State.run s = t)
    : Rest N b k (t.reg .r0) (t.reg .r1) ∧ Keeps regs s t := by
  have hbit := compared_bit (s := s)
  unfold bitDown at ht
  rw [List.foldl_append, List.foldl_cons, List.foldl_nil, State.run_mov] at ht
  generalize (bit work 0).foldl State.run s = u at ht hbit
  subst ht
  refine ⟨?_, (hbit.keeps.mono (by decide)).set (by decide)⟩
  rw [State.set_reg_of_ne (by decide), State.set_reg_self, hbit.dividend]
  simp only [State.holds_al, if_true, Operand.value_lsr, hbit.divisor]
  exact h.bits (Nat.succ_le_succ (Nat.zero_le k))

theorem exec_last (hcode : CodeAt code base (assemble (target base div0) listing)) (h : Rest N b 0 (s.reg .r0) (s.reg .r1))
    : ∃ t, Exec code (address base 48, s) (address base 50, t) ∧ (t.reg .r0).toNat = N % b ∧ Keeps regs s t := by
  have hexec := (hcode.block 48 (bit work 0) rfl).exec rfl s
  rw [address_address] at hexec
  refine ⟨_, hexec, ?_, compared_bit.keeps.mono (by decide)⟩
  rw [compared_bit.dividend]
  exact h.modulo

theorem exec_lastTwo (hcode : CodeAt code base (assemble (target base div0) listing)) (h : Rest N b 1 (s.reg .r0) (s.reg .r1))
    : ∃ t, Exec code (address base 45, s) (address base 50, t) ∧ (t.reg .r0).toNat = N % b ∧ Keeps regs s t := by
  have hexec := (hcode.block 45 bitDown rfl).exec rfl s
  rw [address_address] at hexec
  obtain ⟨hrest, hkeeps⟩ := run_bitDown h rfl
  obtain ⟨t, hlast, ht, hkeeps'⟩ := exec_last hcode hrest
  exact ⟨t, hexec.trans hlast, ht, hkeeps.trans hkeeps'⟩

theorem exec_lastThree (hcode : CodeAt code base (assemble (target base div0) listing)) (h : Rest N b 2 (s.reg .r0) (s.reg .r1))
    : ∃ t, Exec code (address base 42, s) (address base 50, t) ∧ (t.reg .r0).toNat = N % b ∧ Keeps regs s t := by
  have hexec := (hcode.block 42 bitDown rfl).exec rfl s
  rw [address_address] at hexec
  obtain ⟨hrest, hkeeps⟩ := run_bitDown h rfl
  obtain ⟨t, hlast, ht, hkeeps'⟩ := exec_lastTwo hcode hrest
  exact ⟨t, hexec.trans hlast, ht, hkeeps.trans hkeeps'⟩

theorem flagsAdd_order (hk : k < 3)
    : (s.flagsAdd (BitVec.ofNat 32 k - 3) 2).holds .lt = decide (k = 0) ∧
      (s.flagsAdd (BitVec.ofNat 32 k - 3) 2).holds .eq = decide (k = 1) := by
  obtain rfl | rfl | rfl : k = 0 ∨ k = 1 ∨ k = 2 := by omega
  all_goals exact ⟨rfl, rfl⟩

theorem exec_tail (hcode : CodeAt code base (assemble (target base div0) listing)) (hk : k < 3)
    (h : Rest N b k (s.reg .r0) (s.reg .r1)) (ho : s.reg .r2 = BitVec.ofNat 32 k - 3)
    : ∃ t, Exec code (address base 39, s) (address base 50, t) ∧ (t.reg .r0).toNat = N % b ∧ Keeps regs s t := by
  have hlt := hcode.branchAt 39 [.test .cmn .al .r2 (.imm 2)] rfl rfl s
  rw [List.foldl_cons, List.foldl_nil, State.run_cmn, Operand.value_imm, ho] at hlt
  obtain ⟨hholds, hholds'⟩ := flagsAdd_order (s := s) hk
  generalize hu : s.flagsAdd (BitVec.ofNat 32 k - 3) 2 = u at hlt hholds hholds'
  have heq := hcode.branchAt 41 [] rfl rfl u
  rw [List.foldl_nil, hholds'] at heq
  rw [hholds] at hlt
  have hkeeps : Keeps regs s u := by
    subst hu
    exact ⟨fun _ _ => rfl, rfl⟩
  have hrest : Rest N b k (u.reg .r0) (u.reg .r1) := by
    subst hu
    exact h
  have hnext {i : Nat} (hbranch : Exec code (address base 39, s) (address base i, u))
      (hlast : ∃ t, Exec code (address base i, u) (address base 50, t) ∧ (t.reg .r0).toNat = N % b ∧ Keeps regs u t)
      : ∃ t, Exec code (address base 39, s) (address base 50, t) ∧ (t.reg .r0).toNat = N % b ∧ Keeps regs s t := by
    obtain ⟨t, hexec, ht, hkeeps'⟩ := hlast
    exact ⟨t, hbranch.trans hexec, ht, hkeeps.trans hkeeps'⟩
  obtain rfl | rfl | rfl : k = 0 ∨ k = 1 ∨ k = 2 := by omega
  . exact hnext hlt (exec_last hcode hrest)
  . exact hnext (hlt.trans heq) (exec_lastTwo hcode hrest)
  . exact hnext (hlt.trans heq) (exec_lastThree hcode hrest)

/-! ### Four comparisons at a time -/

def fourBits : List (Instr Word) := bit work 0 ++ bit work 1 ++ bit work 2 ++ bit work 3

theorem compared_fourBits : Compared 4 s (fourBits.foldl State.run s) := by
  have hfound := ((((Found.start : Found work (fun _ => 0) s s 0).bit rfl).bit rfl).bit rfl).bit rfl
  unfold fourBits
  simp only [List.foldl_append]
  exact .of_found hfound

/-- Whether there is something left, and on to the next shifts of the divisor. -/
def nextFour : List (Instr Word) :=
  [.test .cmp .al .r0 (.imm 1), .mov .al false .r1 (.shift .r1 .lsr 4), .alu .sub .ge true .r2 .r2 (.imm 4)]

theorem run_nextFour (hpos : (s.reg .r0).toNat < 2 ^ 31) (ht : nextFour.foldl State.run s = t)
    : (t.holds .ge = true ↔ s.reg .r0 ≠ 0 ∧ 4 ≤ (s.reg .r2).toInt) ∧
      t.reg .r1 = s.reg .r1 >>> 4 ∧
      t.reg .r2 = (if s.reg .r0 = 0 then s.reg .r2 else s.reg .r2 - 4) ∧ Keeps [.r1, .r2] s t := by
  unfold nextFour at ht
  rw [List.foldl_cons, List.foldl_cons, List.foldl_cons, List.foldl_nil, State.run_cmp, State.run_mov] at ht
  have hint : (s.reg .r0).toInt = (s.reg .r0).toNat := BitVec.toInt_eq_toNat_of_lt (by omega)
  generalize hu : (State.set _ .r1 _) = u at ht
  have hge : u.holds .ge = true ↔ s.reg .r0 ≠ 0 := by
    have hne : s.reg .r0 = 0 ↔ (s.reg .r0).toNat = 0 := ⟨congrArg BitVec.toNat, fun h => BitVec.eq_of_toNat_eq h⟩
    have hone : (1 : Word).toInt = 1 := rfl
    subst hu
    rw [State.holds_set, Operand.value_imm, State.flagsSub_ge, decide_eq_true_eq, hint, hone, ne_eq, hne]
    omega
  obtain ⟨h1, h2⟩ : u.reg .r1 = s.reg .r1 >>> 4 ∧ u.reg .r2 = s.reg .r2 := by
    subst hu
    simp
  have hkeeps : Keeps [.r1, .r2] s u := by
    subst hu
    exact Keeps.set ⟨fun _ _ => rfl, rfl⟩ (by decide)
  by_cases hzero : s.reg .r0 = 0
  . have hnot : u.holds .ge = false := by
      rw [← Bool.not_eq_true, hge, not_not]
      exact hzero
    rw [State.run_of_not_holds hnot] at ht
    subst ht
    rw [if_pos hzero, hnot]
    exact ⟨⟨Bool.noConfusion, fun h => absurd hzero h.1⟩, h1, h2, hkeeps⟩
  . rw [State.run_of_holds (hge.2 hzero)] at ht
    have hsub : t = (u.flagsSub (u.reg .r2) 4).set .r2 (u.reg .r2 - 4) := ht.symm
    subst hsub
    have hfour : (4 : Word).toInt = 4 := rfl
    refine ⟨?_, ?_, ?_, Keeps.set ⟨hkeeps.reg, hkeeps.mem⟩ (by decide)⟩
    . rw [State.holds_set, State.flagsSub_ge, decide_eq_true_eq, h2, hfour]
      exact ⟨fun h => ⟨hzero, h⟩, And.right⟩
    . rw [State.set_reg_of_ne (by decide), State.flagsSub_reg, h1]
    . rw [State.set_reg_self, if_neg hzero, h2]

/-- What the loop leaves: the remainder, or up to three comparisons. -/
def Left (N b : Nat) (t : State) : Prop :=
  ((t.reg .r0).toNat = N % b ∧ (t.reg .r0 = 0 ∨ t.reg .r2 &&& 3 = 0)) ∨
    ∃ k < 3, Rest N b k (t.reg .r0) (t.reg .r1) ∧ t.reg .r2 = BitVec.ofNat 32 k - 3

theorem toInt_order (hk : 3 ≤ k) (hlt : k < 32) : (BitVec.ofNat 32 k - 3).toInt = (k : Int) - 3 := by
  have hsub : BitVec.ofNat 32 k - 3 = BitVec.ofNat 32 (k - 3) := by bv_omega
  have hsmall : (BitVec.ofNat 32 (k - 3)).toNat = k - 3 := by
    rw [BitVec.toNat_ofNat]
    omega
  rw [hsub, BitVec.toInt_eq_toNat_of_lt (by omega), hsmall]
  omega

theorem run_round (hk : 3 ≤ k) (hb : 0 < b) (h : Rest N b k (s.reg .r0) (s.reg .r1))
    (ho : s.reg .r2 = BitVec.ofNat 32 k - 3) (ht : (fourBits ++ nextFour).foldl State.run s = t)
    : Keeps regs s t ∧
      if t.holds .ge then
        7 ≤ k ∧ Rest N b (k - 4) (t.reg .r0) (t.reg .r1) ∧ t.reg .r2 = BitVec.ofNat 32 (k - 4) - 3
      else
        Left N b t := by
  have hbits := compared_fourBits (s := s)
  rw [List.foldl_append] at ht
  generalize fourBits.foldl State.run s = u at ht hbits
  have hlt : b * 2 ^ k < 2 ^ 32 := h.divisor ▸ (s.reg .r1).isLt
  have hk32 := lt_of_mul_two_pow_lt hb hlt
  have hfour : ∃ q : Word, Partial N b (u.reg .r0).toNat q.toNat (2 ^ (k - 3)) := by
    rw [hbits.dividend]
    exact Partial.exists_bits h.part h.divisor (show 4 ≤ k + 1 by omega)
  have hpos : (u.reg .r0).toNat < 2 ^ 31 := by
    obtain ⟨q, hpart⟩ := hfour
    have hrest := hpart.lt
    have hpow : 2 ^ k = 2 ^ 3 * 2 ^ (k - 3) := by rw [← Nat.pow_add, Nat.add_sub_cancel' hk]
    rw [hpow, Nat.mul_left_comm, Nat.mul_comm b] at hlt
    omega
  obtain ⟨hge, h1, h2, hkeeps⟩ := run_nextFour hpos ht
  have hn : t.reg .r0 = u.reg .r0 := hkeeps.reg .r0 (by decide)
  have hd : u.reg .r1 = s.reg .r1 := hbits.divisor
  have hr2 : u.reg .r2 = s.reg .r2 := hbits.keeps.reg .r2 (by decide)
  rw [hr2, ho, toInt_order hk hk32] at hge
  rw [hr2, ho] at h2
  have hnext (hk4 : 4 ≤ k) : Rest N b (k - 4) (t.reg .r0) (t.reg .r1) := by
    rw [hn, h1, hbits.dividend, hd]
    exact h.bits hk4
  refine ⟨(hbits.keeps.mono (by decide)).trans (hkeeps.mono (by decide)), ?_⟩
  by_cases hzero : u.reg .r0 = 0
  . rw [if_neg (fun h => (hge.1 h).1 hzero)]
    left
    rw [hn, hzero]
    obtain ⟨q, hpart⟩ := hfour
    rw [hzero] at hpart
    exact ⟨hpart.of_zero.2.symm, .inl rfl⟩
  . rw [if_neg hzero] at h2
    split
    . next hgo =>
      have hk7 := (hge.1 hgo).2
      refine ⟨by omega, hnext (by omega), ?_⟩
      rw [h2]
      bv_omega
    . next hstop =>
      have hk7 : k < 7 := by
        refine Decidable.byContradiction fun hlarge => hstop (hge.2 ⟨hzero, ?_⟩)
        omega
      by_cases hlast : k = 3
      . left
        subst hlast
        refine ⟨?_, .inr ?_⟩
        . rw [hn, hbits.dividend]
          exact h.modulo
        . rw [h2]
          decide
      . right
        refine ⟨k - 4, by omega, hnext (by omega), ?_⟩
        rw [h2]
        bv_omega

theorem reaches_left (hcode : CodeAt code base (assemble (target base div0) listing)) (hk : 3 ≤ k) (hb : 0 < b)
    (h : Rest N b k (s.reg .r0) (s.reg .r1)) (ho : s.reg .r2 = BitVec.ofNat 32 k - 3)
    : Reaches code (address base 24, s) (fun (pc, t) => pc = address base 36 ∧ Left N b t ∧ Keeps regs s t) := by
  refine Reaches.loop (P := fun t => ∃ k, 3 ≤ k ∧ Rest N b k (t.reg .r0) (t.reg .r1) ∧
    t.reg .r2 = BitVec.ofNat 32 k - 3 ∧ Keeps regs s t) (fun t => (t.reg .r1).toNat) ⟨k, hk, h, ho, .refl⟩ ?_
  rintro t ⟨k, hk, h, ho, hkeeps⟩
  have hblock := hcode.branchAt 24 (fourBits ++ nextFour) rfl rfl t
  obtain ⟨hround, hnext⟩ := run_round hk hb h ho rfl
  generalize (fourBits ++ nextFour).foldl State.run t = u at hblock hround hnext
  refine .next hblock (.here ?_)
  split at hnext
  . next hgo =>
    obtain ⟨hk7, hrest, horder⟩ := hnext
    right
    refine ⟨if_pos hgo, ⟨k - 4, by omega, hrest, horder, hkeeps.trans hround⟩, ?_⟩
    show (u.reg .r1).toNat < (t.reg .r1).toNat
    rw [hrest.divisor, h.divisor]
    exact Nat.mul_lt_mul_of_pos_left (Nat.pow_lt_pow_right (by decide) (by omega)) hb
  . next hstop =>
    left
    exact ⟨if_neg hstop, hnext, hkeeps.trans hround⟩

theorem run_more
    (ht : [Instr.test (T := Word) .tst .al .r2 (.imm 3), .test .teq .ne .r0 (.imm 0)].foldl State.run s = t)
    : (t.holds .eq = true ↔ s.reg .r2 &&& 3 = 0 ∨ s.reg .r0 = 0) ∧ t.reg = s.reg ∧ t.mem = s.mem := by
  rw [List.foldl_cons, List.foldl_cons, List.foldl_nil, State.run_tst, Operand.value_imm] at ht
  by_cases hthree : s.reg .r2 &&& 3 = 0
  . rw [State.run_of_not_holds] at ht
    . subst ht
      refine ⟨?_, rfl, rfl⟩
      simp only [State.holds_eq, State.flagsLogic_z, decide_eq_true_eq, hthree, true_or]
    . simp only [Instr.cond, State.holds_ne, State.flagsLogic_z, hthree, decide_true, Bool.not_true]
  . rw [State.run_of_holds] at ht
    . subst ht
      refine ⟨?_, rfl, rfl⟩
      have hz : ((s.flagsLogic (s.reg .r2 &&& 3) ((Operand.imm 3).eval s).2).exec (T := Word)
          (.test .teq .ne .r0 (.imm 0))).holds .eq = decide (s.reg .r0 ^^^ 0 = 0) := rfl
      have hxor : s.reg .r0 ^^^ 0 = s.reg .r0 := BitVec.xor_zero
      rw [hz, decide_eq_true_eq, hxor, or_iff_right hthree]
    . simp only [Instr.cond, State.holds_ne, State.flagsLogic_z, hthree, decide_false, Bool.not_false]

theorem exec_left (hcode : CodeAt code base (assemble (target base div0) listing)) (h : Left N b s)
    : ∃ t, Exec code (address base 36, s) (address base 50, t) ∧ (t.reg .r0).toNat = N % b ∧ Keeps regs s t := by
  have hmore := hcode.branchAt 36 [.test .tst .al .r2 (.imm 3), .test .teq .ne .r0 (.imm 0)] rfl rfl s
  obtain ⟨heq, hreg, hmem⟩ := run_more (s := s) rfl
  generalize List.foldl State.run s _ = u at hmore heq hreg hmem
  have hkeeps : Keeps regs s u := ⟨fun r _ => congrFun hreg r, hmem⟩
  by_cases hdone : u.holds .eq = true
  . rw [if_pos hdone] at hmore
    refine ⟨u, hmore, ?_, hkeeps⟩
    rw [hreg]
    rcases h with ⟨hmod, -⟩ | ⟨k, hk, hrest, ho⟩
    . exact hmod
    . have hzero : s.reg .r0 = 0 := by
        refine (heq.1 hdone).resolve_left ?_
        rw [ho]
        obtain rfl | rfl | rfl : k = 0 ∨ k = 1 ∨ k = 2 := by omega
        all_goals decide
      rw [hzero] at hrest ⊢
      exact hrest.modulo_of_zero.symm
  . rw [if_neg hdone] at hmore
    rcases h with ⟨-, hend⟩ | ⟨k, hk, hrest, ho⟩
    . exact absurd (heq.2 hend.symm) hdone
    . rw [← hreg] at hrest ho
      obtain ⟨t, htail, ht, hkeeps'⟩ := exec_tail hcode hk hrest ho
      exact ⟨t, hmore.trans htail, ht, hkeeps.trans hkeeps'⟩

/-! ### The whole routine -/

theorem ticks_add (j : Word) : Ticks work (.alu .add .lo false .r2 .r2 (.imm j)) (· + j) where
  straight := rfl
  run _ := by simp [work]

theorem exec_body (hcode : CodeAt code base (assemble (target base div0) listing)) (hb : 0 < b)
    (hN : (s.reg .r0).toNat = N) (hd : (s.reg .r1).toNat = b)
    : ∃ t, Exec code (address base 11, s) (address base 50, t) ∧ (t.reg .r0).toNat = N % b ∧ Keeps regs s t := by
  have hclear := (hcode.block 11 [.mov .al false .r2 (.imm 0)] rfl).exec rfl s
  rw [address_address, List.foldl_cons, List.foldl_nil, State.run_mov, State.holds_al, if_pos rfl,
    Operand.value_imm] at hclear
  have hkeeps₁ : Keeps regs s (s.set .r2 0) := Keeps.set .refl (by decide)
  have hadd (j k : Nat) (x : Word) (hx : x = BitVec.ofNat 32 k) : x + BitVec.ofNat 32 j = BitVec.ofNat 32 (k + j) := by
    rw [hx, BitVec.ofNat_add]
  obtain ⟨⟨pc, u⟩, hloops, rfl, k, hdiv, ho, hstop, hkeeps₂⟩ := reaches_shiftUps (w := work)
    (a := address base 12) (s := s.set .r2 0) (n := s.reg .r0) (k := 0) (b := b)
    (I := fun k x => x = BitVec.ofNat 32 k) (J := fun k x => x = BitVec.ofNat 32 k)
    hb (ticks_add 4) (ticks_add 1) (fun k x _ _ hx => hadd 4 k x hx) (fun _ _ => id)
    (fun k x _ _ hx => hadd 1 k x hx) (address_address base 12 5).symm (hcode.block 12 _ rfl)
    (State.set_reg_of_ne (by decide)) (by rw [Nat.pow_zero, Nat.mul_one]; exact hd) State.set_reg_self
  have horder := hcode.branchAt 22 [.alu .sub .al true .r2 .r2 (.imm 3)] rfl rfl u
  have ho2 : u.reg .r2 = BitVec.ofNat 32 k := ho
  rw [List.foldl_cons, List.foldl_nil, State.run_subs, Operand.value_imm, ho2, State.holds_set, State.flagsSub_lt]
    at horder
  rw [address_address] at hloops
  generalize hv : (State.set _ .r2 _) = v at horder
  have hkeeps₃ : Keeps regs u v := by
    subst hv
    exact Keeps.set ⟨fun _ _ => rfl, rfl⟩ (by decide)
  have hall : Keeps regs s v := (hkeeps₁.trans (hkeeps₂.mono (by decide))).trans hkeeps₃
  have hv2 : v.reg .r2 = BitVec.ofNat 32 k - 3 := by
    subst hv
    exact State.set_reg_self
  have hrest : Rest N b k (v.reg .r0) (v.reg .r1) := by
    have hv1 : v.reg .r1 = u.reg .r1 := by
      subst hv
      exact State.set_reg_of_ne (by decide)
    have hv0 : v.reg .r0 = s.reg .r0 := by
      subst hv
      exact (hkeeps₂.reg .r0 (by decide)).trans (State.set_reg_of_ne (by decide))
    rw [hv0, hv1]
    refine ⟨hdiv, 0, ?_⟩
    rw [← hN]
    exact .start (lt_of_shiftedUp hb hstop)
  have hlt : b * 2 ^ k < 2 ^ 32 := hdiv ▸ (u.reg .r1).isLt
  have hk32 := lt_of_mul_two_pow_lt hb hlt
  have hint : (BitVec.ofNat 32 k).toInt = k := by
    have hsmall : (BitVec.ofNat 32 k).toNat = k := by
      rw [BitVec.toNat_ofNat]
      omega
    rw [BitVec.toInt_eq_toNat_of_lt (by omega), hsmall]
  have hthree : (3 : Word).toInt = 3 := rfl
  rw [hint, hthree] at horder
  by_cases hk : k < 3
  . rw [if_pos (by simpa using hk)] at horder
    obtain ⟨t, htail, ht, hkeeps₄⟩ := exec_tail hcode hk hrest hv2
    exact ⟨t, ((hclear.trans hloops).trans horder).trans htail, ht, hall.trans hkeeps₄⟩
  . rw [if_neg (by simpa using hk)] at horder
    obtain ⟨⟨pc, w⟩, hloop, rfl, hleft, hkeeps₄⟩ := reaches_left hcode (by omega) hb hrest hv2
    obtain ⟨t, hend, ht, hkeeps₅⟩ := exec_left hcode hleft
    exact ⟨t, (((hclear.trans hloops).trans horder).trans hloop).trans hend, ht, (hall.trans hkeeps₄).trans hkeeps₅⟩

theorem run_shortcuts
    (ht : [Instr.mov (T := Word) .eq false .r0 (.imm 0), .test .tst .hi .r1 (.reg .r2),
      .alu .and .eq false .r0 .r0 (.reg .r2)].foldl State.run s = t)
    : Keeps [.r0] s t ∧
      t.reg .r0 = (if s.z then 0 else if s.c = true ∧ s.reg .r1 &&& s.reg .r2 = 0 then s.reg .r0 &&& s.reg .r2
        else s.reg .r0) ∧
      (t.holds .ls = true ↔ s.z = true ∨ s.c = false ∨ s.reg .r1 &&& s.reg .r2 = 0) := by
  rw [List.foldl_cons, List.foldl_cons, List.foldl_cons, List.foldl_nil, State.run_mov, Operand.value_imm,
    State.holds_eq] at ht
  generalize hu : s.set .r0 (if s.z = true then 0 else s.reg .r0) = u at ht
  have hkeeps : Keeps [.r0] s u := by
    subst hu
    exact Keeps.set .refl (by decide)
  obtain ⟨h0, hz, hc, h1, h2⟩ : u.reg .r0 = (if s.z = true then 0 else s.reg .r0) ∧ u.z = s.z ∧ u.c = s.c ∧
      u.reg .r1 = s.reg .r1 ∧ u.reg .r2 = s.reg .r2 := by
    subst hu
    simp
  by_cases hhi : s.c = true ∧ s.z = false
  . have htst : u.run (T := Word) (.test .tst .hi .r1 (.reg .r2)) = u.flagsLogic (u.reg .r1 &&& u.reg .r2) u.c :=
      State.run_of_holds (by simp [Instr.cond, hz, hc, hhi])
    rw [htst, State.run_and] at ht
    subst ht
    refine ⟨Keeps.set ⟨hkeeps.reg, hkeeps.mem⟩ (by decide), ?_, ?_⟩
    . simp [h0, h1, h2, hhi]
    . simp [h1, h2, hc, hhi]
  . have hlow : s.z = true ∨ s.c = false := by
      cases hzz : s.z
      . right
        simpa [hzz] using hhi
      . exact .inl rfl
    have htst : u.run (T := Word) (.test .tst .hi .r1 (.reg .r2)) = u := by
      refine State.run_of_not_holds ?_
      rcases hlow with h | h <;> simp [Instr.cond, hz, hc, h]
    rw [htst, State.run_and] at ht
    subst ht
    refine ⟨hkeeps.set (by decide), ?_, ?_⟩
    . rcases hlow with h | h
      . simp [h0, hz, h]
      . cases hzz : s.z <;> simp [h0, hz, hzz, h]
    . rcases hlow with h | h <;> simp [hz, hc, h]

theorem exec_positive (hcode : CodeAt code base (assemble (target base div0) listing)) (hdiv : s.reg .r1 ≠ 0)
    : ∃ t, Exec code (base, s) (address base 6, t) ∧ t.reg .r0 = BitVec.abs (s.reg .r0) ∧
        t.reg .r1 = BitVec.abs (s.reg .r1) ∧ t.reg .r2 = BitVec.abs (s.reg .r1) - 1 ∧ t.reg .ip = s.reg .r0 ∧
        t.z = decide (BitVec.abs (s.reg .r1) = 1) ∧ Keeps (.ip :: regs) s t := by
  have hdz : s.reg .r1 ≠ 0#32 := hdiv
  have hcheck := hcode.branchAt 0 [.test .cmp .al .r1 (.imm 0)] rfl rfl s
  have hblock := (hcode.block 2 [.alu .rsb .mi false .r1 .r1 (.imm 0), .mov .al true .ip (.reg .r0),
    .alu .rsb .mi false .r0 .r0 (.imm 0), .alu .sub .al true .r2 .r1 (.imm 1)] rfl).exec rfl
  rw [List.foldl_cons, List.foldl_nil, State.run_cmp, address_zero, if_neg (by simp [hdz])] at hcheck
  have hrun := hcheck.trans (hblock (s.flagsSub (s.reg .r1) 0))
  rw [address_address, List.foldl_cons, List.foldl_cons, List.foldl_cons, List.foldl_cons, List.foldl_nil,
    State.run_rsb, State.run_movs, State.run_rsb, State.run_subs] at hrun
  have habs1 : (if ((s.flagsSub (s.reg .r1) 0).holds .mi) = true then
      (Operand.imm 0).value (s.flagsSub (s.reg .r1) 0) - (s.flagsSub (s.reg .r1) 0).reg .r1
      else (s.flagsSub (s.reg .r1) 0).reg .r1) = BitVec.abs (s.reg .r1) := by
    unfold BitVec.abs
    cases h : (s.reg .r1).msb <;> simp [h]
  rw [habs1] at hrun
  refine ⟨_, hrun, ?_, ?_, ?_, ?_, ?_, ?_⟩
  . unfold BitVec.abs
    cases h : (s.reg .r0).msb <;> simp [h]
  . simp
  . simp
  . simp
  . simp
  . refine .set (.flagsSub (.set (.set (.flagsLogic (.set (.flagsSub .refl) ?_)) ?_) ?_)) ?_ <;> decide

theorem exec_modulo (hcode : CodeAt code base (assemble (target base div0) listing)) (hdiv : s.reg .r1 ≠ 0)
    (h2 : s.reg .r2 = s.reg .r1 - 1) (hz : s.z = decide (s.reg .r1 = 1))
    : ∃ t, Exec code (address base 6, s) (address base 50, t) ∧ t.reg .r0 = s.reg .r0 % s.reg .r1 ∧
        Keeps regs s t := by
  have hshort := hcode.branchAt 6 [.test .cmp .ne .r0 (.reg .r1), .mov .eq false .r0 (.imm 0),
    .test .tst .hi .r1 (.reg .r2), .alu .and .eq false .r0 .r0 (.reg .r2)] rfl rfl s
  rw [List.foldl_cons] at hshort
  -- the operands are compared unless the divisor is 1
  have hcmp : ∃ u, s.run (T := Word) (.test .cmp .ne .r0 (.reg .r1)) = u ∧ u.reg = s.reg ∧ u.mem = s.mem ∧
      (u.z = true ↔ s.reg .r1 = 1 ∨ s.reg .r0 = s.reg .r1) ∧
      (u.z = true ∨ (u.c = true ↔ (s.reg .r1).toNat ≤ (s.reg .r0).toNat)) := by
    by_cases hone : s.reg .r1 = 1
    . refine ⟨s, State.run_of_not_holds ?_, rfl, rfl, ?_, ?_⟩
      . simp only [Instr.cond, State.holds_ne, hz, hone, decide_true, Bool.not_true]
      . simp [hz, hone]
      . simp [hz, hone]
    . refine ⟨s.flagsSub (s.reg .r0) (s.reg .r1), State.run_of_holds ?_, rfl, rfl, ?_, ?_⟩
      . simp only [Instr.cond, State.holds_ne, hz, hone, decide_false, Bool.not_false]
      . simp only [State.flagsSub_z, decide_eq_true_eq, hone, false_or]
      . simp
  obtain ⟨u, hu, hreg, hmem, hz', hc'⟩ := hcmp
  rw [hu] at hshort
  have hkeeps₁ : Keeps regs s u := ⟨fun r _ => congrFun hreg r, hmem⟩
  obtain ⟨hkeeps₂, hr0, hls⟩ := run_shortcuts (s := u) rfl
  generalize List.foldl State.run u _ = v at hshort hkeeps₂ hr0 hls
  have hkeeps₃ : Keeps regs s v := hkeeps₁.trans (hkeeps₂.mono (by decide))
  rw [hreg, h2] at hr0 hls
  by_cases hdone : v.holds .ls = true
  . rw [if_pos hdone] at hshort
    refine ⟨v, hshort, ?_, hkeeps₃⟩
    rw [hr0]
    by_cases hsame : u.z = true
    . rw [if_pos hsame]
      rcases hz'.1 hsame with h | h
      . rw [h]
        exact BitVec.umod_one.symm
      . rw [h]
        exact BitVec.umod_self.symm
    . rw [if_neg hsame]
      by_cases hpow : u.c = true ∧ s.reg .r1 &&& (s.reg .r1 - 1) = 0
      . rw [if_pos hpow]
        exact and_sub_one_eq_umod hdiv hpow.2
      . have hlt : (s.reg .r0).toNat < (s.reg .r1).toNat := by
          refine Nat.lt_of_not_le (fun hle => ?_)
          have hcarry := (hc'.resolve_left hsame).2 hle
          rcases hls.1 hdone with h | h | h
          . exact hsame h
          . exact Bool.noConfusion (h.symm.trans hcarry)
          . exact hpow ⟨hcarry, h⟩
        rw [if_neg hpow]
        apply BitVec.eq_of_toNat_eq
        rw [BitVec.toNat_umod, Nat.mod_eq_of_lt hlt]
  . rw [if_neg hdone] at hshort
    rw [hls, not_or, not_or] at hdone
    rw [if_neg hdone.1, if_neg (fun h => hdone.2.2 h.2)] at hr0
    have hb : 0 < (s.reg .r1).toNat := Nat.pos_of_ne_zero (fun h => hdiv (BitVec.eq_of_toNat_eq h))
    have hr1 : v.reg .r1 = s.reg .r1 := by
      rw [hkeeps₂.reg .r1 (by decide), hreg]
    obtain ⟨t, hbody, ht, hkeeps₄⟩ := exec_body hcode hb (congrArg _ hr0) (congrArg _ hr1)
    refine ⟨t, hshort.trans hbody, ?_, hkeeps₃.trans hkeeps₄⟩
    apply BitVec.eq_of_toNat_eq
    rw [ht, BitVec.toNat_umod]

theorem modsi3_correct (hcode : CodeAt code base (assemble (target base div0) listing)) (hdiv : s.reg .r1 ≠ 0)
    : ∃ t, Exec code (base, s) (s.reg .lr, t) ∧ t.reg .r0 = (s.reg .r0).srem (s.reg .r1) ∧
        Keeps [.r0, .r1, .r2, .r3, .ip] s t := by
  obtain ⟨t, hpositive, h0, h1, h2, hip, hz, hkeeps₁⟩ := exec_positive hcode hdiv
  have hdiv' : t.reg .r1 ≠ 0 := by
    rw [h1]
    exact fun h => Nat.ne_of_gt (abs_pos hdiv) (congrArg BitVec.toNat h)
  obtain ⟨u, hmodulo, hu, hkeeps₂⟩ := exec_modulo hcode hdiv' (by rw [h1, h2]) (by rw [h1, hz])
  have hret := hcode.retAt 50 [.test .cmp .al .ip (.imm 0), .alu .rsb .mi false .r0 .r0 (.imm 0)] rfl rfl u
  have hall : Keeps [.r0, .r1, .r2, .r3, .ip] s u := (hkeeps₁.mono (by decide)).trans (hkeeps₂.mono (by decide))
  have hsign : u.reg .ip = s.reg .r0 := (hkeeps₂.reg .ip (by decide)).trans hip
  rw [h0, h1] at hu
  rw [List.foldl_cons, List.foldl_cons, List.foldl_nil, State.run_cmp, State.run_rsb, State.holds_al, if_pos rfl,
    State.set_reg_of_ne (by decide), State.flagsSub_reg, hall.reg .lr (by decide)] at hret
  refine ⟨_, (hpositive.trans hmodulo).trans hret, ?_, hall.flagsSub.set (by decide)⟩
  rw [State.set_reg_self, srem_eq_abs]
  simp [hsign, hu]

theorem modsi3_correct_neg
    : ∃ t, Exec (load 0 (assemble (target 0 0x200) listing)) (0, .call (-1000) 7) (0x100, t) ∧ t.reg .r0 = -6 := by
  have hcode := codeAt_load 0 (assemble (target 0 0x200) listing) (by decide)
  obtain ⟨t, hexec, hrem, -⟩ := modsi3_correct (s := .call (-1000) 7) hcode (by decide)
  exact ⟨t, hexec, hrem.trans (by decide)⟩

end

end modsi3

end Arm
