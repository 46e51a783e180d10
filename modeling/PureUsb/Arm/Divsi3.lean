import PureUsb.Arm.Absolute
import PureUsb.Arm.LongDivision

/-!
This module contains the signed division `__divsi3`: the absolute values are divided, and there are short cuts for
the divisors 1 and -1, for powers of two, and for dividends that are not above the divisor.
-/

namespace Arm

open LongDivision

namespace divsi3

inductive Label where
  | l1a | l1b | l1c | l10 | l11 | l12 | Ldiv0 | __div0
  deriving DecidableEq

open Label

/-- `ARM_DIV_BODY dividend, divisor, result, curbit` -/
def ARM_DIV_BODY (dividend divisor result curbit : Reg) : List (Line Label) :=
  [.op (.test .tst .al divisor (.imm 0xe0000000)),
   .op (.mov .eq false divisor (.shift divisor .lsl 3)),
   .op (.mov .eq false curbit (.imm 8)),
   .op (.mov .ne false curbit (.imm 1)),
   .label l1a,
   .op (.test .cmp .al divisor (.imm 0x10000000)),
   .op (.test .cmp .lo divisor (.reg dividend)),
   .op (.mov .lo false divisor (.shift divisor .lsl 4)),
   .op (.mov .lo false curbit (.shift curbit .lsl 4)),
   .op (.b .lo l1a),
   .label l1b,
   .op (.test .cmp .al divisor (.imm 0x80000000)),
   .op (.test .cmp .lo divisor (.reg dividend)),
   .op (.mov .lo false divisor (.shift divisor .lsl 1)),
   .op (.mov .lo false curbit (.shift curbit .lsl 1)),
   .op (.b .lo l1b),
   .op (.mov .al false result (.imm 0)),
   .label l1c,
   .op (.test .cmp .al dividend (.reg divisor)),
   .op (.alu .sub .hs false dividend dividend (.reg divisor)),
   .op (.alu .orr .hs false result result (.reg curbit)),
   .op (.test .cmp .al dividend (.shift divisor .lsr 1)),
   .op (.alu .sub .hs false dividend dividend (.shift divisor .lsr 1)),
   .op (.alu .orr .hs false result result (.shift curbit .lsr 1)),
   .op (.test .cmp .al dividend (.shift divisor .lsr 2)),
   .op (.alu .sub .hs false dividend dividend (.shift divisor .lsr 2)),
   .op (.alu .orr .hs false result result (.shift curbit .lsr 2)),
   .op (.test .cmp .al dividend (.shift divisor .lsr 3)),
   .op (.alu .sub .hs false dividend dividend (.shift divisor .lsr 3)),
   .op (.alu .orr .hs false result result (.shift curbit .lsr 3)),
   .op (.test .cmp .al dividend (.imm 0)),
   .op (.mov .ne true curbit (.shift curbit .lsr 4)),
   .op (.mov .ne false divisor (.shift divisor .lsr 4)),
   .op (.b .ne l1c)]

/-- `ARM_DIV2_ORDER divisor, order` -/
def ARM_DIV2_ORDER (divisor order : Reg) : List (Line Label) :=
  [.op (.test .cmp .al divisor (.imm 0x10000)),
   .op (.mov .hs false divisor (.shift divisor .lsr 16)),
   .op (.mov .hs false order (.imm 16)),
   .op (.mov .lo false order (.imm 0)),
   .op (.test .cmp .al divisor (.imm 0x100)),
   .op (.mov .hs false divisor (.shift divisor .lsr 8)),
   .op (.alu .add .hs false order order (.imm 8)),
   .op (.test .cmp .al divisor (.imm 0x10)),
   .op (.mov .hs false divisor (.shift divisor .lsr 4)),
   .op (.alu .add .hs false order order (.imm 4)),
   .op (.test .cmp .al divisor (.imm 0x4)),
   .op (.alu .add .hi false order order (.imm 3)),
   .op (.alu .add .ls false order order (.shift divisor .lsr 1))]

/-- `__divsi3`, also known as `__aeabi_idiv` -/
def listing : List (Line Label) :=
  [.op (.test .cmp .al .r1 (.imm 0)),
   .op (.alu .eor .al false .ip .r0 (.reg .r1)),
   .op (.b .eq Ldiv0),
   .op (.alu .rsb .mi false .r1 .r1 (.imm 0)),
   .op (.alu .sub .al true .r2 .r1 (.imm 1)),
   .op (.b .eq l10),
   .op (.mov .al true .r3 (.reg .r0)),
   .op (.alu .rsb .mi false .r3 .r0 (.imm 0)),
   .op (.test .cmp .al .r3 (.reg .r1)),
   .op (.b .ls l11),
   .op (.test .tst .al .r1 (.reg .r2)),
   .op (.b .eq l12)] ++
  ARM_DIV_BODY .r3 .r1 .r0 .r2 ++
  [.op (.test .cmp .al .ip (.imm 0)),
   .op (.alu .rsb .mi false .r0 .r0 (.imm 0)),
   .op (.ret .al),
   .label l10,
   .op (.test .teq .al .ip (.reg .r0)),
   .op (.alu .rsb .mi false .r0 .r0 (.imm 0)),
   .op (.ret .al),
   .label l11,
   .op (.mov .lo false .r0 (.imm 0)),
   .op (.mov .eq false .r0 (.shift .ip .asr 31)),
   .op (.alu .orr .eq false .r0 .r0 (.imm 1)),
   .op (.ret .al),
   .label l12] ++
  ARM_DIV2_ORDER .r1 .r2 ++
  [.op (.test .cmp .al .ip (.imm 0)),
   .op (.mov .al false .r0 (.shiftBy .r3 .lsr .r2)),
   .op (.alu .rsb .mi false .r0 .r0 (.imm 0)),
   .op (.ret .al),
   .label Ldiv0,
   .op (.push [.lr]),
   .op (.bl __div0),
   .op (.mov .al false .r0 (.imm 0)),
   .op .popPc]

/-- The labels, for a routine at `base` that calls `__div0` at `div0`. -/
def target (base div0 : Word) : Label → Word
  | __div0 => div0
  | l => address base (indexOf l listing)

def work : Work where
  dividend := .r3
  divisor := .r1
  result := .r0
  curbit := .r2
  nodup := by decide

def regs : List Reg := [.r0, .r1, .r2, .r3, .ip]

section

variable {code : Code} {base div0 : Word} {s t : State}

/-- The absolute values of the operands are in their registers, and the sign of the quotient in `ip`. -/
structure Operands (s t : State) : Prop where
  dividend : t.reg .r3 = BitVec.abs (s.reg .r0)
  divisor : t.reg .r1 = BitVec.abs (s.reg .r1)
  sign : t.reg .ip = s.reg .r0 ^^^ s.reg .r1
  keeps : Keeps regs s t

theorem exec_sign (hcode : CodeAt code base (assemble (target base div0) listing))
    (hquot : t.reg .r0 = BitVec.abs (s.reg .r0) / BitVec.abs (s.reg .r1)) (hsign : t.reg .ip = s.reg .r0 ^^^ s.reg .r1)
    (hkeeps : Keeps regs s t)
    : ∃ u, Exec code (address base 43, t) (s.reg .lr, u) ∧ u.reg .r0 = (s.reg .r0).sdiv (s.reg .r1) ∧
        Keeps regs s u := by
  have hret := hcode.retAt 43 [.test .cmp .al .ip (.imm 0), .alu .rsb .mi false .r0 .r0 (.imm 0)] rfl rfl t
  rw [List.foldl_cons, List.foldl_cons, List.foldl_nil, State.run_cmp, State.run_rsb, State.holds_al, if_pos rfl,
    State.set_reg_of_ne (by decide), State.flagsSub_reg, hkeeps.reg .lr (by decide)] at hret
  refine ⟨_, hret, ?_, Keeps.set ⟨hkeeps.reg, hkeeps.mem⟩ (by decide)⟩
  rw [State.set_reg_self, sdiv_eq_abs]
  simp [hquot, hsign]

theorem exec_one (hcode : CodeAt code base (assemble (target base div0) listing))
    (hdividend : t.reg .r0 = s.reg .r0) (hsign : t.reg .ip = s.reg .r0 ^^^ s.reg .r1) (hkeeps : Keeps regs s t)
    (hone : BitVec.abs (s.reg .r1) = 1)
    : ∃ u, Exec code (address base 46, t) (s.reg .lr, u) ∧ u.reg .r0 = (s.reg .r0).sdiv (s.reg .r1) ∧
        Keeps regs s u := by
  have hret := hcode.retAt 46 [.test .teq .al .ip (.reg .r0), .alu .rsb .mi false .r0 .r0 (.imm 0)] rfl rfl t
  rw [List.foldl_cons, List.foldl_cons, List.foldl_nil, State.run_teq, State.run_rsb, State.holds_al, if_pos rfl,
    State.set_reg_of_ne (by decide), State.flagsLogic_reg, hkeeps.reg .lr (by decide)] at hret
  refine ⟨_, hret, ?_, Keeps.set ⟨hkeeps.reg, hkeeps.mem⟩ (by decide)⟩
  rw [State.set_reg_self, sdiv_eq_abs, hone]
  simp only [State.holds_mi, State.flagsLogic_n, Operand.value_reg, Operand.value_imm, hdividend,
    hsign]
  unfold BitVec.abs
  cases hx : (s.reg .r0).msb <;> cases hy : (s.reg .r1).msb <;> simp [hx, hy]

theorem exec_small (hcode : CodeAt code base (assemble (target base div0) listing))
    (hsign : t.reg .ip = s.reg .r0 ^^^ s.reg .r1) (hkeeps : Keeps regs s t)
    (hlo : t.holds .lo = decide ((BitVec.abs (s.reg .r0)).toNat < (BitVec.abs (s.reg .r1)).toNat))
    (heq : t.holds .eq = decide (BitVec.abs (s.reg .r0) = BitVec.abs (s.reg .r1)))
    (hle : (BitVec.abs (s.reg .r0)).toNat ≤ (BitVec.abs (s.reg .r1)).toNat) (hdiv : s.reg .r1 ≠ 0)
    : ∃ u, Exec code (address base 49, t) (s.reg .lr, u) ∧ u.reg .r0 = (s.reg .r0).sdiv (s.reg .r1) ∧
        Keeps regs s u := by
  have hret := hcode.retAt 49 [.mov .lo false .r0 (.imm 0), .mov .eq false .r0 (.shift .ip .asr 31),
    .alu .orr .eq false .r0 .r0 (.imm 1)] rfl rfl t
  rw [List.foldl_cons, List.foldl_cons, List.foldl_cons, List.foldl_nil, State.holds_al, if_pos rfl, State.run_mov,
    State.run_mov, State.run_orr, State.set_reg_of_ne (by decide), State.set_reg_of_ne (by decide),
    State.set_reg_of_ne (by decide), hkeeps.reg .lr (by decide)] at hret
  refine ⟨_, hret, ?_, ((hkeeps.set (by decide)).set (by decide)).set (by decide)⟩
  rw [State.set_reg_self, sdiv_eq_abs]
  simp only [State.holds_set, State.set_reg_self, Operand.value_imm, Operand.value_asr, hlo, heq, decide_eq_true_eq]
  by_cases hsame : BitVec.abs (s.reg .r0) = BitVec.abs (s.reg .r1)
  . have hone : BitVec.abs (s.reg .r1) / BitVec.abs (s.reg .r1) = 1 := by
      apply BitVec.eq_of_toNat_eq
      rw [BitVec.toNat_udiv, Nat.div_self (abs_pos hdiv)]
      rfl
    rw [if_pos hsame, if_pos hsame, hsame, hone, State.set_reg_of_ne (by decide), hsign]
    exact asr_or_one
  . have hlt : (BitVec.abs (s.reg .r0)).toNat < (BitVec.abs (s.reg .r1)).toNat := by
      refine Nat.lt_of_le_of_ne hle (fun h => hsame (BitVec.eq_of_toNat_eq h))
    have hzero : BitVec.abs (s.reg .r0) / BitVec.abs (s.reg .r1) = 0 := by
      apply BitVec.eq_of_toNat_eq
      rw [BitVec.toNat_udiv, Nat.div_eq_of_lt hlt]
      rfl
    rw [if_neg hsame, if_neg hsame, if_pos hlt, hzero]
    simp

/-- One step of `ARM_DIV2_ORDER`: the upper bits, if there are any, are shifted down by `k`. -/
def lower (limit : Word) (k : Nat) (x : Word × Word) : Word × Word :=
  if limit.toNat ≤ x.1.toNat then (x.1 >>> k, x.2 + BitVec.ofNat 32 k) else x

/-- What `ARM_DIV2_ORDER` computes. -/
def order (x : Word) : Word :=
  let (y, o) := lower 0x10 4 (lower 0x100 8 (lower 0x10000 16 (x, 0)))
  if 4 < y.toNat then o + 3 else o + y >>> 1

theorem order_shiftLeft_one : ∀ k < 32, order (1#32 <<< k) = BitVec.ofNat 32 k := by
  decide +kernel

def lowerRegs (limit : Word) (k : Nat) : List (Instr Word) :=
  [.test .cmp .al .r1 (.imm limit), .mov .hs false .r1 (.shift .r1 .lsr k),
   .alu .add .hs false .r2 .r2 (.imm (BitVec.ofNat 32 k))]

theorem run_lowerRegs (limit : Word) (k : Nat) (ht : (lowerRegs limit k).foldl State.run s = t)
    : (t.reg .r1, t.reg .r2) = lower limit k (s.reg .r1, s.reg .r2) ∧ Keeps [.r1, .r2] s t := by
  unfold lowerRegs at ht
  rw [List.foldl_cons, List.foldl_cons, List.foldl_cons, List.foldl_nil] at ht
  subst ht
  refine ⟨?_, ?_⟩
  . unfold lower
    by_cases hle : limit.toNat ≤ (s.reg .r1).toNat <;> simp [hle]
  . simp only [State.run_cmp, State.run_mov, State.run_add]
    refine .set (.set ⟨fun _ _ => rfl, rfl⟩ ?_) ?_ <;> decide

theorem run_first
    (ht : [Instr.test (T := Word) .cmp .al .r1 (.imm 0x10000), .mov .hs false .r1 (.shift .r1 .lsr 16),
      .mov .hs false .r2 (.imm 16), .mov .lo false .r2 (.imm 0)].foldl State.run s = t)
    : (t.reg .r1, t.reg .r2) = lower 0x10000 16 (s.reg .r1, 0) ∧ Keeps [.r1, .r2] s t := by
  rw [List.foldl_cons, List.foldl_cons, List.foldl_cons, List.foldl_cons, List.foldl_nil] at ht
  subst ht
  refine ⟨?_, ?_⟩
  . unfold lower
    by_cases hle : (0x10000 : Word).toNat ≤ (s.reg .r1).toNat
    . have hle' : 65536 ≤ (s.reg .r1).toNat := hle
      simp [hle']
    . have hle' : ¬65536 ≤ (s.reg .r1).toNat := hle
      simp [hle']
  . simp only [State.run_cmp, State.run_mov]
    refine .set (.set (.set ⟨fun _ _ => rfl, rfl⟩ ?_) ?_) ?_ <;> decide

theorem run_last
    (ht : [Instr.test (T := Word) .cmp .al .r1 (.imm 0x4), .alu .add .hi false .r2 .r2 (.imm 3),
      .alu .add .ls false .r2 .r2 (.shift .r1 .lsr 1)].foldl State.run s = t)
    : t.reg .r2 = (if 4 < (s.reg .r1).toNat then s.reg .r2 + 3 else s.reg .r2 + s.reg .r1 >>> 1) ∧
      Keeps [.r1, .r2] s t := by
  rw [List.foldl_cons, List.foldl_cons, List.foldl_cons, List.foldl_nil] at ht
  subst ht
  have hhi : (s.flagsSub (s.reg .r1) 4).holds .hi = decide (4 < (s.reg .r1).toNat) := by
    rw [State.holds_hi, State.flagsSub_c, State.flagsSub_z]
    have hne : s.reg .r1 = 4 ↔ (s.reg .r1).toNat = 4 := ⟨congrArg BitVec.toNat, fun h => BitVec.eq_of_toNat_eq h⟩
    have hfour : (4 : Word).toNat = 4 := rfl
    rw [Bool.eq_iff_iff]
    simp only [Bool.and_eq_true, Bool.not_eq_true', decide_eq_true_eq, decide_eq_false_iff_not, hne, hfour]
    omega
  have hls (u : State) : u.holds .ls = !u.holds .hi := by
    simp
  refine ⟨?_, ?_⟩
  . simp only [State.run_cmp, State.run_add, State.holds_set, hls, Operand.value_imm, hhi]
    by_cases hlt : 4 < (s.reg .r1).toNat <;> simp [hlt]
  . simp only [State.run_cmp, State.run_add]
    refine .set (.set ⟨fun _ _ => rfl, rfl⟩ ?_) ?_ <;> decide

/-- `ARM_DIV2_ORDER` -/
def orderRegs : List (Instr Word) :=
  [.test .cmp .al .r1 (.imm 0x10000), .mov .hs false .r1 (.shift .r1 .lsr 16), .mov .hs false .r2 (.imm 16),
   .mov .lo false .r2 (.imm 0)] ++ lowerRegs 0x100 8 ++ lowerRegs 0x10 4 ++
  [.test .cmp .al .r1 (.imm 0x4), .alu .add .hi false .r2 .r2 (.imm 3),
   .alu .add .ls false .r2 .r2 (.shift .r1 .lsr 1)]

theorem run_orderRegs (ht : orderRegs.foldl State.run s = t)
    : t.reg .r2 = order (s.reg .r1) ∧ Keeps [.r1, .r2] s t := by
  unfold orderRegs at ht
  simp only [List.foldl_append] at ht
  obtain ⟨h₁, hkeeps₁⟩ := run_first (s := s) rfl
  generalize List.foldl State.run s _ = u₁ at ht h₁ hkeeps₁
  obtain ⟨h₂, hkeeps₂⟩ := run_lowerRegs (s := u₁) 0x100 8 rfl
  generalize List.foldl State.run u₁ _ = u₂ at ht h₂ hkeeps₂
  obtain ⟨h₃, hkeeps₃⟩ := run_lowerRegs (s := u₂) 0x10 4 rfl
  generalize List.foldl State.run u₂ _ = u₃ at ht h₃ hkeeps₃
  obtain ⟨h₄, hkeeps₄⟩ := run_last ht
  refine ⟨?_, ((hkeeps₁.trans hkeeps₂).trans hkeeps₃).trans hkeeps₄⟩
  rw [h₄, order, ← h₁, ← h₂, ← h₃]

theorem exec_power {k : Nat} (hcode : CodeAt code base (assemble (target base div0) listing))
    (h : Operands s t) (hk : k < 32) (hpow : BitVec.abs (s.reg .r1) = 1#32 <<< k)
    : ∃ u, Exec code (address base 53, t) (s.reg .lr, u) ∧ u.reg .r0 = (s.reg .r0).sdiv (s.reg .r1) ∧
        Keeps regs s u := by
  have hret := hcode.retAt 53 (orderRegs ++ [.test .cmp .al .ip (.imm 0), .mov .al false .r0 (.shiftBy .r3 .lsr .r2),
    .alu .rsb .mi false .r0 .r0 (.imm 0)]) rfl rfl t
  rw [State.holds_al, if_pos rfl, List.foldl_append] at hret
  obtain ⟨horder, hkeeps⟩ := run_orderRegs (s := t) rfl
  generalize orderRegs.foldl State.run t = u at hret horder hkeeps
  have hdividend : u.reg .r3 = BitVec.abs (s.reg .r0) := (hkeeps.reg .r3 (by decide)).trans h.dividend
  have hsign : u.reg .ip = s.reg .r0 ^^^ s.reg .r1 := (hkeeps.reg .ip (by decide)).trans h.sign
  have hall : Keeps regs s u := h.keeps.trans (hkeeps.mono (by decide))
  have hquot : BitVec.abs (s.reg .r0) >>> k = BitVec.abs (s.reg .r0) / BitVec.abs (s.reg .r1) := by
    have hpow' : (1#32 <<< k).toNat = 2 ^ k := by
      rw [BitVec.toNat_shiftLeft, Nat.shiftLeft_eq, BitVec.toNat_ofNat, Nat.one_mod, Nat.one_mul,
        Nat.mod_eq_of_lt (Nat.pow_lt_pow_right (by decide) hk)]
    apply BitVec.eq_of_toNat_eq
    rw [BitVec.toNat_ushiftRight, Nat.shiftRight_eq_div_pow, BitVec.toNat_udiv, hpow, hpow']
  rw [h.divisor, hpow, order_shiftLeft_one k hk] at horder
  have hamount : (u.reg .r2).toNat % 256 = k := by
    rw [horder, BitVec.toNat_ofNat]
    omega
  rw [List.foldl_cons, List.foldl_cons, List.foldl_cons, List.foldl_nil, State.run_cmp, State.run_mov, State.run_rsb,
    State.set_reg_of_ne (by decide), State.set_reg_of_ne (by decide), State.flagsSub_reg, hall.reg .lr (by decide)]
    at hret
  refine ⟨_, hret, ?_, Keeps.set (.set ⟨hall.reg, hall.mem⟩ (by decide)) (by decide)⟩
  rw [State.set_reg_self, sdiv_eq_abs, ← hquot]
  simp [hdividend, hsign, hamount, ShiftOp.word]

theorem run_preshift
    (ht : [Instr.test (T := Word) .tst .al .r1 (.imm 0xe0000000), .mov .eq false .r1 (.shift .r1 .lsl 3),
      .mov .eq false .r2 (.imm 8), .mov .ne false .r2 (.imm 1)].foldl State.run s = t)
    : ∃ k, (t.reg .r1).toNat = (s.reg .r1).toNat * 2 ^ k ∧ (t.reg .r2).toNat = 2 ^ k ∧ Keeps [.r1, .r2] s t := by
  rw [List.foldl_cons, List.foldl_cons, List.foldl_cons, List.foldl_cons, List.foldl_nil] at ht
  have hkeeps : Keeps [.r1, .r2] s t := by
    subst ht
    simp only [State.run_tst, State.run_mov]
    refine .set (.set (.set ⟨fun _ _ => rfl, rfl⟩ ?_) ?_) ?_ <;> decide
  by_cases hclear : (s.reg .r1).toNat < 2 ^ 29
  . have hz := and_top_eq_zero.2 hclear
    refine ⟨3, ?_, ?_, hkeeps⟩
    . rw [← toNat_shiftLeft_of_lt (by decide) hclear]
      subst ht
      simp [hz]
    . subst ht
      simp [hz]
  . have hz := mt and_top_eq_zero.1 hclear
    refine ⟨0, ?_, ?_, hkeeps⟩
    . subst ht
      simp [hz]
    . subst ht
      simp [hz]

theorem exec_body (hcode : CodeAt code base (assemble (target base div0) listing)) (h : Operands s t)
    (hdiv : s.reg .r1 ≠ 0)
    : ∃ u, Exec code (address base 12, t) (s.reg .lr, u) ∧ u.reg .r0 = (s.reg .r0).sdiv (s.reg .r1) ∧
        Keeps regs s u := by
  have hb : 0 < (t.reg .r1).toNat := by
    rw [h.divisor]
    exact abs_pos hdiv
  have hpre := (hcode.block 12 [.test .tst .al .r1 (.imm 0xe0000000), .mov .eq false .r1 (.shift .r1 .lsl 3),
    .mov .eq false .r2 (.imm 8), .mov .ne false .r2 (.imm 1)] rfl).exec rfl t
  rw [address_address] at hpre
  obtain ⟨k, hd, hc, hkeeps₁⟩ := run_preshift (s := t) rfl
  generalize List.foldl State.run t _ = u₁ at hpre hd hc hkeeps₁
  obtain ⟨⟨pc, u₂⟩, hloops, rfl, k', hd', hc', hlt, hkeeps₂⟩ := reaches_curbit (w := work)
    (a := address base 16) (s := u₁) (n := u₁.reg .r3) hb (address_address base 16 5).symm (hcode.block 16 _ rfl) rfl hd hc
  have hclear := (hcode.block 26 [.mov .al false .r0 (.imm 0)] rfl).exec rfl u₂
  rw [address_address, List.foldl_cons, List.foldl_nil, State.run_mov, State.holds_al, if_pos rfl,
    Operand.value_imm] at hclear
  have hdividend : u₂.reg .r3 = t.reg .r3 := (hkeeps₂.reg .r3 (by decide)).trans (hkeeps₁.reg .r3 (by decide))
  have hdividing : Dividing work (t.reg .r3).toNat (t.reg .r1).toNat k' (u₂.set .r0 0) := by
    refine ⟨hd', hc', ?_⟩
    show Partial _ _ ((u₂.set .r0 0).reg .r3).toNat ((u₂.set .r0 0).reg .r0).toNat _
    rw [State.set_reg_self, State.set_reg_of_ne (by decide), hdividend]
    rw [hkeeps₁.reg .r3 (by decide)] at hlt
    exact .start hlt
  obtain ⟨⟨pc, u₃⟩, hbits, rfl, hquot, hkeeps₃⟩ := hdividing.reaches (a := address base 27)
    (hcode.block 27 _ rfl)
  rw [address_address] at hloops hbits
  have hkeeps₄ : Keeps regs t u₃ := by
    refine ((hkeeps₁.mono (by decide)).trans (hkeeps₂.mono (by decide))).trans ?_
    exact (Keeps.set .refl (by decide)).trans (hkeeps₃.mono (by decide))
  have hsign : u₃.reg .ip = s.reg .r0 ^^^ s.reg .r1 := by
    rw [hkeeps₃.reg .ip (by decide), State.set_reg_of_ne (by decide), hkeeps₂.reg .ip (by decide),
      hkeeps₁.reg .ip (by decide), h.sign]
  have hresult : u₃.reg .r0 = BitVec.abs (s.reg .r0) / BitVec.abs (s.reg .r1) := by
    apply BitVec.eq_of_toNat_eq
    rw [BitVec.toNat_udiv, ← h.dividend, ← h.divisor]
    exact hquot
  obtain ⟨u, hexec, hu, hall⟩ := exec_sign hcode hresult hsign (h.keeps.trans hkeeps₄)
  exact ⟨u, (((hpre.trans hloops).trans hclear).trans hbits).trans hexec, hu, hall⟩

theorem exec_divisor (hcode : CodeAt code base (assemble (target base div0) listing)) (hdiv : s.reg .r1 ≠ 0)
    : ∃ t, Exec code (base, s) (if BitVec.abs (s.reg .r1) = 1 then address base 46 else address base 6, t) ∧
        t.reg .r1 = BitVec.abs (s.reg .r1) ∧ t.reg .r2 = BitVec.abs (s.reg .r1) - 1 ∧
        t.reg .ip = s.reg .r0 ^^^ s.reg .r1 ∧ Keeps [.r1, .r2, .ip] s t := by
  have hdz : s.reg .r1 ≠ 0#32 := hdiv
  have hcheck := hcode.branchAt 0 [.test .cmp .al .r1 (.imm 0), .alu .eor .al false .ip .r0 (.reg .r1)] rfl rfl s
  have habs := hcode.branchAt 3 [.alu .rsb .mi false .r1 .r1 (.imm 0), .alu .sub .al true .r2 .r1 (.imm 1)] rfl rfl
  rw [List.foldl_cons, List.foldl_cons, List.foldl_nil, State.run_cmp, State.run_eor, address_zero] at hcheck
  rw [if_neg (by simp [hdz])] at hcheck
  generalize hu : (State.set _ .ip _) = u at hcheck
  have hrun := hcheck.trans (habs u)
  rw [List.foldl_cons, List.foldl_cons, List.foldl_nil, State.run_rsb, State.run_subs] at hrun
  obtain ⟨hn, h1, hip⟩ : u.n = (s.reg .r1).msb ∧ u.reg .r1 = s.reg .r1 ∧ u.reg .ip = s.reg .r0 ^^^ s.reg .r1 := by
    subst hu
    simp
  have hkeeps : Keeps [.r1, .r2, .ip] s u := by
    subst hu
    exact Keeps.set ⟨fun _ _ => rfl, rfl⟩ (by decide)
  have hneg : (if u.holds .mi = true then (Operand.imm 0).value u - u.reg .r1 else u.reg .r1)
      = BitVec.abs (s.reg .r1) := by
    rw [State.holds_mi, hn, h1, Operand.value_imm]
    unfold BitVec.abs
    cases (s.reg .r1).msb <;> simp
  rw [hneg, State.set_reg_self, Operand.value_imm, State.holds_set, State.holds_eq, State.flagsSub_z] at hrun
  simp only [decide_eq_true_eq] at hrun
  refine ⟨_, hrun, ?_, ?_, ?_, ?_⟩
  . simp
  . simp
  . simp [hip]
  . have hset := hkeeps.set (r := .r1) (x := BitVec.abs (s.reg .r1)) (by decide)
    exact Keeps.set ⟨hset.reg, hset.mem⟩ (by decide)

theorem exec_dividend (hcode : CodeAt code base (assemble (target base div0) listing))
    : ∃ u, Exec code (address base 6, t)
          (if (BitVec.abs (t.reg .r0)).toNat ≤ (t.reg .r1).toNat then address base 49 else address base 10, u) ∧
        u.reg .r3 = BitVec.abs (t.reg .r0) ∧ Keeps [.r3] t u ∧
        u.holds .lo = decide ((BitVec.abs (t.reg .r0)).toNat < (t.reg .r1).toNat) ∧
        u.holds .eq = decide (BitVec.abs (t.reg .r0) = t.reg .r1) := by
  have hrun := hcode.branchAt 6 [.mov .al true .r3 (.reg .r0), .alu .rsb .mi false .r3 .r0 (.imm 0),
    .test .cmp .al .r3 (.reg .r1)] rfl rfl t
  rw [List.foldl_cons, List.foldl_cons, List.foldl_cons, List.foldl_nil, State.run_movs, State.run_rsb,
    State.run_cmp] at hrun
  generalize hu : (State.set _ .r3 _ : State).set .r3 _ = u at hrun
  obtain ⟨h3, h1⟩ : u.reg .r3 = BitVec.abs (t.reg .r0) ∧ u.reg .r1 = t.reg .r1 := by
    subst hu
    unfold BitVec.abs
    cases h : (t.reg .r0).msb <;> simp [h]
  have hkeeps : Keeps [.r3] t u := by
    subst hu
    refine .set (.set ⟨fun _ _ => rfl, rfl⟩ ?_) ?_ <;> decide
  rw [h3, Operand.value_reg, h1] at hrun
  have hne : BitVec.abs (t.reg .r0) = t.reg .r1 ↔ (BitVec.abs (t.reg .r0)).toNat = (t.reg .r1).toNat :=
    ⟨congrArg BitVec.toNat, fun h => BitVec.eq_of_toNat_eq h⟩
  have hls : (u.flagsSub (BitVec.abs (t.reg .r0)) (t.reg .r1)).holds .ls = true
      ↔ (BitVec.abs (t.reg .r0)).toNat ≤ (t.reg .r1).toNat := by
    simp only [State.holds_ls, State.flagsSub_c, State.flagsSub_z, Bool.or_eq_true, Bool.not_eq_true',
      decide_eq_true_eq, decide_eq_false_iff_not, hne]
    omega
  simp only [hls] at hrun
  refine ⟨_, hrun, h3, ⟨hkeeps.reg, hkeeps.mem⟩, ?_, ?_⟩
  . simp [← decide_not]
  . simp

theorem correct (hcode : CodeAt code base (assemble (target base div0) listing)) (hdiv : s.reg .r1 ≠ 0)
    : ∃ t, Exec code (base, s) (s.reg .lr, t) ∧ t.reg .r0 = (s.reg .r0).sdiv (s.reg .r1) ∧
        Keeps [.r0, .r1, .r2, .r3, .ip] s t := by
  obtain ⟨t, hdivisor, h1, h2, hip, hkeeps⟩ := exec_divisor hcode hdiv
  have h0 : t.reg .r0 = s.reg .r0 := hkeeps.reg .r0 (by decide)
  have hall : Keeps regs s t := hkeeps.mono (by decide)
  split at hdivisor
  . next hone =>
    obtain ⟨u, hexec, hu, hfinal⟩ := exec_one hcode h0 hip hall hone
    exact ⟨u, hdivisor.trans hexec, hu, hfinal⟩
  . obtain ⟨u, hdividend, h3, hkeeps', hlo, heq⟩ := exec_dividend (t := t) hcode
    rw [h0, h1] at hdividend hlo heq
    rw [h0] at h3
    have hall' : Keeps regs s u := hall.trans (hkeeps'.mono (by decide))
    have hip' : u.reg .ip = s.reg .r0 ^^^ s.reg .r1 := (hkeeps'.reg .ip (by decide)).trans hip
    split at hdividend
    . next hle =>
      obtain ⟨v, hexec, hv, hfinal⟩ := exec_small hcode hip' hall' hlo heq hle hdiv
      exact ⟨v, (hdivisor.trans hdividend).trans hexec, hv, hfinal⟩
    . have htst := hcode.branchAt 10 [.test .tst .al .r1 (.reg .r2)] rfl rfl u
      rw [List.foldl_cons, List.foldl_nil, State.run_tst, State.holds_eq, State.flagsLogic_z, Operand.value_reg,
        hkeeps'.reg .r1 (by decide), hkeeps'.reg .r2 (by decide), h1, h2] at htst
      generalize hw : u.flagsLogic _ _ = w at htst
      have hoperands : Operands s w := by
        subst hw
        exact ⟨h3, (hkeeps'.reg .r1 (by decide)).trans h1, hip', ⟨hall'.reg, hall'.mem⟩⟩
      by_cases hpow : BitVec.abs (s.reg .r1) &&& (BitVec.abs (s.reg .r1) - 1) = 0
      . have habs : BitVec.abs (s.reg .r1) ≠ 0 := fun h => Nat.ne_of_gt (abs_pos hdiv) (congrArg BitVec.toNat h)
        obtain ⟨k, hk, hone⟩ := exists_shiftLeft_one habs hpow
        rw [if_pos (decide_eq_true hpow)] at htst
        obtain ⟨v, hexec, hv, hfinal⟩ := exec_power hcode hoperands hk hone
        exact ⟨v, ((hdivisor.trans hdividend).trans htst).trans hexec, hv, hfinal⟩
      . rw [if_neg (by simpa using hpow)] at htst
        obtain ⟨v, hexec, hv, hfinal⟩ := exec_body hcode hoperands hdiv
        exact ⟨v, ((hdivisor.trans hdividend).trans htst).trans hexec, hv, hfinal⟩

end

end divsi3

end Arm
