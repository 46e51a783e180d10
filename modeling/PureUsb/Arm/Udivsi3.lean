import PureUsb.Arm.LongDivision

/-!
This module contains the unsigned division `__udivsi3`, and `__aeabi_uidivmod`, which finds the remainder too.
-/

namespace Arm

open LongDivision

namespace udivsi3

abbrev dividend : Reg := .r0
abbrev divisor : Reg := .r1
abbrev result : Reg := .r2
abbrev curbit : Reg := .r3

inductive Label where
  | Loop1 | Lbignum | Loop3 | Lgot_result | Ldiv0 | __div0
  deriving DecidableEq

open Label

/-- `__udivsi3`, also known as `__aeabi_uidiv` -/
def listing : List (Line Label) :=
  [.op (.test .cmp .al divisor (.imm 0)),
   .op (.b .eq Ldiv0),
   .op (.mov .al false curbit (.imm 1)),
   .op (.mov .al false result (.imm 0)),
   .op (.test .cmp .al dividend (.reg divisor)),
   .op (.b .cc Lgot_result),
   .label Loop1,
   .op (.test .cmp .al divisor (.imm 0x10000000)),
   .op (.test .cmp .cc divisor (.reg dividend)),
   .op (.mov .cc false divisor (.shift divisor .lsl 4)),
   .op (.mov .cc false curbit (.shift curbit .lsl 4)),
   .op (.b .cc Loop1),
   .label Lbignum,
   .op (.test .cmp .al divisor (.imm 0x80000000)),
   .op (.test .cmp .cc divisor (.reg dividend)),
   .op (.mov .cc false divisor (.shift divisor .lsl 1)),
   .op (.mov .cc false curbit (.shift curbit .lsl 1)),
   .op (.b .cc Lbignum),
   .label Loop3,
   .op (.test .cmp .al dividend (.reg divisor)),
   .op (.alu .sub .cs false dividend dividend (.reg divisor)),
   .op (.alu .orr .cs false result result (.reg curbit)),
   .op (.test .cmp .al dividend (.shift divisor .lsr 1)),
   .op (.alu .sub .cs false dividend dividend (.shift divisor .lsr 1)),
   .op (.alu .orr .cs false result result (.shift curbit .lsr 1)),
   .op (.test .cmp .al dividend (.shift divisor .lsr 2)),
   .op (.alu .sub .cs false dividend dividend (.shift divisor .lsr 2)),
   .op (.alu .orr .cs false result result (.shift curbit .lsr 2)),
   .op (.test .cmp .al dividend (.shift divisor .lsr 3)),
   .op (.alu .sub .cs false dividend dividend (.shift divisor .lsr 3)),
   .op (.alu .orr .cs false result result (.shift curbit .lsr 3)),
   .op (.test .cmp .al dividend (.imm 0)),
   .op (.mov .ne true curbit (.shift curbit .lsr 4)),
   .op (.mov .ne false divisor (.shift divisor .lsr 4)),
   .op (.b .ne Loop3),
   .label Lgot_result,
   .op (.mov .al false .r0 (.reg result)),
   .op (.ret .al),
   .label Ldiv0,
   .op (.push [.lr]),
   .op (.bl __div0),
   .op (.mov .al false .r0 (.imm 0)),
   .op .popPc]

/-- The labels, for a routine at `base` that calls `__div0` at `div0`. -/
def target (base div0 : Word) : Label → Word
  | __div0 => div0
  | l => address base (indexOf l listing)

def work : Work where
  dividend := dividend
  divisor := divisor
  result := result
  curbit := curbit
  nodup := by decide

section

variable {code : Code} {base div0 : Word} {s : State}

theorem reaches_bits {N b : Nat} (hcode : CodeAt code base (assemble (target base div0) listing))
    (hb : 0 < b) (hN : (s.reg dividend).toNat = N) (hd : (s.reg divisor).toNat = b) (hcur : s.reg curbit = 1)
    (hres : s.reg result = 0)
    : Reaches code (address base 6, s) (fun (pc, t) =>
        pc = address base 32 ∧ (t.reg result).toNat = N / b ∧ Keeps work.regs s t) := by
  have hshift := reaches_curbit (w := work) (a := address base 6) (s := s) (k := 0) (b := b) hb
    (address_address base 6 5).symm (hcode.block 6 _ rfl) rfl (by rw [Nat.pow_zero, Nat.mul_one]; exact hd) (congrArg BitVec.toNat hcur)
  refine hshift.bind ?_
  rintro ⟨pc, t⟩ ⟨rfl, k, hdiv, hbit, hlt, hkeeps⟩
  have hdividend : t.reg dividend = s.reg dividend := hkeeps.reg _ (by decide)
  have hresult : t.reg result = 0 := (hkeeps.reg _ (by decide)).trans hres
  have hdividing : Dividing work N b k t := by
    refine ⟨hdiv, hbit, ?_⟩
    show Partial N b (t.reg dividend).toNat (t.reg result).toNat _
    rw [hdividend, hresult, hN]
    exact .start (hN ▸ hlt)
  rw [address_address]
  have hloop := hdividing.reaches (a := address base 16) (hcode.block 16 _ rfl)
  refine hloop.bind ?_
  rintro ⟨pc, u⟩ ⟨rfl, hquot, hkeeps'⟩
  exact .here ⟨address_address base 16 16, hquot, (hkeeps.mono (by decide)).trans hkeeps'⟩

theorem reaches_result (hcode : CodeAt code base (assemble (target base div0) listing)) (hdiv : s.reg .r1 ≠ 0)
    : Reaches code (base, s) (fun (pc, t) =>
        pc = address base 32 ∧ t.reg result = s.reg .r0 / s.reg .r1 ∧ Keeps work.regs s t) := by
  have hdz : s.reg .r1 ≠ 0#32 := hdiv
  have hb : 0 < (s.reg .r1).toNat := Nat.pos_of_ne_zero (fun h => hdiv (BitVec.eq_of_toNat_eq h))
  have hcheck := hcode.branchAt 0 [.test .cmp .al divisor (.imm 0)] rfl rfl s
  have hstart := hcode.branchAt 2 [.mov .al false curbit (.imm 1), .mov .al false result (.imm 0),
    .test .cmp .al dividend (.reg divisor)] rfl rfl
  generalize hu : List.foldl State.run s _ = u at hcheck
  obtain ⟨hz, hreg, hmem⟩ : u.holds .eq = false ∧ u.reg = s.reg ∧ u.mem = s.mem := by
    subst hu
    simp [hdz]
  have hkeeps : Keeps work.regs s u := ⟨fun r _ => congrFun hreg r, hmem⟩
  rw [address_zero, hz] at hcheck
  refine .next (hcheck.trans (hstart u)) ?_
  generalize ht : List.foldl State.run u _ = t
  obtain ⟨hcur, hres, hdividend, hdivisor⟩
      : t.reg curbit = 1 ∧ t.reg result = 0 ∧ t.reg dividend = s.reg .r0 ∧ t.reg divisor = s.reg .r1 := by
    subst ht
    simp [hreg]
  have hbelow : t.holds .cc = true ↔ (s.reg .r0).toNat < (s.reg .r1).toNat := by
    subst ht
    simp [hreg]
  have hkeeps : Keeps work.regs s t := by
    subst ht
    have hset := (hkeeps.set (r := .r3) (x := 1) (by decide)).set (r := .r2) (x := 0) (by decide)
    exact ⟨hset.reg, hset.mem⟩
  split
  . next hlt =>
    refine .here ⟨rfl, ?_, hkeeps⟩
    apply BitVec.eq_of_toNat_eq
    rw [hres, BitVec.toNat_udiv, Nat.div_eq_of_lt (hbelow.1 hlt)]
    rfl
  . refine (reaches_bits hcode hb (congrArg _ hdividend) (congrArg _ hdivisor) hcur hres).bind ?_
    rintro ⟨pc, v⟩ ⟨rfl, hquot, hkeeps'⟩
    refine .here ⟨rfl, ?_, hkeeps.trans hkeeps'⟩
    apply BitVec.eq_of_toNat_eq
    rw [hquot, BitVec.toNat_udiv]

theorem correct (hcode : CodeAt code base (assemble (target base div0) listing)) (hdiv : s.reg .r1 ≠ 0)
    : ∃ t, Exec code (base, s) (s.reg .lr, t) ∧ t.reg .r0 = s.reg .r0 / s.reg .r1 ∧
        Keeps [.r0, .r1, .r2, .r3] s t := by
  obtain ⟨⟨pc, t⟩, hexec, rfl, hquot, hkeeps⟩ := reaches_result hcode hdiv
  have hret := hcode.retAt 32 [.mov .al false .r0 (.reg result)] rfl rfl t
  rw [State.holds_al, if_pos rfl, List.foldl_cons, List.foldl_nil, State.run_mov, State.set_reg_of_ne (by decide),
    hkeeps.reg .lr (by decide)] at hret
  refine ⟨_, hexec.trans hret, ?_, hkeeps.set (by decide)⟩
  rw [State.set_reg_self]
  exact hquot

end

end udivsi3

end Arm
