import PureUsb.Arm.Reaches

/-!
This module contains the shifts of 64 bit numbers, of which `r0` has the lower and `r1` the upper half.
-/

namespace Arm

namespace shift

abbrev al : Reg := .r0
abbrev ah : Reg := .r1

inductive Label
  deriving DecidableEq

/--
The half `near` gets the bits of the half `far` that are shifted out of it: `op` shifts `near`, `opFar` shifts `far`,
and `back` shifts `far` the other way, to the place of its bits in `near`.
-/
def shiftdi3 (near far : Reg) (op opFar back : ShiftOp) : List (Line Label) :=
  [.op (.alu .sub .al true .r3 .r2 (.imm 32)),
   .op (.alu .rsb .al false .ip .r2 (.imm 32)),
   .op (.mov .mi false near (.shiftBy near op .r2)),
   .op (.mov .pl false near (.shiftBy far opFar .r3)),
   .op (.alu .orr .mi false near near (.shiftBy far back .ip)),
   .op (.mov .al false far (.shiftBy far opFar .r2)),
   .op (.ret .al)]

def lshrdi3 : List (Line Label) := shiftdi3 al ah .lsr .lsr .lsl

def ashldi3 : List (Line Label) := shiftdi3 ah al .lsl .lsl .lsr

def ashrdi3 : List (Line Label) := shiftdi3 al ah .lsr .asr .lsl

inductive Routine where
  | __lshrdi3 | __ashldi3 | __ashrdi3

def Routine.listing : Routine → List (Line Label)
  | __lshrdi3 => lshrdi3
  | __ashldi3 => ashldi3
  | __ashrdi3 => ashrdi3

def Routine.result : Routine → BitVec 64 → Nat → BitVec 64
  | __lshrdi3, x, n => x >>> n
  | __ashldi3, x, n => x <<< n
  | __ashrdi3, x, n => x.sshiftRight n

/-! ### Halves -/

section

variable {x y : Word} {n : Nat}

theorem append_lshr_lt (hn : n < 32) : (x >>> n ++ (y >>> n ||| x <<< (32 - n)) : BitVec 64) = (x ++ y) >>> n := by
  apply BitVec.eq_of_getLsbD_eq
  intro i hi
  simp only [BitVec.getLsbD_append, BitVec.getLsbD_ushiftRight, BitVec.getLsbD_or, BitVec.getLsbD_shiftLeft]
  by_cases hlow : i < 32
  . by_cases hy : n + i < 32
    . have hx : i < 32 - n := by omega
      simp [hlow, hy, hx]
    . have hx : ¬i < 32 - n := by omega
      have hidx : i - (32 - n) = n + i - 32 := by omega
      simp [hlow, hy, hx, hidx, BitVec.getLsbD_of_ge y (n + i) (by omega)]
  . have hy : ¬n + i < 32 := by omega
    have hidx : n + (i - 32) = n + i - 32 := by omega
    simp [hlow, hy, hidx]

theorem append_lshr_ge (hn : 32 ≤ n) : (x >>> n ++ x >>> (n - 32) : BitVec 64) = (x ++ y) >>> n := by
  apply BitVec.eq_of_getLsbD_eq
  intro i hi
  simp only [BitVec.getLsbD_append, BitVec.getLsbD_ushiftRight]
  have hy : ¬n + i < 32 := by omega
  by_cases hlow : i < 32
  . have hidx : n - 32 + i = n + i - 32 := by omega
    simp [hlow, hy, hidx]
  . simp [hlow, hy, BitVec.getLsbD_of_ge x (n + (i - 32)) (by omega), BitVec.getLsbD_of_ge x (n + i - 32) (by omega)]

theorem append_shl_lt (hn : n < 32) : ((x <<< n ||| y >>> (32 - n)) ++ y <<< n : BitVec 64) = (x ++ y) <<< n := by
  apply BitVec.eq_of_getLsbD_eq
  intro i hi
  simp only [BitVec.getLsbD_append, BitVec.getLsbD_ushiftRight, BitVec.getLsbD_or, BitVec.getLsbD_shiftLeft]
  by_cases hlow : i < 32
  . have hidx : i - n < 32 := by omega
    simp [hlow, hi, hidx]
  . have hin : ¬i < n := by omega
    by_cases hx : i - 32 < n
    . have hidx : 32 - n + (i - 32) = i - n := by omega
      have hlt : i - n < 32 := by omega
      simp [hlow, hi, hin, hx, hidx, hlt]
    . have hidx : i - 32 - n = i - n - 32 := by omega
      have hge : ¬i - n < 32 := by omega
      have hlt : i - 32 < 32 := by omega
      simp [hlow, hi, hin, hx, hidx, hge, hlt, BitVec.getLsbD_of_ge y (32 - n + (i - 32)) (by omega)]

theorem append_shl_ge (hn : 32 ≤ n) (hn' : n < 64) : (y <<< (n - 32) ++ y <<< n : BitVec 64) = (x ++ y) <<< n := by
  apply BitVec.eq_of_getLsbD_eq
  intro i hi
  simp only [BitVec.getLsbD_append, BitVec.getLsbD_shiftLeft]
  by_cases hlow : i < 32
  . have hin : i < n := by omega
    simp [hlow, hin]
  . by_cases hin : i < n
    . have hlt : i - 32 < n - 32 := by omega
      simp [hlow, hi, hin, hlt]
    . have hlt : ¬i - 32 < n - 32 := by omega
      have hidx : i - 32 - (n - 32) = i - n := by omega
      have hsmall : i - n < 32 := by omega
      have hhigh : i - 32 < 32 := by omega
      simp [hlow, hi, hin, hlt, hidx, hsmall, hhigh]

theorem append_ashr_lt (hn : n < 32)
    : (x.sshiftRight n ++ (y >>> n ||| x <<< (32 - n)) : BitVec 64) = (x ++ y).sshiftRight n := by
  apply BitVec.eq_of_getLsbD_eq
  intro i hi
  simp only [BitVec.getLsbD_append, BitVec.getLsbD_sshiftRight, BitVec.getLsbD_ushiftRight, BitVec.getLsbD_or,
    BitVec.getLsbD_shiftLeft, BitVec.msb_append]
  by_cases hlow : i < 32
  . have hsum : n + i < 64 := by omega
    by_cases hy : n + i < 32
    . have hx : i < 32 - n := by omega
      simp [hlow, hi, hsum, hy, hx]
    . have hx : ¬i < 32 - n := by omega
      have hidx : i - (32 - n) = n + i - 32 := by omega
      simp [hlow, hi, hsum, hy, hx, hidx, BitVec.getLsbD_of_ge y (n + i) (by omega)]
  . have hy : ¬n + i < 32 := by omega
    have hhigh : i - 32 < 32 := by omega
    have hidx : n + (i - 32) = n + i - 32 := by omega
    have hsame : n + i - 32 < 32 ↔ n + i < 64 := by omega
    simp [hlow, hy, hidx, hsame, Nat.not_le.2 hi, Nat.not_le.2 hhigh]

theorem append_ashr_ge (hn : 32 ≤ n)
    : (x.sshiftRight n ++ x.sshiftRight (n - 32) : BitVec 64) = (x ++ y).sshiftRight n := by
  apply BitVec.eq_of_getLsbD_eq
  intro i hi
  simp only [BitVec.getLsbD_append, BitVec.getLsbD_sshiftRight, BitVec.msb_append]
  have hy : ¬n + i < 32 := by omega
  by_cases hlow : i < 32
  . have hidx : n - 32 + i = n + i - 32 := by omega
    have hsame : n + i - 32 < 32 ↔ n + i < 64 := by omega
    simp [hlow, hy, hidx, hsame, Nat.not_le.2 hi, Nat.not_le.2 hlow]
  . have hhigh : i - 32 < 32 := by omega
    have hout : ¬n + (i - 32) < 32 := by omega
    have hout' : ¬n + i < 64 := by omega
    simp [hlow, hout, hout', Nat.not_le.2 hi, Nat.not_le.2 hhigh]

end

/-! ### The routines -/

section

variable {code : Code} {base : Word} {target : Label → Word} {s : State}

def regs : List Reg := [.r0, .r1, .r3, .ip]

/-- The counts for the two halves. -/
structure Counts (s t : State) : Prop where
  mi : t.n = decide ((s.reg .r2).toNat < 32)
  r2 : (t.reg .r2).toNat % 256 = (s.reg .r2).toNat
  r3 : 32 ≤ (s.reg .r2).toNat → (t.reg .r3).toNat % 256 = (s.reg .r2).toNat - 32
  ip : (s.reg .r2).toNat < 32 → (t.reg .ip).toNat % 256 = 32 - (s.reg .r2).toNat
  al : t.reg al = s.reg al
  ah : t.reg ah = s.reg ah
  keeps : Keeps regs s t

theorem run_counts (hn : (s.reg .r2).toNat < 64)
    : Counts s ((s.run (T := Word) (.alu .sub .al true .r3 .r2 (.imm 32))).run (T := Word)
        (.alu .rsb .al false .ip .r2 (.imm 32))) := by
  have hmsb : (s.reg .r2 - 32).msb = decide ((s.reg .r2).toNat < 32) := by
    rw [BitVec.msb_eq_decide]
    exact decide_eq_decide.2 (by bv_omega)
  rw [State.run_subs, State.run_rsb, Operand.value_imm, Operand.value_imm]
  refine ⟨hmsb, ?_, ?_, ?_, ?_, ?_, .set (.set (.flagsSub .refl) (by decide)) (by decide)⟩
  . simp only [ne_eq, reduceCtorEq, not_false_eq_true, State.set_reg_of_ne, State.flagsSub_reg]
    omega
  . intro hge
    rw [State.set_reg_of_ne (by decide), State.set_reg_self]
    bv_omega
  . intro hlt
    simp only [State.holds_al, if_true, State.set_reg_self, ne_eq, reduceCtorEq, not_false_eq_true,
      State.set_reg_of_ne, State.flagsSub_reg]
    bv_omega
  . simp
  . simp

theorem exec_shiftdi3 {near far : Reg} {op opFar back : ShiftOp}
    (hcode : CodeAt code base (assemble target (shiftdi3 near far op opFar back)))
    (hhalves : near = al ∧ far = ah ∨ near = ah ∧ far = al) (hn : (s.reg .r2).toNat < 64)
    : ∃ t, Exec code (base, s) (s.reg .lr, t) ∧
        t.reg near = (if (s.reg .r2).toNat < 32 then
            op.word (s.reg near) (s.reg .r2).toNat ||| back.word (s.reg far) (32 - (s.reg .r2).toNat)
          else
            opFar.word (s.reg far) ((s.reg .r2).toNat - 32)) ∧
        t.reg far = opFar.word (s.reg far) (s.reg .r2).toNat ∧ Keeps regs s t := by
  have hret := hcode.retAt 0 [.alu .sub .al true .r3 .r2 (.imm 32), .alu .rsb .al false .ip .r2 (.imm 32),
    .mov .mi false near (.shiftBy near op .r2), .mov .pl false near (.shiftBy far opFar .r3),
    .alu .orr .mi false near near (.shiftBy far back .ip), .mov .al false far (.shiftBy far opFar .r2)] rfl rfl s
  have hcounts := run_counts hn
  rw [address_zero, List.foldl_cons, List.foldl_cons] at hret
  generalize State.run (T := Word) _ (.alu .rsb .al false .ip .r2 (.imm 32)) = u at hret hcounts
  simp only [List.foldl_cons, List.foldl_nil, State.run_mov, State.run_orr] at hret
  generalize ht : (State.set _ far _) = t at hret
  have hkeeps : Keeps regs s t := by
    subst ht
    refine .set (.set (.set (.set hcounts.keeps ?_) ?_) ?_) ?_ <;>
      rcases hhalves with ⟨rfl, rfl⟩ | ⟨rfl, rfl⟩ <;> decide
  rw [State.holds_al, if_pos rfl, hkeeps.reg .lr (by decide)] at hret
  refine ⟨t, hret, ?_, ?_, hkeeps⟩
  . by_cases hlow : (s.reg .r2).toNat < 32
    . rw [if_pos hlow]
      subst ht
      rcases hhalves with ⟨rfl, rfl⟩ | ⟨rfl, rfl⟩ <;>
        simp [hcounts.mi, hcounts.r2, hcounts.ip hlow, hcounts.al, hcounts.ah, hlow]
    . rw [if_neg hlow]
      subst ht
      rcases hhalves with ⟨rfl, rfl⟩ | ⟨rfl, rfl⟩ <;>
        simp [hcounts.mi, hcounts.r3 (Nat.le_of_not_lt hlow), hcounts.al, hcounts.ah, hlow]
  . subst ht
    rcases hhalves with ⟨rfl, rfl⟩ | ⟨rfl, rfl⟩ <;> simp [hcounts.r2, hcounts.al, hcounts.ah]

theorem exec_lshrdi3 (hcode : CodeAt code base (assemble target lshrdi3)) (hn : (s.reg .r2).toNat < 64)
    : ∃ t, Exec code (base, s) (s.reg .lr, t) ∧
        (t.reg ah ++ t.reg al : BitVec 64) = (s.reg ah ++ s.reg al) >>> (s.reg .r2).toNat ∧ Keeps regs s t := by
  obtain ⟨t, hexec, hal, hah, hkeeps⟩ := exec_shiftdi3 hcode (.inl ⟨rfl, rfl⟩) hn
  refine ⟨t, hexec, ?_, hkeeps⟩
  rw [hal, hah]
  split
  . next hlow => exact append_lshr_lt hlow
  . next hlow => exact append_lshr_ge (Nat.le_of_not_lt hlow)

theorem exec_ashldi3 (hcode : CodeAt code base (assemble target ashldi3)) (hn : (s.reg .r2).toNat < 64)
    : ∃ t, Exec code (base, s) (s.reg .lr, t) ∧
        (t.reg ah ++ t.reg al : BitVec 64) = (s.reg ah ++ s.reg al) <<< (s.reg .r2).toNat ∧ Keeps regs s t := by
  obtain ⟨t, hexec, hah, hal, hkeeps⟩ := exec_shiftdi3 hcode (.inr ⟨rfl, rfl⟩) hn
  refine ⟨t, hexec, ?_, hkeeps⟩
  rw [hal, hah]
  split
  . next hlow => exact append_shl_lt hlow
  . next hlow => exact append_shl_ge (Nat.le_of_not_lt hlow) hn

theorem exec_ashrdi3 (hcode : CodeAt code base (assemble target ashrdi3)) (hn : (s.reg .r2).toNat < 64)
    : ∃ t, Exec code (base, s) (s.reg .lr, t) ∧
        (t.reg ah ++ t.reg al : BitVec 64) = (s.reg ah ++ s.reg al).sshiftRight (s.reg .r2).toNat ∧
        Keeps regs s t := by
  obtain ⟨t, hexec, hal, hah, hkeeps⟩ := exec_shiftdi3 hcode (.inl ⟨rfl, rfl⟩) hn
  refine ⟨t, hexec, ?_, hkeeps⟩
  rw [hal, hah]
  split
  . next hlow => exact append_ashr_lt hlow
  . next hlow => exact append_ashr_ge (Nat.le_of_not_lt hlow)

theorem shiftdi3_correct (f : Routine) (hcode : CodeAt code base (assemble target f.listing))
    (hn : (s.reg .r2).toNat < 64)
    : ∃ t, Exec code (base, s) (s.reg .lr, t) ∧
        (t.reg ah ++ t.reg al : BitVec 64) = f.result (s.reg ah ++ s.reg al) (s.reg .r2).toNat ∧ Keeps regs s t := by
  cases f with
  | __lshrdi3 => exact exec_lshrdi3 hcode hn
  | __ashldi3 => exact exec_ashldi3 hcode hn
  | __ashrdi3 => exact exec_ashrdi3 hcode hn

theorem shiftdi3_correct_40
    : ∃ t, Exec (load 0 (assemble (nofun : Label → Word) ashrdi3)) (0, (State.call 5 0x80000000).set .r2 40) (0x100, t) ∧
        (t.reg ah ++ t.reg al : BitVec 64) = 0xffffffffff800000 := by
  have hcode := codeAt_load 0 (assemble (nofun : Label → Word) ashrdi3) (by decide)
  obtain ⟨t, hexec, hshift, -⟩ := shiftdi3_correct .__ashrdi3 (s := (State.call 5 0x80000000).set .r2 40) hcode
    (by decide)
  exact ⟨t, hexec, hshift.trans (by decide)⟩

end

end shift

end Arm
