import PureUsb.Arm.Machine

/-!
This module contains the rules for runs of machine code: symbolic execution of instructions that do not branch,
sequences, loops, and what a run leaves alone.
-/

namespace Arm

/-! ### Values of registers and flags -/

namespace State

variable {s : State} {r r' : Reg} {x y : Word} {b : Bool}

@[simp]
theorem set_reg_self : (s.set r x).reg r = x := Function.update_self _ _ _

@[simp]
theorem set_reg_of_ne (h : r' ≠ r) : (s.set r x).reg r' = s.reg r' := Function.update_of_ne h _ _

@[simp]
theorem set_n : (s.set r x).n = s.n := rfl

@[simp]
theorem set_z : (s.set r x).z = s.z := rfl

@[simp]
theorem set_c : (s.set r x).c = s.c := rfl

@[simp]
theorem set_v : (s.set r x).v = s.v := rfl

@[simp]
theorem set_mem : (s.set r x).mem = s.mem := rfl

@[simp]
theorem flagsSub_reg : (s.flagsSub x y).reg = s.reg := rfl

@[simp]
theorem flagsSub_mem : (s.flagsSub x y).mem = s.mem := rfl

@[simp]
theorem flagsSub_n : (s.flagsSub x y).n = (x - y).msb := rfl

@[simp]
theorem flagsSub_c : (s.flagsSub x y).c = decide (y.toNat ≤ x.toNat) := rfl

@[simp]
theorem flagsSub_z : (s.flagsSub x y).z = decide (x = y) := by
  have hzero : x - y = 0 ↔ x = y := by bv_omega
  exact decide_eq_decide.2 hzero

@[simp]
theorem flagsLogic_reg : (s.flagsLogic x b).reg = s.reg := rfl

@[simp]
theorem flagsLogic_mem : (s.flagsLogic x b).mem = s.mem := rfl

@[simp]
theorem flagsLogic_n : (s.flagsLogic x b).n = x.msb := rfl

@[simp]
theorem flagsLogic_z : (s.flagsLogic x b).z = decide (x = 0) := rfl

@[simp]
theorem flagsLogic_c : (s.flagsLogic x b).c = b := rfl

/-- The signed comparison that `cmp` leaves to `ge` and `lt`. -/
theorem flagsSub_ge : (s.flagsSub x y).holds .ge = decide (y.toInt ≤ x.toInt) := by
  have hx := x.isLt
  have hy := y.isLt
  have hmsb : (x - y).msb = decide ((x - y).toInt < 0) := by
    rw [BitVec.msb_eq_toInt]
  unfold holds flagsSub
  simp only [hmsb, BitVec.toInt_eq_toNat_cond, BitVec.toNat_sub]
  rw [Bool.eq_iff_iff, beq_iff_eq, Bool.eq_iff_iff]
  simp only [decide_eq_true_eq]
  omega

theorem flagsSub_lt : (s.flagsSub x y).holds .lt = decide (x.toInt < y.toInt) := by
  have hnot : (s.flagsSub x y).holds .lt = !(s.flagsSub x y).holds .ge := rfl
  rw [hnot, flagsSub_ge, ← decide_not]
  exact decide_eq_decide.2 Int.not_le

/-! ### Conditions -/

@[simp]
theorem holds_eq : s.holds .eq = s.z := rfl

@[simp]
theorem holds_ne : s.holds .ne = !s.z := rfl

@[simp]
theorem holds_cs : s.holds .cs = s.c := rfl

@[simp]
theorem holds_cc : s.holds .cc = !s.c := rfl

@[simp]
theorem holds_mi : s.holds .mi = s.n := rfl

@[simp]
theorem holds_pl : s.holds .pl = !s.n := rfl

@[simp]
theorem holds_hi : s.holds .hi = (s.c && !s.z) := rfl

@[simp]
theorem holds_ls : s.holds .ls = (!s.c || s.z) := rfl

@[simp]
theorem holds_al : s.holds .al = true := rfl

@[simp]
theorem holds_set {c : Cond} : (s.set r x).holds c = s.holds c := by
  cases c <;> rfl

end State

/-! ### Operands -/

namespace ShiftOp

variable {x : Word} {k : Nat} {c : Bool}

theorem apply_lsl : (lsl.apply x k c).1 = x <<< k := by
  unfold apply
  split
  . next h => rw [h, BitVec.shiftLeft_zero]
  . rfl

theorem apply_lsr : (lsr.apply x k c).1 = x >>> k := by
  unfold apply
  split
  . next h => rw [h, BitVec.ushiftRight_zero]
  . rfl

theorem apply_asr : (asr.apply x k c).1 = x.sshiftRight k := by
  unfold apply
  split
  . next h => rw [h, BitVec.sshiftRight_zero]
  . rfl

theorem apply_ror : (ror.apply x k c).1 = x.rotateRight k := by
  unfold apply
  split
  . next h =>
    subst h
    apply BitVec.eq_of_getLsbD_eq
    intro i hi
    simp [hi]
  . rfl

def word : ShiftOp → Word → Nat → Word
  | lsl, x, k => x <<< k
  | lsr, x, k => x >>> k
  | asr, x, k => x.sshiftRight k
  | ror, x, k => x.rotateRight k

theorem apply_fst {op : ShiftOp} : (op.apply x k c).1 = op.word x k := by
  cases op with
  | lsl => exact apply_lsl
  | lsr => exact apply_lsr
  | asr => exact apply_asr
  | ror => exact apply_ror

end ShiftOp

namespace Operand

variable {s : State} {r rs : Reg} {x : Word} {k : Nat}

@[simp]
theorem value_imm : (imm x).value s = x := rfl

@[simp]
theorem value_reg : (reg r).value s = s.reg r := rfl

@[simp]
theorem value_lsl : (shift r .lsl k).value s = s.reg r <<< k := ShiftOp.apply_lsl

@[simp]
theorem value_lsr : (shift r .lsr k).value s = s.reg r >>> k := ShiftOp.apply_lsr

@[simp]
theorem value_asr : (shift r .asr k).value s = (s.reg r).sshiftRight k := ShiftOp.apply_asr

@[simp]
theorem value_ror : (shift r .ror k).value s = (s.reg r).rotateRight k := ShiftOp.apply_ror

@[simp]
theorem value_shiftBy {op : ShiftOp} : (shiftBy r op rs).value s = op.word (s.reg r) ((s.reg rs).toNat % 256) :=
  ShiftOp.apply_fst

end Operand

/-! ### Instructions that set a register -/

namespace State

variable {T : Type} {s : State} {c : Cond} {rd rn : Reg} {o : Operand}

theorem ite_set {p : Prop} [Decidable p] {r : Reg} {x : Word}
    : (if p then s.set r x else s) = s.set r (if p then x else s.reg r) := by
  split
  . rfl
  . exact congrArg (fun f => { s with reg := f }) (Function.update_eq_self r s.reg).symm

@[simp]
theorem run_and : s.run (.alu (T := T) .and c false rd rn o)
    = s.set rd (if s.holds c then s.reg rn &&& o.value s else s.reg rd) := ite_set

@[simp]
theorem run_eor : s.run (.alu (T := T) .eor c false rd rn o)
    = s.set rd (if s.holds c then s.reg rn ^^^ o.value s else s.reg rd) := ite_set

@[simp]
theorem run_orr : s.run (.alu (T := T) .orr c false rd rn o)
    = s.set rd (if s.holds c then s.reg rn ||| o.value s else s.reg rd) := ite_set

@[simp]
theorem run_sub : s.run (.alu (T := T) .sub c false rd rn o)
    = s.set rd (if s.holds c then s.reg rn - o.value s else s.reg rd) := ite_set

@[simp]
theorem run_rsb : s.run (.alu (T := T) .rsb c false rd rn o)
    = s.set rd (if s.holds c then o.value s - s.reg rn else s.reg rd) := ite_set

@[simp]
theorem run_add : s.run (.alu (T := T) .add c false rd rn o)
    = s.set rd (if s.holds c then s.reg rn + o.value s else s.reg rd) := ite_set

@[simp]
theorem run_mov : s.run (.mov (T := T) c false rd o)
    = s.set rd (if s.holds c then o.value s else s.reg rd) := ite_set

@[simp]
theorem run_ands : s.run (.alu (T := T) .and .al true rd rn o)
    = (s.flagsLogic (s.reg rn &&& o.value s) (o.eval s).2).set rd (s.reg rn &&& o.value s) := rfl

@[simp]
theorem run_subs : s.run (.alu (T := T) .sub .al true rd rn o)
    = (s.flagsSub (s.reg rn) (o.value s)).set rd (s.reg rn - o.value s) := rfl

@[simp]
theorem run_movs : s.run (.mov (T := T) .al true rd o)
    = (s.flagsLogic (o.value s) (o.eval s).2).set rd (o.value s) := rfl

@[simp]
theorem run_tst : s.run (.test (T := T) .tst .al rn o)
    = s.flagsLogic (s.reg rn &&& o.value s) (o.eval s).2 := rfl

@[simp]
theorem run_teq : s.run (.test (T := T) .teq .al rn o)
    = s.flagsLogic (s.reg rn ^^^ o.value s) (o.eval s).2 := rfl

theorem run_of_holds {i : Instr T} (h : s.holds i.cond = true) : s.run i = s.exec i := if_pos h

theorem run_of_not_holds {i : Instr T} (h : s.holds i.cond = false) : s.run i = s := by
  unfold run
  rw [h]
  rfl

@[simp]
theorem run_cmn : s.run (.test (T := T) .cmn .al rn o) = s.flagsAdd (s.reg rn) (o.value s) := rfl

@[simp]
theorem run_cmp : s.run (.test (T := T) .cmp .al rn o) = s.flagsSub (s.reg rn) (o.value s) := rfl

end State

/-! ### The stack -/

section

variable {s : State} {a p : Word} {xs : List Word} {i j : Nat}

theorem address_inj (h : address a i = address a j) (hi : 4 * i < 2 ^ 32) (hj : 4 * j < 2 ^ 32) : i = j := by
  unfold address at h
  have hmod := congrArg BitVec.toNat ((BitVec.add_right_inj a).1 h)
  rw [BitVec.toNat_ofNat, BitVec.toNat_ofNat, Nat.mod_eq_of_lt hi, Nat.mod_eq_of_lt hj] at hmod
  omega

namespace State

@[simp]
theorem store_reg : (s.store a xs).reg = s.reg := by
  induction xs generalizing s a with
  | nil => rfl
  | cons x xs ih => exact ih

theorem store_mem_of_ne (hp : ∀ i < xs.length, p ≠ address a i) : (s.store a xs).mem p = s.mem p := by
  induction xs generalizing s a with
  | nil => rfl
  | cons x xs ih =>
    have hfirst : p ≠ a := by
      have := hp 0 (Nat.zero_lt_succ _)
      rwa [address_zero] at this
    rw [store, ih]
    . exact Function.update_of_ne hfirst _ _
    . intro i hi
      rw [address_next]
      exact hp (i + 1) (Nat.succ_lt_succ hi)

theorem store_mem (hlen : 4 * xs.length ≤ 2 ^ 32) (hi : i < xs.length) : (s.store a xs).mem (address a i) = xs[i] := by
  induction xs generalizing s a i with
  | nil => cases hi
  | cons x xs ih =>
    rw [List.length_cons] at hlen hi
    rw [store]
    cases i with
    | zero =>
      rw [store_mem_of_ne, address_zero]
      . exact Function.update_self _ _ _
      . intro j hj heq
        rw [address_next] at heq
        have := address_inj heq (by omega) (by omega)
        omega
    | succ i =>
      rw [← address_next, ih (by omega) (by omega)]
      rfl

end State

end

/-! ### Runs -/

variable {code : Code} {a : Word} {s : State} {p : Word × State} {Q R : Word × State → Prop}

/-- The run from `p` gets to a point where `Q` holds. -/
def Reaches (code : Code) (p : Word × State) (Q : Word × State → Prop) : Prop := ∃ q, Exec code p q ∧ Q q

theorem Reaches.here (h : Q p) : Reaches code p Q := ⟨p, .refl, h⟩

theorem Reaches.next {q : Word × State} (h : Exec code p q) (hq : Reaches code q Q) : Reaches code p Q := by
  obtain ⟨t, ht, hQ⟩ := hq
  exact ⟨t, h.trans ht, hQ⟩

theorem Reaches.bind (h : Reaches code p Q) (hQ : ∀ q, Q q → Reaches code q R) : Reaches code p R := by
  obtain ⟨q, hq, hh⟩ := h
  exact .next hq (hQ q hh)

/--
A loop with the entry `a`: one round keeps the invariant `P` and makes the variant `f` smaller, or it leaves the loop.
-/
theorem Reaches.loop {P : State → Prop} (f : State → Nat) (hs : P s)
    (hround : ∀ s, P s → Reaches code (a, s) (fun q => Q q ∨ q.1 = a ∧ P q.2 ∧ f q.2 < f s))
    : Reaches code (a, s) Q := by
  induction hn : f s using Nat.strongRecOn generalizing s with
  | _ n ih =>
    refine (hround s hs).bind ?_
    rintro ⟨b, t⟩ (hq | ⟨rfl, ht, hlt⟩)
    . exact .here hq
    . exact ih (f t) (hn ▸ hlt) ht rfl

/-- The registers but for `rs`, and the memory, are what they were. -/
structure Keeps (rs : List Reg) (s t : State) : Prop where
  reg : ∀ r, r ∉ rs → t.reg r = s.reg r
  mem : t.mem = s.mem

namespace Keeps

variable {rs : List Reg} {s t u : State}

theorem refl : Keeps rs s s where
  reg _ _ := rfl
  mem := rfl

theorem trans (h : Keeps rs s t) (h' : Keeps rs t u) : Keeps rs s u where
  reg r hr := (h'.reg r hr).trans (h.reg r hr)
  mem := h'.mem.trans h.mem

theorem mono {rs' : List Reg} (h : Keeps rs s t) (hsub : rs ⊆ rs') : Keeps rs' s t where
  reg r hr := h.reg r (fun hmem => hr (hsub hmem))
  mem := h.mem

theorem flagsSub {x y : Word} (h : Keeps rs s t) : Keeps rs s (t.flagsSub x y) := ⟨h.reg, h.mem⟩

theorem flagsLogic {x : Word} {c : Bool} (h : Keeps rs s t) : Keeps rs s (t.flagsLogic x c) := ⟨h.reg, h.mem⟩

theorem set {r : Reg} {x : Word} (h : Keeps rs s t) (hr : r ∈ rs) : Keeps rs s (t.set r x) where
  reg r' hr' := by
    have hne : r' ≠ r := by
      intro heq
      exact hr' (heq ▸ hr)
    rw [State.set_reg_of_ne hne, h.reg r' hr']
  mem := h.mem

end Keeps

end Arm
