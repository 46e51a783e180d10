import Mathlib.Algebra.Group.Nat.Defs
import Mathlib.Algebra.GroupWithZero.Nat
import Mathlib.Logic.Function.Basic
import Mathlib.Logic.Relation
import Mathlib.Tactic.Common

/-!
This module contains the part of the ARM instruction set that hand written integer routines are made of:
conditional data processing with shifted operands, branches, and the stack.
-/

namespace Arm

abbrev Word := BitVec 32

inductive Reg where
  | r0 | r1 | r2 | r3 | r4 | r5 | r6 | r7 | r8 | r9 | r10 | r11 | ip | sp | lr
  deriving DecidableEq

/-- The registers but for `pc`, the flags, and the words of the memory. -/
structure State where
  reg : Reg → Word
  n : Bool
  z : Bool
  c : Bool
  v : Bool
  mem : Word → Word

/-- Conditions; `hs` and `lo` are other names of `cs` and `cc`. -/
inductive Cond where
  | eq | ne | cs | cc | mi | pl | hi | ls | ge | lt | al
  deriving DecidableEq

abbrev Cond.hs : Cond := .cs
abbrev Cond.lo : Cond := .cc

def State.holds (s : State) : Cond → Bool
  | .eq => s.z
  | .ne => !s.z
  | .cs => s.c
  | .cc => !s.c
  | .mi => s.n
  | .pl => !s.n
  | .hi => s.c && !s.z
  | .ls => !s.c || s.z
  | .ge => s.n == s.v
  | .lt => s.n != s.v
  | .al => true

inductive ShiftOp where
  | lsl | lsr | asr | ror

/-- The second operand of an instruction. -/
inductive Operand where
  | imm (x : Word)
  | reg (r : Reg)
  | shift (r : Reg) (op : ShiftOp) (k : Nat)
  | shiftBy (r : Reg) (op : ShiftOp) (rs : Reg)

/-- `x` shifted by `k`, and the bit that the shifter carries out. -/
def ShiftOp.apply (op : ShiftOp) (x : Word) (k : Nat) (c : Bool) : Word × Bool :=
  if k = 0 then
    (x, c)
  else
    match op with
    | lsl => (x <<< k, decide (k ≤ 32) && x.getLsbD (32 - k))
    | lsr => (x >>> k, x.getLsbD (k - 1))
    | asr => (x.sshiftRight k, if k ≤ 32 then x.getLsbD (k - 1) else x.msb)
    | ror => (x.rotateRight k, (x.rotateRight k).msb)

/-- The value of an operand and the carry of the shifter. A constant above 255 is a byte that was rotated. -/
def Operand.eval (o : Operand) (s : State) : Word × Bool :=
  match o with
  | imm x => (x, if x.toNat < 256 then s.c else x.msb)
  | reg r => (s.reg r, s.c)
  | shift r op k => op.apply (s.reg r) k s.c
  | shiftBy r op rs => op.apply (s.reg r) ((s.reg rs).toNat % 256) s.c

def Operand.value (o : Operand) (s : State) : Word := (o.eval s).1

inductive AluOp where
  | and | eor | sub | rsb | add | orr

inductive TestOp where
  | tst | teq | cmp | cmn

/-- Instructions that branch to targets of type `T`. -/
inductive Instr (T : Type) where
  /-- `rd := rn op o`; the flags are set if `s` is -/
  | alu (op : AluOp) (cond : Cond) (s : Bool) (rd rn : Reg) (o : Operand)
  | mov (cond : Cond) (s : Bool) (rd : Reg) (o : Operand)
  | test (op : TestOp) (cond : Cond) (rn : Reg) (o : Operand)
  | mul (rd rm rs : Reg)
  /-- `stmfd sp!, {rs}`; `str r, [sp, #-4]!` for a single register -/
  | push (rs : List Reg)
  /-- `ldmfd sp!, {rs}` -/
  | pop (rs : List Reg)
  /-- `ldr pc, [sp], #4` -/
  | popPc
  | b (cond : Cond) (t : T)
  | bl (t : T)
  /-- `mov pc, lr` -/
  | ret (cond : Cond)

namespace State

def set (s : State) (r : Reg) (x : Word) : State := { s with reg := Function.update s.reg r x }

/-- The flags after a result `x` of the logical instructions. -/
def flagsLogic (s : State) (x : Word) (c : Bool) : State :=
  { s with n := x.msb, z := decide (x = 0), c }

/-- The flags after `x + y`. -/
def flagsAdd (s : State) (x y : Word) : State :=
  { s with
    n := (x + y).msb
    z := decide (x + y = 0)
    c := decide (2 ^ 32 ≤ x.toNat + y.toNat)
    v := decide ((x + y).toInt ≠ x.toInt + y.toInt) }

/-- The flags after `x - y`; the carry is set unless something had to be borrowed. -/
def flagsSub (s : State) (x y : Word) : State :=
  { s with
    n := (x - y).msb
    z := decide (x - y = 0)
    c := decide (y.toNat ≤ x.toNat)
    v := decide ((x - y).toInt ≠ x.toInt - y.toInt) }

/-- Store `xs` at the addresses from `a` on. -/
def store (s : State) (a : Word) : List Word → State
  | [] => s
  | x :: xs => { s with mem := Function.update s.mem a x }.store (a + 4) xs

/-- Store `rs` on top of the stack, the first one at the lowest address. -/
def pushRegs (s : State) (rs : List Reg) : State :=
  let sp := s.reg .sp - BitVec.ofNat 32 (4 * rs.length)
  (s.store sp (rs.map s.reg)).set .sp sp

/-- Load `rs` from the addresses from `a` on. -/
def load (s : State) (a : Word) : List Reg → State
  | [] => s
  | r :: rs => (s.set r (s.mem a)).load (a + 4) rs

/-- Load `rs` from the top of the stack. -/
def popRegs (s : State) (rs : List Reg) : State :=
  (s.set .sp (s.reg .sp + BitVec.ofNat 32 (4 * rs.length))).load (s.reg .sp) rs

/-- What an instruction that does not branch does once its condition holds. -/
def exec {T : Type} (s : State) : Instr T → State
  | .alu op _ f rd rn o =>
    let x := s.reg rn
    let (y, c) := o.eval s
    match op with
    | .and => (if f then s.flagsLogic (x &&& y) c else s).set rd (x &&& y)
    | .eor => (if f then s.flagsLogic (x ^^^ y) c else s).set rd (x ^^^ y)
    | .orr => (if f then s.flagsLogic (x ||| y) c else s).set rd (x ||| y)
    | .sub => (if f then s.flagsSub x y else s).set rd (x - y)
    | .rsb => (if f then s.flagsSub y x else s).set rd (y - x)
    | .add => (if f then s.flagsAdd x y else s).set rd (x + y)
  | .mov _ f rd o =>
    let (y, c) := o.eval s
    (if f then s.flagsLogic y c else s).set rd y
  | .test op _ rn o =>
    let x := s.reg rn
    let (y, c) := o.eval s
    match op with
    | .tst => s.flagsLogic (x &&& y) c
    | .teq => s.flagsLogic (x ^^^ y) c
    | .cmp => s.flagsSub x y
    | .cmn => s.flagsAdd x y
  | .mul rd rm rs => s.set rd (s.reg rm * s.reg rs)
  | .push rs => s.pushRegs rs
  | .pop rs => s.popRegs rs
  | _ => s

end State

namespace Instr

variable {T : Type}

def cond : Instr T → Cond
  | alu _ c .. => c
  | mov c .. => c
  | test _ c .. => c
  | b c _ => c
  | ret c => c
  | _ => .al

/-- The instruction goes on with the next one. -/
def straight : Instr T → Bool
  | alu .. | mov .. | test .. | mul .. | push .. | pop .. => true
  | _ => false

end Instr

namespace State

variable {T : Type}

/-- An instruction that does not branch. -/
def run (s : State) (i : Instr T) : State := if s.holds i.cond then s.exec i else s

/-- One instruction at the address `pc`: where the execution goes on, and in which state. -/
def step (s : State) (pc : Word) (i : Instr Word) : Word × State :=
  if s.holds i.cond then
    match i with
    | .b _ t => (t, s)
    | .bl t => (t, s.set .lr (pc + 4))
    | .ret _ => (s.reg .lr, s)
    | .popPc => (s.mem (s.reg .sp), s.set .sp (s.reg .sp + 4))
    | i => (pc + 4, s.exec i)
  else
    (pc + 4, s)

end State

/-- A routine is called with the arguments `x` and `y`, from the address `0x100`. -/
def State.call (x y : Word) : State where
  reg
    | .r0 => x
    | .r1 => y
    | .sp => 0x8000
    | .lr => 0x100
    | _ => 0
  n := false
  z := false
  c := false
  v := false
  mem _ := 0

/-! ### Programs -/

/-- A line of a listing with labels `L`. -/
inductive Line (L : Type) where
  | label (l : L)
  | op (i : Instr L)

/-- The index of the first instruction behind the label `l`. -/
def indexOf {L : Type} [DecidableEq L] (l : L) : List (Line L) → Nat
  | [] => 0
  | .label l' :: ls => if l' = l then 0 else indexOf l ls
  | .op _ :: ls => indexOf l ls + 1

def Instr.map {T U : Type} (f : T → U) : Instr T → Instr U
  | alu op c s rd rn o => alu op c s rd rn o
  | mov c s rd o => mov c s rd o
  | test op c rn o => test op c rn o
  | mul rd rm rs => mul rd rm rs
  | push rs => push rs
  | pop rs => pop rs
  | popPc => popPc
  | b c t => b c (f t)
  | bl t => bl (f t)
  | ret c => ret c

def Line.instr? {L : Type} : Line L → Option (Instr L)
  | label _ => none
  | op i => some i

/-- The address of the instruction with index `i`. -/
def address (base : Word) (i : Nat) : Word := base + BitVec.ofNat 32 (4 * i)

@[simp]
theorem address_zero (base : Word) : address base 0 = base := BitVec.add_zero base

theorem address_address (base : Word) (i j : Nat) : address (address base i) j = address base (i + j) := by
  unfold address
  rw [BitVec.add_assoc, ← BitVec.ofNat_add, Nat.mul_add]

theorem address_succ (base : Word) (i : Nat) : address base i + 4 = address base (i + 1) :=
  address_address base i 1

theorem address_next (base : Word) (i : Nat) : address (base + 4) i = address base (i + 1) := by
  have hone : base + 4 = address base 1 := rfl
  rw [hone, address_address, Nat.add_comm]

/-- The instructions of a listing, with `target` for its labels. -/
def assemble {L : Type} (target : L → Word) (ls : List (Line L)) : List (Instr Word) :=
  (ls.filterMap Line.instr?).map (Instr.map target)

/-- The instruction at each address. -/
abbrev Code := Word → Option (Instr Word)

/-- The instructions `is` stand at the addresses from `a` on. -/
def CodeAt (code : Code) (a : Word) : List (Instr Word) → Prop
  | [] => True
  | i :: is => code a = some i ∧ CodeAt code (a + 4) is

/-- One instruction of `code`, from an address and a state to the next. -/
def Step (code : Code) (p q : Word × State) : Prop := ∃ i, code p.1 = some i ∧ p.2.step p.1 i = q

/-- Any number of instructions. -/
def Exec (code : Code) : Word × State → Word × State → Prop := Relation.ReflTransGen (Step code)

/-- Memory with the instructions `is` at the addresses from `base` on. -/
def load (base : Word) (is : List (Instr Word)) : Code :=
  fun a => if (a - base).toNat % 4 = 0 then is[(a - base).toNat / 4]? else none

section

variable {code : Code} {a : Word} {is js : List (Instr Word)} {s : State}

theorem codeAt_of_getElem (h : ∀ i (hi : i < is.length), code (address a i) = some is[i]) : CodeAt code a is := by
  induction is generalizing a with
  | nil => trivial
  | cons i is ih =>
    refine ⟨?_, ih ?_⟩
    . have hfirst := h 0 (Nat.zero_lt_succ _)
      rwa [address_zero] at hfirst
    . intro j hj
      rw [address_next]
      exact h (j + 1) (Nat.succ_lt_succ hj)

theorem codeAt_load (a : Word) (is : List (Instr Word)) (h : 4 * is.length ≤ 2 ^ 32) : CodeAt (load a is) a is := by
  apply codeAt_of_getElem
  intro i hi
  have hoffset : (address a i - a).toNat = 4 * i := by
    unfold address
    rw [BitVec.add_comm, BitVec.add_sub_cancel, BitVec.toNat_ofNat, Nat.mod_eq_of_lt (by omega)]
  unfold load
  rw [hoffset, if_pos (Nat.mul_mod_right 4 i), Nat.mul_div_cancel_left i (by decide)]
  exact List.getElem?_eq_getElem hi

theorem codeAt_append
    : CodeAt code a (is ++ js) ↔ CodeAt code a is ∧ CodeAt code (address a is.length) js := by
  induction is generalizing a with
  | nil => simp [CodeAt]
  | cons i is ih => rw [List.cons_append, CodeAt, CodeAt, ih, address_next, List.length_cons, and_assoc]

theorem CodeAt.drop (h : CodeAt code a js) {i : Nat} (hi : i ≤ js.length) : CodeAt code (address a i) (js.drop i) := by
  rw [← List.take_append_drop i js, codeAt_append, List.length_take_of_le hi] at h
  exact h.2

theorem CodeAt.block (h : CodeAt code a js) (i : Nat) (is : List (Instr Word))
    (hblock : (js.drop i).take is.length = is)
    : CodeAt code (address a i) is := by
  by_cases hi : i ≤ js.length
  . have hdrop := h.drop hi
    rw [← List.take_append_drop is.length (js.drop i), codeAt_append, hblock] at hdrop
    exact hdrop.1
  . rw [List.drop_eq_nil_of_le (Nat.le_of_not_le hi), List.take_nil] at hblock
    subst hblock
    trivial

theorem step_of_straight {i : Instr Word} (h : i.straight = true) (pc : Word)
    : s.step pc i = (pc + 4, s.run i) := by
  unfold State.step State.run
  split
  . cases i <;> first | rfl | cases h
  . rfl

theorem exec_step {i : Instr Word} (h : code a = some i) : Exec code (a, s) (s.step a i) :=
  .single ⟨i, h, rfl⟩

theorem CodeAt.exec (h : CodeAt code a is) (hstraight : is.all Instr.straight = true) (s : State)
    : Exec code (a, s) (address a is.length, is.foldl State.run s) := by
  induction is generalizing a s with
  | nil =>
    rw [List.length_nil, address_zero]
    exact .refl
  | cons i is ih =>
    rw [List.all_cons, Bool.and_eq_true] at hstraight
    have hfirst := exec_step (s := s) h.1
    rw [step_of_straight hstraight.1] at hfirst
    rw [List.length_cons, ← address_next]
    exact hfirst.trans (ih h.2 hstraight.2 _)

theorem exec_branch {c : Cond} {t : Word} (h : code a = some (.b c t))
    : Exec code (a, s) (if s.holds c then t else a + 4, s) := by
  have hstep := exec_step (s := s) h
  have hb : s.step a (.b c t) = (if s.holds c then t else a + 4, s) := by
    by_cases hc : s.holds c = true
    . rw [if_pos hc]
      exact if_pos hc
    . rw [if_neg hc]
      exact if_neg hc
  rwa [hb] at hstep

theorem exec_ret {c : Cond} (h : code a = some (.ret c))
    : Exec code (a, s) (if s.holds c then s.reg .lr else a + 4, s) := by
  have hstep := exec_step (s := s) h
  have hb : s.step a (.ret c) = (if s.holds c then s.reg .lr else a + 4, s) := by
    by_cases hc : s.holds c = true
    . rw [if_pos hc]
      exact if_pos hc
    . rw [if_neg hc]
      exact if_neg hc
  rwa [hb] at hstep

theorem CodeAt.branch {c : Cond} {t : Word} (h : CodeAt code a (is ++ [.b c t]))
    (hstraight : is.all Instr.straight = true) (s : State)
    : Exec code (a, s)
        (if (is.foldl State.run s).holds c then t else address a (is.length + 1), is.foldl State.run s) := by
  rw [codeAt_append] at h
  rw [← address_succ]
  exact (h.1.exec hstraight s).trans (exec_branch h.2.1)

theorem CodeAt.retIf {c : Cond} (h : CodeAt code a (is ++ [.ret c])) (hstraight : is.all Instr.straight = true)
    (s : State)
    : Exec code (a, s)
        (if (is.foldl State.run s).holds c then (is.foldl State.run s).reg .lr else address a (is.length + 1),
         is.foldl State.run s) := by
  rw [codeAt_append] at h
  rw [← address_succ]
  exact (h.1.exec hstraight s).trans (exec_ret h.2.1)

theorem CodeAt.branchAt {c : Cond} {t : Word} (h : CodeAt code a js) (i : Nat) (is : List (Instr Word))
    (hblock : (js.drop i).take (is ++ [Instr.b c t]).length = is ++ [.b c t]) (hstraight : is.all Instr.straight = true)
    (s : State)
    : Exec code (address a i, s)
        (if (is.foldl State.run s).holds c then t else address a (i + (is.length + 1)), is.foldl State.run s) := by
  rw [← address_address]
  exact (h.block i _ hblock).branch hstraight s

theorem CodeAt.retAt {c : Cond} (h : CodeAt code a js) (i : Nat) (is : List (Instr Word))
    (hblock : (js.drop i).take (is ++ [Instr.ret c]).length = is ++ [.ret c]) (hstraight : is.all Instr.straight = true)
    (s : State)
    : Exec code (address a i, s)
        (if (is.foldl State.run s).holds c then (is.foldl State.run s).reg .lr else address a (i + (is.length + 1)),
         is.foldl State.run s) := by
  rw [← address_address]
  exact (h.block i _ hblock).retIf hstraight s

end

end Arm
