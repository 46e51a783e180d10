import PureUsb.Arm.Reaches
import PureUsb.Division

/-!
This module contains what the division routines have in common: the loop that shifts the divisor up to the dividend,
and the comparisons that find one bit of the quotient each.
-/

namespace Arm

open LongDivision

/-- Where a routine keeps what it works on. -/
structure Work where
  dividend : Reg
  divisor : Reg
  /-- what becomes of the bits: the quotient, or something about them -/
  result : Reg
  /-- how far the divisor has been shifted -/
  curbit : Reg
  nodup : [dividend, divisor, result, curbit].Nodup

namespace Work

variable (w : Work)

def regs : List Reg := [w.dividend, w.divisor, w.result, w.curbit]

theorem ne
    : (w.dividend ≠ w.divisor ∧ w.dividend ≠ w.result ∧ w.dividend ≠ w.curbit) ∧
      (w.divisor ≠ w.result ∧ w.divisor ≠ w.curbit) ∧ w.result ≠ w.curbit := by
  simpa [not_or, and_assoc] using w.nodup

end Work

/-! ### The divisor is shifted up -/

section

variable {code : Code} {a a' : Word} {w : Work} {s : State} {b k : Nat}

/-- `tick` keeps account of a shift: it applies `f` to the count, under the condition of the shift. -/
structure Ticks (w : Work) (tick : Instr Word) (f : Word → Word) : Prop where
  straight : tick.straight = true
  run : ∀ s : State, s.run tick = s.set w.curbit (if s.holds .cc then f (s.reg w.curbit) else s.reg w.curbit)

/-- Unless the divisor is very big, or larger than the dividend, it is shifted; `tick` keeps account of that. -/
def shiftUp (w : Work) (limit : Word) (j : Nat) (tick : Instr Word) : List (Instr Word) :=
  [.test .cmp .al w.divisor (.imm limit),
   .test .cmp .cc w.divisor (.reg w.dividend),
   .mov .cc false w.divisor (.shift w.divisor .lsl j),
   tick]

theorem toNat_shiftLeft_of_lt {x : Word} {j : Nat} (hj : j ≤ 32) (h : x.toNat < 2 ^ (32 - j))
    : (x <<< j).toNat = x.toNat * 2 ^ j := by
  have hlt : x.toNat * 2 ^ j < 2 ^ 32 := by
    calc x.toNat * 2 ^ j < 2 ^ (32 - j) * 2 ^ j := Nat.mul_lt_mul_of_pos_right h (Nat.two_pow_pos j)
      _ = 2 ^ 32 := by rw [← Nat.pow_add, Nat.sub_add_cancel hj]
  rw [BitVec.toNat_shiftLeft, Nat.shiftLeft_eq, Nat.mod_eq_of_lt hlt]

def Small (w : Work) (limit : Word) (s : State) : Prop :=
  (s.reg w.divisor).toNat < limit.toNat ∧ (s.reg w.divisor).toNat < (s.reg w.dividend).toNat

instance (w : Work) (limit : Word) (s : State) : Decidable (Small w limit s) := inferInstanceAs (Decidable (_ ∧ _))

theorem run_compare (limit : Word) {t : State}
    (ht : (s.run (T := Word) (.test .cmp .al w.divisor (.imm limit))).run (T := Word)
      (.test .cmp .cc w.divisor (.reg w.dividend)) = t)
    : (t.holds .cc = true ↔ Small w limit s) ∧ t.reg = s.reg ∧ t.mem = s.mem := by
  rw [State.run_cmp, Operand.value_imm] at ht
  unfold State.run at ht
  rw [Instr.cond] at ht
  unfold Small
  split at ht
  . next hlo =>
    have hlt : (s.reg w.divisor).toNat < limit.toNat := by simpa using hlo
    have hsecond : t = (s.flagsSub (s.reg w.divisor) limit).flagsSub (s.reg w.divisor) (s.reg w.dividend) := ht.symm
    rw [hsecond]
    refine ⟨?_, rfl, rfl⟩
    simp [hlt]
  . next hhs =>
    have hle : limit.toNat ≤ (s.reg w.divisor).toNat := by simpa using hhs
    subst ht
    refine ⟨?_, rfl, rfl⟩
    simp [hle, Nat.not_lt.2 hle]

theorem run_shiftUp (limit : Word) {j : Nat} {tick : Instr Word} {f : Word → Word} (htick : Ticks w tick f)
    {t : State} (ht : (shiftUp w limit j tick).foldl State.run s = t)
    : (t.holds .cc = true ↔ Small w limit s) ∧
      t.reg w.divisor = (if Small w limit s then s.reg w.divisor <<< j else s.reg w.divisor) ∧
      t.reg w.curbit = (if Small w limit s then f (s.reg w.curbit) else s.reg w.curbit) ∧
      Keeps [w.divisor, w.curbit] s t := by
  obtain ⟨-, ⟨-, hvc⟩, -⟩ := w.ne
  unfold shiftUp at ht
  simp only [List.foldl_cons, List.foldl_nil, htick.run] at ht
  obtain ⟨hholds, hreg, hmem⟩ := run_compare (w := w) (s := s) limit rfl
  generalize (s.run (T := Word) (.test .cmp .al w.divisor (.imm limit))).run (T := Word)
    (.test .cmp .cc w.divisor (.reg w.dividend)) = u at ht hholds hreg hmem
  have hkeeps : Keeps [w.divisor, w.curbit] s u := ⟨fun r _ => congrFun hreg r, hmem⟩
  rw [State.run_mov, State.holds_set, State.set_reg_of_ne hvc.symm] at ht
  simp only [hholds] at ht
  subst ht
  refine ⟨?_, ?_, ?_, (hkeeps.set (by simp)).set (by simp)⟩
  . rwa [State.holds_set, State.holds_set]
  . rw [State.set_reg_of_ne hvc, State.set_reg_self, Operand.value_lsl, hreg]
  . rw [State.set_reg_self, hreg]

/--
The divisor ends up as a multiple `b * 2 ^ k` that is not small any more. `I` says what the account of the shifts is.
-/
theorem reaches_shiftUp {n : Word} {limit : Word} {j : Nat} {tick : Instr Word} {f : Word → Word}
    {I : Nat → Word → Prop} (hj : 0 < j ∧ j ≤ 32) (hb : 0 < b) (hlimit : limit.toNat = 2 ^ (32 - j))
    (htick : Ticks w tick f)
    (hI : ∀ k x, b * 2 ^ k < 2 ^ (32 - j) → b * 2 ^ k < n.toNat → I k x → I (k + j) (f x))
    (hcode : CodeAt code a (shiftUp w limit j tick ++ [.b .cc a]))
    (hn : s.reg w.dividend = n) (hd : (s.reg w.divisor).toNat = b * 2 ^ k) (hc : I k (s.reg w.curbit))
    : Reaches code (a, s) (fun (pc, t) => pc = address a 5 ∧ ∃ k,
        (t.reg w.divisor).toNat = b * 2 ^ k ∧ I k (t.reg w.curbit) ∧
        ¬(b * 2 ^ k < 2 ^ (32 - j) ∧ b * 2 ^ k < n.toNat) ∧ Keeps [w.divisor, w.curbit] s t) := by
  obtain ⟨⟨hnv, -, hnc⟩, -, -⟩ := w.ne
  let P (t : State) : Prop := ∃ k, (t.reg w.divisor).toNat = b * 2 ^ k ∧ I k (t.reg w.curbit) ∧
    Keeps [w.divisor, w.curbit] s t
  refine Reaches.loop (P := P) (fun t => 2 ^ 32 - (t.reg w.divisor).toNat) ⟨k, hd, hc, .refl⟩ ?_
  rintro t ⟨k, hd, hc, hkeeps⟩
  have htn : t.reg w.dividend = n := by
    rw [hkeeps.reg _ (by simp [hnv, hnc]), hn]
  have hstraight : (shiftUp w limit j tick).all Instr.straight = true := by
    show (true && (true && (true && (tick.straight && true)))) = true
    rw [htick.straight]
    rfl
  obtain ⟨hholds, hdiv, hcur, hround⟩ := run_shiftUp (s := t) limit (j := j) htick rfl
  have hsmall : Small w limit t ↔ b * 2 ^ k < 2 ^ (32 - j) ∧ b * 2 ^ k < n.toNat := by
    rw [Small, htn, hd, hlimit]
  refine .next (hcode.branch hstraight t) (.here ?_)
  simp only [hholds]
  by_cases hgo : Small w limit t
  . right
    have hlt := hsmall.1 hgo
    have hpow : 1 < 2 ^ j := Nat.one_lt_two_pow (Nat.pos_iff_ne_zero.1 hj.1)
    have hd' : (t.reg w.divisor <<< j).toNat = b * 2 ^ (k + j) := by
      rw [toNat_shiftLeft_of_lt hj.2 (hd ▸ hlt.1), hd, Nat.mul_assoc, ← Nat.pow_add]
    rw [if_pos hgo] at hdiv hcur
    refine ⟨if_pos hgo, ⟨k + j, ?_, ?_, hkeeps.trans hround⟩, ?_⟩
    . rw [hdiv, hd']
    . rw [hcur]
      exact hI k _ hlt.1 hlt.2 hc
    . have hbound := (t.reg w.divisor <<< j).isLt
      have hgrow : b * 2 ^ k < b * 2 ^ (k + j) :=
        Nat.mul_lt_mul_of_pos_left (Nat.pow_lt_pow_right (by decide) (by omega)) hb
      simp only [hdiv]
      rw [hd'] at hbound ⊢
      rw [hd]
      omega
  . left
    rw [if_neg hgo] at hdiv hcur
    refine ⟨?_, k, ?_, ?_, fun h => hgo (hsmall.2 h), hkeeps.trans hround⟩
    . exact if_neg hgo
    . rw [hdiv, hd]
    . rw [hcur]
      exact hc

/-- One loop in steps of four bits, and one in steps of a single bit. -/
def shiftUps (w : Work) (a a' : Word) (tick4 tick1 : Instr Word) : List (Instr Word) :=
  shiftUp w 0x10000000 4 tick4 ++ [.b .cc a] ++ (shiftUp w 0x80000000 1 tick1 ++ [.b .cc a'])

theorem reaches_shiftUps {n : Word} {tick4 tick1 : Instr Word} {f g : Word → Word} {I J : Nat → Word → Prop}
    (hb : 0 < b)
    (htick4 : Ticks w tick4 f) (htick1 : Ticks w tick1 g)
    (hI : ∀ k x, b * 2 ^ k < 2 ^ 28 → b * 2 ^ k < n.toNat → I k x → I (k + 4) (f x))
    (hIJ : ∀ k x, I k x → J k x)
    (hJ : ∀ k x, b * 2 ^ k < 2 ^ 31 → b * 2 ^ k < n.toNat → J k x → J (k + 1) (g x))
    (ha : a' = address a 5) (hcode : CodeAt code a (shiftUps w a a' tick4 tick1))
    (hn : s.reg w.dividend = n) (hd : (s.reg w.divisor).toNat = b * 2 ^ k) (hc : I k (s.reg w.curbit))
    : Reaches code (a, s) (fun (pc, t) => pc = address a 10 ∧ ∃ k,
        (t.reg w.divisor).toNat = b * 2 ^ k ∧ J k (t.reg w.curbit) ∧ (2 ^ 31 ≤ b * 2 ^ k ∨ n.toNat ≤ b * 2 ^ k) ∧
        Keeps [w.divisor, w.curbit] s t) := by
  obtain ⟨⟨hnv, -, hnc⟩, -, -⟩ := w.ne
  subst ha
  unfold shiftUps at hcode
  rw [codeAt_append] at hcode
  have hfirst := reaches_shiftUp (by decide) hb rfl htick4 hI hcode.1 hn hd hc
  refine hfirst.bind ?_
  rintro ⟨pc, t⟩ ⟨rfl, k, hd, hc, -, hkeeps⟩
  have htn : t.reg w.dividend = n := by
    rw [hkeeps.reg _ (by simp [hnv, hnc]), hn]
  have hsecond := reaches_shiftUp (by decide) hb rfl htick1 hJ hcode.2 htn hd (hIJ k _ hc)
  refine hsecond.bind ?_
  rintro ⟨pc, u⟩ ⟨rfl, k, hd, hc, hstop, hkeeps'⟩
  rw [not_and_or, Nat.not_lt, Nat.not_lt] at hstop
  exact .here ⟨address_address a 5 5, k, hd, hc, hstop, hkeeps.trans hkeeps'⟩

theorem lt_of_shiftedUp {n : Word} (hb : 0 < b) (h : 2 ^ 31 ≤ b * 2 ^ k ∨ n.toNat ≤ b * 2 ^ k)
    : n.toNat < 2 ^ (k + 1) * b := by
  have hbound := n.isLt
  have hpos : 0 < b * 2 ^ k := Nat.mul_pos hb (Nat.two_pow_pos k)
  rw [Nat.pow_succ, Nat.mul_comm (2 ^ k), Nat.mul_assoc, Nat.mul_comm (2 ^ k)]
  omega

theorem toNat_curbit {x : Word} {j : Nat} (hb : 0 < b) (hj : j ≤ 32) (hlt : b * 2 ^ k < 2 ^ (32 - j))
    (hx : x.toNat = 2 ^ k)
    : (x <<< j).toNat = 2 ^ (k + j) := by
  have hle : 2 ^ k ≤ b * 2 ^ k := Nat.le_mul_of_pos_left _ hb
  rw [toNat_shiftLeft_of_lt hj (hx ▸ Nat.lt_of_le_of_lt hle hlt), hx, Nat.pow_add]

theorem ticks_shift (j : Nat) : Ticks w (.mov .cc false w.curbit (.shift w.curbit .lsl j)) (· <<< j) where
  straight := rfl
  run _ := by simp

theorem reaches_curbit {n : Word} (hb : 0 < b)
    (ha : a' = address a 5)
    (hcode : CodeAt code a (shiftUps w a a' (.mov .cc false w.curbit (.shift w.curbit .lsl 4))
      (.mov .cc false w.curbit (.shift w.curbit .lsl 1))))
    (hn : s.reg w.dividend = n) (hd : (s.reg w.divisor).toNat = b * 2 ^ k) (hc : (s.reg w.curbit).toNat = 2 ^ k)
    : Reaches code (a, s) (fun (pc, t) => pc = address a 10 ∧ ∃ k,
        (t.reg w.divisor).toNat = b * 2 ^ k ∧ (t.reg w.curbit).toNat = 2 ^ k ∧ n.toNat < 2 ^ (k + 1) * b ∧
        Keeps [w.divisor, w.curbit] s t) := by
  have hloops := reaches_shiftUps (I := fun k x => x.toNat = 2 ^ k) hb (ticks_shift 4) (ticks_shift 1)
    (fun k x hlt _ hx => toNat_curbit hb (by decide) hlt hx)
    (fun _ _ => id) (fun k x hlt _ hx => toNat_curbit hb (by decide) hlt hx) ha hcode hn hd hc
  refine hloops.bind ?_
  rintro ⟨pc, t⟩ ⟨hpc, k, hdiv, hcur, hstop, hkeeps⟩
  exact .here ⟨hpc, k, hdiv, hcur, lt_of_shiftedUp hb hstop, hkeeps⟩

end

/-! ### Bits of the quotient -/

def shiftedDown (r : Reg) : Nat → Operand
  | 0 => .reg r
  | j + 1 => .shift r .lsr (j + 1)

@[simp]
theorem value_shiftedDown {r : Reg} {j : Nat} {s : State} : (shiftedDown r j).value s = s.reg r >>> j := by
  cases j with
  | zero => exact (BitVec.ushiftRight_zero _).symm
  | succ j => exact Operand.value_lsr

section

variable (w : Work)

def bit (j : Nat) : List (Instr Word) :=
  [.test .cmp .al w.dividend (shiftedDown w.divisor j),
   .alu .sub .cs false w.dividend w.dividend (shiftedDown w.divisor j)]

def bitNoted (mark : Operand) (j : Nat) : List (Instr Word) :=
  bit w j ++ [.alu .orr .cs false w.result w.result mark]

/-- On to the next four bits, if there is something left to divide. -/
def nextBits : List (Instr Word) :=
  [.test .cmp .al w.dividend (.imm 0),
   .mov .ne true w.curbit (.shift w.curbit .lsr 4),
   .mov .ne false w.divisor (.shift w.divisor .lsr 4)]

/-- The first `j` bits have been found since `s`. -/
structure Found (mark : Nat → Word) (s t : State) (j : Nat) : Prop where
  dividend : t.reg w.dividend = remaining (s.reg w.divisor) (s.reg w.dividend) j
  result : t.reg w.result = noted mark (s.reg w.divisor) (s.reg w.dividend) (s.reg w.result) j
  keeps : Keeps [w.dividend, w.result] s t

end

section

variable {w : Work} {mark : Nat → Word} {s t : State} {j : Nat}

theorem Found.start : Found w mark s s 0 where
  dividend := rfl
  result := rfl
  keeps := .refl

theorem run_bit
    : (bit w j).foldl State.run t
      = (t.flagsSub (t.reg w.dividend) (t.reg w.divisor >>> j)).set w.dividend
        (if (t.reg w.divisor >>> j).toNat ≤ (t.reg w.dividend).toNat then t.reg w.dividend - t.reg w.divisor >>> j
         else t.reg w.dividend) := by
  unfold bit
  rw [List.foldl_cons, List.foldl_cons, List.foldl_nil, State.run_cmp, State.run_sub]
  simp

theorem Found.divisor (h : Found w mark s t j) : t.reg w.divisor = s.reg w.divisor := by
  obtain ⟨⟨hdv, -, -⟩, ⟨hvr, -⟩, -⟩ := w.ne
  exact h.keeps.reg _ (by simp [hdv.symm, hvr])

theorem Found.bitNoted (h : Found w mark s t j) {o : Operand}
    (ho : ∀ u, Keeps [w.dividend, w.result] s u → o.value u = mark j)
    : Found w mark s ((bitNoted w o j).foldl State.run t) (j + 1) := by
  obtain ⟨⟨-, hdr, -⟩, -, -⟩ := w.ne
  have hfits : (t.reg w.divisor >>> j).toNat ≤ (t.reg w.dividend).toNat
      ↔ fits (s.reg w.divisor) (s.reg w.dividend) j := by
    rw [h.divisor, h.dividend, fits]
  have hset : Keeps [w.dividend, w.result] s ((bit w j).foldl State.run t) := by
    rw [run_bit]
    exact Keeps.set ⟨h.keeps.reg, h.keeps.mem⟩ (by simp)
  unfold Arm.bitNoted
  rw [List.foldl_append, List.foldl_cons, List.foldl_nil, State.run_orr, ho _ hset]
  refine ⟨?_, ?_, hset.set (by simp)⟩
  . rw [State.set_reg_of_ne hdr, run_bit, State.set_reg_self, remaining_succ]
    simp only [hfits]
    rw [h.divisor, h.dividend]
  . rw [State.set_reg_self, noted_succ, run_bit, State.holds_set, State.set_reg_of_ne hdr.symm]
    simp only [State.holds_cs, State.flagsSub_c, State.flagsSub_reg, decide_eq_true_eq, hfits]
    rw [h.result]

theorem Found.bit (h : Found w mark s t j) (hmark : mark j = 0)
    : Found w mark s ((bit w j).foldl State.run t) (j + 1) := by
  obtain ⟨⟨-, hdr, -⟩, -, -⟩ := w.ne
  rw [run_bit]
  refine ⟨?_, ?_, Keeps.set ⟨h.keeps.reg, h.keeps.mem⟩ (by simp)⟩
  . rw [State.set_reg_self, remaining_succ, h.divisor, h.dividend]
    rfl
  . rw [State.set_reg_of_ne hdr.symm, State.flagsSub_reg, h.result, noted_succ, hmark]
    simp

theorem run_nextBits (ht : (nextBits w).foldl State.run s = t)
    : (t.holds .ne = true ↔ s.reg w.dividend ≠ 0 ∧ s.reg w.curbit >>> 4 ≠ 0) ∧
      t.reg w.divisor = (if t.holds .ne then s.reg w.divisor >>> 4 else s.reg w.divisor) ∧
      (t.holds .ne = true → t.reg w.curbit = s.reg w.curbit >>> 4) ∧ Keeps [w.divisor, w.curbit] s t := by
  obtain ⟨-, ⟨-, hvc⟩, -⟩ := w.ne
  unfold nextBits at ht
  rw [List.foldl_cons, List.foldl_cons, List.foldl_cons, List.foldl_nil, State.run_cmp, Operand.value_imm,
    State.run_mov] at ht
  generalize hu : (s.flagsSub (s.reg w.dividend) 0).run (T := Word)
    (.mov .ne true w.curbit (.shift w.curbit .lsr 4)) = u at ht
  unfold State.run at hu
  rw [Instr.cond, State.holds_ne, State.flagsSub_z] at hu
  by_cases hzero : s.reg w.dividend = 0#32
  . rw [if_neg (by simp [hzero])] at hu
    subst hu
    subst ht
    refine ⟨by simp [hzero], by simp [hzero], by simp [hzero], Keeps.set ⟨fun _ _ => rfl, rfl⟩ (by simp)⟩
  . rw [if_pos (by simp [hzero])] at hu
    have hmov : u = ((s.flagsSub (s.reg w.dividend) 0).flagsLogic (s.reg w.curbit >>> 4)
        ((s.reg w.curbit).getLsbD 3)).set w.curbit (s.reg w.curbit >>> 4) := hu.symm
    subst hmov
    subst ht
    refine ⟨by simp [hzero], by simp [hvc], by simp [hvc.symm], ?_⟩
    refine .set (.set ⟨fun _ _ => rfl, rfl⟩ ?_) ?_ <;> simp

end

/-! ### The loop for the quotient -/

section

variable {code : Code} {a : Word} {w : Work} {s t : State} {N b k : Nat}

def quotientBits (w : Work) : List (Instr Word) :=
  bitNoted w (shiftedDown w.curbit 0) 0 ++ bitNoted w (shiftedDown w.curbit 1) 1 ++
    bitNoted w (shiftedDown w.curbit 2) 2 ++ bitNoted w (shiftedDown w.curbit 3) 3

theorem found_quotientBits
    : Found w (fun j => s.reg w.curbit >>> j) s ((quotientBits w).foldl State.run s) 4 := by
  obtain ⟨⟨-, -, hdc⟩, -, hrc⟩ := w.ne
  have hmark (j : Nat) (u : State) (h : Keeps [w.dividend, w.result] s u)
      : (shiftedDown w.curbit j).value u = s.reg w.curbit >>> j := by
    rw [value_shiftedDown, h.reg _ (by simp [hdc.symm, hrc.symm])]
  unfold quotientBits
  simp only [List.foldl_append]
  exact (((Found.start.bitNoted (hmark 0)).bitNoted (hmark 1)).bitNoted (hmark 2)).bitNoted (hmark 3)

/-- The multiples of `2 ^ (k + 1)` in the quotient have been found; the divisor is shifted up by `k`. -/
structure Dividing (w : Work) (N b k : Nat) (s : State) : Prop where
  divisor : (s.reg w.divisor).toNat = b * 2 ^ k
  curbit : (s.reg w.curbit).toNat = 2 ^ k
  part : Partial N b (s.reg w.dividend).toNat (s.reg w.result).toNat (2 ^ (k + 1))

/-- One round of the loop: it is the last one, or it leaves the next four bits to do. -/
theorem Dividing.round (h : Dividing w N b k s) (ht : (quotientBits w ++ nextBits w).foldl State.run s = t)
    : Keeps w.regs s t ∧
      if t.holds .ne then 4 ≤ k ∧ Dividing w N b (k - 4) t else (t.reg w.result).toNat = N / b := by
  obtain ⟨⟨hdv, -, hdc⟩, ⟨hvr, hvc⟩, hrc⟩ := w.ne
  have hfound := found_quotientBits (w := w) (s := s)
  rw [List.foldl_append] at ht
  generalize (quotientBits w).foldl State.run s = u at ht hfound
  obtain ⟨hne, hdiv, hcur, hkeeps⟩ := run_nextBits ht
  have hcurbit : u.reg w.curbit = s.reg w.curbit := hfound.keeps.reg _ (by simp [hdc.symm, hrc.symm])
  have hresult : t.reg w.result = u.reg w.result := hkeeps.reg _ (by simp [hvr.symm, hrc])
  have hdividend : t.reg w.dividend = u.reg w.dividend := hkeeps.reg _ (by simp [hdv, hdc])
  refine ⟨(hfound.keeps.mono (by simp [Work.regs])).trans (hkeeps.mono (by simp [Work.regs])), ?_⟩
  have hbit : u.reg w.curbit >>> 4 ≠ 0 ↔ 4 ≤ k := by
    rw [hcurbit]
    exact shiftRight_pow_ne_zero h.curbit
  by_cases hk : 4 ≤ k
  . have hbits := h.part.bits h.divisor h.curbit (show 4 ≤ k + 1 by omega)
    rw [← hfound.dividend, ← hfound.result] at hbits
    split
    . next hgo =>
      rw [if_pos hgo] at hdiv
      refine ⟨hk, ?_, ?_, ?_⟩
      . rw [hdiv, hfound.divisor]
        exact toNat_shiftRight_mul h.divisor hk
      . rw [hcur hgo, hcurbit]
        exact toNat_shiftRight_pow h.curbit hk
      . rw [hdividend, hresult, ← Nat.sub_add_comm hk]
        exact hbits
    . next hstop =>
      -- the bit is not shifted out yet: there is nothing left
      have hzero : u.reg w.dividend = 0 := Decidable.byContradiction fun hn => hstop (hne.2 ⟨hn, hbit.2 hk⟩)
      rw [hzero] at hbits
      rw [hresult]
      exact hbits.of_zero.1
  . rw [if_neg (fun hgo => hk (hbit.1 (hne.1 hgo).2)), hresult, hfound.result]
    exact h.part.last h.divisor h.curbit (by omega)

theorem Dividing.reaches (h : Dividing w N b k s)
    (hcode : CodeAt code a (quotientBits w ++ nextBits w ++ [.b .ne a]))
    : Reaches code (a, s) (fun (pc, t) =>
        pc = address a 16 ∧ (t.reg w.result).toNat = N / b ∧ Keeps w.regs s t) := by
  refine Reaches.loop (P := fun t => ∃ k, Dividing w N b k t ∧ Keeps w.regs s t)
    (fun t => (t.reg w.curbit).toNat) ⟨k, h, .refl⟩ ?_
  rintro t ⟨k, h, hkeeps⟩
  obtain ⟨hround, hnext⟩ := h.round rfl
  refine .next (hcode.branch rfl t) (.here ?_)
  split at hnext
  . next hgo =>
    have hlt : 2 ^ (k - 4) < 2 ^ k := Nat.pow_lt_pow_right (by decide) (by omega)
    right
    refine ⟨if_pos hgo, ⟨k - 4, hnext.2, hkeeps.trans hround⟩, ?_⟩
    show (State.reg _ w.curbit).toNat < (t.reg w.curbit).toNat
    rwa [hnext.2.curbit, h.curbit]
  . next hstop =>
    left
    exact ⟨if_neg hstop, hnext, hkeeps.trans hround⟩

end

end Arm
