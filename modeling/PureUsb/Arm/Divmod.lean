import PureUsb.Arm.Divsi3
import PureUsb.Arm.Udivsi3

/-!
This module contains `__aeabi_uidivmod` and `__aeabi_idivmod`: they call a division, and find the remainder from its
quotient.
-/

namespace Arm

namespace divmod

/-- The only label is the division that is called. -/
inductive Label where
  | divide
  deriving DecidableEq

/-- `__aeabi_uidivmod` and `__aeabi_idivmod` -/
def listing : List (Line Label) :=
  [.op (.push [.r0, .r1, .ip, .lr]),
   .op (.bl .divide),
   .op (.pop [.r1, .r2, .ip, .lr]),
   .op (.mul .r3 .r0 .r2),
   .op (.alu .sub .al false .r1 .r1 (.reg .r3)),
   .op (.ret .al)]

def target (divide : Word) : Label → Word
  | .divide => divide

section

variable {code : Code} {base divide : Word} {s t : State} {f : Word → Word → Word}

theorem run_push {t : State} (ht : s.run (T := Word) (.push [.r0, .r1, .ip, .lr]) = t)
    : (∀ r, r ≠ .sp → t.reg r = s.reg r) ∧ t.reg .sp = s.reg .sp - 16 ∧
      (∀ i (hi : i < 4), t.mem (address (s.reg .sp - 16) i) = [s.reg .r0, s.reg .r1, s.reg .ip, s.reg .lr][i]) ∧
      ∀ p, (∀ i < 4, p ≠ address (s.reg .sp - 16) i) → t.mem p = s.mem p := by
  have hpush : t = (s.store (s.reg .sp - 16) [s.reg .r0, s.reg .r1, s.reg .ip, s.reg .lr]).set .sp (s.reg .sp - 16) :=
    ht.symm
  subst hpush
  refine ⟨?_, State.set_reg_self, ?_, ?_⟩
  . intro r hr
    rw [State.set_reg_of_ne hr, State.store_reg]
  . intro i hi
    rw [State.set_mem]
    exact @State.store_mem s _ [_, _, _, _] i (Nat.le_of_ble_eq_true rfl) hi
  . intro p hp
    rw [State.set_mem]
    exact @State.store_mem_of_ne s _ p [_, _, _, _] hp

theorem run_pop {t : State} (ht : s.run (T := Word) (.pop [.r1, .r2, .ip, .lr]) = t)
    : t.reg .r1 = s.mem (address (s.reg .sp) 0) ∧ t.reg .r2 = s.mem (address (s.reg .sp) 1) ∧
      t.reg .ip = s.mem (address (s.reg .sp) 2) ∧ t.reg .lr = s.mem (address (s.reg .sp) 3) ∧
      t.reg .sp = s.reg .sp + 16 ∧ t.mem = s.mem ∧ ∀ r, r ∉ [Reg.r1, .r2, .ip, .lr, .sp] → t.reg r = s.reg r := by
  have hpop : t = ((((s.set .sp (s.reg .sp + 16)).set .r1 (s.mem (s.reg .sp))).set .r2
      (s.mem (s.reg .sp + 4))).set .ip (s.mem (s.reg .sp + 4 + 4))).set .lr (s.mem (s.reg .sp + 4 + 4 + 4)) := ht.symm
  have htwo : s.reg .sp + 4 + 4 = address (s.reg .sp) 2 := by
    rw [← address_zero (s.reg .sp), address_succ, address_succ, address_address]
  rw [htwo, address_succ] at hpop
  subst hpop
  refine ⟨by simp, by simp [address], by simp, by simp, by simp, rfl, ?_⟩
  intro r hr
  simp only [List.mem_cons, List.not_mem_nil, not_or, or_false] at hr
  rw [State.set_reg_of_ne hr.2.2.2.1, State.set_reg_of_ne hr.2.2.1, State.set_reg_of_ne hr.2.1,
    State.set_reg_of_ne hr.1, State.set_reg_of_ne hr.2.2.2.2]

theorem exec_divide (hcode : CodeAt code base (assemble (target divide) listing))
    (hdivide : ∀ s : State, s.reg .r1 ≠ 0 →
      ∃ t, Exec code (divide, s) (s.reg .lr, t) ∧ t.reg .r0 = f (s.reg .r0) (s.reg .r1) ∧
        Keeps [.r0, .r1, .r2, .r3, .ip] s t)
    (hdiv : s.reg .r1 ≠ 0)
    : ∃ t, Exec code (base, s) (address base 2, t) ∧ t.reg .r0 = f (s.reg .r0) (s.reg .r1) ∧
        t.reg .sp = s.reg .sp - 16 ∧
        (∀ i (hi : i < 4), t.mem (address (s.reg .sp - 16) i) = [s.reg .r0, s.reg .r1, s.reg .ip, s.reg .lr][i]) ∧
        (∀ r, r ∉ [Reg.r0, .r1, .r2, .r3, .ip, .lr, .sp] → t.reg r = s.reg r) ∧
        ∀ p, (∀ i < 4, p ≠ address (s.reg .sp - 16) i) → t.mem p = s.mem p := by
  have hpush := (hcode.block 0 [.push [.r0, .r1, .ip, .lr]] rfl).exec rfl s
  have hcall := (hcode.block 1 [.bl divide] rfl).1
  rw [address_zero, List.foldl_cons, List.foldl_nil] at hpush
  obtain ⟨hreg, hsp, hsaved, hmem⟩ := run_push (s := s) rfl
  generalize s.run (.push [.r0, .r1, .ip, .lr]) = u at hpush hreg hsp hsaved hmem
  have hbl : Exec code (address base 1, u) (divide, u.set .lr (address base 2)) := by
    rw [← address_succ base 1]
    exact exec_step hcall
  have harg (r : Reg) (hlr : r ≠ .lr) (hr : r ≠ .sp) : (u.set .lr (address base 2)).reg r = s.reg r := by
    rw [State.set_reg_of_ne hlr, hreg r hr]
  obtain ⟨t, hdivided, hquot, hkeeps⟩ := hdivide (u.set .lr (address base 2))
    (by rwa [harg .r1 (by decide) (by decide)])
  rw [State.set_reg_self] at hdivided
  refine ⟨t, (hpush.trans hbl).trans hdivided, ?_, ?_, ?_, ?_, ?_⟩
  . rw [hquot, harg .r0 (by decide) (by decide), harg .r1 (by decide) (by decide)]
  . rw [hkeeps.reg .sp (by decide), State.set_reg_of_ne (by decide), hsp]
  . intro i hi
    rw [hkeeps.mem]
    exact hsaved i hi
  . intro r hr
    simp only [List.mem_cons, List.not_mem_nil, not_or, or_false] at hr
    rw [hkeeps.reg r (by simp [hr]), harg r (by simp [hr]) (by simp [hr])]
  . intro p hp
    rw [hkeeps.mem]
    exact hmem p hp

theorem correct (hcode : CodeAt code base (assemble (target divide) listing))
    (hdivide : ∀ s : State, s.reg .r1 ≠ 0 →
      ∃ t, Exec code (divide, s) (s.reg .lr, t) ∧ t.reg .r0 = f (s.reg .r0) (s.reg .r1) ∧
        Keeps [.r0, .r1, .r2, .r3, .ip] s t)
    (hdiv : s.reg .r1 ≠ 0)
    : ∃ t, Exec code (base, s) (s.reg .lr, t) ∧
        t.reg .r0 = f (s.reg .r0) (s.reg .r1) ∧
        t.reg .r1 = s.reg .r0 - f (s.reg .r0) (s.reg .r1) * s.reg .r1 ∧
        (∀ r, r ∉ [Reg.r0, .r1, .r2, .r3] → t.reg r = s.reg r) ∧
        ∀ p, (∀ i < 4, p ≠ address (s.reg .sp - 16) i) → t.mem p = s.mem p := by
  obtain ⟨u, hdivided, hquot, hsp, hsaved, hreg, hmem⟩ := exec_divide hcode hdivide hdiv
  have hret := hcode.retAt 2 [.pop [.r1, .r2, .ip, .lr], .mul .r3 .r0 .r2,
    .alu .sub .al false .r1 .r1 (.reg .r3)] rfl rfl u
  have hmul (w : State) : w.run (T := Word) (.mul .r3 .r0 .r2) = w.set .r3 (w.reg .r0 * w.reg .r2) := rfl
  rw [State.holds_al, if_pos rfl, List.foldl_cons, List.foldl_cons, List.foldl_cons, List.foldl_nil, hmul,
    State.run_sub] at hret
  generalize hpop : u.run (T := Word) (.pop [.r1, .r2, .ip, .lr]) = w at hret
  obtain ⟨hr1, hr2, hip, hlr, hsp', hmem', hkept⟩ := run_pop hpop
  rw [hsp, hsaved 0 (by decide)] at hr1
  rw [hsp, hsaved 1 (by decide)] at hr2
  rw [hsp, hsaved 2 (by decide)] at hip
  rw [hsp, hsaved 3 (by decide)] at hlr
  have hr0 : w.reg .r0 = f (s.reg .r0) (s.reg .r1) := (hkept .r0 (by decide)).trans hquot
  have hback : w.reg .sp = s.reg .sp := by
    rw [hsp', hsp, BitVec.sub_add_cancel]
  rw [State.set_reg_of_ne (by decide), State.set_reg_of_ne (by decide), hlr] at hret
  refine ⟨_, hdivided.trans hret, ?_, ?_, ?_, ?_⟩
  . simp [hr0]
  . simp [hr0, hr1, hr2]
  . intro r hr
    simp only [List.mem_cons, List.not_mem_nil, not_or, or_false] at hr
    rw [State.set_reg_of_ne hr.2.1, State.set_reg_of_ne hr.2.2.2]
    by_cases hstack : r ∈ [Reg.ip, .lr, .sp]
    . simp only [List.mem_cons, List.not_mem_nil, or_false] at hstack
      rcases hstack with rfl | rfl | rfl
      . exact hip
      . exact hlr
      . exact hback
    . simp only [List.mem_cons, List.not_mem_nil, not_or, or_false] at hstack
      rw [hkept r (by simp [hr, hstack]), hreg r (by simp [hr, hstack])]
  . intro p hp
    simp [hmem', hmem p hp]

/-- `__aeabi_uidivmod`, with `__udivsi3` for its division -/
theorem uidivmod_correct {div0 : Word} (hcode : CodeAt code base (assemble (target divide) listing))
    (hdivide : CodeAt code divide (assemble (udivsi3.target divide div0) udivsi3.listing)) (hdiv : s.reg .r1 ≠ 0)
    : ∃ t, Exec code (base, s) (s.reg .lr, t) ∧
        t.reg .r0 = s.reg .r0 / s.reg .r1 ∧ t.reg .r1 = s.reg .r0 % s.reg .r1 ∧
        (∀ r, r ∉ [Reg.r0, .r1, .r2, .r3] → t.reg r = s.reg r) ∧
        ∀ p, (∀ i < 4, p ≠ address (s.reg .sp - 16) i) → t.mem p = s.mem p := by
  rw [← sub_udiv_mul]
  refine correct (f := (· / ·)) hcode (fun u hu => ?_) hdiv
  obtain ⟨t, hexec, hquot, hkeeps⟩ := udivsi3.correct hdivide hu
  exact ⟨t, hexec, hquot, hkeeps.mono (by decide)⟩

theorem uidivmod_correct_1000
    : ∃ t, Exec
          (load 0 (assemble (target 0x18) listing ++ assemble (udivsi3.target 0x18 0x200) udivsi3.listing))
          (0, .call 1000 7) (0x100, t) ∧ t.reg .r0 = 142 ∧ t.reg .r1 = 6 := by
  have hcode := codeAt_append.1 (codeAt_load 0
    (assemble (target 0x18) listing ++ assemble (udivsi3.target 0x18 0x200) udivsi3.listing) (by decide))
  obtain ⟨t, hexec, hquot, hrem, -⟩ := uidivmod_correct (s := .call 1000 7) hcode.1 hcode.2 (by decide)
  exact ⟨t, hexec, hquot.trans (by decide), hrem.trans (by decide)⟩

/-- `__aeabi_idivmod`, with `__divsi3` for its division -/
theorem idivmod_correct {div0 : Word} (hcode : CodeAt code base (assemble (target divide) listing))
    (hdivide : CodeAt code divide (assemble (divsi3.target divide div0) divsi3.listing)) (hdiv : s.reg .r1 ≠ 0)
    : ∃ t, Exec code (base, s) (s.reg .lr, t) ∧
        t.reg .r0 = (s.reg .r0).sdiv (s.reg .r1) ∧ t.reg .r1 = (s.reg .r0).srem (s.reg .r1) ∧
        (∀ r, r ∉ [Reg.r0, .r1, .r2, .r3] → t.reg r = s.reg r) ∧
        ∀ p, (∀ i < 4, p ≠ address (s.reg .sp - 16) i) → t.mem p = s.mem p := by
  rw [← sub_sdiv_mul]
  exact correct (f := BitVec.sdiv) hcode (fun u hu => divsi3.correct hdivide hu) hdiv

theorem idivmod_correct_neg
    : ∃ t, Exec
          (load 0 (assemble (target 0x18) listing ++ assemble (divsi3.target 0x18 0x200) divsi3.listing))
          (0, .call (-1000) 7) (0x100, t) ∧ t.reg .r0 = -142 ∧ t.reg .r1 = -6 := by
  have hcode := codeAt_append.1 (codeAt_load 0
    (assemble (target 0x18) listing ++ assemble (divsi3.target 0x18 0x200) divsi3.listing) (by decide))
  obtain ⟨t, hexec, hquot, hrem, -⟩ := idivmod_correct (s := .call (-1000) 7) hcode.1 hcode.2 (by decide)
  exact ⟨t, hexec, hquot.trans (by decide), hrem.trans (by decide)⟩

end

end divmod

end Arm
