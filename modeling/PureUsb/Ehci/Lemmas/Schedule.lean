import PureUsb.Ehci.Lemmas.Root
import PureUsb.Word

/-!
This module contains the state in which `ehci-hcd.c` leaves the asynchronous schedule, whatever the
registers answer.
-/

open Stateful

/-- The schedule as the driver last told the controller. -/
structure Sched where
  dma : Dma
  /-- what was last written to `USBCMD` -/
  cmd : BitVec 32
  /-- what was last read from `USBSTS` since then -/
  sts : Option (BitVec 32)

namespace Sched

/-- The driver has not touched the schedule between `s` and `t`. -/
structure Unchanged (s t : Sched) : Prop where
  link : t.dma.qhList.qhLink = s.dma.qhList.qhLink
  cmd : t.cmd = s.cmd
  sts : t.sts = s.sts

/--
The schedule is clean: the head of the list is alone in it and the schedule was last switched off.
-/
def Clean (s : Sched) : Prop :=
  s.dma.qhList.qhLink = .qhList ∧ s.cmd &&& cmdAse = 0

/-- The value of `STD_ASS` that goes with the last command. -/
def awaited (s : Sched) : BitVec 32 :=
  if s.cmd &&& cmdAse = 0 then 0 else stdAss

/-- The last look at `USBSTS` after the last command, if there was one, ended the wait for it. -/
def Settled (s : Sched) : Prop :=
  ∀ v, s.sts = some v → Matches stdAss s.awaited v

theorem Unchanged.refl (s : Sched) : Unchanged s s := ⟨rfl, rfl, rfl⟩

theorem Unchanged.trans {s t u : Sched} (h : Unchanged s t) (h' : Unchanged t u) : Unchanged s u :=
  ⟨h'.link.trans h.link, h'.cmd.trans h.cmd, h'.sts.trans h.sts⟩

theorem Unchanged.clean_iff {s t : Sched} (h : Unchanged s t) : Clean t ↔ Clean s := by
  unfold Clean
  rw [h.link, h.cmd]

theorem Unchanged.settled_iff {s t : Sched} (h : Unchanged s t) : Settled t ↔ Settled s := by
  unfold Settled awaited
  rw [h.cmd, h.sts]

end Sched

/-- What the operation `o`, answered by `x`, does to the schedule. -/
def Sched.Effect (o : EhciOp) (s : Sched) (x : EhciAns o) (t : Sched) : Prop :=
  match o, x with
  | .readl .usbsts, v => t = { s with sts := some v }
  | .readl _, _ => t = s
  | .writel .usbcmd v, _ => t = { s with cmd := v, sts := none }
  | .writel _ _, _ => t = s
  | .load, m => m = s.dma ∧ t = s
  | .store f, _ => t = { s with dma := f s.dma }

/--
A controller that answers any value from its registers and that may change all the memory it shares
with the driver but the link of the list head.
-/
def schedWorld : EhciWorld Sched := World.interleaved Sched.Unchanged Sched.Effect

/-!
### Operations that leave the schedule alone
-/

theorem schedWorld_readl {r : Reg} {v : BitVec 32} {s t : Sched} (hr : r ≠ .usbsts)
    (h : schedWorld (.readl r) s (.ok v) t)
    : Sched.Unchanged s t := by
  obtain ⟨m, hm, heff⟩ := World.interleaved_ok.mp h
  cases r with
  | usbsts => exact absurd rfl hr
  | _ =>
    cases heff
    exact hm

theorem schedWorld_writel {r : Reg} {v : BitVec 32} {x : Unit} {s t : Sched} (hr : r ≠ .usbcmd)
    (h : schedWorld (.writel r v) s (.ok x) t)
    : Sched.Unchanged s t := by
  obtain ⟨m, hm, heff⟩ := World.interleaved_ok.mp h
  cases r with
  | usbcmd => exact absurd rfl hr
  | _ =>
    cases heff
    exact hm

theorem keptByRoot_unchanged (s : Sched) (E : Stop → Sched → Prop)
    : KeptByRoot schedWorld (fun _ => True) (Sched.Unchanged s) E where
  read hr hs hw := hs.trans (schedWorld_readl hr hw)
  write hr _ hs hw := hs.trans (schedWorld_writel hr hw)
  stop _ h := absurd h World.interleaved_error

section

variable {E : Stop → Sched → Prop} {e : Ehci} {s s' : Sched}

theorem wp_storeDma_unchanged {f : Dma → Dma} {Q : Unit → Ehci → Sched → Prop}
    (hs : Sched.Unchanged s s') (hf : ∀ m, (f m).qhList.qhLink = m.qhList.qhLink)
    (hq : ∀ t, Sched.Unchanged s t → Q () e t)
    : wp schedWorld (storeDma f) Q E e s' := by
  rw [wp_storeDma]
  intro t
  refine ⟨fun _ h => hq t ?_, fun x h => absurd h World.interleaved_error⟩
  obtain ⟨m, hm, rfl⟩ := World.interleaved_ok.mp h
  have := hs.trans hm
  exact ⟨(hf m.dma).trans this.link, this.cmd, this.sts⟩

theorem wp_loadDma_unchanged {Q : Dma → Ehci → Sched → Prop} (hs : Sched.Unchanged s s')
    (hq : ∀ m t, Sched.Unchanged s t → Q m e t)
    : wp schedWorld loadDma Q E e s' := by
  rw [wp_loadDma]
  intro t
  refine ⟨fun d h => hq d t ?_, fun x h => absurd h World.interleaved_error⟩
  obtain ⟨m, hm, -, rfl⟩ := World.interleaved_ok.mp h
  exact hs.trans hm

theorem wp_allocTd_unchanged (hs : Sched.Unchanged s s')
    : wp schedWorld allocTd (fun _ _ t => Sched.Unchanged s t) E e s' := by
  unfold allocTd
  rw [wp_bind, wp_get]
  split
  . exact hs
  . rw [wp_bind]
    exact wp_storeDma_unchanged hs (fun _ => rfl) fun t ht => ht

theorem wp_appendTd_unchanged {prev : Option (Fin 3)} {token : BitVec 32}
    {buffer : Option (BitVec 32 × Nat)} (hs : Sched.Unchanged s s')
    : wp schedWorld (appendTd prev token buffer) (fun _ _ t => Sched.Unchanged s t) E e s' := by
  unfold appendTd
  rw [wp_bind]
  refine wp_post (wp_allocTd_unchanged hs) ?_
  rintro (_ | i) e' t ht
  . exact ht
  . rw [wp_bind]
    refine wp_storeDma_unchanged ht (fun _ => rfl) fun t ht => ?_
    rw [wp_bind]
    refine wp_loadDma_unchanged ht fun m t ht => ?_
    rw [wp_bind]
    refine wp_storeDma_unchanged ht (fun _ => rfl) fun t ht => ?_
    split
    . exact ht
    . rw [wp_bind]
      exact wp_storeDma_unchanged ht (fun m => by cases prev <;> rfl) fun t ht => ht

theorem wp_buildChain_unchanged {dev : UsbDevice} {pipe buffer : BitVec 32} {length : Nat}
    {req : Option (BitVec 32)} (hs : Sched.Unchanged s s')
    : wp schedWorld (buildChain dev pipe buffer length req) (fun _ _ t => Sched.Unchanged s t) E e s' := by
  unfold buildChain
  split
  . exact wp_appendTd_unchanged hs
  . rw [wp_bind]
    refine wp_post (wp_appendTd_unchanged hs) ?_
    rintro (_ | setup) e' t ht
    . exact ht
    . rw [wp_bind]
      refine wp_post (?_ : wp schedWorld _ (fun _ _ t => Sched.Unchanged s t) E e' t) ?_
      . unfold appendData
        split
        . exact wp_appendTd_unchanged ht
        . exact ht
      . rintro (_ | last) e' t ht
        . exact ht
        . exact wp_appendTd_unchanged ht

/-!
### The handshakes
-/

theorem wp_handshake_sched {done : BitVec 32} {usec : Nat}
    : wp schedWorld (handshake .usbsts stdAss done usec)
        (fun ret _ t =>
          t.dma.qhList.qhLink = s.dma.qhList.qhLink ∧ t.cmd = s.cmd ∧ ret ≤ 0 ∧
          ∃ v, t.sts = some v ∧ (ret = 0 ↔ Matches stdAss done v))
        E e s := by
  unfold handshake
  let I (t : Sched) : Prop := t.dma.qhList.qhLink = s.dma.qhList.qhLink ∧ t.cmd = s.cmd
  refine wp_post (wp_handshakeTries (I := I) (E := E) ?_ ?_ ⟨rfl, rfl⟩) ?_
  . rintro t u v ⟨hlink, hcmd⟩ h
    obtain ⟨m, hm, rfl⟩ := World.interleaved_ok.mp h
    exact ⟨hm.link.trans hlink, hm.cmd.trans hcmd⟩
  . exact fun t u x _ h => absurd h World.interleaved_error
  . rintro ret e' t ⟨-, ht, hret, t', v, -, h, hmatch⟩
    obtain ⟨m, -, rfl⟩ := World.interleaved_ok.mp h
    exact ⟨ht.1, ht.2, hret, v, rfl, hmatch⟩

theorem wp_command_sched {v done : BitVec 32} {usec : Nat}
    : wp schedWorld (do ehciWritel .usbcmd v; handshake .usbsts stdAss done usec)
        (fun ret _ t =>
          t.dma.qhList.qhLink = s.dma.qhList.qhLink ∧ t.cmd = v ∧ ret ≤ 0 ∧
          ∃ v, t.sts = some v ∧ (ret = 0 ↔ Matches stdAss done v))
        E e s := by
  rw [wp_bind, wp_ehciWritel]
  intro t
  refine ⟨fun x h => ?_, fun x h => absurd h World.interleaved_error⟩
  obtain ⟨m, hm, rfl⟩ := World.interleaved_ok.mp h
  refine wp_post wp_handshake_sched ?_
  rintro ret e' t ⟨hlink, hcmd, h⟩
  exact ⟨hlink.trans hm.link, hcmd, h⟩

theorem wp_enableAsync_sched
    : wp schedWorld enableAsync
        (fun ret _ t =>
          t.dma.qhList.qhLink = s.dma.qhList.qhLink ∧ t.cmd &&& cmdAse ≠ 0 ∧ ret ≤ 0 ∧
          ∃ v, t.sts = some v ∧ (ret = 0 ↔ Matches stdAss stdAss v))
        E e s := by
  unfold enableAsync
  rw [wp_bind, wp_ehciReadl]
  intro t1
  refine ⟨fun usbsts h => ?_, fun x h => absurd h World.interleaved_error⟩
  obtain ⟨m, hm, rfl⟩ := World.interleaved_ok.mp h
  rw [wp_bind, wp_ehciWritel]
  intro t2
  refine ⟨fun x h => ?_, fun x h => absurd h World.interleaved_error⟩
  have h2 := schedWorld_writel (by decide) h
  rw [wp_bind, wp_ehciReadl]
  intro t3
  refine ⟨fun cmd h => ?_, fun x h => absurd h World.interleaved_error⟩
  have h3 := schedWorld_readl (by decide) h
  refine wp_post wp_command_sched ?_
  rintro ret e' t ⟨hlink, hcmd, h⟩
  refine ⟨?_, ?_, h⟩
  . rw [hlink, h3.link, h2.link]
    exact hm.link
  . rw [hcmd]
    exact (BitVec.and_bit_ne_zero_iff (by decide)).mpr (by simp)

theorem wp_disableAsync_sched
    : wp schedWorld disableAsync
        (fun ret _ t =>
          t.dma.qhList.qhLink = s.dma.qhList.qhLink ∧ t.cmd &&& cmdAse = 0 ∧ ret ≤ 0 ∧
          ∃ v, t.sts = some v ∧ (ret = 0 ↔ Matches stdAss 0 v))
        E e s := by
  unfold disableAsync
  rw [wp_bind, wp_ehciReadl]
  intro t1
  refine ⟨fun cmd h => ?_, fun x h => absurd h World.interleaved_error⟩
  have h1 := schedWorld_readl (by decide) h
  refine wp_post wp_command_sched ?_
  rintro ret e' t ⟨hlink, hcmd, h⟩
  refine ⟨hlink.trans h1.link, ?_, h⟩
  rw [hcmd, BitVec.and_assoc, BitVec.not_and_self]
  exact BitVec.and_zero

/-!
### `ehci_submit_async`
-/

theorem wp_pollTries_unchanged {td : Fin 3} {attempts : Nat} (hs : Sched.Unchanged s s')
    : wp schedWorld (pollTries td attempts) (fun _ _ t => Sched.Unchanged s t) E e s' := by
  induction attempts generalizing s' with
  | zero =>
    unfold pollTries
    rw [wp_bind]
    refine wp_loadDma_unchanged hs fun m t ht => ?_
    split <;> exact ht
  | succ attempts ih =>
    unfold pollTries
    rw [wp_bind]
    refine wp_loadDma_unchanged hs fun m t ht => ?_
    split
    . exact ht
    . exact ih ht

theorem qhList_dropChain (m : Dma) (fuel : Nat) : (dropChain m fuel).qhList = m.qhList := by
  induction fuel generalizing m with
  | zero => unfold dropChain; rfl
  | succ fuel ih =>
    unfold dropChain
    split
    . next h _ =>
      cases h
      rw [ih]
      rfl
    . rfl

theorem wp_failAsync_unchanged {dev : UsbDevice} (hs : Sched.Unchanged s s')
    : wp schedWorld (failAsync dev) (fun _ _ t => Sched.Unchanged s t) E e s' := by
  unfold failAsync
  rw [wp_bind]
  exact wp_storeDma_unchanged hs (fun m => by rw [qhList_dropChain]) fun t ht => ht

theorem Sched.settled_iff {s : Sched} {v : BitVec 32} (h : s.sts = some v)
    : Settled s ↔ Matches stdAss s.awaited v := by
  unfold Settled
  rw [h]
  simp

theorem Sched.awaited_of_on {s : Sched} (h : s.cmd &&& cmdAse ≠ 0) : s.awaited = stdAss := by
  unfold awaited
  rw [if_neg h]

theorem Sched.awaited_of_off {s : Sched} (h : s.cmd &&& cmdAse = 0) : s.awaited = 0 := by
  unfold awaited
  rw [if_pos h]

theorem Sched.clean_iff_settled_of_linked {s : Sched} {v : BitVec 32}
    (hlink : s.dma.qhList.qhLink = .qh) (hsts : s.sts = some v)
    (hmatch : ¬Matches stdAss s.awaited v)
    : Clean s ↔ Settled s := by
  rw [settled_iff hsts]
  unfold Clean
  rw [hlink]
  simp [hmatch]

/--
A transfer either does not touch the schedule, or leaves it clean exactly when the last handshake
succeeded.
-/
theorem wp_ehciSubmitAsync_sched {dev : UsbDevice} {parent : Option UsbDevice}
    {pipe buffer : BitVec 32} {length : Nat} {req : Option (BitVec 32)}
    : wp schedWorld (ehciSubmitAsync dev parent pipe buffer length req)
        (fun _ _ t => Sched.Unchanged s t ∨ (Sched.Clean t ↔ Sched.Settled t)) (fun _ _ => True) e s := by
  unfold ehciSubmitAsync allocQh
  simp only [wp_bind]
  refine wp_storeDma_unchanged (.refl s) (fun _ => rfl) fun t ht => ?_
  rw [wp_modify]
  refine wp_storeDma_unchanged ht (fun _ => rfl) fun t ht => ?_
  split
  . trivial
  . simp only [wp_bind]
    refine wp_storeDma_unchanged ht (fun _ => rfl) fun t ht => ?_
    refine wp_storeDma_unchanged ht (fun _ => rfl) fun t ht => ?_
    refine wp_post (wp_buildChain_unchanged ht) ?_
    rintro (_ | td) e' t ht
    . exact wp_post (wp_failAsync_unchanged ht) fun _ _ _ h => .inl h
    . -- from here on the queue head is linked
      simp only [wp_bind]
      rw [wp_storeDma]
      intro t1
      refine ⟨fun x h => ?_, fun x h => absurd h World.interleaved_error⟩
      obtain ⟨m, -, rfl⟩ := World.interleaved_ok.mp h
      refine wp_post wp_enableAsync_sched ?_
      rintro ret e2 t2 ⟨hlink, hcmd, hret, v, hsts, hmatch⟩
      split
      . next hneg =>
        refine wp_post (wp_failAsync_unchanged (.refl t2)) fun _ _ t h => .inr ?_
        rw [h.clean_iff, h.settled_iff]
        apply Sched.clean_iff_settled_of_linked hlink hsts
        rw [Sched.awaited_of_on hcmd, ← hmatch]
        omega
      . simp only [wp_bind]
        refine wp_post (wp_pollTries_unchanged (.refl t2)) fun _ e3 t3 h3 => ?_
        refine wp_post wp_disableAsync_sched ?_
        rintro ret e4 t4 ⟨hlink4, hcmd4, hret4, v4, hsts4, hmatch4⟩
        split
        . next hneg =>
          refine wp_post (wp_failAsync_unchanged (.refl t4)) fun _ _ t h => .inr ?_
          rw [h.clean_iff, h.settled_iff]
          apply Sched.clean_iff_settled_of_linked (hlink4.trans (h3.link.trans hlink)) hsts4
          rw [Sched.awaited_of_off hcmd4, ← hmatch4]
          omega
        . simp only [wp_bind]
          rw [wp_storeDma]
          intro t5
          refine ⟨fun x h => ?_, fun x h => absurd h World.interleaved_error⟩
          obtain ⟨m5, hm5, rfl⟩ := World.interleaved_ok.mp h
          refine wp_loadDma_unchanged (.refl _) fun m t ht => .inr ?_
          rw [ht.clean_iff, ht.settled_iff]
          have hcmd5 : m5.cmd &&& cmdAse = 0 := by rw [hm5.cmd, hcmd4]
          have hclean : Sched.Clean { m5 with dma := m5.dma.setLink .qhList } := ⟨rfl, hcmd5⟩
          refine iff_of_true hclean fun v hv => ?_
          have hv4 : some v4 = some v := (hm5.sts.trans hsts4).symm.trans hv
          cases hv4
          have hoff : Sched.awaited { m5 with dma := m5.dma.setLink .qhList } = 0 :=
            Sched.awaited_of_off hcmd5
          rw [hoff, ← hmatch4]
          omega

/-!
### Initialisation
-/

theorem wp_haltTries_sched {attempt : Nat} {Q : BitVec 32 → Ehci → Sched → Prop}
    (hq : ∀ v e' t, Q v e' t)
    : wp schedWorld (haltTries attempt) Q E e s := by
  induction attempt generalizing e s with
  | zero =>
    unfold haltTries
    rw [wp_bind, wp_ehciReadl]
    intro t
    refine ⟨fun v h => ?_, fun x h => absurd h World.interleaved_error⟩
    split <;> exact hq _ _ _
  | succ attempt ih =>
    unfold haltTries
    rw [wp_bind, wp_ehciReadl]
    intro t
    refine ⟨fun v h => ?_, fun x h => absurd h World.interleaved_error⟩
    split
    . exact hq _ _ _
    . exact ih

theorem wp_ehciReset_sched {Q : Int → Ehci → Sched → Prop} (hq : ∀ ret e' t, Q ret e' t)
    : wp schedWorld ehciReset Q E e s := by
  unfold ehciReset
  rw [wp_bind, wp_ehciWritel]
  intro t
  refine ⟨fun x h => ?_, fun x h => absurd h World.interleaved_error⟩
  rw [wp_bind]
  refine wp_haltTries_sched fun cmd e' t => ?_
  split
  . exact hq _ _ _
  . rw [wp_bind, wp_ehciReadl]
    intro t
    refine ⟨fun v h => ?_, fun x h => absurd h World.interleaved_error⟩
    rw [wp_bind, wp_rawWritel]
    intro t
    refine ⟨fun x h => ?_, fun x h => absurd h World.interleaved_error⟩
    unfold handshake
    refine wp_post (wp_handshakeTries (I := fun _ => True) (fun _ _ _ _ _ => trivial) ?_ trivial)
      fun ret e' t _ => hq ret e' t
    exact fun s t x _ h => absurd h World.interleaved_error

/-- The command with which `ehci_init` starts the controller. -/
def startCmd (cmd : BitVec 32) : BitVec 32 :=
  (cmd &&& ~~~(cmdLreset ||| cmdIaad ||| cmdPse ||| cmdAse ||| cmdReset)) ||| cmdRun

theorem ase_startCmd (cmd : BitVec 32) : startCmd cmd &&& cmdAse = 0 := by
  unfold startCmd
  rw [BitVec.and_bit_eq_zero_iff (by decide)]
  simp

theorem wp_ehciInit_sched {addr : BitVec 32}
    : wp schedWorld (ehciInit addr)
        (fun ret _ t => ret = 0 → Sched.Clean t ∧ Sched.Settled t) E e s := by
  unfold ehciInit ehciSpecificInit
  simp only [wp_bind, wp_modify, wp_pure]
  split
  . intro h
    cases h
  . simp only [wp_bind]
    refine wp_ehciReset_sched fun ret e t => ?_
    split
    . intro h
      cases h
    . simp only [wp_bind]
      rw [wp_storeDma]
      intro t1
      refine ⟨fun x h => ?_, fun x h => absurd h World.interleaved_error⟩
      obtain ⟨m, -, rfl⟩ := World.interleaved_ok.mp h
      let t1 : Sched := { m with dma := { m.dma with qhList := qhListInit } }
      have kept := keptByRoot_unchanged t1 E
      refine kept.writel (.refl t1) (by decide) trivial fun t ht => ?_
      refine kept.readl ht (by decide) fun reg t ht => ?_
      rw [wp_modify]
      refine kept.readl ht (by decide) fun cmd t ht1 => ?_
      rw [wp_ehciWritel]
      intro t2
      refine ⟨fun x h => ?_, fun x h => absurd h World.interleaved_error⟩
      obtain ⟨m2, hm2, rfl⟩ := World.interleaved_ok.mp h
      have kept := keptByRoot_unchanged { m2 with cmd := startCmd cmd, sts := none } E
      refine kept.readl (.refl _) (by decide) fun flag t ht => ?_
      refine kept.writel ht (by decide) trivial fun t ht => ?_
      refine kept.readl ht (by decide) fun _ t ht => ?_
      refine kept.readl ht (by decide) fun cap t ht _ => ?_
      rw [ht.clean_iff, ht.settled_iff]
      refine ⟨⟨hm2.link.trans ht1.link, ase_startCmd cmd⟩, ?_⟩
      intro v hv
      cases hv

end
