import PureUsb.Ehci.Lemmas.Schedule

/-!
This module contains what is left in the asynchronous schedule after any sequence of transfers.
-/

open Stateful

/-- Transfers one after the other, after an `ehci_init` that succeeded. -/
inductive SchedRun : Ehci → Sched → Prop where
  | init {addr : BitVec 32} {e e' : Ehci} {s t : Sched} :
      (ehciInit addr).Run schedWorld e s (.ok (0, e')) t → SchedRun e' t
  | control {e e' : Ehci} {s t : Sched} {dev : UsbDevice} {parent : Option UsbDevice}
      {pipe bufAddr setupAddr : BitVec 32} {length : Nat} {setup : DevRequest}
      {r : Int × UsbDevice × Option (List Byte)} :
      SchedRun e s →
      (submitControlMsg dev parent pipe bufAddr length setup setupAddr).Run schedWorld e s
        (.ok (r, e')) t →
      SchedRun e' t
  | bulk {e e' : Ehci} {s t : Sched} {dev : UsbDevice} {parent : Option UsbDevice}
      {pipe bufAddr : BitVec 32} {length : Nat} {r : Int × UsbDevice × Option (List Byte)} :
      SchedRun e s →
      (submitBulkMsg dev parent pipe bufAddr length).Run schedWorld e s (.ok (r, e')) t →
      SchedRun e' t

section

variable {E : Stop → Sched → Prop} {e : Ehci} {s : Sched}
variable {dev : UsbDevice} {parent : Option UsbDevice} {pipe bufAddr setupAddr : BitVec 32}
variable {length : Nat} {setup : DevRequest}

theorem Sched.clean_iff_settled_step {t : Sched} (hs : Clean s ↔ Settled s)
    (h : Unchanged s t ∨ (Clean t ↔ Settled t))
    : Clean t ↔ Settled t := by
  rcases h with h | h
  . rw [h.clean_iff, h.settled_iff, hs]
  . exact h

theorem wp_submitControlMsg_sched (hs : Sched.Clean s ↔ Sched.Settled s)
    : wp schedWorld (submitControlMsg dev parent pipe bufAddr length setup setupAddr)
        (fun _ _ t => Sched.Clean t ↔ Sched.Settled t) (fun _ _ => True) e s := by
  unfold submitControlMsg
  split
  . exact hs
  . rw [wp_bind, wp_get]
    split
    . rw [wp_bind]
      refine wp_post (wp_ehciSubmitRoot_kept (keptByRoot_unchanged s _) (.refl s)) fun _ _ _ h => ?_
      exact Sched.clean_iff_settled_step hs (.inl h.1)
    . rw [wp_bind]
      exact wp_post wp_ehciSubmitAsync_sched fun _ _ _ h => Sched.clean_iff_settled_step hs h

theorem wp_submitBulkMsg_sched (hs : Sched.Clean s ↔ Sched.Settled s)
    : wp schedWorld (submitBulkMsg dev parent pipe bufAddr length)
        (fun _ _ t => Sched.Clean t ↔ Sched.Settled t) (fun _ _ => True) e s := by
  unfold submitBulkMsg
  split
  . exact hs
  . rw [wp_bind]
    exact wp_post wp_ehciSubmitAsync_sched fun _ _ _ h => Sched.clean_iff_settled_step hs h

end

/--
In every state that transfers lead to, the schedule is clean if and only if the last handshake that
followed a command succeeded.
-/
theorem schedRun_clean_iff {e : Ehci} {s : Sched} (h : SchedRun e s)
    : Sched.Clean s ↔ Sched.Settled s := by
  induction h with
  | init hr =>
    obtain ⟨hclean, hsettled⟩ := wp_run (E := fun _ _ => True) wp_ehciInit_sched hr rfl
    exact iff_of_true hclean hsettled
  | control _ hr ih => exact wp_run (wp_submitControlMsg_sched ih) hr
  | bulk _ hr ih => exact wp_run (wp_submitBulkMsg_sched ih) hr

/-!
### A controller with a host system error
-/

/-- A controller that reports `STS_HALT` and `STS_FATAL` and reads as zero elsewhere. -/
def fatalHandler (o : EhciOp) (s : Sched) : Except Stop (EhciAns o) × Sched :=
  match o with
  | .readl .usbsts => (.ok 0x1010, { s with sts := some 0x1010 })
  | .readl _ => (.ok 0, s)
  | .writel .usbcmd v => (.ok (), { s with cmd := v, sts := none })
  | .writel _ _ => (.ok (), s)
  | .load => (.ok s.dma, s)
  | .store f => (.ok (), { s with dma := f s.dma })

theorem fatalHandler_serves : Prog.Serves fatalHandler schedWorld := by
  intro o s
  unfold fatalHandler
  cases o with
  | readl r => cases r <;> exact World.interleaved_ok.mpr ⟨s, .refl s, rfl⟩
  | writel r v => cases r <;> exact World.interleaved_ok.mpr ⟨s, .refl s, rfl⟩
  | load => exact World.interleaved_ok.mpr ⟨s, .refl s, rfl, rfl⟩
  | store f => exact World.interleaved_ok.mpr ⟨s, .refl s, rfl⟩

def Sched.boot : Sched := ⟨.boot, 0, none⟩

def readDeviceDescriptor : EhciM (Int × UsbDevice × Option (List Byte)) :=
  submitControlMsg waitingDevice (some .zero) (usbRcvctrlpipe waitingDevice 0) 0 18
    ⟨usbDirIn, usbReqGetDescriptor, 0x100, 0, 18⟩ 0

/--
The first transfer after `ehci_init`, the read of a device descriptor, meets the error: the queue
head stays linked and the schedule stays switched on.
-/
theorem fatal_leaves_queueHead_linked
    : ∃ e s, SchedRun e s ∧ s.dma.qhList.qhLink = .qh ∧ s.cmd &&& cmdAse ≠ 0 := by
  have hinit := run_exec fatalHandler_serves (ehciInit 0) .boot .boot
  exact ⟨_, _, .control (.init hinit) (run_exec fatalHandler_serves readDeviceDescriptor _ _),
    by decide, by decide⟩

theorem schedRun_clean_iff_fatal : ∃ e s, SchedRun e s ∧ (Sched.Clean s ↔ Sched.Settled s) := by
  have hinit := run_exec fatalHandler_serves (ehciInit 0) .boot .boot
  have hrun : ∃ e s, SchedRun e s :=
    ⟨_, _, .control (.init hinit) (run_exec fatalHandler_serves readDeviceDescriptor _ _)⟩
  obtain ⟨e, s, h⟩ := hrun
  exact ⟨e, s, h, schedRun_clean_iff h⟩
