import PureUsb.Ehci.Lemmas.Root
import PureUsb.Usb.Contract

/-!
This module contains what a transfer may change in the state of the driver and in the structure of
the device, whatever the controller answers.
-/

open Stateful

def Rootdev (k : Int) (e : Ehci) : Prop := e.rootdev = k

section

variable {k : Int} {dev : UsbDevice} {pipe : BitVec 32} {length : Nat}

theorem keeps_loadDma : Keeps (Rootdev k) (fun _ => True) loadDma := .ask EhciOp.load

theorem keeps_storeDma (f : Dma → Dma) : Keeps (Rootdev k) (fun _ => True) (storeDma f) :=
  .ask (EhciOp.store f)

theorem unrecorded_rootdev : Unrecorded (Rootdev k) := fun _ _ _ _ h => h

theorem keeps_ehciReadl (r : Reg) : Keeps (Rootdev k) (fun _ => True) (ehciReadl r) :=
  unrecorded_rootdev.readl r

theorem keeps_ehciWritel (r : Reg) (v : BitVec 32)
    : Keeps (Rootdev k) (fun _ => True) (ehciWritel r v) :=
  unrecorded_rootdev.writel r v

theorem keeps_allocTd : Keeps (Rootdev k) (fun _ => True) allocTd := by
  unfold allocTd
  refine .bind .get fun e he => ?_
  split
  . exact .pure trivial
  . refine .bind (keeps_storeDma _) fun _ _ => ?_
    exact .bind (.set he) fun _ _ => .pure trivial

theorem keeps_appendTd (prev : Option (Fin 3)) (token : BitVec 32)
    (buffer : Option (BitVec 32 × Nat))
    : Keeps (Rootdev k) (fun _ => True) (appendTd prev token buffer) := by
  unfold appendTd
  refine .bind keeps_allocTd ?_
  rintro (_ | i) _
  . exact .pure trivial
  . refine .bind (keeps_storeDma _) fun _ _ => ?_
    refine .bind keeps_loadDma fun m _ => ?_
    refine .bind (keeps_storeDma _) fun _ _ => ?_
    refine .ite (fun _ => .pure trivial) fun _ => ?_
    exact .bind (keeps_storeDma _) fun _ _ => .pure trivial

theorem keeps_buildChain (buffer : BitVec 32) (req : Option (BitVec 32))
    : Keeps (Rootdev k) (fun _ => True) (buildChain dev pipe buffer length req) := by
  unfold buildChain
  cases req with
  | none => exact keeps_appendTd _ _ _
  | some req =>
    refine .bind (keeps_appendTd _ _ _) ?_
    rintro (_ | setup) _
    . exact .pure trivial
    . refine .bind (P := fun _ => True) ?_ ?_
      . unfold appendData
        exact .ite (fun _ => keeps_appendTd _ _ _) fun _ => .pure trivial
      . rintro (_ | last) _
        . exact .pure trivial
        . exact keeps_appendTd _ _ _

theorem keeps_enableAsync : Keeps (Rootdev k) (fun _ => True) enableAsync := by
  unfold enableAsync
  refine .bind (keeps_ehciReadl _) fun _ _ => ?_
  refine .bind (keeps_ehciWritel _ _) fun _ _ => ?_
  refine .bind (keeps_ehciReadl _) fun _ _ => ?_
  refine .bind (keeps_ehciWritel _ _) fun _ _ => ?_
  exact keeps_handshakeTries _ _ _ _

theorem keeps_disableAsync : Keeps (Rootdev k) (fun _ => True) disableAsync := by
  unfold disableAsync
  refine .bind (keeps_ehciReadl _) fun _ _ => ?_
  refine .bind (keeps_ehciWritel _ _) fun _ _ => ?_
  exact keeps_handshakeTries _ _ _ _

theorem keeps_pollTries (td : Fin 3) (attempts : Nat)
    : Keeps (Rootdev k) (fun _ => True) (pollTries td attempts) := by
  induction attempts with
  | zero =>
    unfold pollTries
    refine .bind keeps_loadDma fun m _ => ?_
    exact .ite (fun _ => .pure trivial) fun _ => .pure trivial
  | succ attempts ih =>
    unfold pollTries
    refine .bind keeps_loadDma fun m _ => ?_
    exact .ite (fun _ => .pure trivial) fun _ => ih

/-- What a transfer over the schedule returns. -/
inductive AsyncResult (dev : UsbDevice) (pipe : BitVec 32) (length : Nat) : Int × UsbDevice → Prop where
  | failed : AsyncResult dev pipe length (-1, dev)
  | completed (ret : Int) (token : BitVec 32) :
      AsyncResult dev pipe length (ret, completeAsync dev pipe length token)

theorem keeps_failAsync : Keeps (Rootdev k) (AsyncResult dev pipe length) (failAsync dev) :=
  .bind (keeps_storeDma _) fun _ _ => .pure .failed

theorem keeps_ehciSubmitAsync (parent : Option UsbDevice) (buffer : BitVec 32)
    (req : Option (BitVec 32))
    : Keeps (Rootdev k) (AsyncResult dev pipe length)
        (ehciSubmitAsync dev parent pipe buffer length req) := by
  unfold ehciSubmitAsync
  refine .bind (P := fun _ => True) ?_ fun _ _ => ?_
  . exact .bind (keeps_storeDma _) fun _ _ => .modify fun _ h => h
  . refine .bind (keeps_storeDma _) fun _ _ => ?_
    cases parent with
    | none => exact .stop _
    | some parent =>
      refine .bind (keeps_storeDma _) fun _ _ => ?_
      refine .bind (keeps_storeDma _) fun _ _ => ?_
      refine .bind (keeps_buildChain _ _) ?_
      rintro (_ | td) _
      . exact keeps_failAsync
      . refine .bind (keeps_storeDma _) fun _ _ => ?_
        refine .bind keeps_enableAsync fun ret _ => ?_
        refine .ite (fun _ => keeps_failAsync) fun _ => ?_
        refine .bind (keeps_pollTries _ _) fun _ _ => ?_
        refine .bind keeps_disableAsync fun ret _ => ?_
        refine .ite (fun _ => keeps_failAsync) fun _ => ?_
        refine .bind (keeps_storeDma _) fun _ _ => ?_
        exact .bind keeps_loadDma fun m _ => .pure (.completed _ _)

/-!
### The structure of the device
-/

theorem getLsbD_settoggle (x : BitVec 32) {b : BitVec 32} {ep i : Nat} (hb : b.toNat < 2) (hi : i ≠ ep)
    : ((x &&& ~~~(1#32 <<< ep)) ||| (b <<< ep)).getLsbD i = x.getLsbD i := by
  by_cases h32 : i < 32
  . have hbit : ∀ y : BitVec 32, y.toNat < 2 → (y <<< ep).getLsbD i = false := by
      intro y hy
      rw [BitVec.getLsbD_shiftLeft]
      by_cases hlt : i < ep
      . simp [hlt]
      . have hfalse : y.getLsbD (i - ep) = false := by
          apply Nat.testBit_lt_two_pow
          exact Nat.lt_of_lt_of_le hy (Nat.le_self_pow (by omega) 2)
        rw [hfalse, Bool.and_false]
    rw [BitVec.getLsbD_or, BitVec.getLsbD_and, BitVec.getLsbD_not, hbit _ hb,
      hbit _ (by decide)]
    simp [h32]
  . rw [BitVec.getLsbD_of_ge _ _ (by omega), BitVec.getLsbD_of_ge _ _ (by omega)]

theorem afterTransfer_completeAsync (token : BitVec 32)
    : dev.AfterTransfer pipe (completeAsync dev pipe length token) := by
  unfold completeAsync
  split
  . split
    . refine ⟨rfl, .inl rfl, fun out ep hep => ?_⟩
      unfold usbSettoggle
      by_cases hout : out = usbPipeout pipe
      . subst hout
        have hbit : (token >>> 31).toNat < 2 := by
          rw [BitVec.toNat_ushiftRight, Nat.shiftRight_eq_div_pow]
          omega
        simp only [Function.update_self, BitVec.shiftLeft_eq']
        exact getLsbD_settoggle _ hbit hep
      . simp only [Function.update_of_ne hout]
    . exact ⟨rfl, .inl rfl, fun _ _ _ => rfl⟩
  . exact ⟨rfl, .inl rfl, fun _ _ _ => rfl⟩

theorem AsyncResult.afterTransfer {r : Int × UsbDevice} (h : AsyncResult dev pipe length r)
    : dev.AfterTransfer pipe r.2 := by
  cases h with
  | failed => exact .refl pipe dev
  | completed ret token => exact afterTransfer_completeAsync token

theorem AsyncResult.actLen_le {r : Int × UsbDevice} (h : AsyncResult dev pipe length r)
    (hret : 0 ≤ r.1)
    : r.2.actLen ≤ length := by
  cases h with
  | failed => exact absurd (show (0 : Int) ≤ -1 from hret) (by decide)
  | completed ret token =>
    show (completeAsync dev pipe length token).actLen ≤ length
    unfold completeAsync
    split
    . dsimp only
      omega
    . exact Int.natCast_nonneg length

end
