import PureUsb.Ring
import PureUsb.Ehci.Lemmas.Basic
import Mathlib.Data.List.Induction

/-!
This module contains the log of register accesses in `g_rec`.
-/

open Stateful

/-- A call of `ehci_readl` or `ehci_writel`. -/
inductive RegCall where
  | readl (reg : Reg)
  | writel (reg : Reg) (val : BitVec 32)

/-- Make the call, and return what the log has to say about it. -/
def RegCall.access : RegCall → EhciM EhciRec
  | readl reg => do
    let val ← ehciReadl reg
    return ⟨reg, 0, val⟩
  | writel reg val => do
    ehciWritel reg val
    return ⟨reg, 1, val⟩

/--
Make the calls one after the other: the index that each of them used, and what the log has to say about it.
-/
def accesses (calls : List RegCall) : EhciM (List (Int × EhciRec)) :=
  match calls with
  | [] => return []
  | call :: calls => do
    let e ← get
    let entry ← call.access
    let entries ← accesses calls
    return (e.slot, entry) :: entries

/-- All indices were in `g_rec`, and after `m` calls it holds the last ones. -/
structure LogsLast (m : Nat) (entries : List (Int × EhciRec)) (e : Ehci) : Prop where
  length : entries.length = m
  slots : ∀ x ∈ entries, 0 ≤ x.1 ∧ x.1 < rsz
  last : ∀ k : Nat, (k : Int) < min (m : Int) rsz →
    (entries.map Prod.snd)[m - 1 - k]? = some (e.gRec (((m - 1 - k : Nat) : Int) % rsz))

/-!
### The counter
-/

def slotOf (i : Nat) : Int := (BitVec.ofNat 32 i).toInt.tmod rsz

theorem slotOf_eq {i : Nat} (h : i < 2 ^ 31) : slotOf i = ((i % 300 : Nat) : Int) := by
  have htoInt : (BitVec.ofNat 32 i).toInt = i := by
    have htoNat : (BitVec.ofNat 32 i).toNat = i := by
      rw [BitVec.toNat_ofNat]
      omega
    rw [BitVec.toInt_eq_toNat_of_lt (by omega), htoNat]
  unfold slotOf
  rw [htoInt, Int.tmod_eq_emod_of_nonneg (Int.natCast_nonneg i)]
  rfl

/-- The counter is negative, and so is its remainder. -/
theorem slotOf_overflow : slotOf (2 ^ 31) = -248 := by decide +kernel

def Ehci.recordAll (e : Ehci) (recs : List EhciRec) : Ehci :=
  recs.foldl (fun e r => e.record r.reg r.dir r.val) e

theorem Ehci.recordAll_concat (e : Ehci) (recs : List EhciRec) (r : EhciRec)
    : e.recordAll (recs ++ [r]) = (e.recordAll recs).record r.reg r.dir r.val := by
  unfold recordAll
  rw [List.foldl_append]
  rfl

theorem Ehci.recordAll_gEhciCounter {e : Ehci} (h : e.gEhciCounter = 0) (recs : List EhciRec)
    : (e.recordAll recs).gEhciCounter = BitVec.ofNat 32 recs.length := by
  induction recs using List.reverseRecOn with
  | nil => exact h
  | append_singleton recs r ih =>
    rw [recordAll_concat, List.length_append, BitVec.ofNat_add, ← ih]
    rfl

theorem Ehci.recordAll_holds {e : Ehci} (h : e.gEhciCounter = 0) {recs : List EhciRec}
    (hle : recs.length ≤ 2 ^ 31)
    : Ring.Holds 300 (e.recordAll recs).gRec recs := by
  induction recs using List.reverseRecOn with
  | nil => exact Ring.holds_nil
  | append_singleton recs r ih =>
    rw [List.length_append, List.length_singleton] at hle
    have hslot : (e.recordAll recs).slot = ((recs.length % 300 : Nat) : Int) := by
      unfold slot
      rw [recordAll_gEhciCounter h]
      exact slotOf_eq (by omega)
    rw [recordAll_concat]
    unfold record
    dsimp only
    rw [hslot]
    exact (ih (by omega)).push r

/-!
### Calls
-/

section

variable {σ : Type} {w : EhciWorld σ} {e f : Ehci} {s t : σ} {calls : List RegCall}
variable {entries : List (Int × EhciRec)} {E : Stop → σ → Prop}

theorem wp_access (hE : ∀ o s x t, w o s (.error x) t → E x t) (call : RegCall)
    : wp w call.access (fun r f _ => f = e.record r.reg r.dir r.val) E e s := by
  unfold RegCall.access
  cases call with
  | readl reg =>
    rw [wp_bind, wp_ehciReadl]
    intro t
    exact ⟨fun val _ => rfl, fun x => hE _ s x t⟩
  | writel reg val =>
    rw [wp_bind, wp_ehciWritel]
    intro t
    exact ⟨fun _ _ => rfl, fun x => hE _ s x t⟩

theorem wp_accesses (hE : ∀ o s x t, w o s (.error x) t → E x t) (calls : List RegCall) {m : Nat}
    (h : e.gEhciCounter = BitVec.ofNat 32 m)
    : wp w (accesses calls)
        (fun entries f _ => entries.map Prod.fst = (List.range' m calls.length).map slotOf ∧
          f = e.recordAll (entries.map Prod.snd))
        E e s := by
  induction calls generalizing m e s with
  | nil => exact ⟨rfl, rfl⟩
  | cons call calls ih =>
    unfold accesses
    rw [wp_bind, wp_get, wp_bind]
    apply wp_post (wp_access hE call)
    rintro entry f t rfl
    have hnext : (e.record entry.reg entry.dir entry.val).gEhciCounter = BitVec.ofNat 32 (m + 1) := by
      rw [BitVec.ofNat_add, ← h]
      rfl
    rw [wp_bind]
    apply wp_post (ih hnext)
    rintro entries f t ⟨hslots, hf⟩
    refine ⟨?_, hf⟩
    rw [List.map_cons, hslots, List.length_cons, List.range'_succ, List.map_cons]
    unfold Ehci.slot slotOf
    rw [h]

theorem LogsLast.of_holds {m : Nat} (hlength : entries.length = m)
    (hslots : ∀ x ∈ entries, 0 ≤ x.1 ∧ x.1 < rsz) (h : Ring.Holds 300 f.gRec (entries.map Prod.snd))
    : LogsLast m entries f := by
  refine ⟨hlength, hslots, ?_⟩
  intro k hk
  simp only [rsz] at hk
  have hlt : m - 1 - k < (entries.map Prod.snd).length := by
    rw [List.length_map, hlength]
    omega
  have hentry := List.getElem?_eq_getElem hlt
  have hcell := h _ _ hentry (by rw [List.length_map, hlength]; omega)
  rw [hentry, ← hcell]
  rfl

theorem logsLast_iff (h : e.gEhciCounter = 0) {m : Nat}
    (hslots : entries.map Prod.fst = (List.range' 0 m).map slotOf)
    : LogsLast m entries (e.recordAll (entries.map Prod.snd)) ↔ m ≤ 2 ^ 31 := by
  have hlength : entries.length = m := by
    have := congrArg List.length hslots
    rwa [List.length_map, List.length_map, List.length_range'] at this
  have hslot : ∀ i, slotOf i ∈ entries.map Prod.fst ↔ ∃ j < m, slotOf j = slotOf i := by
    intro i
    rw [hslots, List.mem_map]
    simp only [List.mem_range'_1, Nat.zero_le, Nat.zero_add, true_and]
  constructor
  . intro hlog
    by_contra hlt
    obtain ⟨x, hx, hneg⟩ := List.mem_map.mp ((hslot (2 ^ 31)).mpr ⟨2 ^ 31, by omega, rfl⟩)
    have hbound := (hlog.slots x hx).1
    rw [hneg, slotOf_overflow] at hbound
    omega
  . intro hle
    apply LogsLast.of_holds hlength
    . intro x hx
      have hmem : x.1 ∈ (List.range' 0 m).map slotOf := hslots ▸ List.mem_map_of_mem hx
      obtain ⟨i, hi, heq⟩ := List.mem_map.mp hmem
      have hi := (List.mem_range'_1.mp hi).2
      rw [← heq, slotOf_eq (by omega)]
      simp only [rsz]
      omega
    . apply Ehci.recordAll_holds h
      rwa [List.length_map, hlength]

/--
The log shows the last accesses for as long as there were at most 2147483648 of them since `ehci_init`
set the counter to 0.
-/
theorem accesses_logsLast_iff (h : e.gEhciCounter = 0)
    (hr : (accesses calls).Run w e s (.ok (entries, f)) t)
    : LogsLast calls.length entries f ↔ calls.length ≤ 2 ^ 31 := by
  obtain ⟨hslots, hf⟩ := wp_run (wp_accesses (E := fun _ _ => True) (fun _ _ _ _ _ => trivial) calls h) hr
  rw [hf]
  exact logsLast_iff h hslots

end

def zeroRegisters (o : EhciOp) (s : Unit) : Except Stop (EhciAns o) × Unit :=
  match o with
  | .readl _ => (.ok 0, s)
  | .writel _ _ => (.ok (), s)
  | .load => (.ok .boot, s)
  | .store _ => (.ok (), s)

theorem accesses_logsLast_iff_two
    : ∃ (entries : List (Int × EhciRec)) (f : Ehci),
        (accesses [.writel .usbcmd 1, .readl .usbsts]).Run (.ofHandler zeroRegisters) .boot ()
          (.ok (entries, f)) () ∧
        LogsLast 2 entries f := by
  obtain ⟨entries, f, t, hr, -⟩ := exists_run_of_check (Prog.ofHandler_serves zeroRegisters).offers
    (m := accesses [.writel .usbcmd 1, .readl .usbsts]) (u := Ehci.boot) (s := ())
    (p := fun _ _ _ => true) (by decide)
  exact ⟨entries, f, hr, (accesses_logsLast_iff rfl hr).mpr (by decide)⟩

/-- One access more, and an index is out of range. -/
theorem overflow_not_logsLast
    : ¬∀ (calls : List RegCall) (entries : List (Int × EhciRec)) (e f : Ehci), e.gEhciCounter = 0 →
        (accesses calls).Run (.ofHandler zeroRegisters) e () (.ok (entries, f)) () →
        LogsLast calls.length entries f := by
  intro h
  have hlength : (List.replicate (2 ^ 31 + 1) (RegCall.readl .usbsts)).length = 2 ^ 31 + 1 :=
    List.length_replicate
  generalize List.replicate (2 ^ 31 + 1) (RegCall.readl .usbsts) = calls at hlength
  have hanswers : ∀ o s x t, World.ofHandler zeroRegisters o s (.error x) t → False := by
    intro o s x t ho
    cases o <;> cases ho
  obtain ⟨entries, f, t, hr, hslots, hf⟩ := exists_run (Prog.ofHandler_serves zeroRegisters)
    (wp_accesses (e := .boot) (s := ()) hanswers calls rfl)
  have hlog := h calls entries .boot f rfl hr
  rw [hf, logsLast_iff rfl hslots, hlength] at hlog
  omega
