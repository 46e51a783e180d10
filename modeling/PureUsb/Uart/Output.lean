import PureUsb.Uart.Basic
import Mathlib.Tactic.Common

/-!
This module contains proofs about what leaves through the serial line.
-/

namespace Uart

section

variable {u v : State} {Q : Unit → State → Prop} {E : Stop → State → Prop}

theorem wp_serialOut {b : Byte} {r : Reg}
    (h : ∀ v, Moves u v → Q () ⟨v.config.write r b, v.line.write v.config r b⟩)
    : (serialOut b r).wp uartWorld Q E u := by
  intro t
  constructor
  . intro x hx
    obtain ⟨m, hmoves, heffect⟩ := World.interleaved_ok.1 hx
    have ht : t = ⟨m.config.write r b, m.line.write m.config r b⟩ := heffect
    rw [ht]
    exact h m hmoves
  . intro e he
    exact absurd he World.interleaved_error

theorem wp_readLsr {Q : Byte → State → Prop}
    (h : ∀ v x, Moves u v → (x &&& lsrThre ≠ 0 ↔ v.line.held = []) → Q x v)
    : readLsr.wp uartWorld Q E u := by
  intro t
  constructor
  . intro x hx
    obtain ⟨m, hmoves, heffect⟩ := World.interleaved_ok.1 hx
    have ht : t = m ∧ (BitVec.and x lsrThre ≠ 0 ↔ m.line.held = []) := heffect
    rw [ht.1]
    exact h m x hmoves ht.2
  . intro e he
    exact absurd he World.interleaved_error

theorem Moves.refl (u : State) : Moves u u := ⟨0, by rw [List.take_zero, List.append_nil, List.drop_zero]⟩

theorem Moves.line (h : Moves u v)
    : v.config = u.config ∧ v.line.out = u.line.out ∧ v.line.lost = u.line.lost ∧
        (u.line.held = [] → v.line.held = []) := by
  obtain ⟨k, rfl⟩ := h
  refine ⟨rfl, ?_, rfl, ?_⟩
  . unfold Line.out
    dsimp only
    rw [List.append_assoc, List.take_append_drop]
  . intro hempty
    dsimp only
    rw [hempty, List.drop_nil]

end

/-!
### Characters
-/

/-- `serial_putc` writes a carriage return in front of a newline. -/
def crlf (c : Byte) : List Byte := if c = chr '\n' then [chr '\r', c] else [c]

/-- The characters `s` were given to the device in between. -/
structure Given (s : List Byte) (u v : State) : Prop where
  config : v.config = u.config
  out : v.line.out = u.line.out ++ s
  lost : v.line.lost = u.line.lost

/-- A beginning of `s` was given to the device in between. -/
def GivenSome (s : List Byte) (u v : State) : Prop := ∃ n, Given (s.take n) u v

section

variable {s s' : List Byte} {u v t : State} {tries : Nat} {c : Byte}

theorem Given.refl (u : State) : Given [] u u := ⟨rfl, (List.append_nil _).symm, rfl⟩

theorem Given.trans (h : Given s u v) (h' : Given s' v t) : Given (s ++ s') u t :=
  ⟨h'.config.trans h.config, by rw [h'.out, h.out, List.append_assoc], h'.lost.trans h.lost⟩

theorem Given.of_moves (h : Moves u v) : Given [] u v :=
  ⟨h.line.1, by rw [h.line.2.1, List.append_nil], h.line.2.2.1⟩

theorem GivenSome.none (h : Given [] u v) : GivenSome s u v := ⟨0, h⟩

theorem GivenSome.behind (h : Given s u v) (h' : GivenSome s' v t) : GivenSome (s ++ s') u t := by
  obtain ⟨n, h'⟩ := h'
  refine ⟨s.length + n, ?_⟩
  rw [List.take_length_add_append]
  exact h.trans h'

theorem GivenSome.append (h : GivenSome s u v) : GivenSome (s ++ s') u v := by
  obtain ⟨n, h⟩ := h
  cases Nat.le_total n s.length with
  | inl hle =>
    refine ⟨n, ?_⟩
    rw [List.take_append_of_le_length hle]
    exact h
  | inr hle =>
    refine ⟨s.length, ?_⟩
    rw [List.take_of_length_le hle] at h
    rw [List.take_append_of_le_length (Nat.le_refl _), List.take_length]
    exact h

theorem wp_waitThre (tries : Nat) (u : State)
    : (waitThre tries).wp uartWorld (fun _ v => Given [] u v ∧ v.line.held = []) (fun _ v => Given [] u v) u := by
  induction tries generalizing u with
  | zero => exact Given.refl u
  | succ tries ih =>
    unfold waitThre
    rw [Prog.bind_eq, Prog.wp_bind]
    apply wp_readLsr
    intro v lsr hmoves hthre
    have hgiven := Given.of_moves hmoves
    split
    . refine Prog.wp_mono (ih v) ?_ ?_
      . intro _ t ht
        exact ⟨hgiven.trans ht.1, ht.2⟩
      . intro _ t ht
        exact hgiven.trans ht
    . next hset => exact ⟨hgiven, hthre.1 hset⟩

theorem wp_putcRaw (hlatched : ¬u.config.latched)
    : (putcRaw tries c).wp uartWorld (fun _ v => Given [c] u v) (fun _ v => Given [] u v) u := by
  unfold putcRaw
  rw [Prog.bind_eq, Prog.wp_bind]
  refine Prog.wp_mono (wp_waitThre tries u) ?_ (fun _ _ h => h)
  intro _ v hv
  apply wp_serialOut
  intro m hmoves
  have hgiven := hv.1.trans (Given.of_moves hmoves)
  have hempty := hmoves.line.2.2.2 hv.2
  have hroom : m.line.held.length < m.config.room := by
    rw [hempty]
    unfold Config.room
    split
    . exact Nat.zero_lt_succ 15
    . exact Nat.one_pos
  have hunlatched : ¬m.config.latched := hgiven.config ▸ hlatched
  have hline : m.line.write m.config .thr c = { m.line with held := m.line.held ++ [c] } := by
    unfold Line.write
    rw [if_neg hunlatched, if_pos hroom]
  have hconfig : m.config.write .thr c = m.config := if_neg hunlatched
  rw [hline, hconfig]
  refine ⟨hgiven.config, ?_, hgiven.lost⟩
  have hout := hgiven.out
  unfold Line.out at hout ⊢
  rw [List.append_nil, List.append_nil] at hout
  change m.line.sent ++ (m.line.held ++ [c]) = _
  rw [← List.append_assoc, hout]

theorem wp_serialPutc (hlatched : ¬u.config.latched)
    : (serialPutc tries c).wp uartWorld (fun _ v => Given (crlf c) u v) (fun _ v => GivenSome (crlf c) u v) u := by
  unfold serialPutc crlf
  split
  . rw [Prog.bind_eq, Prog.wp_bind]
    refine Prog.wp_mono (wp_putcRaw hlatched) ?_ ?_
    . intro _ v hv
      refine Prog.wp_mono (wp_putcRaw (hv.config ▸ hlatched)) ?_ ?_
      . intro _ t ht
        exact hv.trans ht
      . intro _ t ht
        exact GivenSome.behind hv (GivenSome.none (s := [c]) ht)
    . intro _ v hv
      exact GivenSome.none hv
  . refine Prog.wp_mono (wp_putcRaw hlatched) (fun _ _ h => h) ?_
    intro _ v hv
    exact GivenSome.none hv

theorem wp_serialPuts (hlatched : ¬u.config.latched)
    : (serialPuts tries s).wp uartWorld (fun _ v => Given (s.flatMap crlf) u v)
        (fun _ v => GivenSome (s.flatMap crlf) u v) u := by
  induction s generalizing u with
  | nil => exact Given.refl u
  | cons c s ih =>
    unfold serialPuts
    rw [Prog.bind_eq, Prog.wp_bind, List.flatMap_cons]
    refine Prog.wp_mono (wp_serialPutc hlatched) ?_ ?_
    . intro _ v hv
      refine Prog.wp_mono (ih (hv.config ▸ hlatched)) ?_ ?_
      . intro _ t ht
        exact hv.trans ht
      . intro _ t ht
        exact GivenSome.behind hv ht
    . intro _ v hv
      exact GivenSome.append hv

end

/-!
### The initialisation
-/

/--
Some of the characters that the device held in `l` have left. It holds the others, or it has lost them when its
transmitter was reset.
-/
def Left (l m : Line) : Prop :=
  ∃ k, m.sent = l.sent ++ l.held.take k ∧
    (m.held = l.held.drop k ∧ m.lost = l.lost ∨ m.held = [] ∧ m.lost = l.lost ++ l.held.drop k)

/-- The driver has set up `c`, and has not given a character to the device since `l`. -/
structure Quiet (c : Config) (l : Line) (u : State) : Prop where
  config : u.config = c
  left : Left l u.line

section

variable {c : Config} {l : Line} {u v : State} {r : Reg} {b : Byte}

theorem Quiet.start (u : State) : Quiet u.config u.line u :=
  ⟨rfl, 0, (List.append_nil _).symm, .inl ⟨rfl, rfl⟩⟩

theorem Quiet.moves (h : Quiet c l u) (hmoves : Moves u v) : Quiet c l v := by
  obtain ⟨j, rfl⟩ := hmoves
  obtain ⟨k, hsent, ⟨hheld, hlost⟩ | ⟨hheld, hlost⟩⟩ := h.left
  . refine ⟨h.config, k + j, ?_, .inl ⟨?_, hlost⟩⟩
    . dsimp only
      rw [hsent, hheld, List.append_assoc, ← List.take_add]
    . dsimp only
      rw [hheld, List.drop_drop]
  . refine ⟨h.config, k, ?_, .inr ⟨?_, hlost⟩⟩
    . dsimp only
      rw [hsent, hheld, List.take_nil, List.append_nil]
    . dsimp only
      rw [hheld, List.drop_nil]

/-- A register that is written gives no character to the device while the divisor latch stands for `thr`. -/
theorem Quiet.write (h : Quiet c l u) (hr : r ≠ .thr ∨ c.latched)
    : Quiet (c.write r b) l ⟨u.config.write r b, u.line.write u.config r b⟩ := by
  refine ⟨by rw [h.config], ?_⟩
  cases r with
  | thr =>
    have hlatched : u.config.latched := h.config ▸ hr.resolve_left (not_not_intro rfl)
    unfold Line.write
    rw [if_pos hlatched]
    exact h.left
  | fcr =>
    by_cases hreset : b &&& fcrTxsr ≠ 0
    . have hline : u.line.write u.config .fcr b = { u.line with held := [], lost := u.line.lost ++ u.line.held } :=
        if_pos hreset
      rw [hline]
      obtain ⟨k, hsent, ⟨hheld, hlost⟩ | ⟨hheld, hlost⟩⟩ := h.left
      . refine ⟨k, hsent, .inr ⟨rfl, ?_⟩⟩
        dsimp only
        rw [hlost, hheld]
      . refine ⟨k, hsent, .inr ⟨rfl, ?_⟩⟩
        dsimp only
        rw [hlost, hheld, List.append_nil]
    . have hline : u.line.write u.config .fcr b = u.line := if_neg hreset
      rw [hline]
      exact h.left
  | ier => exact h.left
  | lcr => exact h.left
  | mcr => exact h.left

theorem wp_quiet {E : Stop → State → Prop} (h : Quiet c l u) (hr : r ≠ .thr ∨ c.latched)
    : (serialOut b r).wp uartWorld (fun _ v => Quiet (c.write r b) l v) E u :=
  wp_serialOut fun _ hmoves => (h.moves hmoves).write hr

theorem wp_quiet_then {p : UartM Unit} {Q : Unit → State → Prop} {E : Stop → State → Prop} (h : Quiet c l u)
    (hr : r ≠ .thr ∨ c.latched) (hnext : ∀ v, Quiet (c.write r b) l v → p.wp uartWorld Q E v)
    : (serialOut b r >>= fun _ => p).wp uartWorld Q E u := by
  rw [Prog.bind_eq, Prog.wp_bind]
  exact Prog.wp_mono (wp_quiet h hr) (fun _ v hv => hnext v hv) (fun _ _ h => h)

/--
What `serial_init` sets up. Its first write is meant to disable the interrupts, but goes to the divisor latch if that
is selected.
-/
def Config.afterInit (c : Config) (clk : Nat) : Config where
  ier := if c.latched then c.ier else 0
  fcr := fcrval
  lcr := lcrval
  mcr := mcrval
  dll := BitVec.ofNat 8 (baudDivisor clk)
  dlm := BitVec.ofNat 8 (baudDivisor clk / 2 ^ 8)

theorem latched_lcr (c : Config) : (c.write .lcr (lcrBkse ||| lcrval)).latched :=
  (by decide : (lcrBkse ||| lcrval) &&& lcrBkse ≠ 0)

theorem write_divisor (c : Config) (low high : Byte)
    : ((c.write .lcr (lcrBkse ||| lcrval)).write .thr low).write .ier high
        = { c with lcr := lcrBkse ||| lcrval, dll := low, dlm := high } := by
  have hlow : (c.write .lcr (lcrBkse ||| lcrval)).write .thr low
      = { c with lcr := lcrBkse ||| lcrval, dll := low } := if_pos (latched_lcr c)
  have hlatched : { c with lcr := lcrBkse ||| lcrval, dll := low : Config }.latched := latched_lcr c
  rw [hlow]
  exact if_pos hlatched

theorem wp_serialInit (clk : Nat) (u : State)
    : (serialInit clk).wp uartWorld (fun _ v => Quiet (u.config.afterInit clk) u.line v) (fun _ _ => False) u := by
  have hier : Reg.ier ≠ .thr := by decide
  have hlcr : Reg.lcr ≠ .thr := by decide
  have hmcr : Reg.mcr ≠ .thr := by decide
  have hfcr : Reg.fcr ≠ .thr := by decide
  unfold serialInit
  refine wp_quiet_then (Quiet.start u) (.inl hier) fun v hv => ?_
  refine wp_quiet_then hv (.inl hlcr) fun v hv => ?_
  refine wp_quiet_then hv (.inr (latched_lcr _)) fun v hv => ?_
  refine wp_quiet_then hv (.inl hier) fun v hv => ?_
  refine wp_quiet_then hv (.inl hlcr) fun v hv => ?_
  refine wp_quiet_then hv (.inl hmcr) fun v hv => ?_
  refine wp_quiet_then hv (.inl hfcr) fun v hv => ?_
  refine wp_quiet_then hv (.inl hlcr) fun v hv => ?_
  refine wp_quiet_then hv (.inr (latched_lcr _)) fun v hv => ?_
  refine wp_quiet_then hv (.inl hier) fun v hv => ?_
  refine Prog.wp_mono (wp_quiet hv (.inl hlcr)) ?_ (fun _ _ h => h)
  intro _ t ht
  refine ⟨ht.config.trans ?_, ht.left⟩
  rw [write_divisor, write_divisor]
  by_cases h : u.config.latched
  . have hfirst : u.config.write .ier 0x00 = { u.config with dlm := 0 } := if_pos h
    rw [hfirst, Config.afterInit, if_pos h]
    rfl
  . have hfirst : u.config.write .ier 0x00 = { u.config with ier := 0 } := if_neg h
    rw [hfirst, Config.afterInit, if_neg h]
    rfl

theorem Left.out {m : Line} (h : Left l m)
    : ∃ k, m.out = l.sent ++ l.held.take k ∧ m.lost = l.lost ++ l.held.drop k := by
  obtain ⟨k, hsent, ⟨hheld, hlost⟩ | ⟨hheld, hlost⟩⟩ := h
  . refine ⟨l.held.length, ?_, ?_⟩
    . unfold Line.out
      rw [hsent, hheld, List.append_assoc, List.take_append_drop, List.take_length]
    . rw [hlost, List.drop_length, List.append_nil]
  . refine ⟨k, ?_, hlost⟩
    unfold Line.out
    rw [hsent, hheld, List.append_nil]

end

/--
However the device was set up and whatever it holds, and at whatever pace it sends: behind what is left of that, exactly
the characters of `s` are given to it, in their order and with carriage returns, and none of them is lost. If the
program waits forever, it is a beginning of them.
-/
theorem serial_delivers {clk tries : Nat} {s : List Byte} {u t : State} {r : Except Stop Unit}
    (h : Prog.Run uartWorld (do serialInit clk; serialPuts tries s) u r t)
    : t.config = u.config.afterInit clk ∧
        ∃ k n, t.line.out = u.line.sent ++ u.line.held.take k ++ (s.flatMap crlf).take n ∧
          t.line.lost = u.line.lost ++ u.line.held.drop k ∧ (r = .ok () → (s.flatMap crlf).length ≤ n) := by
  have hunlatched (c : Config) : ¬(c.afterInit clk).latched := (by decide : ¬lcrval &&& lcrBkse ≠ 0)
  have hwp : (serialInit clk >>= fun _ => serialPuts tries s).wp uartWorld
      (fun _ t => ∃ v, Quiet (u.config.afterInit clk) u.line v ∧ Given (s.flatMap crlf) v t)
      (fun _ t => ∃ v, Quiet (u.config.afterInit clk) u.line v ∧ GivenSome (s.flatMap crlf) v t) u := by
    rw [Prog.bind_eq, Prog.wp_bind]
    refine Prog.wp_mono (wp_serialInit clk u) ?_ (fun _ _ h => h.elim)
    intro _ v hv
    have hlatched : ¬v.config.latched := hv.config ▸ hunlatched u.config
    refine Prog.wp_mono (wp_serialPuts hlatched) ?_ ?_
    . intro _ t ht
      exact ⟨v, hv, ht⟩
    . intro _ t ht
      exact ⟨v, hv, ht⟩
  have hruns := Prog.wp_iff_run.1 hwp
  cases r with
  | ok x =>
    obtain ⟨v, hv, hgiven⟩ := hruns.1 x t h
    obtain ⟨k, hout, hlost⟩ := hv.left.out
    refine ⟨hgiven.config.trans hv.config, k, (s.flatMap crlf).length, ?_, hgiven.lost.trans hlost, ?_⟩
    . rw [hgiven.out, hout, List.take_length]
    . exact fun _ => Nat.le_refl _
  | error e =>
    obtain ⟨v, hv, n, hgiven⟩ := hruns.2 e t h
    obtain ⟨k, hout, hlost⟩ := hv.left.out
    refine ⟨hgiven.config.trans hv.config, k, n, ?_, hgiven.lost.trans hlost, nofun⟩
    rw [hgiven.out, hout]

def emptyHandler : (o : Op) → State → Except Stop (Ans o) × State
  | .readLsr, u =>
    (.ok lsrThre, { u with line := { u.line with
      sent := u.line.sent ++ u.line.held.take u.line.held.length, held := u.line.held.drop u.line.held.length } })
  | .write r b, u => (.ok (), ⟨u.config.write r b, u.line.write u.config r b⟩)

theorem emptyHandler_serves : Prog.Serves emptyHandler uartWorld := by
  intro o u
  cases o with
  | readLsr =>
    refine World.interleaved_ok.2 ⟨_, ⟨u.line.held.length, rfl⟩, rfl, ?_⟩
    constructor
    . intro _
      exact List.drop_length
    . intro _
      decide
  | write r b => exact World.interleaved_ok.2 ⟨u, Moves.refl u, rfl⟩

/-- The divisor latch is selected, and two characters are on their way. -/
def latchedState : State := ⟨⟨0x01, 0x00, 0x83, 0x00, 0x00, 0x00⟩, ⟨[], [chr 'a', chr 'b'], []⟩⟩

def greetingRun : Except Stop Unit × State :=
  Prog.exec emptyHandler (do serialInit 54000000; serialPuts 1 ("hi\n".toList.map chr)) latchedState

theorem serial_delivers_latched
    : greetingRun.2.config = ⟨0x01, 0x07, 0x03, 0x03, 0x58, 0x00⟩ ∧
        ∃ k n, greetingRun.2.line.out = [] ++ [chr 'a', chr 'b'].take k ++ ("hi\r\n".toList.map chr).take n ∧
          greetingRun.2.line.lost = [] ++ [chr 'a', chr 'b'].drop k ∧
          (greetingRun.1 = .ok () → ("hi\r\n".toList.map chr).length ≤ n) :=
  @serial_delivers 54000000 1 ("hi\n".toList.map chr) latchedState _ _
    (Prog.run_exec emptyHandler_serves _ latchedState)

/-!
### Waiting
-/

/-- How often the device was found full on end, which is at most `n` times. -/
def Waits (n : Nat) (o : Op) (j : Nat) (x : Ans o) (j' : Nat) : Prop :=
  match o with
  | .readLsr => if BitVec.and x lsrThre = 0 then j < n ∧ j' = j + 1 else j' = 0
  | .write _ _ => j' = 0

def patientWorld (n : Nat) : World Op Ans Stop (State × Nat) :=
  World.interleaved (fun u v => Moves u.1 v.1 ∧ v.2 = u.2) fun o u x v => Effect o u.1 x v.1 ∧ Waits n o u.2 x v.2

section

variable {n tries : Nat} {u : State × Nat} {Q : Unit → State × Nat → Prop} {E : Stop → State × Nat → Prop}

theorem wp_serialOut_patient {b : Byte} {r : Reg} (h : ∀ v : State × Nat, v.2 ≤ n → Q () v)
    : (serialOut b r).wp (patientWorld n) Q E u := by
  intro t
  constructor
  . intro x hx
    obtain ⟨m, -, -, hwaits⟩ := World.interleaved_ok.1 hx
    have hzero : t.2 = 0 := hwaits
    exact h t (hzero ▸ Nat.zero_le n)
  . intro e he
    exact absurd he World.interleaved_error

theorem wp_waitThre_patient (hu : u.2 ≤ n) (htries : n < tries + u.2)
    : (waitThre tries).wp (patientWorld n) (fun _ v => v.2 ≤ n) (fun _ _ => False) u := by
  induction tries generalizing u with
  | zero => exact absurd htries (by omega)
  | succ tries ih =>
    unfold waitThre
    rw [Prog.bind_eq, Prog.wp_bind]
    intro t
    constructor
    . intro lsr hlsr
      obtain ⟨m, hmoves, -, hwaits⟩ := World.interleaved_ok.1 hlsr
      have hcount : if lsr &&& lsrThre = 0 then m.2 < n ∧ t.2 = m.2 + 1 else t.2 = 0 := hwaits
      rw [Prog.wp_ret]
      split
      . next hfull =>
        rw [if_pos hfull, hmoves.2] at hcount
        exact ih (by omega) (by omega)
      . next hroom =>
        rw [if_neg hroom] at hcount
        have hzero : t.2 ≤ n := hcount ▸ Nat.zero_le n
        exact hzero
    . intro e he
      exact absurd he World.interleaved_error

theorem wp_putcRaw_patient (hu : u.2 ≤ n) (htries : n < tries) {c : Byte}
    : (putcRaw tries c).wp (patientWorld n) (fun _ v => v.2 ≤ n) (fun _ _ => False) u := by
  unfold putcRaw
  rw [Prog.bind_eq, Prog.wp_bind]
  refine Prog.wp_mono (wp_waitThre_patient hu (by omega)) ?_ (fun _ _ h => h)
  intro _ v _
  exact wp_serialOut_patient fun _ h => h

theorem wp_serialPuts_patient (hu : u.2 ≤ n) (htries : n < tries) {s : List Byte}
    : (serialPuts tries s).wp (patientWorld n) (fun _ v => v.2 ≤ n) (fun _ _ => False) u := by
  induction s generalizing u with
  | nil => exact hu
  | cons c s ih =>
    have hputc : (serialPutc tries c).wp (patientWorld n) (fun _ v => v.2 ≤ n) (fun _ _ => False) u := by
      unfold serialPutc
      split
      . rw [Prog.bind_eq, Prog.wp_bind]
        exact Prog.wp_mono (wp_putcRaw_patient hu htries) (fun _ _ h => wp_putcRaw_patient h htries) (fun _ _ h => h)
      . exact wp_putcRaw_patient hu htries
    unfold serialPuts
    rw [Prog.bind_eq, Prog.wp_bind]
    exact Prog.wp_mono hputc (fun _ _ h => ih h) (fun _ _ h => h)

theorem wp_serialOut_then {p : UartM Unit} {b : Byte} {r : Reg}
    (hnext : ∀ v : State × Nat, v.2 ≤ n → p.wp (patientWorld n) Q E v)
    : (serialOut b r >>= fun _ => p).wp (patientWorld n) Q E u := by
  rw [Prog.bind_eq, Prog.wp_bind]
  exact wp_serialOut_patient hnext

/-- No wait of the driver goes on forever on a device that is found full at most `n` times on end. -/
theorem serial_ends (htries : n < tries) {clk : Nat} {s : List Byte} {u t : State × Nat} {r : Except Stop Unit}
    (h : Prog.Run (patientWorld n) (do serialInit clk; serialPuts tries s) u r t) : r = .ok () := by
  have hinit : (serialInit clk).wp (patientWorld n) (fun _ v => v.2 ≤ n) (fun _ _ => False) u := by
    unfold serialInit
    iterate 10 refine wp_serialOut_then fun _ _ => ?_
    exact wp_serialOut_patient fun _ h => h
  have hwp : (serialInit clk >>= fun _ => serialPuts tries s).wp (patientWorld n) (fun _ _ => True)
      (fun _ _ => False) u := by
    rw [Prog.bind_eq, Prog.wp_bind]
    refine Prog.wp_mono hinit ?_ (fun _ _ h => h)
    intro _ v hv
    exact Prog.wp_mono (wp_serialPuts_patient hv htries) (fun _ _ _ => trivial) (fun _ _ h => h)
  cases r with
  | ok x => rfl
  | error e => exact ((Prog.wp_iff_run.1 hwp).2 e t h).elim

end

def slowHandler : (o : Op) → State × Nat → Except Stop (Ans o) × (State × Nat)
  | .readLsr, u =>
    if u.2 < 2 ∧ u.1.line.held ≠ [] then (.ok 0, (u.1, u.2 + 1))
    else (.ok lsrThre, ((emptyHandler .readLsr u.1).2, 0))
  | .write r b, u => (.ok (), ((emptyHandler (.write r b) u.1).2, 0))

theorem slowHandler_serves : Prog.Serves slowHandler (patientWorld 2) := by
  intro o u
  cases o with
  | readLsr =>
    unfold slowHandler
    dsimp only
    split
    . next h =>
      have hfull : BitVec.and 0 lsrThre = 0 := by decide
      have heffect : BitVec.and 0 lsrThre ≠ 0 ↔ u.1.line.held = [] :=
        ⟨fun hne => absurd hfull hne, fun hempty => absurd hempty h.2⟩
      have hwaits : Waits 2 .readLsr u.2 0 (u.2 + 1) := by
        unfold Waits
        dsimp only
        rw [if_pos hfull]
        exact ⟨h.1, rfl⟩
      exact World.interleaved_ok.2 ⟨u, ⟨Moves.refl u.1, rfl⟩, ⟨rfl, heffect⟩, hwaits⟩
    . have hroom : BitVec.and lsrThre lsrThre ≠ 0 := by decide
      have hwaits : Waits 2 .readLsr u.2 lsrThre 0 := by
        unfold Waits
        dsimp only
        rw [if_neg hroom]
      exact World.interleaved_ok.2 ⟨((emptyHandler .readLsr u.1).2, u.2), ⟨⟨u.1.line.held.length, rfl⟩, rfl⟩,
        ⟨rfl, fun _ => List.drop_length, fun _ => hroom⟩, hwaits⟩
  | write r b => exact World.interleaved_ok.2 ⟨u, ⟨Moves.refl u.1, rfl⟩, rfl, rfl⟩

theorem serial_ends_slow
    : (Prog.exec slowHandler (do serialInit 54000000; serialPuts 3 ("hi\n".toList.map chr))
        (latchedState, 0)).1 = .ok () :=
  serial_ends (n := 2) (by decide : 2 < 3) (Prog.run_exec slowHandler_serves _ (latchedState, 0))

end Uart
