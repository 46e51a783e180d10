import PureUsb.Prog.Rel
import PureUsb.ControlRead
import PureUsb.Main.Basic

/-!
This module contains what is left of the past after `ehci_init` and `usb_init`.
-/

open Stateful

/-- What the registers will be read as, and the structures in memory. -/
structure Feed where
  reads : List (Reg × BitVec 32)
  dma : Dma

/-- The controller may change the structures in memory, but not the head of the reclaim list. -/
def feedWorld : EhciWorld Feed := fun o s r t =>
  match o, r with
  | .readl r, .ok x => s.reads = (r, x) :: t.reads ∧ t.dma.qhList = s.dma.qhList
  -- the run is not followed any further
  | .readl r, .error _ => ∀ x l, s.reads ≠ (r, x) :: l
  | .writel _ _, .ok _ => t.reads = s.reads ∧ t.dma.qhList = s.dma.qhList
  | .load, .ok m => t = ⟨s.reads, m⟩ ∧ m.qhList = s.dma.qhList
  | .store f, .ok _ => ∃ m : Dma, m.qhList = s.dma.qhList ∧ t = ⟨s.reads, f m⟩
  | _, .error _ => False

/-- A property of the feed that reading a register in `R` does not change. -/
structure Lasting (R : Reg → Prop) (A : Feed → Prop) : Prop where
  read : ∀ {s t r x}, R r → A s → s.reads = (r, x) :: t.reads → t.dma.qhList = s.dma.qhList → A t
  other : ∀ {s t}, A s → t.reads = s.reads → t.dma.qhList = s.dma.qhList → A t

/-- A relation between two states of the driver that has nothing to do with `g_rec`. -/
structure Recorded (T : Ehci → Ehci → Prop) : Prop where
  record : ∀ {e f} r d v, T e f → T (e.record r d v) (f.record r d v)

/-- Two drivers that will read the same. -/
structure Twins (A : Feed → Prop) (T : Ehci → Ehci → Prop) (c c' : Ehci × Feed) : Prop where
  reads : c.2.reads = c'.2.reads
  left : A c.2
  right : A c'.2
  drivers : T c.1 c'.1

section

variable {R : Reg → Prop} {A : Feed → Prop} {T : Ehci → Ehci → Prop}

theorem inStep_rawReadl (hA : Lasting R A) {r : Reg} (hr : R r)
    : InStep feedWorld (Twins A T) (rawReadl r) := by
  apply InStep.ask
  rintro c c' x t x' t' h ⟨hx, hm⟩ ⟨hx', hm'⟩
  have hcons := h.reads
  rw [hx, hx'] at hcons
  obtain ⟨hpair, hrest⟩ := List.cons.inj hcons
  exact ⟨(Prod.mk.inj hpair).2, hrest, hA.read hr h.left hx hm, hA.read hr h.right hx' hm', h.drivers⟩

theorem inStep_rawWritel (hA : Lasting R A) (r : Reg) (v : BitVec 32)
    : InStep feedWorld (Twins A T) (rawWritel r v) := by
  apply InStep.ask
  rintro c c' x t x' t' h ⟨hx, hm⟩ ⟨hx', hm'⟩
  exact ⟨rfl, by rw [hx, hx', h.reads], hA.other h.left hx hm, hA.other h.right hx' hm', h.drivers⟩

theorem inStep_ehciReadl (hA : Lasting R A) (hT : Recorded T) {r : Reg} (hr : R r)
    : InStep feedWorld (Twins A T) (ehciReadl r) := by
  apply InStep.bind (inStep_rawReadl hA hr)
  intro val
  apply InStep.bind
  . apply InStep.modify
    intro c c' h
    exact ⟨h.reads, h.left, h.right, hT.record _ _ _ h.drivers⟩
  . intro _
    apply InStep.pure

theorem inStep_ehciWritel (hA : Lasting R A) (hT : Recorded T) (r : Reg) (v : BitVec 32)
    : InStep feedWorld (Twins A T) (ehciWritel r v) := by
  apply InStep.bind (inStep_rawWritel hA r v)
  intro _
  apply InStep.modify
  intro c c' h
  exact ⟨h.reads, h.left, h.right, hT.record _ _ _ h.drivers⟩

theorem inStep_handshakeTries (hA : Lasting R A) {r : Reg} (hr : R r) (mask done : BitVec 32) (usec : Nat)
    : InStep feedWorld (Twins A T) (handshakeTries r mask done usec) := by
  induction usec with
  | zero =>
    apply InStep.bind (inStep_rawReadl hA hr)
    intro result
    apply InStep.ite (InStep.pure _)
    apply InStep.ite (InStep.pure _)
    apply InStep.ite (InStep.pure _)
    apply InStep.pure
  | succ usec ih =>
    apply InStep.bind (inStep_rawReadl hA hr)
    intro result
    apply InStep.ite (InStep.pure _)
    apply InStep.ite (InStep.pure _)
    apply InStep.ite (InStep.pure _)
    exact ih

theorem inStep_haltTries (hA : Lasting R A) (hT : Recorded T) (hr : R .usbsts) (attempt : Nat)
    : InStep feedWorld (Twins A T) (haltTries attempt) := by
  induction attempt with
  | zero =>
    apply InStep.bind (inStep_ehciReadl hA hT hr)
    intro cmd
    apply InStep.ite (InStep.pure _)
    apply InStep.pure
  | succ attempt ih =>
    apply InStep.bind (inStep_ehciReadl hA hT hr)
    intro cmd
    apply InStep.ite (InStep.pure _)
    exact ih

theorem inStep_ehciReset (hA : Lasting R A) (hT : Recorded T) (hsts : R .usbsts) (hcmd : R .usbcmd)
    : InStep feedWorld (Twins A T) ehciReset := by
  apply InStep.bind (inStep_ehciWritel hA hT _ _)
  intro _
  apply InStep.bind (inStep_haltTries hA hT hsts _)
  intro cmd
  apply InStep.ite (InStep.pure _)
  apply InStep.bind (inStep_ehciReadl hA hT hcmd)
  intro cmd
  apply InStep.bind (inStep_rawWritel hA _ _)
  intro _
  exact inStep_handshakeTries hA hcmd _ _ _

end

/-!
### `ehci_init`
-/

section

variable {x : Option (BitVec 32)}

theorem lasting_hcsparams
    : Lasting (· ≠ .hcsparams) fun s => s.reads.lookup .hcsparams = x where
  read {s t r v} hr h hs _ := by
    rw [hs, List.lookup_cons, beq_false_of_ne (Ne.symm hr)] at h
    exact h
  other h ht _ := by
    rw [ht]
    exact h

theorem lasting_qhList : Lasting (fun _ => True) fun s => s.dma.qhList = qhListInit where
  read _ h _ ht := ht.trans h
  other h _ ht := ht.trans h

theorem Lasting.and {R R' : Reg → Prop} {A B : Feed → Prop} (hA : Lasting R A) (hB : Lasting R' B)
    : Lasting (fun r => R r ∧ R' r) fun s => A s ∧ B s where
  read hr h hs ht := ⟨hA.read hr.1 h.1 hs ht, hB.read hr.2 h.2 hs ht⟩
  other h hs ht := ⟨hA.other h.1 hs ht, hB.other h.2 hs ht⟩

/-- Two drivers that counted the same, with what they had before. -/
structure Counted (h h' : Bytes 11) (p p' : BitVec 16) (e f : Ehci) : Prop where
  counter : e.gEhciCounter = f.gEhciCounter
  hub : e.hub = h
  hub' : f.hub = h'
  portreset : e.portreset = p
  portreset' : f.portreset = p'

theorem recorded_counted (h h' : Bytes 11) (p p' : BitVec 16) : Recorded (Counted h h' p p') where
  record {e f} r d v hT := by
    refine ⟨?_, hT.hub, hT.hub', hT.portreset, hT.portreset'⟩
    show e.gEhciCounter + 1 = f.gEhciCounter + 1
    rw [hT.counter]

/-- What two successful runs of `ehci_init` leave. -/
structure Inited (x : Option (BitVec 32)) (e e' : Ehci) (d d' : Ehci × Feed) : Prop where
  reads : d.2.reads = d'.2.reads
  rootdev : d.1.rootdev = 0 ∧ d'.1.rootdev = 0
  qhList : d.2.dma.qhList = qhListInit ∧ d'.2.dma.qhList = qhListInit
  drivers : ∃ reg, x = some reg ∧
    Counted (hubAfterInit e.hub reg) (hubAfterInit e'.hub reg) e.portreset e'.portreset d.1 d'.1

theorem rel_storeQhList {A : Feed → Prop} {T : Ehci → Ehci → Prop} {R : Reg → Prop}
    (hA : Lasting R A) (hset : ∀ s : Feed, A s → A ⟨s.reads, { s.dma with qhList := qhListInit }⟩)
    {c c' : Ehci × Feed} (h : Twins A T c c')
    : Rel feedWorld (storeDma fun m => { m with qhList := qhListInit })
        (storeDma fun m => { m with qhList := qhListInit })
        (fun _ d _ d' => Twins (fun s => A s ∧ s.dma.qhList = qhListInit) T d d') c c' := by
  apply Rel.ask
  rintro _ _ _ _ ⟨m, hm, rfl⟩ ⟨m', hm', rfl⟩
  have hleft : A ⟨c.2.reads, m⟩ := hA.other h.left rfl hm
  have hright : A ⟨c'.2.reads, m'⟩ := hA.other h.right rfl hm'
  exact ⟨h.reads, ⟨hset _ hleft, rfl⟩, ⟨hset _ hright, rfl⟩, h.drivers⟩

theorem rel_readHcsparams {A : Feed → Prop} {T : Ehci → Ehci → Prop} (hT : Recorded T)
    (hA : Lasting (fun _ => True) A) {c c' : Ehci × Feed}
    (h : Twins (fun s => s.reads.lookup .hcsparams = x ∧ A s) T c c')
    : Rel feedWorld (ehciReadl .hcsparams) (ehciReadl .hcsparams)
        (fun reg d reg' d' => x = some reg ∧ reg = reg' ∧ Twins A T d d') c c' := by
  have hstart : Twins A T c c' := ⟨h.reads, h.left.2, h.right.2, h.drivers⟩
  have hfirst : Rel feedWorld (rawReadl .hcsparams) (rawReadl .hcsparams)
      (fun reg _ _ _ => x = some reg) c c' := by
    apply Rel.ask
    rintro reg _ _ _ ⟨hreg, -⟩ -
    have hlookup := h.left.1
    rw [hreg, List.lookup_cons_self] at hlookup
    exact hlookup.symm
  apply Rel.bind (hfirst.and ((inStep_rawReadl hA trivial).spec _ _ hstart))
  rintro reg d _ d' ⟨hreg, rfl, h⟩
  apply Rel.bind (R := fun _ d _ d' => Twins A T d d')
  . exact Rel.modify ⟨h.reads, h.left, h.right, hT.record _ _ _ h.drivers⟩
  rintro _ d _ d' h
  exact Rel.pure ⟨hreg, rfl, h⟩

theorem rel_ehciInit {addr : BitVec 32} (c c' : Ehci × Feed) (h : c.2.reads = c'.2.reads)
    : Rel feedWorld (ehciInit addr) (ehciInit addr)
        (fun ret d _ d' => ret = 0 → Inited (c.2.reads.lookup .hcsparams) c.1 c'.1 d d') c c' := by
  generalize hx : c.2.reads.lookup .hcsparams = x
  have hT := recorded_counted c.1.hub c'.1.hub c.1.portreset c'.1.portreset
  unfold ehciInit
  apply Rel.bind (R := fun _ d _ d' => Twins (fun s => s.reads.lookup .hcsparams = x)
    (Counted c.1.hub c'.1.hub c.1.portreset c'.1.portreset) d d')
  . exact Rel.modify ⟨h, hx, h ▸ hx, rfl, rfl, rfl, rfl, rfl⟩
  rintro _ d _ d' hstart
  apply Rel.bind (R := fun a b a' b' => a = 0 ∧ a' = 0 ∧ b = d ∧ b' = d') (Rel.pure ⟨rfl, rfl, rfl, rfl⟩)
  rintro _ _ _ _ ⟨rfl, rfl, rfl, rfl⟩
  rw [if_neg (not_not_intro rfl)]
  apply Rel.bind ((inStep_ehciReset lasting_hcsparams hT (by decide) (by decide)).spec _ _ hstart)
  rintro ret d _ d' ⟨rfl, hreset⟩
  apply Rel.ite Iff.rfl
  . intro _
    exact Rel.pure fun hf => absurd hf (by decide)
  intro _
  apply Rel.bind (rel_storeQhList lasting_hcsparams (fun _ h => h) hreset)
  rintro _ d _ d' h
  have hboth := lasting_hcsparams (x := x) |>.and lasting_qhList
  apply Rel.bind ((inStep_ehciWritel hboth hT _ _).spec _ _ h)
  rintro _ d _ d' ⟨-, h⟩
  apply Rel.bind (rel_readHcsparams hT lasting_qhList h)
  rintro reg d _ d' ⟨hreg, rfl, h⟩
  have hT := recorded_counted (hubAfterInit c.1.hub reg) (hubAfterInit c'.1.hub reg) c.1.portreset
    c'.1.portreset
  apply Rel.bind (R := fun _ d _ d' => Twins (fun s => s.dma.qhList = qhListInit)
    (Counted (hubAfterInit c.1.hub reg) (hubAfterInit c'.1.hub reg) c.1.portreset c'.1.portreset) d d')
  . obtain ⟨hreads, hleft, hright, hcount⟩ := h
    apply Rel.modify
    refine ⟨hreads, hleft, hright, hcount.counter, ?_, ?_, hcount.portreset, hcount.portreset'⟩
    . exact congrArg (hubAfterInit · reg) hcount.hub
    . exact congrArg (hubAfterInit · reg) hcount.hub'
  rintro _ d _ d' h
  have hread : ∀ r, InStep feedWorld _ (ehciReadl r) :=
    fun r => inStep_ehciReadl lasting_qhList hT trivial
  have hwrite : ∀ r v, InStep feedWorld _ (ehciWritel r v) := inStep_ehciWritel lasting_qhList hT
  apply Rel.bind ((hread _).spec _ _ h)
  rintro cmd d _ d' ⟨rfl, h⟩
  apply Rel.bind ((hwrite _ _).spec _ _ h)
  rintro _ d _ d' ⟨-, h⟩
  apply Rel.bind ((hread _).spec _ _ h)
  rintro cmd d _ d' ⟨rfl, h⟩
  apply Rel.bind ((hwrite _ _).spec _ _ h)
  rintro _ d _ d' ⟨-, h⟩
  apply Rel.bind ((hread _).spec _ _ h)
  rintro _ d _ d' ⟨-, h⟩
  apply Rel.bind ((hread _).spec _ _ h)
  rintro _ d _ d' ⟨-, h⟩
  apply Rel.bind (R := fun _ d _ d' => Inited x c.1 c'.1 d d')
  . apply Rel.modify
    obtain ⟨hcounter, hhub, hhub', hport, hport'⟩ := h.drivers
    exact ⟨h.reads, ⟨rfl, rfl⟩, ⟨h.left, h.right⟩, reg, hreg, hcounter, hhub, hhub', hport, hport'⟩
  rintro _ d _ d' h
  exact Rel.pure fun _ => h

end

/-!
### The emulated root hub
-/

/-- The same to everyone who talks to the root hub. -/
structure SameHub (e f : Ehci) : Prop where
  rootdev : e.rootdev = f.rootdev
  portreset : e.portreset = f.portreset
  hub : e.hub = f.hub

theorem recorded_sameHub : Recorded SameHub := ⟨fun _ _ _ h => ⟨h.rootdev, h.portreset, h.hub⟩⟩

theorem lasting_true : Lasting (fun _ => True) fun _ => True := ⟨fun _ _ _ _ => trivial, fun _ _ _ => trivial⟩

abbrev HubTwins := Twins (fun _ => True) SameHub

theorem inStep_hub_readl (r : Reg) : InStep feedWorld HubTwins (ehciReadl r) :=
  inStep_ehciReadl lasting_true recorded_sameHub trivial

theorem inStep_hub_writel (r : Reg) (v : BitVec 32) : InStep feedWorld HubTwins (ehciWritel r v) :=
  inStep_ehciWritel lasting_true recorded_sameHub r v

theorem inStep_hub_modify {g : Ehci → Ehci} (h : ∀ e f, SameHub e f → SameHub (g e) (g f))
    : InStep feedWorld HubTwins (modify g) := by
  apply InStep.modify
  intro c c' hc
  exact ⟨hc.reads, trivial, trivial, h _ _ hc.drivers⟩

theorem inStep_resetRootPort (req : DevRequest) (reg : BitVec 32)
    : InStep feedWorld HubTwins (resetRootPort req reg) := by
  apply InStep.ite
  . apply inStep_hub_writel
  . apply InStep.bind (inStep_hub_writel _ _)
    intro _
    apply InStep.bind (inStep_hub_writel _ _)
    intro _
    apply InStep.bind (inStep_handshakeTries lasting_true trivial _ _ _)
    intro ret
    apply InStep.ite
    . apply inStep_hub_modify
      exact fun e f h => ⟨h.rootdev, congrArg (· ||| _) h.portreset, h.hub⟩
    . apply InStep.pure

theorem inStep_rootSetFeature (req : DevRequest) : InStep feedWorld HubTwins (rootSetFeature req) := by
  have hend : ∀ b : Bool, InStep feedWorld HubTwins (do
      let known ← pure b
      if known then
        let _ ← ehciReadl .usbcmd
        return true
      else
        return false) := by
    intro b
    apply InStep.bind (InStep.pure b)
    intro known
    apply InStep.ite
    . apply InStep.bind (inStep_hub_readl _)
      intro _
      apply InStep.pure
    . apply InStep.pure
  unfold rootSetFeature
  apply InStep.bind (inStep_hub_readl _)
  intro reg
  apply InStep.ite
  . apply InStep.bind (inStep_hub_writel _ _)
    intro _
    apply hend
  . apply InStep.ite
    . apply InStep.bind (inStep_hub_readl _)
      intro ppc
      apply InStep.ite
      . apply InStep.bind (inStep_hub_writel _ _)
        intro _
        apply InStep.bind (inStep_hub_writel _ _)
        intro _
        apply hend
      . apply hend
    . apply InStep.ite
      . apply InStep.bind (inStep_resetRootPort _ _)
        intro _
        apply hend
      . apply hend

theorem inStep_rootClearFeature (req : DevRequest) : InStep feedWorld HubTwins (rootClearFeature req) := by
  have hvalue : ∀ reg, InStep feedWorld HubTwins (rootClearFeatureValue req reg) := by
    intro reg
    apply InStep.ite (InStep.pure _)
    apply InStep.ite (InStep.pure _)
    apply InStep.ite
    . apply InStep.bind (inStep_hub_readl _)
      intro ppc
      apply InStep.pure
    apply InStep.ite (InStep.pure _)
    apply InStep.ite (InStep.pure _)
    apply InStep.ite
    . apply InStep.bind
      . apply inStep_hub_modify
        exact fun e f h => ⟨h.rootdev, congrArg (· &&& _) h.portreset, h.hub⟩
      . intro _
        apply InStep.pure
    . apply InStep.pure
  apply InStep.bind (inStep_hub_readl _)
  intro reg
  apply InStep.bind (hvalue reg)
  rintro (_ | reg)
  . apply InStep.pure
  . apply InStep.bind (inStep_hub_writel _ _)
    intro _
    apply InStep.bind (inStep_hub_readl _)
    intro _
    apply InStep.pure

theorem inStep_rootRequest (req : DevRequest) : InStep feedWorld HubTwins (rootRequest req) := by
  apply InStep.ite (InStep.pure _)
  apply InStep.ite
  . apply InStep.ite
    . apply InStep.gets fun e : Ehci => some ((List.ofFn e.hub).take 8)
      intro c c' h
      rw [h.drivers.hub]
    . apply InStep.pure
  apply InStep.ite
  . apply InStep.bind
    . apply inStep_hub_modify
      exact fun e f h => ⟨rfl, h.portreset, h.hub⟩
    . intro _
      apply InStep.pure
  apply InStep.ite (InStep.pure _)
  apply InStep.ite (InStep.pure _)
  apply InStep.ite
  . apply InStep.bind (inStep_hub_readl _)
    intro reg
    apply InStep.gets fun e : Ehci => some (bytes16 (rootPortStatus reg) ++
      bytes16 (rootPortChange reg e.portreset req.index))
    intro c c' h
    rw [h.drivers.portreset]
  apply InStep.ite
  . apply InStep.bind (inStep_rootSetFeature req)
    intro known
    apply InStep.ite (InStep.pure _)
    apply InStep.pure
  apply InStep.ite
  . apply InStep.bind (inStep_rootClearFeature req)
    intro known
    apply InStep.ite (InStep.pure _)
    apply InStep.pure
  apply InStep.pure

def rootAnswers (calls : List (UsbDevice × Nat × DevRequest)) : EhciM (List (Int × UsbDevice × List Byte)) :=
  match calls with
  | [] => return []
  | (dev, length, setup) :: calls => do
    let answer ← ehciSubmitRoot dev length setup
    let answers ← rootAnswers calls
    return answer :: answers

theorem inStep_rootAnswers (calls : List (UsbDevice × Nat × DevRequest))
    : InStep feedWorld HubTwins (rootAnswers calls) := by
  induction calls with
  | nil => apply InStep.pure
  | cons call calls ih =>
    obtain ⟨dev, length, setup⟩ := call
    unfold rootAnswers
    apply InStep.bind
    . unfold ehciSubmitRoot
      apply InStep.ite (InStep.pure _)
      apply InStep.bind (inStep_rootRequest setup)
      rintro (_ | src) <;> apply InStep.pure
    . intro answer
      apply InStep.bind ih
      intro answers
      apply InStep.pure

/-!
### Two histories
-/

/-- A successful `ehci_init` and `usb_init`. -/
structure Reinit (place : Placement) (addr : BitVec 32) (u : Usb) (e : Ehci) (s : Feed) (v : Usb)
    (f : Ehci) (t : Feed) : Prop where
  ehci : (ehciInit addr).Run feedWorld e s (.ok (0, f)) t
  usb : usbInit.Run (hcdWorld feedWorld place) u (f, t) (.ok (0, v)) (f, t)

/-- The state of the driver is the same. -/
structure SameState (v v' : Usb) (f f' : Ehci) (t t' : Feed) : Prop where
  rootdev : f.rootdev = f'.rootdev
  portreset : f.portreset = f'.portreset
  hub : f.hub = f'.hub
  qhList : t.dma.qhList = t'.dma.qhList
  usbDev : v.usbDev = v'.usbDev
  gDevIndex : v.gDevIndex = v'.gDevIndex
  asynchAllowed : v.asynchAllowed = v'.asynchAllowed
  gEhciCounter : f.gEhciCounter = f'.gEhciCounter

/-- The root hub gives the same answers as long as the registers are read as the same. -/
def SameAnswers (f f' : Ehci) (t t' : Feed) : Prop :=
  ∀ calls, Rel feedWorld (rootAnswers calls) (rootAnswers calls) (fun rs _ rs' _ => rs = rs') (f, t) (f', t')

/-- The bits of `wHubCharacteristics` that `ehci_init` sets. -/
def hubBits (reg : BitVec 32) : Byte :=
  (if hcsIndicator reg ≠ 0 then 0x80 else 0) ||| (if hcsPpc reg ≠ 0 then 0x01 else 0)

/-- Two hub descriptors only differ where `ehci_init` overwrites them. -/
structure SameBut (reg : BitVec 32) (h h' : Bytes 11) : Prop where
  bits : h 3 ||| hubBits reg = h' 3 ||| hubBits reg
  other : ∀ j, j ≠ 2 → j ≠ 3 → h j = h' j

theorem hubAfterInit_apply (h : Bytes 11) (reg : BitVec 32) (j : Fin 11)
    : hubAfterInit h reg j =
        if j = 2 then (hcsNPorts reg).setWidth 8 else if j = 3 then h 3 ||| hubBits reg else h j := by
  have h2 : (j : Nat) = 2 ↔ j = 2 := (Fin.ext_iff (b := (2 : Fin 11))).symm
  have h3 : (j : Nat) = 3 ↔ j = 3 := (Fin.ext_iff (b := (3 : Fin 11))).symm
  unfold hubAfterInit hubBits
  by_cases hj : j = 3
  . subst hj
    split <;> split <;> simp [Bytes.write_singleton, BitVec.or_assoc]
  . split <;> split <;> simp [Bytes.write_singleton, h2, h3, hj]

theorem hubAfterInit_eq_iff {h h' : Bytes 11} {reg : BitVec 32}
    : hubAfterInit h reg = hubAfterInit h' reg ↔ SameBut reg h h' := by
  constructor
  . intro heq
    constructor
    . have h3 := congrFun heq 3
      rw [hubAfterInit_apply, hubAfterInit_apply] at h3
      exact h3
    . intro j h2 h3
      have hj := congrFun heq j
      rwa [hubAfterInit_apply, hubAfterInit_apply, if_neg h2, if_neg h3, if_neg h2, if_neg h3] at hj
  . rintro ⟨hbits, hother⟩
    funext j
    rw [hubAfterInit_apply, hubAfterInit_apply]
    split
    . rfl
    . next h2 =>
      split
      . exact hbits
      . next h3 => exact hother j h2 h3

theorem usb_eq_of_init {σ : Type} {w : HcdWorld σ} {u v : Usb} {s t : σ} {ret : Int}
    (h : usbInit.Run w u s (.ok (ret, v)) t)
    : v = { u with
        usbDev := fun _ => { UsbDevice.zero with devnum := -1 }
        running := 0
        gDevIndex := 0
        asynchAllowed := 1
        usbStarted := 1 } := by
  cases h
  rfl

section

variable {place : Placement} {addr : BitVec 32} {u u' v v' : Usb} {e e' f f' : Ehci} {s s' t t' : Feed}

/--
Two drivers that read the same while they are initialised again are in the same state if and only if they
were in the same reset state before, and their hub descriptors only differ where they are set. The root hub
gives the same answers then.
-/
theorem reinit_forgets_iff (hreads : s.reads = s'.reads) (h : Reinit place addr u e s v f t)
    (h' : Reinit place addr u' e' s' v' f' t')
    : ∃ reg, s.reads.lookup .hcsparams = some reg ∧
        (SameState v v' f f' t t' ↔ e.portreset = e'.portreset ∧ SameBut reg e.hub e'.hub) ∧
        (SameState v v' f f' t t' → SameAnswers f f' t t') := by
  have hinit := (rel_ehciInit (e, s) (e', s') hreads).ends h.ehci h'.ehci rfl
  obtain ⟨hrest, hroot, hqh, reg, hreg, hcount⟩ := hinit
  refine ⟨reg, hreg, ?_, ?_⟩
  . constructor
    . intro hsame
      constructor
      . rw [← hcount.portreset, ← hcount.portreset']
        exact hsame.portreset
      . rw [← hubAfterInit_eq_iff, ← hcount.hub, ← hcount.hub']
        exact hsame.hub
    . rintro ⟨hport, hhub⟩
      have hv := usb_eq_of_init h.usb
      have hv' := usb_eq_of_init h'.usb
      subst hv hv'
      refine ⟨hroot.1.trans hroot.2.symm, ?_, ?_, hqh.1.trans hqh.2.symm, rfl, rfl, rfl, hcount.counter⟩
      . exact hcount.portreset.trans (hport.trans hcount.portreset'.symm)
      . exact hcount.hub.trans ((hubAfterInit_eq_iff.mpr hhub).trans hcount.hub'.symm)
  . intro hsame calls
    have htwins : HubTwins (f, t) (f', t') :=
      ⟨hrest, trivial, trivial, hsame.rootdev, hsame.portreset, hsame.hub⟩
    exact ((inStep_rootAnswers calls).spec _ _ htwins).mono fun _ _ _ _ hq => hq.1

end

/-!
### A reset that fails
-/

/-- The registers are read from the list, the structures stay as they are. -/
def feedHandler (o : EhciOp) (s : Feed) : Except Stop (EhciAns o) × Feed :=
  match o with
  | .readl r =>
    match s.reads with
    | (r', x) :: reads => if r' = r then (.ok x, { s with reads }) else (.error .hang, s)
    | [] => (.error .hang, s)
  | .writel _ _ => (.ok (), s)
  | .load => (.ok s.dma, s)
  | .store f => (.ok (), { s with dma := f s.dma })

theorem feedHandler_serves : Prog.Serves feedHandler feedWorld := by
  intro o s
  cases o with
  | readl r =>
    unfold feedHandler
    dsimp only
    split
    . next r' x reads hreads =>
      split
      . next hr =>
        subst hr
        exact ⟨hreads, rfl⟩
      . next hr =>
        intro y l hf
        rw [hreads] at hf
        exact hr (Prod.mk.inj (List.cons.inj hf).1).1
    . next hreads =>
      intro y l hf
      rw [hreads] at hf
      cases hf
  | writel r v => exact ⟨rfl, rfl⟩
  | load => exact ⟨rfl, rfl⟩
  | store f => exact ⟨s.dma, rfl, rfl⟩

/-- What `ehci_init` reads. -/
def initReads : List (Reg × BitVec 32) :=
  [(.usbsts, stsHalt), (.usbcmd, 0), (.usbcmd, 0), (.hcsparams, 2), (.usbcmd, 0), (.configflag, 0),
    (.usbcmd, 0), (.capbase, 0)]

def resetReads : List (Reg × BitVec 32) :=
  [(.portsc 0, ehciPsCs), (.portsc 0, 0), (.usbcmd, 0), (.portsc 0, 0)]

def findRoothub : UsbM Unit := do
  let _ ← usbInit
  let _ ← usbScanRoothub

def resetFirstPort : UsbM Unit := do
  findRoothub
  let _ ← hubPortReset 0 0

/-- The first round: `ehci_init` on a fresh driver, and `m`. -/
structure FirstRound (m : UsbM Unit) (reads : List (Reg × BitVec 32)) (u : Usb) (e : Ehci) (s : Feed)
    : Prop where
  runs : ∃ f t, (ehciInit 0).Run feedWorld .boot ⟨initReads ++ reads, .boot⟩ (.ok (0, f)) t ∧
    m.Run (hcdWorld feedWorld .zero) bootUsb (f, t) (.ok ((), u)) (e, s)

def firstRound (m : UsbM Unit) (reads : List (Reg × BitVec 32)) : Option (Usb × Ehci × Feed) :=
  match (ehciInit 0).exec feedHandler .boot ⟨initReads ++ reads, .boot⟩ with
  | (.ok (ret, f), t) =>
    if ret = 0 then
      match m.exec (hcdHandler feedHandler .zero fun _ => []) bootUsb (f, t) with
      | (.ok (_, u), (e, s)) => some (u, e, s)
      | (.error _, _) => none
    else
      none
  | (.error _, _) => none

theorem firstRound_runs {m : UsbM Unit} {reads : List (Reg × BitVec 32)} {u : Usb} {e : Ehci} {s : Feed}
    (h : firstRound m reads = some (u, e, s))
    : FirstRound m reads u e s := by
  have hinit := run_exec feedHandler_serves (ehciInit 0) .boot ⟨initReads ++ reads, .boot⟩
  unfold firstRound at h
  generalize (ehciInit 0).exec feedHandler .boot ⟨initReads ++ reads, .boot⟩ = start at hinit h
  match start with
  | (.error x, t) => cases h
  | (.ok (ret, f), t) =>
    have hround := run_exec (hcdHandler_serves feedHandler_serves .zero fun _ => []) m bootUsb (f, t)
    dsimp only at h
    generalize m.exec (hcdHandler feedHandler .zero fun _ => []) bootUsb (f, t) = round at hround h
    split at h
    . next hret =>
      subst hret
      match round with
      | (.error x, t') => cases h
      | (.ok ((), u'), (e', s')) =>
        cases h
        exact ⟨f, t, hinit, hround⟩
    . cases h

/-- `ehci_init` succeeds when the world answers as `feedHandler` does. -/
def initSucceeds (e : Ehci) (s : Feed) : Bool :=
  match (ehciInit 0).exec feedHandler e s with
  | (.ok (ret, _), _) => ret = 0
  | (.error _, _) => false

theorem exists_reinit {u : Usb} {e : Ehci} {s : Feed} (h : initSucceeds e s = true)
    : ∃ v f t, Reinit .zero 0 u e s v f t := by
  have hinit := run_exec feedHandler_serves (ehciInit 0) e s
  unfold initSucceeds at h
  generalize (ehciInit 0).exec feedHandler e s = again at hinit h
  match again with
  | (.error x, t) => cases h
  | (.ok (ret, f), t) =>
    have hret : ret = 0 := of_decide_eq_true h
    subst hret
    exact ⟨_, f, t, hinit, .ret _ _⟩

theorem exists_reinit_of_check (m : UsbM Unit) (reads : List (Reg × BitVec 32)) (p : Ehci → Feed → Bool)
    (hp : (firstRound m reads).any (fun (_, e, s) => initSucceeds e s && p e s) = true)
    : ∃ u e s v f t, FirstRound m reads u e s ∧ Reinit .zero 0 u e s v f t ∧ p e s = true := by
  obtain ⟨⟨u, e, s⟩, hround, hcheck⟩ := Option.any_eq_true _ _ |>.mp hp
  obtain ⟨hinit, hp⟩ := Bool.and_eq_true_iff.mp hcheck
  obtain ⟨v, f, t, hagain⟩ := exists_reinit (u := u) hinit
  exact ⟨u, e, s, v, f, t, firstRound_runs hround, hagain, hp⟩

/-- After a reset that failed the driver is not in the state it boots into. -/
theorem reset_not_forgotten
    : ∃ u e s v f t u' e' s' v' f' t',
        FirstRound resetFirstPort (resetReads ++ initReads) u e s ∧ Reinit .zero 0 u e s v f t ∧
        FirstRound findRoothub initReads u' e' s' ∧ Reinit .zero 0 u' e' s' v' f' t' ∧
        s.reads = initReads ∧ s'.reads = initReads ∧ ¬SameState v v' f f' t t' := by
  obtain ⟨u, e, s, v, f, t, hround, hinit, hp⟩ := exists_reinit_of_check resetFirstPort
    (resetReads ++ initReads) (fun e s => e.portreset = 2 ∧ s.reads = initReads) (by decide +kernel)
  obtain ⟨u', e', s', v', f', t', hround', hinit', hp'⟩ := exists_reinit_of_check findRoothub
    initReads (fun e s => e.portreset = 0 ∧ s.reads = initReads) (by decide +kernel)
  obtain ⟨hport, hreads⟩ := of_decide_eq_true hp
  obtain ⟨hport', hreads'⟩ := of_decide_eq_true hp'
  refine ⟨u, e, s, v, f, t, u', e', s', v', f', t', hround, hinit, hround', hinit', hreads, hreads', ?_⟩
  intro hsame
  have hreads : s.reads = s'.reads := hreads.trans hreads'.symm
  have hinit := (rel_ehciInit (e, s) (e', s') hreads).ends hinit.ehci hinit'.ehci rfl
  obtain ⟨-, -, -, reg, -, hcount⟩ := hinit
  have h : e.portreset = e'.portreset := hcount.portreset.symm.trans (hsame.portreset.trans hcount.portreset')
  rw [hport, hport'] at h
  exact absurd h (by decide)

theorem reinit_forgets_iff_unreset
    : ∃ u e s v f t v' f' t', FirstRound findRoothub initReads u e s ∧ Reinit .zero 0 u e s v f t ∧
        Reinit .zero 0 bootUsb .boot ⟨initReads, .boot⟩ v' f' t' ∧ SameState v v' f f' t t' := by
  obtain ⟨u, e, s, v, f, t, hround, hinit, hp⟩ := exists_reinit_of_check findRoothub initReads
    (fun e s => e.portreset = 0 ∧ s.reads = initReads ∧ ∀ j, e.hub j = Ehci.boot.hub j)
    (by decide +kernel)
  obtain ⟨v', f', t', hinit'⟩ := exists_reinit (u := bootUsb) (e := .boot) (s := ⟨initReads, .boot⟩)
    (by decide +kernel)
  obtain ⟨hport, hreads, hhub⟩ := of_decide_eq_true hp
  obtain ⟨reg, -, hiff, -⟩ := reinit_forgets_iff hreads hinit hinit'
  refine ⟨u, e, s, v, f, t, v', f', t', hround, hinit, hinit', hiff.mpr ⟨hport, ?_⟩⟩
  exact ⟨by rw [hhub 3], fun j _ _ => hhub j⟩
