import PureUsb.Prog.Follow
import PureUsb.Usb.Configured
import PureUsb.Usb.Received
import Mathlib.Data.List.Chain

/-!
This module contains the influence of uninitialised buffers on the stack on the enumeration of a device:
there is none, as long as the device sends what is looked at.
-/

open Stateful

/-!
### Devices that always behave in the same way
-/

/--
What the devices answer to a transfer, and what is in the other arrays on the stack. A transfer with the
count `n` writes `n` bytes.
-/
structure Behaviour (σ : Type) where
  answer : Transfer → σ → Submitted × σ
  stack : (n : Nat) → σ → Bytes n
  allowed : ∀ x s, (answer x s).1.Allowed x
  length_data : ∀ x s, 0 ≤ (answer x s).1.result → ((answer x s).1.data.length : Int) = (answer x s).1.result

/--
The devices of `B`, with anything in `tmpbuf` and `mybuf`. Runs are only followed as long as the configurations
that are parsed fit.
-/
def Behaviour.world {σ : Type} (B : Behaviour σ) : HcdWorld σ := fun o s r t =>
  match o, r with
  | .submit x, .ok y => (y, t) = B.answer x s
  | .stack n, .ok b => t = s ∧ (n ≠ usbBufsiz → b = B.stack n s)
  | .parsing _ buffer, .ok _ => t = s ∧ ConfigFits buffer
  | .copyingHub _ buffer, .ok _ => t = s ∧ HubFits buffer
  | _, .error _ => False

def DevRequest.string? (setup : DevRequest) : Option Byte :=
  if setup.requesttype = usbDirIn ∧ setup.request = usbReqGetDescriptor ∧
      (setup.value >>> 8).setWidth 8 = usbDtString then
    some (setup.value.setWidth 8)
  else
    none

theorem DevRequest.string?_descriptor (index : Byte) (langid length : BitVec 16)
    : string? ⟨usbDirIn, usbReqGetDescriptor, (usbDtString.setWidth 16 <<< 8) + index.setWidth 16, langid,
        length⟩ = some index := by
  have hlow : ((usbDtString.setWidth 16 <<< 8) + index.setWidth 16 : BitVec 16).setWidth 8 = index := by
    apply BitVec.eq_of_toNat_eq
    simp only [BitVec.toNat_setWidth, BitVec.toNat_add, BitVec.toNat_shiftLeft, Nat.shiftLeft_eq]
    omega
  unfold string?
  rw [if_pos ⟨rfl, rfl, high_descriptorValue usbDtString index⟩]
  exact congrArg _ hlow

abbrev Answered := Transfer × Submitted

namespace Answered

def string? (e : Answered) : Option Byte := e.1.setup.bind DevRequest.string?

def inTmpbuf (e : Answered) : Nat := if e.1.buffer = .tmpbuf then e.2.data.length else 0

end Answered

def received (l : List Answered) : Nat := (l.map Answered.inTmpbuf).foldl max 0

theorem received_append (l : List Answered) (e : Answered)
    : received (l ++ [e]) = max (received l) e.inTmpbuf := by
  simp [received]

section

variable {σ : Type}

def Event.answered? (e : HcdEvent σ) : Option Answered :=
  match e with
  | ⟨_, .submit x, .ok y⟩ => some (x, y)
  | _ => none

def transfers (l : List (HcdEvent σ)) : List Answered := l.filterMap Event.answered?

/-- When another string is requested after string descriptor 0, this had room for a language. -/
def SendsLangid (e e' : Answered) : Prop :=
  e.string? = some 0 → e'.string? ≠ none → e'.string? ≠ some 0 → 4 ≤ e.2.result

instance (e e' : Answered) : Decidable (SendsLangid e e') :=
  inferInstanceAs (Decidable (_ → _ → _ → _))

/--
Whatever `usb_scan_device` looks at was received: the first 8 bytes of the device descriptor, all parts of
the configuration, and the language of the strings.
-/
structure Received (l : List (HcdEvent σ)) : Prop where
  first : ∀ e ∈ (transfers l).head?, 0 ≤ e.2.result → 8 ≤ e.2.data.length
  parts : ∀ {l₁ l₂ s dev buffer r}, l = l₁ ++ ⟨s, .parsing dev buffer, r⟩ :: l₂ →
    PartsReceived buffer (received (transfers l₁))
  langid : (transfers l).IsChain SendsLangid

theorem transfers_append (l l' : List (HcdEvent σ)) : transfers (l ++ l') = transfers l ++ transfers l' :=
  List.filterMap_append

theorem Received.of_append {l l' : List (HcdEvent σ)} (h : Received (l ++ l')) : Received l := by
  constructor
  . intro e he
    apply h.first
    rw [transfers_append, List.head?_append, Option.mem_def.mp he]
    rfl
  . intro l₁ l₂ s dev buffer r hl
    have hl' : l ++ l' = l₁ ++ ⟨s, .parsing dev buffer, r⟩ :: (l₂ ++ l') := by
      rw [hl, List.append_assoc]
      rfl
    exact h.parts hl'
  . have hchain := h.langid
    rw [transfers_append] at hchain
    exact hchain.left_of_append

variable {B : Behaviour σ}

theorem perishable_received : Perishable B.world.traced fun s => Received s.2 := by
  rintro o s x t ⟨-, hl⟩ h
  rw [hl] at h
  exact h.of_append

/-!
### Requests
-/

/-- Two runs came to the same. -/
structure Same (c c' : Usb × σ × List (HcdEvent σ)) : Prop where
  usb : c'.1 = c.1
  state : c'.2.1 = c.2.1
  trace : transfers c'.2.2 = transfers c.2.2

/-- And so they satisfy `I`. -/
structure Agree (I : Usb → List Answered → Prop) (c c' : Usb × σ × List (HcdEvent σ)) : Prop
    extends Same c c' where
  inv : I c.1 (transfers c.2.2)

/-- `I` is kept by the transfers that do not fill `tmpbuf`. -/
def Steady (I : Usb → List Answered → Prop) : Prop :=
  ∀ {u l p pipe data setup y}, I u l → data ≠ .tmpbuf → y.Allowed (u.request p pipe data setup) →
    I (u.answered p setup y) (l ++ [(u.request p pipe data setup, y)])

/-- From `c` the request was answered with `y`. -/
structure Exchanged (p : Fin 32) (pipe : BitVec 32) (data : Buffer) (setup : DevRequest) (y : Submitted)
    (c d : Usb × σ × List (HcdEvent σ)) : Prop where
  allowed : y.Allowed (c.1.request p pipe data setup)
  length_data : 0 ≤ y.result → (y.data.length : Int) = y.result
  usb : d.1 = c.1.answered p setup y
  trace : transfers d.2.2 = transfers c.2.2 ++ [(c.1.request p pipe data setup, y)]

variable {I : Usb → List Answered → Prop} {c c' : Usb × σ × List (HcdEvent σ)}

theorem wp_usbControlMsg_behaviour {p : Fin 32} {pipe : BitVec 32} {request requesttype : Byte}
    {value index size : BitVec 16} {data : Buffer} {timeout : Nat} {setup : DevRequest} {x : Transfer}
    {E : Stop → σ × List (HcdEvent σ) → Prop}
    (hsetup : setup = ⟨requesttype, request, value, index, size⟩)
    (hx : x = c.1.request p pipe data setup) (htimeout : timeout ≠ 0)
    : wp B.world.traced (usbControlMsg p pipe request requesttype value index data size timeout)
        (fun r v t => r = ((B.answer x c.2.1).1.result, (B.answer x c.2.1).1.data) ∧
          v = c.1.answered p setup (B.answer x c.2.1).1 ∧ t.1 = (B.answer x c.2.1).2 ∧
          transfers t.2 = transfers c.2.2 ++ [(x, (B.answer x c.2.1).1)])
        E c.1 c.2 := by
  subst hx
  apply wp_usbControlMsg_event _ hsetup htimeout
  . intro y t hy
    have hy : (y, t) = B.answer _ _ := hy
    rw [← hy, transfers_append]
    exact ⟨rfl, rfl, rfl, rfl⟩
  . exact fun _ _ he => absurd he id

theorem follows_usbControlMsg (h : Same c c') {p : Fin 32} {pipe : BitVec 32} {request requesttype : Byte}
    {value index size : BitVec 16} {data : Buffer} {timeout : Nat} (htimeout : timeout ≠ 0)
    : Follows B.world.traced (fun s => Received s.2)
        (usbControlMsg p pipe request requesttype value index data size timeout)
        (usbControlMsg p pipe request requesttype value index data size timeout)
        (fun r d r' d' => r' = r ∧ Same d d' ∧ ∃ y, r = (y.result, y.data) ∧
          Exchanged p pipe data ⟨requesttype, request, value, index, size⟩ y c d) c c' := by
  refine .of_wp (wp_usbControlMsg_behaviour (c := c) rfl rfl htimeout)
    (wp_usbControlMsg_behaviour (c := c') rfl rfl htimeout) ?_
  rintro r d r' d' ⟨rfl, husb, hstate, htrace⟩ - ⟨rfl, husb', hstate', htrace'⟩
  rw [h.usb, h.state] at *
  rw [h.trace] at htrace'
  refine ⟨rfl, ⟨?_, ?_, ?_⟩, _, rfl, B.allowed _ _, B.length_data _ _, husb, htrace⟩
  . rw [husb, husb']
  . rw [hstate, hstate']
  . rw [htrace, htrace']

theorem repeats_usbControlMsg (hI : Steady I) {p : Fin 32} {pipe : BitVec 32} {request requesttype : Byte}
    {value index size : BitVec 16} {data : Buffer} {timeout : Nat} (hdata : data ≠ .tmpbuf)
    (htimeout : timeout ≠ 0)
    : Repeats B.world.traced (fun s => Received s.2) (Agree I)
        (usbControlMsg p pipe request requesttype value index data size timeout) := by
  constructor
  intro c c' h
  refine (follows_usbControlMsg h.toSame htimeout).mono ?_
  rintro r d r' d' ⟨rfl, hsame, y, -, hy⟩
  refine ⟨rfl, hsame, ?_⟩
  rw [hy.usb, hy.trace]
  exact hI h.inv hdata hy.allowed

theorem repeats_stack {n : Nat} (hn : n ≠ usbBufsiz)
    : Repeats B.world.traced (fun s => Received s.2) (Agree I) (Stateful.ask (HcdOp.stack n)) := by
  constructor
  rintro ⟨u, s, l⟩ ⟨u', s', l'⟩ h
  have hstate : s' = s := h.state
  subst hstate
  refine .ask ?_
  rintro b ⟨t, lt⟩ r ⟨t', lt'⟩ ⟨⟨rfl, hb⟩, hl⟩ - ⟨hr, hl'⟩
  have hl : lt = l ++ [_] := hl
  have hl' : lt' = l' ++ [_] := hl'
  match r with
  | .ok b' =>
    obtain ⟨rfl, hb'⟩ := hr
    refine ⟨b', rfl, (hb' hn).trans (hb hn).symm, ⟨h.usb, rfl, ?_⟩, ?_⟩
    . rw [hl, hl', transfers_append, transfers_append, h.trace]
      rfl
    . rw [hl, transfers_append]
      exact (List.append_nil (transfers l)).symm ▸ h.inv
  | .error e => exact absurd hr id

theorem repeats_getDev (k : Fin 32)
    : Repeats B.world.traced (fun s => Received s.2) (Agree I) (getDev k) :=
  .get_bind (fun h => h.usb) fun _ => .pure _

theorem repeats_deref (p : DevPtr)
    : Repeats B.world.traced (fun s => Received s.2) (Agree I) (deref p) := by
  cases p with
  | dev k => exact .pure k
  | _ => exact .stop _

/-!
### Ports
-/

theorem repeats_usbSetPortFeature (hI : Steady I) (p : Fin 32) (port : Int) (feature : BitVec 16)
    : Repeats B.world.traced (fun s => Received s.2) (Agree I) (usbSetPortFeature p port feature) := by
  unfold usbSetPortFeature
  refine .bind perishable_received (repeats_getDev p) fun d => ?_
  exact .bind perishable_received (repeats_usbControlMsg hI nofun (by decide)) fun _ => .pure _

theorem repeats_usbClearPortFeature (hI : Steady I) (p : Fin 32) (port : Int) (feature : BitVec 16)
    : Repeats B.world.traced (fun s => Received s.2) (Agree I) (usbClearPortFeature p port feature) := by
  unfold usbClearPortFeature
  refine .bind perishable_received (repeats_getDev p) fun d => ?_
  exact .bind perishable_received (repeats_usbControlMsg hI nofun (by decide)) fun _ => .pure _

theorem repeats_usbGetPortStatus (hI : Steady I) (p : Fin 32) (port : Int)
    : Repeats B.world.traced (fun s => Received s.2) (Agree I) (usbGetPortStatus p port) := by
  unfold usbGetPortStatus
  refine .bind perishable_received (repeats_getDev p) fun d => ?_
  exact repeats_usbControlMsg hI nofun (by decide)

theorem repeats_hubPortResetTries (hI : Steady I) (p : Fin 32) (port : Int) (portsts : Bytes 4) (tries : Nat)
    : Repeats B.world.traced (fun s => Received s.2) (Agree I) (hubPortResetTries p port portsts tries) := by
  induction tries generalizing portsts with
  | zero => exact .pure none
  | succ tries ih =>
    unfold hubPortResetTries
    refine .bind perishable_received (repeats_usbSetPortFeature hI p _ _) fun _ => ?_
    refine .bind perishable_received (repeats_usbGetPortStatus hI p _) fun r => ?_
    exact .ite (.pure none) (.ite (.pure none) (.ite (.pure _) (ih _)))

theorem repeats_hubPortReset (hI : Steady I) (p : Fin 32) (port : Int)
    : Repeats B.world.traced (fun s => Received s.2) (Agree I) (hubPortReset p port) := by
  unfold hubPortReset
  refine .bind perishable_received (repeats_stack (by decide)) fun portsts => ?_
  refine .bind perishable_received (repeats_hubPortResetTries hI p port portsts maxTries) fun r => ?_
  cases r with
  | none => exact .pure _
  | some status =>
    exact .bind perishable_received (repeats_usbClearPortFeature hI p _ _) fun _ => .pure _

theorem repeats_resetParentPort (hI : Steady I) (dev : Fin 32)
    : Repeats B.world.traced (fun s => Received s.2) (Agree I) (resetParentPort dev) := by
  unfold resetParentPort
  refine .bind perishable_received (repeats_getDev dev) fun d => ?_
  refine .ite (.pure 0) (.bind perishable_received (repeats_deref _) fun p => ?_)
  refine .bind perishable_received (repeats_getDev p) fun parent => ?_
  refine .bind perishable_received (.ofExcept _) fun port => ?_
  cases port with
  | none => exact .pure _
  | some port =>
    refine .bind perishable_received (repeats_hubPortReset hI p port) fun r => ?_
    exact .ite (.pure _) (.pure _)

/-!
### The device
-/

theorem repeats_modifyDev {k : Fin 32} {f : UsbDevice → UsbDevice}
    (h : ∀ u l, I u l → I (u.setDev k (f (u.usbDev k))) l)
    : Repeats B.world.traced (fun s => Received s.2) (Agree I) (modifyDev k f) := by
  constructor
  intro c c' hc
  refine .modify ⟨rfl, ⟨?_, hc.state, hc.trace⟩, h _ _ hc.inv⟩
  dsimp only
  rw [hc.usb]

theorem repeats_usbSetAddress (hI : Steady I) (dev : Fin 32)
    : Repeats B.world.traced (fun s => Received s.2) (Agree I) (usbSetAddress dev) := by
  unfold usbSetAddress
  refine .bind perishable_received (repeats_getDev dev) fun d => ?_
  exact .bind perishable_received (repeats_usbControlMsg hI nofun (by decide)) fun _ => .pure _

theorem repeats_usbSetMaxpacket (dev : Fin 32)
    : Repeats B.world.traced (fun s => Received s.2) (Agree fun _ _ => True) (usbSetMaxpacket dev) := by
  unfold usbSetMaxpacket
  refine .get_bind (fun h => h.usb) fun u => ?_
  refine .bind perishable_received (.ofExcept _) fun eps => ?_
  exact .bind perishable_received (repeats_modifyDev fun _ _ h => h) fun _ => .pure _

theorem repeats_usbSetConfiguration (dev : Fin 32) (configuration : Byte)
    : Repeats B.world.traced (fun s => Received s.2) (Agree fun _ _ => True)
        (usbSetConfiguration dev configuration) := by
  unfold usbSetConfiguration
  refine .bind perishable_received (repeats_getDev dev) fun d => ?_
  refine .bind perishable_received (repeats_usbControlMsg (fun _ _ _ => trivial) nofun (by decide)) fun r => ?_
  refine .ite (.pure _) (.ite (.pure _) ?_)
  exact .bind perishable_received (repeats_modifyDev fun _ _ h => h) fun _ => .pure _

/-- `n` bytes of `tmpbuf` were received, and no configuration is stored yet. -/
structure Reading (dev : Fin 32) (n : Nat) (u : Usb) (l : List Answered) : Prop where
  config : (u.usbDev dev).config = .zero
  received : received l = n

theorem Reading.setDev {dev : Fin 32} {n : Nat} {u : Usb} {l : List Answered} (h : Reading dev n u l)
    {d : UsbDevice} (hd : d.config = .zero)
    : Reading dev n (u.setDev dev d) l := by
  refine ⟨?_, h.received⟩
  rw [Usb.setDev_same]
  exact hd

theorem config_answered {u : Usb} {p dev : Fin 32} {pipe : BitVec 32} {data : Buffer} {setup : DevRequest}
    {y : Submitted} (hy : y.Allowed (u.request p pipe data setup))
    : ((u.answered p setup y).usbDev dev).config = (u.usbDev dev).config := by
  by_cases hp : dev = p
  . subst hp
    exact (Usb.afterTransfer_answered hy).sameLinks.config
  . rw [Usb.answered_ne hp]

theorem steady_reading {dev : Fin 32} {n : Nat} : Steady (Reading dev n) := by
  intro u l p pipe data setup y h hdata hy
  refine ⟨(config_answered hy).trans h.config, ?_⟩
  have hnone : Answered.inTmpbuf (u.request p pipe data setup, y) = 0 := if_neg hdata
  rw [received_append, hnone, h.received]
  exact Nat.max_eq_left (Nat.zero_le n)

theorem follows_getDev {α : Type} {k : Fin 32} {f f' : UsbDevice → UsbM α}
    {Q : α → Usb × σ × List (HcdEvent σ) → α → Usb × σ × List (HcdEvent σ) → Prop} (h : Same c c')
    (hf : Follows B.world.traced (fun s => Received s.2) (f (c.1.usbDev k)) (f' (c.1.usbDev k)) Q c c')
    : Follows B.world.traced (fun s => Received s.2) (getDev k >>= f) (getDev k >>= f') Q c c' := by
  show Follows _ _ (get >>= fun u => f (u.usbDev k)) (get >>= fun u => f' (u.usbDev k)) Q c c'
  apply Follows.get_bind
  rw [h.usb]
  exact hf

theorem follows_usbGetDescriptor {dev : Fin 32} {n : Nat} (h : Agree (Reading dev n) c c')
    (type index : Byte) (size : Nat)
    : Follows B.world.traced (fun s => Received s.2) (usbGetDescriptor dev type index .tmpbuf size)
        (usbGetDescriptor dev type index .tmpbuf size)
        (fun r d r' d' => r' = r ∧ Agree (Reading dev (max n r.2.length)) d d' ∧
          ∃ x y, transfers d.2.2 = transfers c.2.2 ++ [(x, y)] ∧ r = (y.result, y.data) ∧
            (0 ≤ y.result → (y.data.length : Int) = y.result))
        c c' := by
  unfold usbGetDescriptor
  apply follows_getDev h.toSame
  refine (follows_usbControlMsg h.toSame (by decide)).mono ?_
  rintro r d r' d' ⟨rfl, hsame, y, rfl, hy⟩
  refine ⟨rfl, ⟨hsame, ?_, ?_⟩, _, y, hy.trace, rfl, hy.length_data⟩
  . rw [hy.usb, config_answered hy.allowed, h.inv.config]
  . rw [hy.trace, received_append, h.inv.received]
    rfl

theorem follows_scanDefault {dev : Fin 32} (h : Agree (Reading dev 0) c c') (hc : transfers c.2.2 = [])
    (tmpbuf tmpbuf' : Bytes 512)
    : Follows B.world.traced (fun s => Received s.2) (scanDefault dev tmpbuf) (scanDefault dev tmpbuf')
        (fun r d r' d' => r'.1 = r.1 ∧ Same d d' ∧
          (0 ≤ r.1 → ∃ n, 8 ≤ n ∧ SameBytes n r.2 r'.2 ∧ Agree (Reading dev n) d d'))
        c c' := by
  unfold scanDefault
  refine .bind perishable_received ((repeats_modifyDev (I := fun u l => Reading dev 0 u l ∧ l = []) ?_).spec
    ⟨h.toSame, h.inv, hc⟩) ?_
  . exact fun u l hu => ⟨hu.1.setDev hu.1.config, hu.2⟩
  rintro _ d _ d' ⟨-, hd⟩ -
  refine .bind perishable_received (follows_usbGetDescriptor ⟨hd.toSame, hd.inv.1⟩ _ _ _) ?_
  rintro ⟨err, bytes⟩ e _ e' ⟨rfl, he, x, y, htrace, hr, hlen⟩ hG
  cases hr
  rw [hd.inv.2] at htrace
  have hwritten := (SameBytes.zero tmpbuf tmpbuf').write y.data
  dsimp only
  by_cases hneg : y.result < 0
  . rw [if_pos hneg, if_pos hneg]
    exact .pure ⟨rfl, he.toSame, fun hf => absurd hf (show ¬(0 : Int) ≤ -1 by decide)⟩
  . have height : 8 ≤ y.data.length := hG.first (x, y) (by rw [htrace]; rfl) (by show 0 ≤ y.result; omega)
    rw [if_neg hneg, if_neg hneg, hwritten.apply (i := 7) (show 7 < max 0 y.data.length by omega)]
    generalize y.data = bytes at *
    refine .bind perishable_received ((repeats_modifyDev (I := Reading dev (max 0 bytes.length)) ?_).spec he) ?_
    . exact fun u l hu => hu.setDev hu.config
    rintro _ d _ d' ⟨-, hd⟩ -
    refine .bind perishable_received ((repeats_resetParentPort steady_reading dev).spec hd) ?_
    rintro _ e err e' ⟨rfl, he⟩ -
    by_cases hneg : err < 0
    . rw [if_pos hneg, if_pos hneg]
      exact .pure ⟨rfl, he.toSame, fun hf => absurd hf (show ¬(0 : Int) ≤ -1 by decide)⟩
    . rw [if_neg hneg, if_neg hneg]
      refine .bind perishable_received
        ((repeats_modifyDev (I := Reading dev (max 0 bytes.length)) ?_).spec he) ?_
      . exact fun u l hu => hu.setDev hu.config
      rintro _ d _ d' ⟨-, hd⟩ -
      exact .pure ⟨rfl, hd.toSame, fun _ => ⟨max 0 bytes.length, by omega, hwritten, hd⟩⟩

/-!
### The configuration
-/

theorem follows_usbGetConfigurationNo {dev : Fin 32} {n : Nat} (h : Agree (Reading dev n) c c')
    {tmpbuf tmpbuf' : Bytes 512} (hbytes : SameBytes n tmpbuf tmpbuf')
    : Follows B.world.traced (fun s => Received s.2) (usbGetConfigurationNo dev tmpbuf 0)
        (usbGetConfigurationNo dev tmpbuf' 0)
        (fun r d r' d' => ∃ m, n ≤ m ∧ SameBytes m r.2 r'.2 ∧ Agree (Reading dev m) d d') c c' := by
  unfold usbGetConfigurationNo
  refine .bind perishable_received (follows_usbGetDescriptor h _ _ _) ?_
  rintro ⟨result, bytes⟩ d _ d' ⟨rfl, hd, x, y, -, hr, hlen⟩ -
  cases hr
  have hwritten := hbytes.write y.data
  dsimp only
  by_cases hshort : y.result < 9
  . rw [if_pos hshort, if_pos hshort]
    exact .pure ⟨_, Nat.le_max_left .., hwritten, hd⟩
  . have hnine : 9 ≤ y.data.length := by
      have := hlen (by omega)
      omega
    rw [if_neg hshort, if_neg hshort, hwritten.apply (i := 2) (show 2 < max n y.data.length by omega),
      hwritten.apply (i := 3) (show 3 < max n y.data.length by omega)]
    split
    . exact .pure ⟨_, Nat.le_max_left .., hwritten, hd⟩
    . refine .bind perishable_received (follows_usbGetDescriptor hd _ _ _) ?_
      rintro ⟨result, bytes'⟩ e _ e' ⟨rfl, he, -⟩ -
      exact .pure ⟨_, by omega, hwritten.write bytes', he⟩

theorem follows_usbParseConfig {dev : Fin 32} {n : Nat} (h : Agree (Reading dev n) c c') (hn : 8 ≤ n)
    {buffer buffer' : Bytes 512} (hbytes : SameBytes n buffer buffer')
    : Follows B.world.traced (fun s => Received s.2) (usbParseConfig dev buffer 0)
        (usbParseConfig dev buffer' 0) (fun r d r' d' => r' = r ∧ Agree (fun _ _ => True) d d') c c' := by
  have hask : Follows B.world.traced (fun s => Received s.2) (Stateful.ask (HcdOp.parsing dev buffer))
      (Stateful.ask (HcdOp.parsing dev buffer'))
      (fun _ d _ d' => Agree (Reading dev n) d d' ∧ ConfigFits buffer ∧ PartsReceived buffer n) c c' := by
    obtain ⟨u, s, l⟩ := c
    obtain ⟨u', s', l'⟩ := c'
    refine .ask ?_
    rintro _ ⟨t, lt⟩ r ⟨t', lt'⟩ ⟨⟨ht, hfits⟩, hl⟩ hG ⟨hr, hl'⟩
    have hl : lt = l ++ [_] := hl
    have hl' : lt' = l' ++ [_] := hl'
    have hparts := hG.parts hl
    have hrec : received (transfers l) = n := h.inv.received
    rw [hrec] at hparts
    match r with
    | .ok _ =>
      refine ⟨_, rfl, ⟨⟨h.usb, ?_, ?_⟩, ?_⟩, hfits, hparts⟩
      . exact hr.1.trans (h.state.trans ht.symm)
      . rw [hl, hl', transfers_append, transfers_append, h.trace]
        rfl
      . rw [hl, transfers_append]
        exact (List.append_nil (transfers l)).symm ▸ h.inv
    | .error e => exact absurd hr id
  unfold usbParseConfig
  refine .bind perishable_received hask ?_
  rintro _ d _ d' ⟨hd, hfits, hparts⟩ -
  refine .bind perishable_received ((repeats_modifyDev (I := Reading dev n) ?_).spec hd) ?_
  . exact fun u l hu => hu.setDev hu.config
  rintro _ d _ d' ⟨-, hd⟩ -
  refine .get_bind ?_
  rw [hd.usb]
  refine .bind (R := fun r e r' e' => r' = r ∧ Agree (Reading dev n) e e') perishable_received
    (.ofExcept fun r hr => ?_) ?_
  . obtain ⟨ret, usbDev⟩ := r
    obtain ⟨stored, rfl, hstrict⟩ := parseConfig_table hfits hd.inv.config hr
    have hstrict' := (parseConfig_same hbytes (by omega) hfits hparts).trans hstrict
    rw [← hd.inv.config] at hstrict'
    rw [parseConfig_table_ok hstrict']
    exact .pure ⟨rfl, hd⟩
  . rintro ⟨ret, usbDev⟩ e _ e' ⟨rfl, he⟩ -
    refine .bind (R := fun _ f _ f' => Agree (fun _ _ => True) f f') perishable_received (.set ?_) ?_
    . exact ⟨⟨rfl, he.state, he.trace⟩, trivial⟩
    . exact fun _ f _ f' hf _ => .pure ⟨rfl, hf⟩

/-!
### Strings
-/

/-- What comes of the attempts to read the string `index`, with two buffers for it. -/
structure Fetched (index : Byte) (r : Int × Bytes 512) (d : Usb × σ × List (HcdEvent σ))
    (r' : Int × Bytes 512) (d' : Usb × σ × List (HcdEvent σ)) : Prop where
  ret : r'.1 = r.1
  agree : Agree (fun _ _ => True) d d'
  bytes : 0 < r.1 → ∃ l e, SameBytes r.1.toNat r.2 r'.2 ∧ transfers d.2.2 = l ++ [e] ∧
    e.string? = some index ∧ e.2.result = r.1

theorem Fetched.of_exchanged {dev : Fin 32} {pipe : BitVec 32} {index : Byte} {langid length : BitVec 16}
    {y : Submitted} {d d' : Usb × σ × List (HcdEvent σ)} (h : Same d d')
    (hy : Exchanged dev pipe .mybuf ⟨usbDirIn, usbReqGetDescriptor,
      (usbDtString.setWidth 16 <<< 8) + index.setWidth 16, langid, length⟩ y c d)
    (buf buf' : Bytes 512)
    : Fetched index (y.result, buf.write 0 y.data) d (y.result, buf'.write 0 y.data) d' := by
  refine ⟨rfl, ⟨h, trivial⟩, ?_⟩
  intro hpos
  have hlen := hy.length_data (Int.le_of_lt hpos)
  refine ⟨_, _, ?_, hy.trace, DevRequest.string?_descriptor index langid length, rfl⟩
  apply ((SameBytes.zero buf buf').write y.data).mono
  dsimp only at hpos ⊢
  omega

theorem follows_usbGetStringTries (h : Agree (fun _ _ => True) c c') (dev : Fin 32) (langid : BitVec 16)
    (index : Byte) (size : Nat) (buf buf' : Bytes 512) (tries : Nat)
    : Follows B.world.traced (fun s => Received s.2) (usbGetStringTries dev langid index size buf tries)
        (usbGetStringTries dev langid index size buf' tries) (Fetched index) c c' := by
  induction tries generalizing buf buf' c c' with
  | zero =>
    unfold usbGetStringTries
    apply follows_getDev h.toSame
    refine .bind perishable_received (follows_usbControlMsg h.toSame (by decide)) ?_
    rintro _ d _ d' ⟨rfl, hd, y, rfl, hy⟩ -
    dsimp only
    split <;> exact .pure (.of_exchanged hd hy buf buf')
  | succ tries ih =>
    unfold usbGetStringTries
    apply follows_getDev h.toSame
    refine .bind perishable_received (follows_usbControlMsg h.toSame (by decide)) ?_
    rintro _ d _ d' ⟨rfl, hd, y, rfl, hy⟩ -
    dsimp only
    split
    . exact .pure (.of_exchanged hd hy buf buf')
    . exact ih ⟨hd, trivial⟩ _ _

theorem follows_readString (h : Agree (fun _ _ => True) c c') (dev : Fin 32) (langid : BitVec 16)
    (index : Byte) (buf buf' : Bytes 512)
    : Follows B.world.traced (fun s => Received s.2) (readString dev langid index buf)
        (readString dev langid index buf') (Fetched index) c c' := by
  unfold readString
  refine .bind perishable_received (follows_usbGetStringTries h dev langid index 255 buf buf' 2) ?_
  rintro ⟨rc, buf⟩ d ⟨rc', buf'⟩ d' hd -
  cases hd.ret
  dsimp only
  split
  . refine .bind perishable_received (follows_usbGetStringTries hd.agree dev langid index 2 buf buf' 2) ?_
    rintro ⟨rc, buf⟩ d ⟨rc', buf'⟩ d' hd -
    cases hd.ret
    dsimp only
    split
    . next hrc =>
      obtain ⟨l, e, hbytes, -⟩ := hd.bytes (by rw [hrc]; show (0 : Int) < 2; decide)
      dsimp only at hbytes
      rw [hrc] at hbytes
      rw [hbytes.apply (i := 0) (by decide)]
      exact follows_usbGetStringTries hd.agree dev langid index _ buf buf' 2
    . exact .pure hd
  . exact .pure hd

theorem follows_usbStringSub (h : Agree (fun _ _ => True) c c') (dev : Fin 32) (langid : BitVec 16)
    (index : Byte) (buf buf' : Bytes 512)
    : Follows B.world.traced (fun s => Received s.2) (usbStringSub dev langid index buf)
        (usbStringSub dev langid index buf')
        (fun r d r' d' => r'.1 = r.1 ∧ Agree (fun _ _ => True) d d' ∧
          (0 ≤ r.1 → ∃ l e, transfers d.2.2 = l ++ [e] ∧ e.string? = some index ∧ 2 ≤ e.2.result ∧
            r.1 ≤ e.2.result ∧ r.1 % 2 = 0 ∧ SameBytes e.2.result.toNat r.2 r'.2))
        c c' := by
  unfold usbStringSub
  refine .bind perishable_received (follows_readString h dev langid index buf buf') ?_
  rintro ⟨rc, buf⟩ d ⟨rc', buf'⟩ d' hd -
  cases hd.ret
  dsimp only
  split
  . next hrc =>
    obtain ⟨l, e, hbytes, htrace, hstring, hresult⟩ := hd.bytes (by show 0 < rc; omega)
    dsimp only at hbytes hresult
    refine .bind (R := fun r f r' f' => SameString rc.toNat r r' ∧ transfers f.2.2 = transfers d.2.2 ∧
      Agree (fun _ _ => True) f f') perishable_received (.ofExcept fun r hr => ?_) ?_
    . obtain ⟨x, hx⟩ | ⟨r₁, r₁', hr₁, hr₁', hsame⟩ :=
        fixString_same hbytes (show 2 ≤ rc.toNat by omega) (show rc ≤ rc.toNat by omega)
      . rw [hr] at hx
        cases hx
      . rw [hr] at hr₁
        cases hr₁
        rw [hr₁']
        exact .pure ⟨hsame, rfl, hd.agree⟩
    . rintro ⟨buf, rc₁⟩ f ⟨buf', rc₁'⟩ f' ⟨⟨hbytes, hrc₁, hle⟩, hf, hagree⟩ -
      dsimp only at hbytes hrc₁ hle ⊢
      have hfirst := hbytes.apply (i := 0) (show 0 < rc.toNat by omega)
      refine .pure ⟨?_, hagree, fun hnonneg => ⟨l, e, hf.trans htrace, hstring, ?_, ?_, ?_, ?_⟩⟩
      . simp only [hfirst, hrc₁]
      . rwa [hresult]
      . rw [hresult]
        dsimp only
        omega
      . dsimp only
        omega
      . rwa [hresult]
  . exact .pure ⟨rfl, hd.agree, fun hf => absurd hf (show ¬(0 : Int) ≤ -1 by decide)⟩

/-- The driver is about to use a language of which it did not receive both bytes. -/
def LangidMissing (l : List Answered) : Prop :=
  ∃ l₁ e, l = l₁ ++ [e] ∧ e.string? = some 0 ∧ e.2.result < 4

theorem wp_usbGetStringTries_missing (h : LangidMissing (transfers c.2.2)) {dev : Fin 32}
    {langid : BitVec 16} {index : Byte} (hindex : index ≠ 0) {size : Nat} {buf : Bytes 512} (tries : Nat)
    : wp B.world.traced (usbGetStringTries dev langid index size buf tries) (fun _ _ t => ¬Received t.2)
        (fun _ _ => True) c.1 c.2 := by
  obtain ⟨l, e, hl, hstring, hshort⟩ := h
  have hlost : ∀ {x y} {t : List (HcdEvent σ)}, transfers t = transfers c.2.2 ++ [(x, y)] →
      Answered.string? (x, y) = some index → ¬Received t := by
    intro x y t ht hx hreceived
    rw [hl, List.append_assoc] at ht
    have hchain := hreceived.langid
    rw [ht] at hchain
    have hsends : SendsLangid e (x, y) := (List.isChain_append_cons_cons.mp hchain).2.1
    refine absurd (hsends hstring ?_ ?_) (Int.not_le.mpr hshort)
    . rw [hx]
      nofun
    . rw [hx]
      exact fun hf => hindex (Option.some.inj hf)
  cases tries <;>
  . unfold usbGetStringTries
    rw [wp_bind, wp_getDev, wp_bind]
    refine wp_post (wp_usbControlMsg_behaviour (c := c) rfl rfl (by decide)) ?_
    rintro r v t ⟨-, -, -, ht⟩
    exact perishable_received.wp_lost (hlost ht (DevRequest.string?_descriptor index langid _))

theorem wp_usbStringSub_missing (h : LangidMissing (transfers c.2.2)) {dev : Fin 32}
    {langid : BitVec 16} {index : Byte} (hindex : index ≠ 0) {buf : Bytes 512}
    : wp B.world.traced (usbStringSub dev langid index buf) (fun _ _ t => ¬Received t.2)
        (fun _ _ => True) c.1 c.2 := by
  unfold usbStringSub readString usbGetString
  rw [wp_bind, wp_bind]
  refine wp_post (wp_usbGetStringTries_missing h hindex 2) fun _ _ _ hlost => ?_
  exact wp_post (perishable_received.wp_lost hlost) fun _ _ _ hlost => perishable_received.wp_lost hlost

theorem follows_readLangid (h : Agree (fun _ _ => True) c c') (dev : Fin 32) (tbuf tbuf' : Bytes 512)
    : Follows B.world.traced (fun s => Received s.2) (readLangid dev tbuf) (readLangid dev tbuf')
        (fun r d r' d' => r'.1 = r.1 ∧
          (Agree (fun _ _ => True) d d' ∨ r.1 = true ∧ LangidMissing (transfers d.2.2))) c c' := by
  unfold readLangid
  apply follows_getDev h.toSame
  split
  . refine .bind perishable_received (follows_usbStringSub h dev 0 0 tbuf tbuf') ?_
    rintro ⟨err, tbuf⟩ d ⟨err', tbuf'⟩ d' ⟨herr, hd, hbytes⟩ -
    dsimp only at herr hbytes
    subst herr
    dsimp only
    by_cases hneg : err' < 0
    . rw [if_pos hneg, if_pos hneg]
      exact .pure ⟨rfl, .inl hd⟩
    . obtain ⟨l, e, htrace, hstring, htwo, -, -, hbytes⟩ := hbytes (by omega)
      rw [if_neg hneg, if_neg hneg, hbytes.apply (i := 0) (show 0 < e.2.result.toNat by omega)]
      split
      . exact .pure ⟨rfl, .inl hd⟩
      . by_cases hfour : 4 ≤ e.2.result
        . rw [hbytes.apply (i := 2) (show 2 < e.2.result.toNat by omega),
            hbytes.apply (i := 3) (show 3 < e.2.result.toNat by omega)]
          refine .bind perishable_received ((repeats_modifyDev fun _ _ h => h).spec hd) ?_
          rintro _ f _ f' ⟨-, hf⟩ -
          exact .pure ⟨rfl, .inl hf⟩
        . have hmissing : LangidMissing (transfers d.2.2) := ⟨l, e, htrace, hstring, by omega⟩
          refine .bind (R := fun _ f _ _ => LangidMissing (transfers f.2.2)) perishable_received
            (.modify hmissing) ?_
          exact fun _ _ _ _ hf _ => .pure ⟨rfl, .inr ⟨rfl, hf⟩⟩
  . exact .pure ⟨rfl, .inl h⟩

theorem follows_stack (h : Agree I c c')
    : Follows B.world.traced (fun s => Received s.2) (Stateful.ask (HcdOp.stack 512))
        (Stateful.ask (HcdOp.stack 512)) (fun _ d _ d' => Agree I d d' ∧ d.1 = c.1 ∧
          transfers d.2.2 = transfers c.2.2) c c' := by
  obtain ⟨u, s, l⟩ := c
  obtain ⟨u', s', l'⟩ := c'
  have hstate : s' = s := h.state
  subst hstate
  refine .ask ?_
  rintro b ⟨t, lt⟩ r ⟨t', lt'⟩ ⟨⟨rfl, -⟩, hl⟩ - ⟨hr, hl'⟩
  have hl : lt = l ++ [_] := hl
  have hl' : lt' = l' ++ [_] := hl'
  match r with
  | .ok b' =>
    obtain ⟨rfl, -⟩ := hr
    have hlt : transfers lt = transfers l := by
      rw [hl, transfers_append]
      exact List.append_nil _
    refine ⟨b', rfl, ⟨⟨h.usb, rfl, ?_⟩, ?_⟩, rfl, hlt⟩
    . rw [hl, hl', transfers_append, transfers_append, h.trace]
      rfl
    . rw [hlt]
      exact h.inv
  | .error e => exact absurd hr id

theorem repeats_usbString {dev : Fin 32} {index : Int} (hindex : BitVec.ofInt 8 index ≠ 0) {size : Nat}
    (buf : Bytes size)
    : Repeats B.world.traced (fun s => Received s.2) (Agree fun _ _ => True) (usbString dev index buf) := by
  constructor
  intro c c' h
  unfold usbString usbStringAt
  split
  . exact .pure ⟨rfl, h⟩
  . refine .bind perishable_received (follows_stack h) ?_
    rintro tbuf d tbuf' d' ⟨hd, -⟩ -
    refine .bind perishable_received (follows_readLangid hd dev tbuf tbuf') ?_
    rintro ⟨known, tbuf⟩ d ⟨known', tbuf'⟩ d' ⟨hknown, hd⟩ -
    dsimp only at hknown hd ⊢
    subst hknown
    rcases hd with hd | ⟨rfl, hmissing⟩
    . split
      . apply follows_getDev hd.toSame
        refine .bind perishable_received (follows_usbStringSub hd dev _ _ tbuf tbuf') ?_
        rintro ⟨err, tbuf⟩ e ⟨err', tbuf'⟩ e' ⟨herr, he, hbytes⟩ -
        dsimp only at herr hbytes ⊢
        subst herr
        split
        . exact .pure ⟨rfl, he⟩
        . obtain ⟨l, x, -, -, htwo, hle, heven, hbytes⟩ := hbytes (by omega)
          rw [stringChars_same hbytes (show err'.toNat ≤ x.2.result.toNat by omega) (by omega) _ _ (by decide)]
          exact ((Repeats.ofExcept _).bind perishable_received fun _ => .pure _).spec he
      . exact .pure ⟨rfl, hd⟩
    . apply Follows.of_lost
      rw [if_pos rfl, wp_bind, wp_getDev, wp_bind]
      refine wp_post (wp_usbStringSub_missing hmissing hindex) ?_
      exact fun _ _ _ hlost => perishable_received.wp_lost hlost

theorem repeats_scanString (dev : Fin 32) (index : UsbDevice → Byte) (get : UsbDevice → Bytes 32)
    (set : UsbDevice → Bytes 32 → UsbDevice)
    : Repeats B.world.traced (fun s => Received s.2) (Agree fun _ _ => True)
        (scanString dev index get set) := by
  unfold scanString
  refine .bind perishable_received (repeats_getDev dev) fun d => ?_
  split
  . next hindex =>
    have hne : BitVec.ofInt 8 ((index d).toNat : Int) ≠ 0 := by
      rw [BitVec.ofInt_natCast, BitVec.ofNat_toNat, BitVec.setWidth_eq]
      exact hindex
    refine .bind perishable_received (repeats_usbString hne (get d)) fun r => ?_
    exact repeats_modifyDev fun _ _ h => h
  . exact .pure ()

theorem repeats_scanStrings (dev : Fin 32)
    : Repeats B.world.traced (fun s => Received s.2) (Agree fun _ _ => True) (scanStrings dev) := by
  unfold scanStrings
  refine .bind perishable_received (repeats_modifyDev fun _ _ h => h) fun _ => ?_
  refine .bind perishable_received (repeats_scanString ..) fun _ => ?_
  exact .bind perishable_received (repeats_scanString ..) fun _ => repeats_scanString ..

/-!
### Enumeration
-/

theorem follows_scanConfiguration {dev : Fin 32} {n : Nat} (h : Agree (Reading dev n) c c') (hn : 8 ≤ n)
    {tmpbuf tmpbuf' : Bytes 512} (hbytes : SameBytes n tmpbuf tmpbuf')
    : Follows B.world.traced (fun s => Received s.2) (scanConfiguration dev tmpbuf)
        (scanConfiguration dev tmpbuf') (fun r d r' d' => r' = r ∧ Same d d') c c' := by
  have hend : ∀ {α : Type} {m : UsbM α} {c c' : Usb × σ × List (HcdEvent σ)},
      Repeats B.world.traced (fun s => Received s.2) (Agree fun _ _ => True) m → Agree (fun _ _ => True) c c' →
      Follows B.world.traced (fun s => Received s.2) m m (fun r d r' d' => r' = r ∧ Same d d') c c' :=
    fun hm hc => (hm.spec hc).mono fun _ _ _ _ hq => ⟨hq.1, hq.2.toSame⟩
  unfold scanConfiguration
  refine .bind perishable_received (follows_usbGetConfigurationNo h hbytes) ?_
  rintro ⟨_, buffer⟩ d ⟨_, buffer'⟩ d' ⟨m, hm, hbuffer, hd⟩ -
  refine .bind perishable_received (follows_usbParseConfig hd (Nat.le_trans hn hm) hbuffer) ?_
  rintro _ d _ d' ⟨-, hd⟩ -
  refine hend ?_ hd
  refine .bind perishable_received (repeats_usbSetMaxpacket dev) fun _ => ?_
  refine .bind perishable_received (repeats_getDev dev) fun _ => ?_
  refine .bind perishable_received (repeats_usbSetConfiguration dev _) fun _ => ?_
  exact .ite (.pure _) (.bind perishable_received (repeats_scanStrings dev) fun _ => .pure _)

theorem follows_usbScanDevice {dev : Fin 32} (h : Agree (Reading dev 0) c c') (hc : transfers c.2.2 = [])
    : Follows B.world.traced (fun s => Received s.2) (usbScanDevice dev) (usbScanDevice dev)
        (fun r d r' d' => r' = r ∧ Same d d') c c' := by
  unfold usbScanDevice
  refine .bind perishable_received (follows_stack h) ?_
  rintro tmpbuf d tmpbuf' d' ⟨hd, -, hl⟩ -
  apply follows_getDev hd.toSame
  refine .bind perishable_received ((repeats_modifyDev (I := fun u l => Reading dev 0 u l ∧ l = []) ?_).spec
    ⟨hd.toSame, hd.inv, hl.trans hc⟩) ?_
  . exact fun u l hu => ⟨hu.1.setDev hu.1.config, hu.2⟩
  rintro _ e _ e' ⟨-, he⟩ -
  refine .bind perishable_received (follows_scanDefault ⟨he.toSame, he.inv.1⟩ he.inv.2 tmpbuf tmpbuf') ?_
  rintro ⟨err, tmpbuf⟩ d ⟨err', tmpbuf'⟩ d' ⟨herr, hsame, hread⟩ -
  dsimp only at herr hread ⊢
  subst herr
  split
  . exact .pure ⟨rfl, hsame⟩
  . obtain ⟨n, hn, hbytes, hd⟩ := hread (by omega)
    refine .bind perishable_received ((repeats_modifyDev (I := Reading dev n) ?_).spec hd) ?_
    . exact fun u l hu => hu.setDev hu.config
    rintro _ e _ e' ⟨-, he⟩ -
    refine .bind perishable_received ((repeats_usbSetAddress steady_reading dev).spec he) ?_
    rintro _ d err d' ⟨rfl, hd⟩ -
    split
    . exact .pure ⟨rfl, hd.toSame⟩
    . have hdescriptor : Repeats B.world.traced (fun s => Received s.2) (Agree (Reading dev n))
          (usbGetDescriptor dev usbDtDevice 0 (.descriptor dev) 18) :=
        .bind perishable_received (repeats_getDev dev) fun _ =>
          repeats_usbControlMsg steady_reading nofun (by decide)
      refine .bind perishable_received (hdescriptor.spec hd) ?_
      rintro _ e r e' ⟨rfl, he⟩ -
      refine .bind perishable_received ((repeats_modifyDev (I := Reading dev n) ?_).spec he) ?_
      . exact fun u l hu => hu.setDev hu.config
      rintro _ d _ d' ⟨-, hd⟩ -
      split
      . exact .pure ⟨rfl, hd.toSame⟩
      . exact follows_scanConfiguration hd hn hbytes

end

/--
Whatever was in `tmpbuf` and `mybuf`: as long as everything that is looked at was received, a second run
for the same devices returns the same, issues the same requests and leaves the same structures.
-/
theorem usbScanDevice_stackContents {σ : Type} {B : Behaviour σ} {dev : Fin 32} {u v : Usb} {s t t' : σ}
    {l l' : List (HcdEvent σ)} {ret : Int} {r' : Except Stop (Int × Usb)}
    (hnew : (u.usbDev dev).config = .zero)
    (hrun : (usbScanDevice dev).Run B.world.traced u (s, []) (.ok (ret, v)) (t, l)) (hreceived : Received l)
    (hrun' : (usbScanDevice dev).Run B.world.traced u (s, []) r' (t', l'))
    : r' = .ok (ret, v) ∧ t' = t ∧ transfers l' = transfers l := by
  have hstart : Agree (Reading dev 0) (u, s, []) (u, s, ([] : List (HcdEvent σ))) :=
    ⟨⟨rfl, rfl, rfl⟩, hnew, rfl⟩
  obtain ⟨_, v', hr', rfl, hsame⟩ :=
    (follows_usbScanDevice (B := B) hstart rfl).ends hrun hreceived hrun'
  have husb : v' = v := hsame.usb
  rw [husb] at hr'
  exact ⟨hr', hsame.state, hsame.trace⟩

/-!
### Runs with given contents
-/

/-- The devices of `B` with `contents` in `tmpbuf` and `mybuf`, up to the first configuration that does not fit. -/
def Behaviour.handler {σ : Type} (B : Behaviour σ) (contents : (n : Nat) → Bytes n) (o : HcdOp) (s : σ)
    : Except Stop (HcdAns o) × σ :=
  match o with
  | .submit x => (.ok (B.answer x s).1, (B.answer x s).2)
  | .stack n => (.ok (if n = usbBufsiz then contents n else B.stack n s), s)
  | .parsing _ buffer =>
    match parseAndVisit strictMem buffer 64 .zero with
    | .ok _ => (.ok (), s)
    | .error e => (.error e, s)
  | .copyingHub _ buffer => (if HubFits buffer then .ok () else .error .fault, s)

theorem Behaviour.handler_offers {σ : Type} (B : Behaviour σ) (contents : (n : Nat) → Bytes n)
    : Prog.Offers (B.handler contents) B.world := by
  intro o s y t h
  cases o with
  | submit x =>
    cases h
    rfl
  | stack n =>
    cases h
    exact ⟨rfl, fun hn => if_neg hn⟩
  | parsing dev buffer =>
    unfold handler at h
    dsimp only at h
    split at h
    . next eps heps =>
      cases h
      exact ⟨rfl, fits_of_parsed heps⟩
    . cases h
  | copyingHub dev buffer =>
    unfold handler at h
    dsimp only at h
    split at h
    . next hhub =>
      cases h
      exact ⟨rfl, hhub⟩
    . cases h

def Behaviour.ofData (data : Transfer → Option (List Byte)) : Behaviour Unit where
  answer x s := (match data x with | some bytes => x.sends bytes | none => x.stalls, s)
  stack _ _ := .zero
  allowed x s := by
    dsimp only
    split
    . exact x.sends_allowed _
    . exact x.stalls_allowed
  length_data x s h := by
    dsimp only at h ⊢
    split
    . rfl
    . next hdata =>
      rw [hdata] at h
      exact absurd h (show ¬(0 : Int) ≤ -1 by decide)

/--
A device in slot 1 with a string and a configuration without interfaces. It sends only the first `n` bytes
of its descriptor when this is read for the first time.
-/
def plainAnswer (n : Nat) (x : Transfer) : Option (List Byte) :=
  match x.setup with
  | none => none
  | some setup =>
    let descriptor : List Byte := [18, 1, 0, 2, 0, 0, 0, 64, 0, 0, 0, 0, 0, 0, 1, 0, 0, 1]
    if x.dev ≠ 1 then some [3, 0, 0, 0]
    else if setup.requesttype ≠ usbDirIn then some []
    else if setup.value = 0x0100 then some (if setup.length = 64 then descriptor.take n else descriptor)
    else if setup.value = 0x0200 then some [9, 2, 9, 0, 0, 1, 0, 0xc0, 0]
    else if setup.value = 0x0300 then some [4, 3, 9, 4]
    else some [6, 3, 0x41, 0, 0x42, 0]

/-- A configuration without anything behind its first descriptor, which was received. -/
def HeaderReceived (parsed : Option (Bytes 512)) (n : Nat) : Prop :=
  match parsed with
  | some buffer => buffer.byte 0 = 9 ∧ totalLength buffer ≤ 9 ∧ 9 ≤ n
  | none => True

instance (parsed : Option (Bytes 512)) (n : Nat) : Decidable (HeaderReceived parsed n) :=
  match parsed with
  | some buffer => inferInstanceAs (Decidable (buffer.byte 0 = 9 ∧ totalLength buffer ≤ 9 ∧ 9 ≤ n))
  | none => .isTrue trivial

theorem partsReceived_header {buffer : Bytes 512} {n : Nat} (h : HeaderReceived (some buffer) n)
    : PartsReceived buffer n := by
  obtain ⟨hlen, htotal, hn⟩ := h
  have hnine : (buffer.byte 0).toNat = 9 := congrArg _ hlen
  have hwalk : ∀ i t, Walk buffer i t → i = 9 := by
    intro i t h
    induction h with
    | start => exact hnine
    | next _ hends _ ih => exact absurd (fun hlt => absurd hlt (by omega)) hends
  intro _
  refine ⟨by omega, ?_⟩
  intro i t h hlt
  have := hwalk i t h
  omega

theorem usbScanDevice_stackContents_plain
    : ∃ (v v' : Usb) (t t' : Unit) (l l' : List (HcdEvent Unit)),
        (usbScanDevice 1).Run (Behaviour.ofData (plainAnswer 18)).world.traced attachedUsb ((), [])
          (.ok (0, v)) (t, l) ∧
        (usbScanDevice 1).Run (Behaviour.ofData (plainAnswer 18)).world.traced attachedUsb ((), [])
          (.ok (0, v')) (t', l') ∧
        (transfers l).any (fun e => e.string? = some 1) ∧ v' = v ∧ transfers l' = transfers l := by
  have hoffers := (Behaviour.ofData (plainAnswer 18)).handler_offers
  obtain ⟨r, v, ⟨t, l⟩, hr, hp⟩ :=
    exists_run_of_check (World.tracedHandler_offers (hoffers fun _ => .zero))
      (m := usbScanDevice 1) (u := attachedUsb) (s := ((), []))
      (p := fun r v t => r = 0 ∧ (transfers t.2).any (fun e => e.string? = some 1) ∧
        (∀ e ∈ (transfers t.2).head?, 0 ≤ e.2.result → 8 ≤ e.2.data.length) ∧
        (transfers t.2).IsChain SendsLangid ∧
        ∀ k < t.2.length, HeaderReceived (t.2[k]?.bind Event.parsed?) (received (transfers (t.2.take k))))
      (by decide +kernel)
  obtain ⟨r', v', ⟨t', l'⟩, hr', hp'⟩ :=
    exists_run_of_check (World.tracedHandler_offers (hoffers fun _ _ => 8))
      (m := usbScanDevice 1) (u := attachedUsb) (s := ((), [])) (p := fun r _ _ => r = 0)
      (by decide +kernel)
  obtain ⟨rfl, hstring, hfirst, hlangid, hparts⟩ := of_decide_eq_true hp
  have hret : r' = 0 := of_decide_eq_true hp'
  subst hret
  have hreceived : Received l := by
    refine ⟨hfirst, ?_, hlangid⟩
    rintro l₁ l₂ s dev buffer r rfl
    have hlt : l₁.length < (l₁ ++ (⟨s, .parsing dev buffer, r⟩ : HcdEvent Unit) :: l₂).length := by simp
    have hheader := hparts _ hlt
    rw [List.take_left, List.getElem?_append_right (Nat.le_refl _), Nat.sub_self,
      List.getElem?_cons_zero] at hheader
    exact partsReceived_header hheader
  obtain ⟨hsame, -, hl⟩ := usbScanDevice_stackContents rfl hr hreceived hr'
  cases hsame
  exact ⟨v, v, t, t', l, l', hr, hr', hstring, rfl, hl⟩

/-- A descriptor that is cut off in front of `bMaxPacketSize0`. -/
theorem short_descriptor_contents
    : ¬∀ (B : Behaviour Unit) (dev : Fin 32) (u v : Usb) (t t' : Unit) (l l' : List (HcdEvent Unit)) (ret : Int)
        (r' : Except Stop (Int × Usb)),
        (u.usbDev dev).config = .zero →
        (usbScanDevice dev).Run B.world.traced u ((), []) (.ok (ret, v)) (t, l) →
        (usbScanDevice dev).Run B.world.traced u ((), []) r' (t', l') →
        r' = .ok (ret, v) ∧ t' = t ∧ transfers l' = transfers l := by
  intro h
  have hoffers := (Behaviour.ofData (plainAnswer 7)).handler_offers
  obtain ⟨r, v, ⟨t, l⟩, hr, hp⟩ :=
    exists_run_of_check (World.tracedHandler_offers (hoffers fun _ => .zero))
      (m := usbScanDevice 1) (u := attachedUsb) (s := ((), []))
      (p := fun r v _ => r = 0 ∧ (v.usbDev 1).maxpacketsize = 3) (by decide +kernel)
  obtain ⟨r', v', ⟨t', l'⟩, hr', hp'⟩ :=
    exists_run_of_check (World.tracedHandler_offers (hoffers fun _ _ => 8))
      (m := usbScanDevice 1) (u := attachedUsb) (s := ((), []))
      (p := fun r v _ => r = 0 ∧ (v.usbDev 1).maxpacketsize = 0) (by decide +kernel)
  obtain ⟨hsame, -⟩ := h _ 1 attachedUsb v t t' l l' r _ rfl hr hr'
  cases hsame
  exact absurd ((of_decide_eq_true hp).2.symm.trans (of_decide_eq_true hp').2) (by decide)
