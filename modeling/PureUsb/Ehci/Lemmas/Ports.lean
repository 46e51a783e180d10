import PureUsb.Word
import PureUsb.Ehci.Lemmas.Root
import PureUsb.Usb.Impl.Scan

/-!
This module contains the emulated root hub in front of ports that follow the PORTSC semantics of
EHCI: a change bit is cleared by writing 1 to it and by nothing else.
-/

open Stateful

/-- The change bits of PORTSC. -/
inductive Change where
  | connection
  | enable
  | overCurrent
  deriving DecidableEq

namespace Change

def bit : Change → Nat
  | connection => 1
  | enable => 3
  | overCurrent => 5

/-- The feature that CLEAR_FEATURE has to name in order to acknowledge the change. -/
def feature : Change → BitVec 16
  | connection => usbPortFeatCConnection
  | enable => usbPortFeatCEnable
  | overCurrent => usbPortFeatCOverCurrent

def statBit : Change → BitVec 16
  | connection => usbPortStatCConnection
  | enable => usbPortStatCEnable
  | overCurrent => usbPortStatCOvercurrent

end Change

def Pending (reg : BitVec 32) (c : Change) : Prop := reg.getLsbD c.bit = true

instance (reg : BitVec 32) (c : Change) : Decidable (Pending reg c) :=
  inferInstanceAs (Decidable (_ = _))

/-- The values of `or_portsc`. -/
abbrev Ports := Fin 2 → BitVec 32

namespace Ports

/-- New changes may have come up, none went away. All other bits are free. -/
def Later (s t : Ports) : Prop := ∀ i c, Pending (s i) c → Pending (t i) c

/-- No change came up and none went away. All other bits are free. -/
def Same (s t : Ports) : Prop := ∀ i c, Pending (s i) c ↔ Pending (t i) c

/-- The registers after `v` was written to that of port `i`. -/
def written (s : Ports) (i : Fin 2) (v : BitVec 32) : Ports :=
  Function.update s i ((v &&& ~~~ehciPsClear) ||| (s i &&& ~~~v &&& ehciPsClear))

theorem Later.refl (s : Ports) : Later s s := fun _ _ h => h

theorem Later.trans {s t u : Ports} (h : Later s t) (h' : Later t u) : Later s u :=
  fun i c hp => h' i c (h i c hp)

theorem Same.refl (s : Ports) : Same s s := fun _ _ => Iff.rfl

theorem Same.trans {s t u : Ports} (h : Same s t) (h' : Same t u) : Same s u :=
  fun i c => (h i c).trans (h' i c)

theorem Same.later {s t : Ports} (h : Same s t) : Later s t := fun i c => (h i c).mp

end Ports

def Ports.after (s : Ports) (o : EhciOp) : Ports :=
  match o with
  | .writel (.portsc i) v => s.written i v
  | _ => s

/-- The operation `o` may be answered by `r` when the ports are as in `t`. -/
def Ports.answers (t : Ports) (o : EhciOp) (r : Except Stop (EhciAns o)) : Prop :=
  match o, r with
  | .readl (.portsc i), .ok v => v = t i
  | _, .ok _ => True
  | _, .error _ => False

/-- Ports that change by `drift` in the course of each operation. -/
def portWorld (drift : Ports → Ports → Prop) : EhciWorld Ports := fun o s r t =>
  drift (s.after o) t ∧ t.answers o r

def portHandler (o : EhciOp) (s : Ports) : Except Stop (EhciAns o) × Ports :=
  match o with
  | .readl (.portsc i) => (.ok (s i), s)
  | .readl _ => (.ok 0, s)
  | .writel r v => (.ok (), s.after (.writel r v))
  | .load => (.ok ⟨.zero, .zero, fun _ => .zero⟩, s)
  | .store _ => (.ok (), s)

theorem portHandler_serves {drift : Ports → Ports → Prop} (h : ∀ s, drift s s)
    : Prog.Serves portHandler (portWorld drift) := by
  intro o s
  unfold portHandler portWorld Ports.answers
  cases o with
  | readl r => cases r <;> exact ⟨h s, by trivial⟩
  | writel r v => exact ⟨h _, trivial⟩
  | load => exact ⟨h s, trivial⟩
  | store f => exact ⟨h s, trivial⟩

section

variable {drift drift' : Ports → Ports → Prop} {s t : Ports}

theorem portWorld_mono (h : ∀ s t, drift s t → drift' s t) {o : EhciOp}
    {r : Except Stop (EhciAns o)} (hw : portWorld drift o s r t)
    : portWorld drift' o s r t :=
  ⟨h _ _ hw.1, hw.2⟩

theorem portWorld_error {o : EhciOp} {x : Stop} : ¬portWorld drift o s (.error x) t := by
  rintro ⟨-, h⟩
  cases o with
  | readl r => cases r <;> exact h
  | _ => exact h

theorem portWorld_readl {r : Reg} {v : BitVec 32} (h : portWorld drift (.readl r) s (.ok v) t)
    : drift s t :=
  h.1

theorem portWorld_writel {r : Reg} {v : BitVec 32} {x : Unit}
    (h : portWorld drift (.writel r v) s (.ok x) t)
    : (∃ i, r = .portsc i ∧ drift (s.written i v) t) ∨ (∀ i, r ≠ .portsc i) ∧ drift s t := by
  cases r with
  | portsc i => exact .inl ⟨i, rfl, h.1⟩
  | _ => exact .inr ⟨by simp, h.1⟩

end

theorem statusReg_eq_portsc_iff {index : BitVec 16} {i : Fin 2} (hi : index.toNat ≤ 2)
    : statusReg index = .portsc i ↔ index.toNat = i + 1 := by
  have : index.toNat = 0 ∨ index.toNat = 1 ∨ index.toNat = 2 := by omega
  unfold statusReg
  rcases this with h | h | h <;> rw [h] <;> simp <;> omega

/-!
### Change bits of the values that are written
-/

namespace Pending

variable {reg v : BitVec 32} {c : Change}

theorem clear (c : Change) : Pending ehciPsClear c := by
  cases c <;> decide

theorem not_pe (c : Change) : ¬Pending ehciPsPe c := by
  cases c <;> decide

theorem csc_iff : Pending ehciPsCsc c ↔ c = .connection := by
  cases c <;> decide

theorem occ_iff : Pending ehciPsOcc c ↔ c = .overCurrent := by
  cases c <;> decide

theorem or_iff : Pending (reg ||| v) c ↔ Pending reg c ∨ Pending v c := by
  simp [Pending]

theorem and_iff : Pending (reg &&& v) c ↔ Pending reg c ∧ Pending v c := by
  simp [Pending]

theorem not_iff : Pending (~~~reg) c ↔ ¬Pending reg c := by
  cases c <;> simp [Pending, Change.bit]

end Pending

theorem not_pending_of_masked {v : BitVec 32} {c : Change} (h : Masked v) : ¬Pending v c := by
  intro hp
  have : Pending (v &&& ehciPsClear) c := Pending.and_iff.mpr ⟨hp, Pending.clear c⟩
  rw [h] at this
  revert this
  cases c <;> decide

namespace Ports

theorem pending_written_same {s : Ports} {i : Fin 2} {v : BitVec 32} {c : Change}
    : Pending (s.written i v i) c ↔ Pending (s i) c ∧ ¬Pending v c := by
  unfold written
  rw [Function.update_self]
  rw [Pending.or_iff, Pending.and_iff, Pending.and_iff, Pending.and_iff, Pending.not_iff,
    Pending.not_iff]
  have := Pending.clear c
  tauto

theorem pending_written_ne {s : Ports} {i j : Fin 2} {v : BitVec 32} {c : Change} (h : j ≠ i)
    : Pending (s.written i v j) c ↔ Pending (s j) c := by
  unfold written
  rw [Function.update_of_ne h]

theorem pending_written {s : Ports} {i j : Fin 2} {v : BitVec 32} {c : Change}
    : Pending (s.written i v j) c ↔ Pending (s j) c ∧ ¬(j = i ∧ Pending v c) := by
  by_cases h : j = i
  . subst h
    rw [pending_written_same]
    tauto
  . rw [pending_written_ne h]
    tauto

theorem Later.of_written {s t u : Ports} {i : Fin 2} {v : BitVec 32} (h : Later s t)
    (hv : ∀ c, ¬Pending v c) (hw : Later (t.written i v) u)
    : Later s u := by
  intro j c hp
  apply hw
  rw [pending_written]
  exact ⟨h j c hp, fun h => hv c h.2⟩

end Ports

theorem keptByRoot_later (s : Ports) (E : Stop → Ports → Prop)
    : KeptByRoot (portWorld Ports.Later) Masked s.Later E where
  read _ hs hw := hs.trans (portWorld_readl hw)
  write _ hv hs hw := by
    rcases portWorld_writel hw with ⟨i, -, hd⟩ | ⟨-, hd⟩
    . exact hs.of_written (fun _ => not_pending_of_masked hv) hd
    . exact hs.trans hd
  stop _ h := absurd h portWorld_error

/-!
### CLEAR_FEATURE
-/

namespace DevRequest

def ClearsFeature (req : DevRequest) (i : Fin 2) : Prop :=
  req.typeReq = 0x2301 ∧ req.index.toNat = i + 1

def Names (req : DevRequest) (i : Fin 2) (c : Change) : Prop :=
  req.ClearsFeature i ∧ req.value = c.feature

end DevRequest

def KnownClear (value : BitVec 16) : Prop :=
  value = usbPortFeatEnable ∨ value = usbPortFeatCEnable ∨ value = usbPortFeatPower ∨
  value = usbPortFeatCConnection ∨ value = usbPortFeatOverCurrent ∨ value = usbPortFeatCReset

/-- CLEAR_FEATURE of `value` writes 1 to the bit of `c` after it read `reg`. -/
def WritesOne (value : BitVec 16) (reg : BitVec 32) (c : Change) : Prop :=
  ((value = usbPortFeatEnable ∨ value = usbPortFeatCReset) ∧ Pending reg c) ∨
  ((value = usbPortFeatPower ∨ value = usbPortFeatCConnection) ∧ c = .connection) ∨
  (value = usbPortFeatOverCurrent ∧ c = .overCurrent)

theorem WritesOne.known {value : BitVec 16} {reg : BitVec 32} {c : Change}
    (h : WritesOne value reg c)
    : KnownClear value := by
  unfold KnownClear
  rcases h with ⟨h | h, -⟩ | ⟨h | h, -⟩ | ⟨h, -⟩ <;> simp [h]

theorem WritesOne.congr {value : BitVec 16} {reg reg' : BitVec 32} {c : Change}
    (h : Pending reg c ↔ Pending reg' c)
    : WritesOne value reg' c ↔ WritesOne value reg c := by
  unfold WritesOne
  rw [h]

def portresetAfter (portreset : BitVec 16) (req : DevRequest) : BitVec 16 :=
  if req.value = usbPortFeatCReset then
    portreset &&& ~~~(1#16 <<< req.index.toNat)
  else
    portreset

theorem pending_masked_or_iff {reg v : BitVec 32} {c : Change}
    : Pending ((reg &&& ~~~ehciPsClear) ||| v) c ↔ Pending v c := by
  rw [Pending.or_iff]
  have := not_pending_of_masked (c := c) (Masked.and_not_clear reg)
  tauto

section

variable {drift : Ports → Ports → Prop} {E : Stop → Ports → Prop} {e : Ehci} {s : Ports}

theorem wp_rootClearFeatureValue (hrefl : ∀ s, drift s s) {req : DevRequest} {reg : BitVec 32}
    : wp (portWorld drift) (rootClearFeatureValue req reg)
        (fun r e' t =>
          drift s t ∧ (r.isSome ↔ KnownClear req.value) ∧
          e'.portreset = portresetAfter e.portreset req ∧
          ∀ v, r = some v → ∀ c, Pending v c ↔ WritesOne req.value reg c)
        E e s := by
  have hne : req.value ≠ usbPortFeatCReset → portresetAfter e.portreset req = e.portreset := by
    intro h
    unfold portresetAfter
    rw [if_neg h]
  unfold rootClearFeatureValue KnownClear WritesOne
  split
  . next h =>
    refine ⟨hrefl s, by simp [h], (hne (by rw [h]; decide)).symm, ?_⟩
    rintro _ ⟨⟩ c
    rw [Pending.and_iff, Pending.not_iff, h]
    have := Pending.not_pe c
    simp [this, usbPortFeatEnable, usbPortFeatPower]
  . split
    . next h =>
      refine ⟨hrefl s, by simp [h], (hne (by rw [h]; decide)).symm, ?_⟩
      rintro _ ⟨⟩ c
      rw [pending_masked_or_iff, h]
      have := Pending.not_pe c
      simp [this, usbPortFeatCEnable]
    . split
      . next h =>
        rw [wp_bind, wp_ehciReadl]
        intro t
        refine ⟨fun ppc ht => ?_, fun x hx => absurd hx portWorld_error⟩
        refine ⟨portWorld_readl ht, by simp [h], (hne (by rw [h]; decide)).symm, ?_⟩
        rintro _ ⟨⟩ c
        rw [pending_masked_or_iff, h, Pending.csc_iff]
        simp [usbPortFeatPower]
      . split
        . next h =>
          refine ⟨hrefl s, by simp [h], (hne (by rw [h]; decide)).symm, ?_⟩
          rintro _ ⟨⟩ c
          rw [pending_masked_or_iff, h, Pending.csc_iff]
          simp [usbPortFeatCConnection]
        . split
          . next h =>
            refine ⟨hrefl s, by simp [h], (hne (by rw [h]; decide)).symm, ?_⟩
            rintro _ ⟨⟩ c
            rw [pending_masked_or_iff, h, Pending.occ_iff]
            simp [usbPortFeatOverCurrent]
          . split
            . next h =>
              rw [wp_bind, wp_modify]
              refine ⟨hrefl s, by simp [h], by rw [portresetAfter, if_pos h], ?_⟩
              rintro _ ⟨⟩ c
              rw [h]
              simp [usbPortFeatCReset]
            . next h1 h2 h3 h4 h5 h6 =>
              refine ⟨hrefl s, ?_, (hne h6).symm, ?_⟩
              . simp only [Option.isSome_none, Bool.false_eq_true, h1, h2, h3, h4, h5, h6, or_self]
              . rintro _ ⟨⟩

/--
CLEAR_FEATURE reads the register in some state `t1` and writes it in a later state `t2`.
-/
theorem wp_rootClearFeature (hrefl : ∀ s, drift s s)
    (htrans : ∀ {s t u}, drift s t → drift t u → drift s u) {req : DevRequest}
    : wp (portWorld drift) (rootClearFeature req)
        (fun r e' t =>
          (r = true ↔ KnownClear req.value) ∧
          e'.portreset = portresetAfter e.portreset req ∧
          (r = false → drift s t) ∧
          (r = true →
            ∃ t1 t2 v, drift s t1 ∧ drift t1 t2 ∧ drift (t2.after (.writel (statusReg req.index) v)) t ∧
              ∀ i c, statusReg req.index = .portsc i →
                (Pending v c ↔ WritesOne req.value (t1 i) c)))
        E e s := by
  unfold rootClearFeature
  rw [wp_bind, wp_ehciReadl]
  intro t1
  refine ⟨fun reg hreg => ?_, fun x hx => absurd hx portWorld_error⟩
  rw [wp_bind]
  refine wp_post (wp_rootClearFeatureValue hrefl) ?_
  rintro (_ | v) e' t2 ⟨ht, hknown, hportreset, hv⟩
  . refine ⟨by simpa using hknown, hportreset, fun _ => ?_, by simp⟩
    exact htrans (portWorld_readl hreg) ht
  . simp only [wp_bind, wp_ehciWritel, wp_ehciReadl]
    intro t3
    refine ⟨fun x hx t => ?_, fun x hx => absurd hx portWorld_error⟩
    refine ⟨fun cmd hcmd => ?_, fun x hx => absurd hx portWorld_error⟩
    refine ⟨by simpa using hknown, hportreset, by simp, fun _ => ?_⟩
    refine ⟨t1, t2, v, portWorld_readl hreg, ht, htrans hx.1 (portWorld_readl hcmd), ?_⟩
    intro i c hi
    rw [hv v rfl c]
    have hans := hreg.2
    rw [hi] at hans
    rw [hans]

end

/-!
### Requests
-/

/--
CLEAR_FEATURE writes 1 to the change bit `c` of port `i` whenever it is pending, although it does
not name this change.
-/
def DevRequest.Loses (req : DevRequest) (i : Fin 2) (c : Change) : Prop :=
  req.ClearsFeature i ∧
  (req.value = usbPortFeatEnable ∨ req.value = usbPortFeatCReset ∨
    (req.value = usbPortFeatPower ∧ c = .connection) ∨
    (req.value = usbPortFeatOverCurrent ∧ c = .overCurrent))

theorem pending_after_clear {req : DevRequest} {t1 t2 : Ports} {v : BitVec 32} {i : Fin 2}
    {c : Change} (hi : req.index.toNat ≤ 2)
    (hv : ∀ i c, statusReg req.index = .portsc i → (Pending v c ↔ WritesOne req.value (t1 i) c))
    : Pending ((t2.after (.writel (statusReg req.index) v)) i) c
        ↔
      Pending (t2 i) c ∧ ¬(req.index.toNat = i + 1 ∧ WritesOne req.value (t1 i) c) := by
  by_cases h : req.index.toNat = i + 1
  . have hreg := (statusReg_eq_portsc_iff hi).mpr h
    rw [← hv i c hreg, hreg]
    simp only [Ports.after, Ports.pending_written_same, h, true_and]
  . simp only [h, false_and, not_false_eq_true, and_true]
    cases hreg : statusReg req.index with
    | portsc j =>
      have : i ≠ j := by
        rintro rfl
        exact h ((statusReg_eq_portsc_iff hi).mp hreg)
      simp only [Ports.after, Ports.pending_written_ne this]
    | _ => rfl

theorem names_or_loses {req : DevRequest} {reg : BitVec 32} {i : Fin 2} {c : Change}
    (hreq : req.ClearsFeature i) (h : WritesOne req.value reg c)
    : req.Names i c ∨ req.Loses i c := by
  rcases h with ⟨h | h, -⟩ | ⟨h | h, hc⟩ | ⟨h, hc⟩
  . exact .inr ⟨hreq, .inl h⟩
  . exact .inr ⟨hreq, .inr (.inl h)⟩
  . exact .inr ⟨hreq, .inr (.inr (.inl ⟨h, hc⟩))⟩
  . subst hc
    exact .inl ⟨hreq, h⟩
  . exact .inr ⟨hreq, .inr (.inr (.inr ⟨h, hc⟩))⟩

theorem writesOne_of_loses {req : DevRequest} {reg : BitVec 32} {i : Fin 2} {c : Change}
    (h : req.Loses i c) (hp : Pending reg c)
    : WritesOne req.value reg c := by
  rcases h.2 with h | h | ⟨h, hc⟩ | h
  . exact .inl ⟨.inl h, hp⟩
  . exact .inl ⟨.inr h, hp⟩
  . exact .inr (.inl ⟨.inl h, hc⟩)
  . exact .inr (.inr h)

section

variable {E : Stop → Ports → Prop} {e : Ehci} {s : Ports}

theorem wp_rootRequest_later {req : DevRequest} (hi : req.index.toNat ≤ 2)
    : wp (portWorld Ports.Later) (rootRequest req)
        (fun _ _ t =>
          ∀ i c, Pending (s i) c → ¬req.Names i c → ¬req.Loses i c → Pending (t i) c)
        E e s := by
  have hkept : ∀ t, Ports.Later s t →
      ∀ i c, Pending (s i) c → ¬req.Names i c → ¬req.Loses i c → Pending (t i) c :=
    fun t ht i c hp _ _ => ht i c hp
  have hrefl := hkept s (Ports.Later.refl s)
  unfold rootRequest
  split
  . exact hrefl
  . split
    . split <;> exact hrefl
    . split
      . exact hrefl
      . split
        . exact hrefl
        . split
          . exact hrefl
          . split
            . rw [wp_bind]
              refine (keptByRoot_later s _).readl (Ports.Later.refl s) (statusReg_ne_usbsts req.index) ?_
              exact fun reg t ht => hkept t ht
            . split
              . rw [wp_bind]
                refine wp_post (wp_rootSetFeature (keptByRoot_later s _) (Ports.Later.refl s)) ?_
                intro r e' t ht
                split <;> exact hkept t ht.1
              . split
                . next htype =>
                  rw [wp_bind]
                  refine wp_post (wp_rootClearFeature Ports.Later.refl Ports.Later.trans) ?_
                  rintro (_ | _) e' t ⟨-, -, hfalse, htrue⟩
                  . exact hkept t (hfalse rfl)
                  . obtain ⟨t1, t2, v, h1, h2, h3, hv⟩ := htrue rfl
                    intro i c hp hnames hloses
                    apply h3
                    rw [pending_after_clear hi hv]
                    refine ⟨h2 i c (h1 i c hp), ?_⟩
                    rintro ⟨hindex, hone⟩
                    rcases names_or_loses ⟨htype, hindex⟩ hone with h | h
                    . exact hnames h
                    . exact hloses h
                . exact hrefl

end

/-!
### GET_STATUS
-/

/-- What the hub driver finds in `wPortChange`. -/
inductive StatusChange where
  | port (c : Change)
  | reset
  deriving DecidableEq

namespace StatusChange

def statBit : StatusChange → BitVec 16
  | port c => c.statBit
  | reset => usbPortStatCReset

/-- The feature that the hub driver clears in order to acknowledge the change. -/
def feature : StatusChange → BitVec 16
  | port c => c.feature
  | reset => usbPortFeatCReset

/-- The root hub has the change to report for port `i`. -/
def Shows (c : StatusChange) (e : Ehci) (s : Ports) (i : Fin 2) : Prop :=
  match c with
  | port c => Pending (s i) c
  | reset => e.portreset &&& (1#16 <<< (i + 1 : Nat)) ≠ 0

instance (c : StatusChange) (e : Ehci) (s : Ports) (i : Fin 2) : Decidable (c.Shows e s i) :=
  match c with
  | port c => inferInstanceAs (Decidable (Pending (s i) c))
  | reset => inferInstanceAs (Decidable (_ ≠ _))

/-- The hub driver finds the change in the `data` of a GET_STATUS. -/
def Reported (c : StatusChange) (data : List Byte) : Prop :=
  portChange (Bytes.zero.write 0 data) &&& c.statBit ≠ 0

end StatusChange

/-- The request of `usb_get_port_status` for port `i + 1`. -/
def getPortStatus (i : Fin 2) : DevRequest :=
  ⟨usbDirIn ||| usbRtPort, usbReqGetStatus, 0, BitVec.ofNat 16 (i + 1), 4⟩

/-- The request of `usb_clear_port_feature` for port `i + 1`. -/
def clearPortFeature (i : Fin 2) (feature : BitVec 16) : DevRequest :=
  ⟨usbRtPort, usbReqClearFeature, feature, BitVec.ofNat 16 (i + 1), 0⟩

theorem toNat_port (i : Fin 2) : (BitVec.ofNat 16 (i + 1)).toNat = i + 1 := by
  rw [BitVec.toNat_ofNat]
  omega

theorem clearPortFeature_clearsFeature (i : Fin 2) (feature : BitVec 16)
    : (clearPortFeature i feature).ClearsFeature i := by
  refine ⟨?_, toNat_port i⟩
  unfold DevRequest.typeReq clearPortFeature
  dsimp only
  decide

theorem portChange_bytes16 (status change : BitVec 16)
    : portChange (Bytes.zero.write 0 (bytes16 status ++ bytes16 change)) = change := by
  apply BitVec.eq_of_toNat_eq
  have h2 : (Bytes.zero.write 0 (bytes16 status ++ bytes16 change) : Bytes 4) 2 = change.setWidth 8 := rfl
  have h3 : (Bytes.zero.write 0 (bytes16 status ++ bytes16 change) : Bytes 4) 3 = (change >>> 8).setWidth 8 :=
    rfl
  unfold portChange le16
  rw [h2, h3]
  simp only [BitVec.toNat_setWidth, BitVec.toNat_ushiftRight, BitVec.toNat_ofNat, Nat.shiftRight_eq_div_pow]
  omega

theorem rootPortChange_and_statBit {e : Ehci} {s : Ports} {i : Fin 2} (c : StatusChange)
    : rootPortChange (s i) e.portreset (BitVec.ofNat 16 (i + 1)) &&& c.statBit ≠ 0 ↔ c.Shows e s i := by
  have hcsc : s i &&& ehciPsCsc ≠ 0 ↔ Pending (s i) .connection :=
    BitVec.and_bit_ne_zero_iff (by decide)
  have hpec : s i &&& ehciPsPec ≠ 0 ↔ Pending (s i) .enable :=
    BitVec.and_bit_ne_zero_iff (by decide)
  have hocc : s i &&& ehciPsOcc ≠ 0 ↔ Pending (s i) .overCurrent :=
    BitVec.and_bit_ne_zero_iff (by decide)
  unfold rootPortChange statBit
  rw [toNat_port]
  have hreset : e.portreset &&& 1#16 <<< (i + 1 : Nat) ≠ 0 ↔ StatusChange.reset.Shows e s i := Iff.rfl
  simp only [hcsc, hpec, hocc, hreset]
  have hport : ∀ c, (StatusChange.port c).Shows e s i ↔ Pending (s i) c := fun _ => Iff.rfl
  by_cases h1 : Pending (s i) .connection <;> by_cases h2 : Pending (s i) .enable <;>
    by_cases h3 : Pending (s i) .overCurrent <;> by_cases h4 : StatusChange.reset.Shows e s i <;>
      cases c with
      | port c => cases c <;> simp only [h1, h2, h3, h4, hport] <;> decide
      | reset =>
        simp only [h1, h2, h3, h4]
        decide

section

variable {dev : UsbDevice} {i : Fin 2} {e : Ehci}

/-- GET_STATUS reports what it found in the register. -/
theorem wp_getPortStatus_any {σ : Type} {w : EhciWorld σ} {E : Stop → σ → Prop} {s : σ}
    (hstop : ∀ x t, w (.readl (.portsc i)) s (.error x) t → E x t)
    : wp w (ehciSubmitRoot dev 4 (getPortStatus i))
        (fun r e' t =>
          ∃ v, w (.readl (.portsc i)) s (.ok v) t ∧ e'.portreset = e.portreset ∧ r.1 = 0 ∧
            ∀ c : StatusChange, c.Reported r.2.2 ↔ c.Shows e' (fun _ => v) i)
        E e s := by
  have hindex : (getPortStatus i).index.toNat = i + 1 := toNat_port i
  have hreg : statusReg (getPortStatus i).index = .portsc i :=
    (statusReg_eq_portsc_iff (by omega)).mpr hindex
  have htype : (getPortStatus i).typeReq = 0xa300 := by
    unfold DevRequest.typeReq getPortStatus
    dsimp only
    decide
  rw [wp_ehciSubmitRoot, if_neg (by omega)]
  unfold rootRequest
  rw [htype]
  simp only [BitVec.reduceEq, ↓reduceIte]
  rw [wp_bind, wp_ehciReadl, hreg]
  intro t
  refine ⟨fun v hv => ⟨v, hv, rfl, trivial, fun c => ?_⟩, fun x hx => hstop x t hx⟩
  rw [← rootPortChange_and_statBit c]
  unfold StatusChange.Reported
  have htake : ∀ x y, (bytes16 x ++ bytes16 y).take 4 = bytes16 x ++ bytes16 y := fun _ _ => rfl
  show portChange (Bytes.zero.write 0 ((bytes16 _ ++ bytes16 _).take 4)) &&& _ ≠ 0 ↔ _
  rw [htake, portChange_bytes16]
  rfl

end

section

variable {drift : Ports → Ports → Prop} {E : Stop → Ports → Prop} {e : Ehci} {s : Ports}
variable {dev : UsbDevice} {length : Nat} {req : DevRequest} {i : Fin 2}

theorem wp_getPortStatus
    : wp (portWorld drift) (ehciSubmitRoot dev 4 (getPortStatus i))
        (fun r e' t =>
          drift s t ∧ e'.portreset = e.portreset ∧ r.1 = 0 ∧
          ∀ c : StatusChange, c.Reported r.2.2 ↔ c.Shows e' t i)
        E e s := by
  apply wp_post (wp_getPortStatus_any fun _ _ hx => absurd hx portWorld_error)
  rintro r e' t ⟨v, hv, he, hret, hrep⟩
  have hans : v = t i := hv.2
  refine ⟨portWorld_readl hv, he, hret, fun c => ?_⟩
  rw [hrep c, hans]
  cases c <;> rfl

theorem wp_ehciSubmitRoot_later
    : wp (portWorld Ports.Later) (ehciSubmitRoot dev length req)
        (fun _ _ t =>
          ∀ i c, Pending (s i) c → ¬req.Names i c → ¬req.Loses i c → Pending (t i) c)
        E e s := by
  rw [wp_ehciSubmitRoot]
  split
  . exact fun i c hp _ _ => hp
  . next hi =>
    refine wp_post (wp_rootRequest_later (by omega)) ?_
    rintro (_ | _) e' t h <;> exact h

theorem wp_clearFeature_same (hreq : req.ClearsFeature i)
    : wp (portWorld Ports.Same) (ehciSubmitRoot dev length req)
        (fun r e' t =>
          (r.1 = 0 ↔ KnownClear req.value) ∧
          e'.portreset = portresetAfter e.portreset req ∧
          ∀ c, Pending (t i) c ↔ Pending (s i) c ∧ ¬WritesOne req.value (s i) c)
        E e s := by
  obtain ⟨htype, hindex⟩ := hreq
  have hi : req.index.toNat ≤ 2 := by omega
  rw [wp_ehciSubmitRoot, if_neg (by omega)]
  unfold rootRequest
  rw [htype]
  simp only [BitVec.reduceEq, ↓reduceIte]
  rw [wp_bind]
  refine wp_post (wp_rootClearFeature Ports.Same.refl Ports.Same.trans) ?_
  rintro (_ | _) e' t ⟨hknown, hportreset, hfalse, htrue⟩
  . refine ⟨by simpa using hknown, hportreset, fun c => ?_⟩
    rw [← hfalse rfl i c]
    have : ¬WritesOne req.value (s i) c := fun h => by simpa using hknown.mpr h.known
    exact ⟨fun hp => ⟨hp, this⟩, And.left⟩
  . obtain ⟨t1, t2, v, h1, h2, h3, hv⟩ := htrue rfl
    refine ⟨by simpa using hknown, hportreset, fun c => ?_⟩
    rw [← h3 i c, pending_after_clear hi hv, ← h2 i c, WritesOne.congr (h1 i c), ← h1 i c]
    simp only [hindex, true_and]

end
