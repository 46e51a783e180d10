import PureUsb.Usb.Lemmas.Table
import PureUsb.Prog.Loop

/-!
This module contains when the loop of `usb_parse_config` comes to an end.
-/

open Relation (ReflTransGen)

section

variable {M : Type} {m : ConfigMem M} {buffer : Bytes 512} {s s' : ParseState M}

theorem parseLoop_eq_ok_iff {fuel : Nat} {mem : M}
    : parseLoop m buffer fuel s = .ok mem ↔ ∃ n < fuel, Loop.Exits (parseStep m buffer) n s mem := by
  induction fuel generalizing s with
  | zero => simp [parseLoop]
  | succ fuel ih =>
    unfold parseLoop
    rw [Except.bind_eq_ok]
    constructor
    . rintro ⟨x, hx, h⟩
      cases x with
      | inl t =>
        obtain ⟨n, hlt, h⟩ := ih.mp h
        exact ⟨n + 1, by omega, .goes hx h⟩
      | inr mem =>
        cases h
        exact ⟨0, by omega, .ends hx⟩
    . rintro ⟨n, hlt, h⟩
      cases h with
      | ends hends => exact ⟨_, hends, rfl⟩
      | goes hgoes h => exact ⟨_, hgoes, ih.mpr ⟨_, by omega, h⟩⟩

theorem rd_eq_ok {i : Nat} {b : Byte} (h : rd buffer i = .ok b) : b = buffer.byte i := by
  rw [rd_eq] at h
  split at h
  . cases h
    rfl
  . cases h

theorem index_parseInterface (h : parseInterface m buffer s = .ok s') : s'.index = s.index := by
  unfold parseInterface at h
  obtain ⟨num, -, h⟩ := Except.bind_eq_ok.mp h
  split at h
  . obtain ⟨ifno, -, h⟩ := Except.bind_eq_ok.mp h
    obtain ⟨mem, -, h⟩ := Except.bind_eq_ok.mp h
    obtain ⟨len, -, h⟩ := Except.bind_eq_ok.mp h
    obtain ⟨bytes, -, h⟩ := Except.bind_eq_ok.mp h
    obtain ⟨mem, -, h⟩ := Except.bind_eq_ok.mp h
    obtain ⟨mem, -, h⟩ := Except.bind_eq_ok.mp h
    obtain ⟨mem, -, h⟩ := Except.bind_eq_ok.mp h
    obtain ⟨curr, -, h⟩ := Except.bind_eq_ok.mp h
    cases h
    rfl
  . obtain ⟨n, -, h⟩ := Except.bind_eq_ok.mp h
    obtain ⟨mem, -, h⟩ := Except.bind_eq_ok.mp h
    cases h
    rfl

theorem index_parseEndpoint (h : parseEndpoint m buffer s = .ok s') : s'.index = s.index := by
  unfold parseEndpoint at h
  obtain ⟨epno, -, h⟩ := Except.bind_eq_ok.mp h
  obtain ⟨mem, -, h⟩ := Except.bind_eq_ok.mp h
  obtain ⟨len, -, h⟩ := Except.bind_eq_ok.mp h
  obtain ⟨bytes, -, h⟩ := Except.bind_eq_ok.mp h
  obtain ⟨mem, -, h⟩ := Except.bind_eq_ok.mp h
  cases h
  rfl

/-- The three ways in which the loop goes on. -/
inductive Gone (m : ConfigMem M) (buffer : Bytes 512) (s : ParseState M) : ParseState M → Prop where
  | interface {s' : ParseState M} :
      buffer.byte (s.index + 1) = usbDtInterface → parseInterface m buffer s = .ok s' →
      Gone m buffer s { s' with index := s.index + (buffer.byte s.index).toNat }
  | endpoint {s' : ParseState M} :
      buffer.byte (s.index + 1) = usbDtEndpoint → parseEndpoint m buffer s = .ok s' →
      Gone m buffer s { s' with index := s.index + (buffer.byte s.index).toNat }
  | other :
      buffer.byte (s.index + 1) ≠ usbDtInterface → buffer.byte (s.index + 1) ≠ usbDtEndpoint →
      buffer.byte s.index ≠ 0 →
      Gone m buffer s { s with index := s.index + (buffer.byte s.index).toNat }

theorem parseStep_eq_ok {x : ParseState M ⊕ M} (h : parseStep m buffer s = .ok x)
    : ∃ lo hi, m.ld s.mem (.desc 2) = .ok lo ∧ m.ld s.mem (.desc 3) = .ok hi ∧
        ((s.index + 1 < le16 lo hi ∧ ∃ s', x = .inl s' ∧ Gone m buffer s s') ∨
         (s.index + 1 < le16 lo hi ∧ x = .inr s.mem ∧ buffer.byte (s.index + 1) ≠ usbDtInterface ∧
            buffer.byte (s.index + 1) ≠ usbDtEndpoint) ∨
         (le16 lo hi ≤ s.index + 1 ∧ x = .inr s.mem)) := by
  unfold parseStep at h
  obtain ⟨lo, hlo, h⟩ := Except.bind_eq_ok.mp h
  obtain ⟨hi, hhi, h⟩ := Except.bind_eq_ok.mp h
  refine ⟨lo, hi, hlo, hhi, ?_⟩
  split at h
  . next hloop =>
    obtain ⟨type, htype, h⟩ := Except.bind_eq_ok.mp h
    have htype := rd_eq_ok htype
    subst htype
    split at h
    . next htype =>
      obtain ⟨s', hs, h⟩ := Except.bind_eq_ok.mp h
      obtain ⟨len, hlen, h⟩ := Except.bind_eq_ok.mp h
      have hlen := rd_eq_ok hlen
      rw [index_parseInterface hs] at hlen h
      subst hlen
      cases h
      exact .inl ⟨hloop, _, rfl, .interface htype hs⟩
    . next hinterface =>
      split at h
      . next htype =>
        obtain ⟨s', hs, h⟩ := Except.bind_eq_ok.mp h
        obtain ⟨len, hlen, h⟩ := Except.bind_eq_ok.mp h
        have hlen := rd_eq_ok hlen
        rw [index_parseEndpoint hs] at hlen h
        subst hlen
        cases h
        exact .inl ⟨hloop, _, rfl, .endpoint htype hs⟩
      . next hendpoint =>
        obtain ⟨len, hlen, h⟩ := Except.bind_eq_ok.mp h
        have hlen := rd_eq_ok hlen
        subst hlen
        split at h
        . cases h
          exact .inr (.inl ⟨hloop, rfl, hinterface, hendpoint⟩)
        . next hlen =>
          obtain ⟨_, -, h⟩ := Except.bind_eq_ok.mp h
          cases h
          exact .inl ⟨hloop, _, rfl, .other hinterface hendpoint hlen⟩
  . next hloop =>
    cases h
    exact .inr (.inr ⟨by omega, rfl⟩)

end

/-!
### In the device table
-/

section

variable {t t' : UsbTable} {k : Fin 32} {base : BitVec 32} {buffer : Bytes 512} {s s' : ParseState UsbTable}

theorem config_setByte {d : UsbDevice} {q o : Nat} {b : Byte} (hq : q ≠ offsetofConfig + o)
    : (d.setByte base q b).config.byte o = d.config.byte o := by
  by_cases hin : offsetofConfig ≤ q ∧ q < offsetofConfig + 1002
  . obtain ⟨p, rfl⟩ := Nat.exists_eq_add_of_le hin.1
    rw [UsbDevice.setByte_config base d b (by omega), Bytes.byte_write_singleton _ _ (by omega),
      if_neg (by omega)]
  . simp only [offsetofConfig] at hin
    unfold UsbDevice.setByte
    simp only [apply_ite UsbDevice.config, ite_self]
    have hconfig : (if q < 274 then d.config
        else if q < 1276 then d.config.write (q - 274) [b] else d.config) = d.config := by
      split
      . rfl
      . rw [if_neg (by omega)]
    rw [hconfig]
    simp only [ite_self]

theorem config_poke {a : Int} {o : Nat} {b : Byte} (h : poke t base a b = .ok t')
    (ha : a ≠ configAddr k o)
    : (t' k).config.byte o = (t k).config.byte o := by
  unfold poke at h
  split at h
  . next hrange =>
    cases h
    dsimp only
    split
    . next hslot =>
      apply config_setByte
      intro hq
      apply ha
      simp only [configAddr, sizeofUsbDevice, offsetofConfig] at *
      omega
    . rfl
  . cases h

theorem ld_desc {o : Nat} (ho : o < 1002)
    : (tableMem k base).ld t (.desc o) = .ok ((t k).config.byte o) :=
  peek_config ho

theorem wTotalLength_eq (d : UsbDevice) : d.wTotalLength = le16 (d.config.byte 2) (d.config.byte 3) := by
  rw [Bytes.byte_of_lt _ (by decide), Bytes.byte_of_lt _ (by decide)]
  rfl

theorem wTotalLength_st {l : ConfigLoc} {b : Byte} (h : (tableMem k base).st t l b = .ok t')
    (h2 : l.offset ≠ 2) (h3 : l.offset ≠ 3)
    : (t' k).wTotalLength = (t k).wTotalLength := by
  have hkept : ∀ o : Nat, l.offset ≠ o → (t' k).config.byte o = (t k).config.byte o := by
    intro o hl
    apply config_poke h
    unfold configAddr
    omega
  rw [wTotalLength_eq, wTotalLength_eq, hkept 2 h2, hkept 3 h3]

theorem offset_ifDesc_ne {i : Int} {o : Nat} (ho : o = 9 ∨ o = 10)
    : (ConfigLoc.ifDesc i o).offset ≠ 2 ∧ (ConfigLoc.ifDesc i o).offset ≠ 3 := by
  simp only [ConfigLoc.offset]
  omega

theorem wTotalLength_parseInterface (hlen : buffer.byte s.index = 0)
    (h : parseInterface (tableMem k base) buffer s = .ok s')
    : (s'.mem k).wTotalLength = (s.mem k).wTotalLength := by
  have h9 {i : Int} := offset_ifDesc_ne (i := i) (o := 9) (.inl rfl)
  have h10 {i : Int} := offset_ifDesc_ne (i := i) (o := 10) (.inr rfl)
  unfold parseInterface at h
  obtain ⟨num, -, h⟩ := Except.bind_eq_ok.mp h
  split at h
  . obtain ⟨ifno, -, h⟩ := Except.bind_eq_ok.mp h
    obtain ⟨mem, hcount, h⟩ := Except.bind_eq_ok.mp h
    obtain ⟨len, hrd, h⟩ := Except.bind_eq_ok.mp h
    have hrd := rd_eq_ok hrd
    rw [hlen] at hrd
    subst hrd
    obtain ⟨bytes, hbytes, h⟩ := Except.bind_eq_ok.mp h
    cases hbytes
    obtain ⟨mem', hcopy, h⟩ := Except.bind_eq_ok.mp h
    cases hcopy
    obtain ⟨mem1, hno, h⟩ := Except.bind_eq_ok.mp h
    obtain ⟨mem2, hnum, h⟩ := Except.bind_eq_ok.mp h
    obtain ⟨curr, -, h⟩ := Except.bind_eq_ok.mp h
    cases h
    rw [wTotalLength_st hnum h10.1 h10.2, wTotalLength_st hno h9.1 h9.2,
      wTotalLength_st hcount (by decide) (by decide)]
  . obtain ⟨n, -, h⟩ := Except.bind_eq_ok.mp h
    obtain ⟨mem, hnum, h⟩ := Except.bind_eq_ok.mp h
    cases h
    exact wTotalLength_st hnum h10.1 h10.2

theorem wTotalLength_parseEndpoint (hlen : buffer.byte s.index = 0)
    (h : parseEndpoint (tableMem k base) buffer s = .ok s')
    : (s'.mem k).wTotalLength = (s.mem k).wTotalLength := by
  have h9 := offset_ifDesc_ne (i := s.ifno) (o := 9) (.inl rfl)
  unfold parseEndpoint at h
  obtain ⟨epno, -, h⟩ := Except.bind_eq_ok.mp h
  obtain ⟨mem, hno, h⟩ := Except.bind_eq_ok.mp h
  obtain ⟨len, hrd, h⟩ := Except.bind_eq_ok.mp h
  have hrd := rd_eq_ok hrd
  rw [hlen] at hrd
  subst hrd
  obtain ⟨bytes, hbytes, h⟩ := Except.bind_eq_ok.mp h
  cases hbytes
  obtain ⟨mem', hcopy, h⟩ := Except.bind_eq_ok.mp h
  cases hcopy
  cases h
  exact wTotalLength_st hno h9.1 h9.2

/-- The loop is at an interface or endpoint descriptor of length 0. -/
def AtEmpty (k : Fin 32) (buffer : Bytes 512) (s : ParseState UsbTable) : Prop :=
  s.index + 1 < (s.mem k).wTotalLength ∧ buffer.byte s.index = 0 ∧
    (buffer.byte (s.index + 1) = usbDtInterface ∨ buffer.byte (s.index + 1) = usbDtEndpoint)

instance : Decidable (AtEmpty k buffer s) := inferInstanceAs (Decidable (_ ∧ _))

theorem parseStep_atEmpty {x : ParseState UsbTable ⊕ UsbTable} (hs : AtEmpty k buffer s)
    (h : parseStep (tableMem k base) buffer s = .ok x)
    : ∃ s', x = .inl s' ∧ AtEmpty k buffer s' := by
  obtain ⟨hloop, hlen, htype⟩ := hs
  have hstay : s.index + (buffer.byte s.index).toNat = s.index := by
    rw [hlen]
    rfl
  have hnext : ∀ s' : ParseState UsbTable, (s'.mem k).wTotalLength = (s.mem k).wTotalLength →
      AtEmpty k buffer { s' with index := s.index + (buffer.byte s.index).toNat } := by
    intro s' hs'
    rw [hstay]
    refine ⟨?_, hlen, htype⟩
    rw [hs']
    exact hloop
  obtain ⟨lo, hi, hlo, hhi, h⟩ := parseStep_eq_ok h
  rw [ld_desc (by decide)] at hlo hhi
  cases hlo
  cases hhi
  rw [← wTotalLength_eq] at h
  obtain ⟨-, s', rfl, hgone⟩ | ⟨-, -, hinterface, hendpoint⟩ | ⟨hle, -⟩ := h
  . refine ⟨_, rfl, ?_⟩
    cases hgone with
    | interface _ hs' => exact hnext _ (wTotalLength_parseInterface hlen hs')
    | endpoint _ hs' => exact hnext _ (wTotalLength_parseEndpoint hlen hs')
    | other hinterface hendpoint _ => exact absurd htype (not_or.mpr ⟨hinterface, hendpoint⟩)
  . exact absurd htype (not_or.mpr ⟨hinterface, hendpoint⟩)
  . omega

theorem index_lt_of_goes (hs : ¬AtEmpty k buffer s)
    (h : Loop.Goes (parseStep (tableMem k base) buffer) s s')
    : 65536 - s'.index < 65536 - s.index := by
  obtain ⟨lo, hi, hlo, hhi, h⟩ := parseStep_eq_ok h
  rw [ld_desc (by decide)] at hlo hhi
  cases hlo
  cases hhi
  have hmax := le16_lt ((s.mem k).config.byte 2) ((s.mem k).config.byte 3)
  obtain ⟨hloop, _, hx, hgone⟩ | ⟨-, hx, -⟩ | ⟨-, hx⟩ := h
  . cases hx
    have hpos : buffer.byte s.index ≠ 0 := by
      intro hlen
      rw [← wTotalLength_eq] at hloop
      cases hgone with
      | interface htype _ => exact hs ⟨hloop, hlen, .inl htype⟩
      | endpoint htype _ => exact hs ⟨hloop, hlen, .inr htype⟩
      | other _ _ hne => exact hne hlen
    have hindex : s'.index = s.index + (buffer.byte s.index).toNat := by
      cases hgone <;> rfl
    have hpos : (buffer.byte s.index).toNat ≠ 0 := fun hf => hpos (BitVec.eq_of_toNat_eq hf)
    omega
  . cases hx
  . cases hx

theorem parseLoop_exits_iff
    : (∃ mem, parseLoop (tableMem k base) buffer parseFuel s = .ok mem)
        ↔
      ∀ s', ReflTransGen (Loop.Goes (parseStep (tableMem k base) buffer)) s s' →
        (∃ x, parseStep (tableMem k base) buffer s' = .ok x) ∧ ¬AtEmpty k buffer s' := by
  have hbound : 65536 - s.index ≤ 65536 := Nat.sub_le ..
  rw [← Loop.exits_iff (fun s => 65536 - s.index) hbound (fun _ _ => parseStep_atEmpty) (fun _ _ => index_lt_of_goes)]
  constructor
  . rintro ⟨mem, h⟩
    obtain ⟨n, hlt, h⟩ := parseLoop_eq_ok_iff.mp h
    exact ⟨n, mem, Nat.le_of_lt_succ hlt, h⟩
  . rintro ⟨n, mem, hle, h⟩
    exact ⟨mem, parseLoop_eq_ok_iff.mpr ⟨n, Nat.lt_succ_of_le hle, h⟩⟩

/--
`usb_parse_config` returns if and only if its loop stays in the memory that there is and does not come to
an interface or endpoint descriptor of length 0.
-/
theorem parseConfig_exits_iff
    : (∃ r, parseConfig (tableMem k base) buffer t = .ok r)
        ↔
      ∃ start, parseHeader (tableMem k base) buffer t = .ok start ∧
        ∀ s ∈ start, ∀ s', ReflTransGen (Loop.Goes (parseStep (tableMem k base) buffer)) s s' →
          (∃ x, parseStep (tableMem k base) buffer s' = .ok x) ∧ ¬AtEmpty k buffer s' := by
  unfold parseConfig
  constructor
  . rintro ⟨r, h⟩
    obtain ⟨start, hstart, h⟩ := Except.bind_eq_ok.mp h
    refine ⟨start, hstart, ?_⟩
    rintro s ⟨⟩
    obtain ⟨mem, h, -⟩ := Except.bind_eq_ok.mp h
    exact parseLoop_exits_iff.mp ⟨mem, h⟩
  . rintro ⟨start, hstart, h⟩
    rw [hstart, Except.ok_bind]
    cases start with
    | none => exact ⟨_, rfl⟩
    | some s =>
      obtain ⟨mem, h⟩ := parseLoop_exits_iff.mpr (h s rfl)
      dsimp only
      rw [h]
      exact ⟨_, rfl⟩

/-!
### An interface descriptor without a length
-/

def emptyInterface : Bytes 512 := Bytes.zero.write 0 [9, 2, 18, 0, 1, 1, 0, 0xc0, 0, 0, 4]

def startsAtEmpty : Except Stop (Option (ParseState UsbTable)) → Bool
  | .ok (some start) => decide (AtEmpty 1 emptyInterface start)
  | _ => false

/-- The loop does not get past it, however long it runs. -/
theorem emptyInterface_never_exits
    : ∃ start, parseHeader (tableMem 1 0) emptyInterface (fun _ => .zero) = .ok (some start) ∧
        ∀ n mem, ¬Loop.Exits (parseStep (tableMem 1 0) emptyInterface) n start mem := by
  have hcheck : startsAtEmpty (parseHeader (tableMem 1 0) emptyInterface (fun _ => .zero)) = true := by
    decide +kernel
  unfold startsAtEmpty at hcheck
  split at hcheck
  . next start hstart =>
    refine ⟨start, hstart, fun n mem => ?_⟩
    exact Loop.not_exits (fun _ _ => parseStep_atEmpty) (of_decide_eq_true hcheck)
  . cases hcheck

end
