import PureUsb.Ehci.Lemmas.Prepare
import PureUsb.Ehci.Lemmas.Token
import PureUsb.Ehci.Pages
import PureUsb.Fields

/-!
This module contains the stages of a transfer and the chain of qTDs that stands for them.
-/

open BitVec Stateful

/-!
### Tokens
-/

/-- The fields of `qt_token`. -/
structure Token where
  toggle : Nat
  totalBytes : Nat
  interruptOnComplete : Nat
  currentPage : Nat
  errorCounter : Nat
  pid : Nat
  status : Nat
  deriving DecidableEq

def Token.decode (x : BitVec 32) : Token where
  toggle := x.field 31 1
  totalBytes := x.field 16 15
  interruptOnComplete := x.field 15 1
  currentPage := x.field 12 3
  errorCounter := x.field 10 2
  pid := x.field 8 2
  status := x.field 0 8

theorem decode_token {toggle length ioc pid : BitVec 32} (htoggle : toggle.toNat < 2 ^ 1)
    (hlength : length.toNat < 2 ^ 15) (hioc : ioc.toNat < 2 ^ 1) (hpid : pid.toNat < 2 ^ 2)
    : Token.decode ((toggle <<< 31) ||| (length <<< 16) ||| (ioc <<< 15) ||| (0#32 <<< 12) ||| (3#32 <<< 10) |||
        (pid <<< 8) ||| 0x80) =
      ⟨toggle.toNat, length.toNat, ioc.toNat, 0, 3, pid.toNat, 0x80⟩ := by
  have hthree : (3#32).toNat < 2 ^ 2 := by decide
  have hactive : ∀ {p l : Nat}, 8 ≤ p → (0x80 : BitVec 32).field p l = 0 := by
    intro p l hp
    apply field_above
    exact Nat.lt_of_lt_of_le (show (0x80 : BitVec 32).toNat < 2 ^ 8 by decide) (Nat.pow_le_pow_right (by decide) hp)
  unfold Token.decode
  simp (disch := omega) only [BitVec.zero_shiftLeft, BitVec.or_zero, field_or, field_shiftLeft,
    field_shiftLeft_below, field_shiftLeft_above, hactive, Nat.or_zero, Nat.zero_or, Nat.mod_eq_of_lt]
  rfl

/-!
### Stages
-/

/-- The packets that a stage consists of. -/
inductive Pid where
  | out
  | in
  | setup
  deriving DecidableEq

def Pid.code : Pid → Nat
  | out => 0
  | .in => 1
  | setup => 2

/-- A stage of a transfer, with the address of its data. -/
structure Stage where
  pid : Pid
  toggle : Nat
  bytes : Nat
  start : Option (BitVec 32)
  interruptOnComplete : Nat

def dataPid (pipe : BitVec 32) : Pid := if usbPipein pipe ≠ 0 then .in else .out

/-- The STATUS stage goes the other way, and to the host if there is no data. -/
def statusPid (pipe : BitVec 32) (length : Nat) : Pid :=
  if length = 0 then .in else if usbPipein pipe ≠ 0 then .out else .in

/-- The toggle that is stored for the endpoint and the direction of `pipe`. -/
def storedToggle (dev : UsbDevice) (pipe : BitVec 32) : Nat :=
  if (dev.toggle (usbPipeout pipe)).getLsbD (usbPipeendpoint pipe).toNat then 1 else 0

/-- The stages of a control transfer with the request at `req`, or of a bulk transfer. -/
def transferStages (dev : UsbDevice) (pipe buffer : BitVec 32) (length : Nat) (req : Option (BitVec 32))
    : List Stage :=
  match req with
  | none => [⟨dataPid pipe, storedToggle dev pipe, length, some buffer, 1⟩]
  | some req =>
    ⟨.setup, 0, 8, some req, 0⟩ ::
      ((if length > 0 then [⟨dataPid pipe, 1, length, some buffer, 0⟩] else []) ++
        [⟨statusPid pipe length, 1, 0, none, 1⟩])

/-- `td` makes the controller go through `stage`. -/
structure QTD.Does (td : QTD) (stage : Stage) : Prop where
  token : Token.decode td.qtToken =
    ⟨stage.toggle, stage.bytes, stage.interruptOnComplete, 0, 3, stage.pid.code, 0x80⟩
  altnext : td.qtAltnext = .terminate
  maps : ∀ addr ∈ stage.start, td.Maps addr stage.bytes

/-- The qTDs that can be reached from `p`, up to the end of the list. -/
inductive Dma.Chain (m : Dma) : HcPtr → List (Fin 3) → Prop where
  | nil : Chain m .terminate []
  | cons {i : Fin 3} {l : List (Fin 3)} : Chain m (m.td i).qtNext l → Chain m (.td i) (i :: l)

theorem Dma.Chain.of_terminate {m : Dma} {p : HcPtr} (h : p = .terminate) : m.Chain p [] := h ▸ .nil

theorem Dma.Chain.unique {m : Dma} {p : HcPtr} {l l' : List (Fin 3)} (h : m.Chain p l) (h' : m.Chain p l')
    : l = l' := by
  induction h generalizing l' with
  | nil =>
    cases h'
    rfl
  | cons _ ih =>
    cases h' with
    | cons h' => rw [ih h']

/-- The chain in `m` goes through the stages `stages`, each with a qTD of its own. -/
def GoesThrough (m : Dma) (stages : List Stage) : Prop :=
  ∃ l, m.Chain m.qh.qhOverlay.qtNext l ∧ l.Nodup ∧ List.Forall₂ (fun i stage => (m.td i).Does stage) l stages

theorem GoesThrough.codes_eq {m : Dma} {stages stages' : List Stage} (h : GoesThrough m stages)
    (h' : GoesThrough m stages')
    : stages.map (·.pid.code) = stages'.map (·.pid.code) := by
  obtain ⟨l, hchain, -, hdoes⟩ := h
  obtain ⟨l', hchain', -, hdoes'⟩ := h'
  rw [← hchain.unique hchain'] at hdoes'
  clear hchain hchain'
  induction hdoes generalizing stages' with
  | nil =>
    cases hdoes'
    rfl
  | cons hd _ ih =>
    cases hdoes' with
    | cons hd' hdoes' =>
      have hpid := congrArg Token.pid (hd.token.symm.trans hd'.token)
      rw [List.map_cons, List.map_cons, ih hdoes']
      exact congrArg (· :: _) hpid

/-!
### The tokens of the driver
-/

theorem toNat_usbPipein_ite (pipe : BitVec 32)
    : (if usbPipein pipe ≠ 0 then 1#32 else 0).toNat = (dataPid pipe).code := by
  unfold dataPid
  split
  . rfl
  . rfl

theorem decode_setupToken : Token.decode setupToken = ⟨0, 8, 0, 0, 3, Pid.setup.code, 0x80⟩ :=
  decode_token (by decide) (by decide) (by decide) (by decide)

theorem decode_dataToken {toggle : BitVec 32} {length : Nat} (htoggle : toggle.toNat < 2)
    (hlength : length < 2 ^ 15) (control : Bool) (pipe : BitVec 32)
    : Token.decode (dataToken toggle length control pipe) =
        ⟨toggle.toNat, length, if control then 0 else 1, 0, 3, (dataPid pipe).code, 0x80⟩ := by
  have hbytes : (BitVec.ofNat 32 length).toNat = length := by
    rw [BitVec.toNat_ofNat]
    omega
  have hpid := toNat_usbPipein_ite pipe
  have hcode : (dataPid pipe).code < 2 ^ 2 := by cases dataPid pipe <;> decide
  unfold dataToken
  rw [decode_token (by omega) (by omega) (by split <;> decide) (by omega), hbytes, hpid]
  cases control <;> rfl

theorem decode_statusToken (pipe : BitVec 32)
    : Token.decode (statusToken 1 pipe) =
        ⟨1, 0, 1, 0, 3, if usbPipein pipe ≠ 0 then Pid.out.code else Pid.in.code, 0x80⟩ := by
  unfold statusToken
  rw [decode_token (by decide) (by decide) (by decide) (by split <;> decide)]
  split
  . rfl
  . rfl

theorem toNat_gettoggle (dev : UsbDevice) (pipe : BitVec 32)
    : (usbGettoggle dev (usbPipeendpoint pipe) (usbPipeout pipe)).toNat = storedToggle dev pipe := by
  have hfield : (usbGettoggle dev (usbPipeendpoint pipe) (usbPipeout pipe)).toNat =
      (dev.toggle (usbPipeout pipe)).field (usbPipeendpoint pipe).toNat 1 :=
    toNat_shiftRight_and (l := 1) rfl
  rw [hfield, field_one]
  rfl

/-!
### The chain
-/

/-- The stages that the driver builds qTDs for: the direction of the last does not depend on the length. -/
def builtStages (dev : UsbDevice) (pipe buffer : BitVec 32) (length : Nat) (req : Option (BitVec 32))
    : List Stage :=
  match req with
  | none => [⟨dataPid pipe, storedToggle dev pipe, length, some buffer, 1⟩]
  | some req =>
    ⟨.setup, 0, 8, some req, 0⟩ ::
      ((if length > 0 then [⟨dataPid pipe, 1, length, some buffer, 0⟩] else []) ++
        [⟨if usbPipein pipe ≠ 0 then .out else .in, 1, 0, none, 1⟩])

theorem fitsTd_iff {buffer : BitVec 32} {length : Nat}
    : FitsTd (some (buffer, length)) ↔ length ≤ 5 * 4096 - buffer.toNat % 4096 :=
  ehciTdBuffer_eq_zero_iff

def QTD.linked (td : QTD) (next : HcPtr) : QTD := { td with qtNext := next }

theorem stageTd_does {token : BitVec 32} {stage : Stage} {buffer : Option (BitVec 32 × Nat)}
    (hfits : FitsTd buffer) (hbuffer : buffer = stage.start.map fun addr => (addr, stage.bytes))
    (htoken : Token.decode token =
      ⟨stage.toggle, stage.bytes, stage.interruptOnComplete, 0, 3, stage.pid.code, 0x80⟩)
    (next : HcPtr)
    : ((stageTd token buffer).linked next).Does stage := by
  obtain ⟨-, haltnext, hqtToken⟩ := fillBuffer_eq
    { QTD.zero with qtNext := .terminate, qtAltnext := .terminate, qtToken := token } buffer
  refine ⟨?_, haltnext, ?_⟩
  . rw [← htoken]
    exact congrArg Token.decode hqtToken
  . intro addr haddr
    rw [Option.mem_def.mp haddr] at hbuffer
    cases hbuffer
    exact ehciTdBuffer_maps ((fillBuffer_snd _ _).mpr hfits)

theorem stageTd_qtNext (token : BitVec 32) (buffer : Option (BitVec 32 × Nat))
    : (stageTd token buffer).qtNext = .terminate :=
  (fillBuffer_eq _ _).1

section

variable {m : Dma} {dev : UsbDevice} {pipe buffer : BitVec 32} {length : Nat} {req : Option (BitVec 32)}

theorem stageTd_last (token : BitVec 32) (buffer : Option (BitVec 32 × Nat))
    : (stageTd token buffer).linked .terminate = stageTd token buffer := by
  unfold QTD.linked
  rw [← stageTd_qtNext token buffer]

theorem withChain_does (hfits : FitsTd (some (buffer, length)))
    : GoesThrough (m.withChain dev pipe buffer length req) (builtStages dev pipe buffer length req) := by
  have hlength : length < 2 ^ 15 := by
    have := fitsTd_iff.mp hfits
    omega
  have hstored : storedToggle dev pipe < 2 := by
    unfold storedToggle
    split <;> decide
  have hdata : ∀ {toggle : BitVec 32} (control : Bool) (next : HcPtr), toggle.toNat < 2 →
      ((stageTd (dataToken toggle length control pipe) (some (buffer, length))).linked next).Does
        ⟨dataPid pipe, toggle.toNat, length, some buffer, if control then 0 else 1⟩ :=
    fun control next htoggle => stageTd_does hfits rfl (decode_dataToken htoggle hlength control pipe) next
  unfold Dma.withChain builtStages
  cases req with
  | none =>
    dsimp only
    rw [← toNat_gettoggle] at hstored ⊢
    have hbulk := hdata false .terminate hstored
    rw [stageTd_last] at hbulk
    exact ⟨[0], .cons (.of_terminate (stageTd_qtNext _ _)), by decide, .cons hbulk .nil⟩
  | some req =>
    have hsetup : ∀ next, ((stageTd setupToken (some (req, 8))).linked next).Does
        ⟨.setup, 0, 8, some req, 0⟩ :=
      stageTd_does (fitsTd_iff.mpr (by omega)) rfl decode_setupToken
    have hstatus : ((stageTd (statusToken 1 pipe) none).linked .terminate).Does
        ⟨if usbPipein pipe ≠ 0 then .out else .in, 1, 0, none, 1⟩ := by
      apply stageTd_does (show FitsTd none from rfl) rfl
      rw [decode_statusToken]
      split <;> rfl
    have hlast := stageTd_qtNext (statusToken 1 pipe) none
    rw [stageTd_last] at hstatus
    dsimp only
    split
    . exact ⟨[0, 1, 2], .cons (.cons (.cons (.of_terminate hlast))), by decide,
        .cons (hsetup (.td 1)) (.cons (hdata true (.td 2) (by decide)) (.cons hstatus .nil))⟩
    . exact ⟨[0, 1], .cons (.cons (.of_terminate hlast)), by decide,
        .cons (hsetup (.td 1)) (.cons hstatus .nil)⟩

end

/-!
### `ehci_submit_async`
-/

section

variable {dev : UsbDevice} {parent : Option UsbDevice} {pipe buffer : BitVec 32} {length : Nat}
variable {req : Option (BitVec 32)} {e e' : Ehci} {m m' : Dma} {td : Fin 3}

theorem prepareAsync_withChain
    (hr : (prepareAsync dev parent pipe buffer length req).Run memWorld e m (.ok (some td, e')) m')
    : FitsTd (some (buffer, length)) ∧
      ∃ m₀ : Dma, m' = m₀.withChain dev pipe buffer length req := by
  cases parent with
  | none => exact absurd hr prepareAsync_none
  | some p =>
    obtain ⟨-, hsome⟩ := wp_run (memWorld_owned.wp_prepareAsync trivial) hr
    obtain ⟨hfits, hdma⟩ := hsome (by simp)
    exact ⟨hfits, _, hdma⟩

/--
The chain that gets linked is that of the transfer, except for a control transfer without data over a pipe for IN:
its STATUS stage has the wrong direction.
-/
theorem prepareAsync_goesThrough_iff
    (hr : (prepareAsync dev parent pipe buffer length req).Run memWorld e m (.ok (some td, e')) m')
    : GoesThrough m' (transferStages dev pipe buffer length req) ↔
        ¬(req ≠ none ∧ length = 0 ∧ usbPipein pipe ≠ 0) := by
  obtain ⟨hfits, m₀, rfl⟩ := prepareAsync_withChain hr
  have hbuilt : GoesThrough (m₀.withChain dev pipe buffer length req) _ := withChain_does hfits
  constructor
  . rintro hgoes ⟨hreq, rfl, hin⟩
    obtain ⟨r, rfl⟩ := Option.ne_none_iff_exists'.mp hreq
    have hpid := hgoes.codes_eq hbuilt
    have hin : ¬usbPipein pipe = 0#32 := hin
    simp [transferStages, builtStages, statusPid, hin, Pid.code] at hpid
  . intro h
    have heq : transferStages dev pipe buffer length req = builtStages dev pipe buffer length req := by
      unfold transferStages builtStages statusPid
      cases req with
      | none => rfl
      | some r =>
        by_cases hlength : length = 0
        . have hout : usbPipein pipe = 0 := by
            by_contra hin
            exact h ⟨by simp, hlength, hin⟩
          simp [hlength, hout]
        . simp [hlength]
    rw [heq]
    exact hbuilt

end

/-- A configuration that announces no bytes is read with a STATUS stage for OUT. -/
theorem empty_read_not_goesThrough
    : ∃ e m, (prepareAsync waitingDevice (some .zero) (usbRcvctrlpipe waitingDevice 0) 0 0 (some 0)).Run memWorld
          .boot ⟨.zero, .zero, fun _ => .zero⟩ (.ok (some 1, e)) m ∧
        ¬GoesThrough m (transferStages waitingDevice (usbRcvctrlpipe waitingDevice 0) 0 0 (some 0)) := by
  have hr := run_exec memHandler_serves
    (prepareAsync waitingDevice (some .zero) (usbRcvctrlpipe waitingDevice 0) 0 0 (some 0)) .boot
    ⟨.zero, .zero, fun _ => .zero⟩
  refine ⟨_, _, hr, ?_⟩
  obtain ⟨hfits, m₀, hm⟩ := prepareAsync_withChain hr
  have hbuilt : GoesThrough (m₀.withChain waitingDevice (usbRcvctrlpipe waitingDevice 0) 0 0 (some 0)) _ :=
    withChain_does hfits
  rw [hm]
  intro hgoes
  exact absurd (hgoes.codes_eq hbuilt) (by decide)

theorem prepareAsync_goesThrough_iff_read
    : ∃ e m, (prepareAsync waitingDevice (some .zero) (usbRcvctrlpipe waitingDevice 0) 0 18 (some 0)).Run memWorld
          .boot ⟨.zero, .zero, fun _ => .zero⟩ (.ok (some 2, e)) m ∧
        GoesThrough m (transferStages waitingDevice (usbRcvctrlpipe waitingDevice 0) 0 18 (some 0)) := by
  have hr := run_exec memHandler_serves
    (prepareAsync waitingDevice (some .zero) (usbRcvctrlpipe waitingDevice 0) 0 18 (some 0)) .boot
    ⟨.zero, .zero, fun _ => .zero⟩
  exact ⟨_, _, hr, (prepareAsync_goesThrough_iff hr).mpr (by simp)⟩

/-!
### Lengths
-/

def dataTd (req : Option (BitVec 32)) : Fin 3 := if req.isSome then 1 else 0

theorem withChain_dataTd {m : Dma} {dev : UsbDevice} {pipe buffer : BitVec 32} {length : Nat}
    {req : Option (BitVec 32)} (h : req = none ∨ 0 < length)
    : ((m.withChain dev pipe buffer length req).td (dataTd req)).qtToken =
        dataToken (if req = none then usbGettoggle dev (usbPipeendpoint pipe) (usbPipeout pipe) else 1) length
          req.isSome pipe := by
  unfold Dma.withChain
  cases req with
  | none => exact (fillBuffer_eq _ _).2.2
  | some req =>
    have hlength : length > 0 := h.resolve_left (by simp)
    dsimp only
    rw [if_pos hlength]
    exact (fillBuffer_eq _ _).2.2

/--
`ehci_td_buffer` accepts what fits on five pages, the controller finds each byte where it is, and no length that
gets submitted runs into the toggle.
-/
theorem ehciTdBuffer_exact (td : QTD) (addr : BitVec 32) (sz : Nat)
    : ((ehciTdBuffer td addr sz).2 = 0 ↔ sz ≤ 5 * 4096 - addr.toNat % 4096) ∧
      ((ehciTdBuffer td addr sz).2 = 0 → (ehciTdBuffer td addr sz).1.Maps addr sz ∧ sz < 2 ^ 15) ∧
      ∀ {dev : UsbDevice} {parent : Option UsbDevice} {pipe : BitVec 32} {req : Option (BitVec 32)} {e e' : Ehci}
        {m m' : Dma} {last : Fin 3},
        (prepareAsync dev parent pipe addr sz req).Run memWorld e m (.ok (some last, e')) m' →
        req = none ∨ 0 < sz →
        (Token.decode (m'.td (dataTd req)).qtToken).totalBytes = sz ∧
          (Token.decode (m'.td (dataTd req)).qtToken).toggle = if req = none then storedToggle dev pipe else 1 := by
  have hlt : (ehciTdBuffer td addr sz).2 = 0 → sz < 2 ^ 15 := by
    intro h
    have := ehciTdBuffer_eq_zero_iff.mp h
    omega
  refine ⟨ehciTdBuffer_eq_zero_iff, fun h => ⟨ehciTdBuffer_maps h, hlt h⟩, ?_⟩
  intro dev parent pipe req e e' m m' last hr hdata
  obtain ⟨hfits, m₀, rfl⟩ := prepareAsync_withChain hr
  have hsz := fitsTd_iff.mp hfits
  have hstored : storedToggle dev pipe < 2 := by
    unfold storedToggle
    split <;> decide
  rw [withChain_dataTd hdata]
  cases req with
  | none =>
    rw [if_pos rfl, if_pos rfl, decode_dataToken (by rw [toNat_gettoggle]; exact hstored) (by omega)]
    exact ⟨rfl, toNat_gettoggle dev pipe⟩
  | some req =>
    rw [if_neg (by simp), if_neg (by simp), decode_dataToken (by decide) (by omega)]
    exact ⟨rfl, rfl⟩

theorem ehciTdBuffer_exact_unaligned
    : (ehciTdBuffer .zero 0x1ffc 16388).2 = 0 ∧ (ehciTdBuffer .zero 0x1ffc 16388).1.Maps 0x1ffc 16388 := by
  have h := ehciTdBuffer_exact .zero 0x1ffc 16388
  have hzero := h.1.mpr (by decide)
  exact ⟨hzero, (h.2.1 hzero).1⟩
