import PureUsb.Ehci.Lemmas.Bus
import PureUsb.Ehci.Lemmas.Token

/-!
This module contains what a transfer over the asynchronous schedule does to the data toggles on both sides.
-/

open Stateful

/-- The toggles that the driver keeps are those of the device. -/
def Agrees (d : UsbDevice) (toggle : Toggles) : Prop :=
  ∀ out (ep : Fin 16), ep ≠ 0 → (d.toggle out).getLsbD ep = toggle out ep

def pipeEndpoint (pipe : BitVec 32) : Fin 16 := Fin.ofNat 16 (usbPipeendpoint pipe).toNat

@[simp]
theorem val_pipeEndpoint (pipe : BitVec 32) : (pipeEndpoint pipe : Nat) = (usbPipeendpoint pipe).toNat := by
  unfold pipeEndpoint
  rw [Fin.val_ofNat, Nat.mod_eq_of_lt (usbPipeendpoint_lt pipe)]

theorem endpoint_of_endpt1 {m : Dma} {dev : UsbDevice} {pipe : BitVec 32}
    (h : m.qh.qhEndpt1 = qhEndpt1 dev pipe)
    : m.endpoint = pipeEndpoint pipe := by
  unfold Dma.endpoint
  rw [h, endpoint_qhEndpt1]
  rfl

theorem usbPipein_eq (pipe : BitVec 32) : usbPipein pipe = 0 ∨ usbPipein pipe = 1 := by
  have hlt : (usbPipein pipe).toNat < 2 := by
    unfold usbPipein
    rw [BitVec.toNat_and]
    exact Nat.and_lt_two_pow _ (n := 1) (by decide)
  rw [BitVec.toNat_eq, BitVec.toNat_eq]
  show (usbPipein pipe).toNat = 0 ∨ (usbPipein pipe).toNat = 1
  omega

theorem usbPipeout_eq (pipe : BitVec 32) : usbPipeout pipe = if usbPipein pipe ≠ 0 then 0 else 1 := by
  unfold usbPipeout
  change Fin.ofNat 2 (usbPipein pipe ^^^ 1).toNat = _
  rcases usbPipein_eq pipe with h | h
  . rw [h]
    rfl
  . rw [h]
    rfl

section

variable {endpoints : InterfaceEndpoints} {stall : Bool} {dev : UsbDevice} {parent : Option UsbDevice}
variable {pipe buffer : BitVec 32} {length : Nat} {e : Ehci} {s : Bus}

theorem wp_ehciSubmitAsync_bus {endpoints : InterfaceEndpoints} {req : Option DevRequest} {stall : Bool}
    {dev : UsbDevice} {parent : Option UsbDevice} {pipe buffer : BitVec 32} {length : Nat}
    {setup : Option (BitVec 32)} {e : Ehci} {s : Bus} (hidle : s.agent.Idle)
    : wp (busWorld endpoints req stall) (ehciSubmitAsync dev parent pipe buffer length setup)
        (fun r _ t =>
          0 ≤ r.1 →
            Agent.Inv (chainTokens dev pipe length setup) t.agent ∧
            t.agent.stalled = t.agent.dma.ready.isSome ∧
            r.2 = completeAsync dev pipe length t.agent.dma.qh.qhOverlay.qtToken ∧ t.agent.Quiet)
        (fun _ _ => True) e s :=
  wp_map (f := Bus.agent) (fun _ _ _ _ hw => Bus.busWorld_agent hw)
    (wp_ehciSubmitAsync_agent (E := fun _ _ => True) hidle fun _ _ => trivial)

def bulkToken (dev : UsbDevice) (pipe : BitVec 32) (length : Nat) : BitVec 32 :=
  dataToken (usbGettoggle dev (usbPipeendpoint pipe) (usbPipeout pipe)) length false pipe

theorem bulkToken_direction (dev : UsbDevice) (pipe : BitVec 32) (length : Nat)
    : usbPipeout pipe = if (bulkToken dev pipe length).getLsbD 8 then 0 else 1 := by
  unfold bulkToken
  rw [direction_dataToken, usbPipeout_eq]
  simp

theorem bulkToken_toggle {dev : UsbDevice} {pipe : BitVec 32} {length : Nat} (h : length ≤ 20480)
    : tokenToggle (bulkToken dev pipe length) =
        (dev.toggle (usbPipeout pipe)).getLsbD (pipeEndpoint pipe) := by
  unfold bulkToken
  rw [tokenToggle_dataToken (Nat.lt_of_le_of_lt h (by decide)), getLsbD_gettoggle, val_pipeEndpoint]

section

variable (dev : UsbDevice) (pipe : BitVec 32) (length : Nat) {token : BitVec 32}

theorem completeAsync_eq
    : completeAsync dev pipe length token =
        { dev with
          status := (completeAsync dev pipe length token).status
          actLen := (completeAsync dev pipe length token).actLen
          toggle := (completeAsync dev pipe length token).toggle } := by
  unfold completeAsync
  split
  . split <;> rfl
  . rfl

theorem toggle_completeAsync (h : token &&& tokenFlags = 0)
    : (completeAsync dev pipe length token).toggle =
        (usbSettoggle dev (usbPipeendpoint pipe) (usbPipeout pipe) (token >>> 31)).toggle := by
  unfold completeAsync
  rw [if_pos (active_of_flags h), if_pos h]

theorem getLsbD_completeAsync_self (h : token &&& tokenFlags = 0)
    : ((completeAsync dev pipe length token).toggle (usbPipeout pipe)).getLsbD (pipeEndpoint pipe) =
        tokenToggle token := by
  have hlt := usbPipeendpoint_lt pipe
  rw [toggle_completeAsync dev pipe length h, val_pipeEndpoint, usbSettoggle_self _ _ _ (by omega),
    BitVec.getLsbD_ushiftRight]
  rfl

theorem getLsbD_completeAsync_other (h : token &&& tokenFlags = 0) {out : Fin 2} {ep : Fin 16}
    (hother : out ≠ usbPipeout pipe ∨ ep ≠ pipeEndpoint pipe)
    : ((completeAsync dev pipe length token).toggle out).getLsbD ep = (dev.toggle out).getLsbD ep := by
  have hbit : (token >>> 31).toNat < 2 := by
    rw [BitVec.toNat_ushiftRight, Nat.shiftRight_eq_div_pow]
    omega
  rw [toggle_completeAsync dev pipe length h]
  apply usbSettoggle_other _ hbit
  rw [← val_pipeEndpoint]
  exact hother.imp_right fun hne hf => hne (Fin.ext hf)

end

/-- What a bulk transfer without errors leaves. -/
structure BulkToggles (dev : UsbDevice) (pipe : BitVec 32) (toggle : Toggles) (d : UsbDevice) (t : Bus)
    : Prop where
  quiet : t.agent.Quiet
  rest : d = { dev with status := d.status, actLen := d.actLen, toggle := d.toggle }
  agrees : Agrees dev toggle → Agrees d t.toggle
  other : ∀ out (ep : Fin 16), out ≠ usbPipeout pipe ∨ ep ≠ pipeEndpoint pipe →
    (d.toggle out).getLsbD ep = (dev.toggle out).getLsbD ep

theorem wp_ehciSubmitAsync_bulk (hidle : s.agent.Idle) (hstatus : dev.status = usbStNotProc)
    : wp (busWorld endpoints none stall) (ehciSubmitAsync dev parent pipe buffer length none)
        (fun r _ t =>
          0 ≤ r.1 → r.2.status = 0 → t.agent.stalled = false → BulkToggles dev pipe s.toggle r.2 t)
        (fun _ _ => True) e s := by
  have hquiet : s.agent.Quiet := ⟨hidle.ase, hidle.ass⟩
  have htracked : Bus.Tracked endpoints none stall
      (Bus.Bulk (bulkToken dev pipe length) (usbPipeout pipe) (pipeEndpoint pipe) s.toggle) :=
    Bus.Bulk.tracked (bulkToken_direction dev pipe length)
  apply wp_mono (wp_and (wp_ehciSubmitAsync_bus hidle)
    (Bus.wp_ehciSubmitAsync_tracked hquiet (htracked.and (length ≤ 20480)) ?_))
  . rintro ⟨ret, d⟩ e' t ⟨h, hbulk⟩ hret hzero hstalled
    obtain ⟨-, hready, hdev, hquiet⟩ := h hret
    obtain ⟨hbulk, hlength⟩ := hbulk hret
    rw [hstalled] at hready
    have hdev : d = _ := hdev
    have hzero : d.status = 0 := hzero
    rw [hdev, status_completeAsync_eq_zero_iff hstatus] at hzero
    have hcount := hbulk.finished hready.symm hzero
    refine ⟨hquiet, ?_, fun hagrees => ?_, ?_⟩
    . show d = _
      rw [hdev]
      exact completeAsync_eq dev pipe length
    . intro out ep hep
      show (d.toggle out).getLsbD ep = t.toggle out ep
      have hcount : t.toggle = _ := hcount
      by_cases heq : out = usbPipeout pipe ∧ ep = pipeEndpoint pipe
      . obtain ⟨rfl, rfl⟩ := heq
        rw [hcount, if_neg hep, hdev, getLsbD_completeAsync_self dev pipe length hzero, Toggles.flip_self,
          bulkToken_toggle hlength, hagrees _ _ hep]
        have hxor : ∀ b c : Bool, b = xor c (xor b c) := by decide
        apply hxor
      . have hother : out ≠ usbPipeout pipe ∨ ep ≠ pipeEndpoint pipe := not_and_or.mp heq
        have hkept : t.toggle out ep = s.toggle out ep := by
          rw [hcount]
          split
          . rfl
          . exact Toggles.flip_other _ _ _ _ hother
        rw [hdev, getLsbD_completeAsync_other dev pipe length hzero hother, hagrees _ _ hep, hkept]
    . intro out ep hother
      show (d.toggle out).getLsbD ep = _
      rw [hdev, getLsbD_completeAsync_other dev pipe length hzero hother]
  . exact fun _ _ _ => trivial
  . rintro t ⟨hbuilt, hendpt1, htoggle⟩ hfits
    refine ⟨⟨endpoint_of_endpt1 hendpt1, ?_, fun _ _ _ => htoggle, ?_, ?_⟩, hfits rfl⟩
    . exact hbuilt.built.inv (chainTokens_length_le dev pipe length none) chainTokens_active
        (hbuilt.moved.trans hidle.moved) (hbuilt.erred.trans hidle.erred)
    . intro hactive
      unfold Bus.Active at hactive
      rw [hbuilt.built.overlay] at hactive
      exact absurd (by decide) hactive
    . rw [hbuilt.moved, hidle.moved]
      exact fun hf => absurd rfl hf

theorem exists_last_chainTokens (dev : UsbDevice) (pipe : BitVec 32) (length : Nat) (req : BitVec 32)
    : ∃ last : Fin 3, last + 1 = (chainTokens dev pipe length (some req)).length ∧
        (chainTokens dev pipe length (some req)).getD last 0 = statusToken 1 pipe := by
  unfold chainTokens
  dsimp only
  split
  . exact ⟨2, rfl, rfl⟩
  . exact ⟨1, rfl, rfl⟩

/-- What a control transfer leaves: the device has carried out the request if it succeeded. -/
structure ControlToggles (endpoints : InterfaceEndpoints) (stall : Bool) (setup : DevRequest)
    (dev : UsbDevice) (length : Nat) (toggle : Toggles) (d : UsbDevice) (t : Bus) : Prop where
  quiet : t.agent.Quiet
  rest : d = { dev with status := d.status, actLen := d.actLen, toggle := d.toggle }
  done : d.status = 0 →
    t.toggle = Toggles.after toggle endpoints (some setup) ∧ stall = false ∧ d.actLen = length
  failed : d.status ≠ 0 → t.toggle = toggle
  other : ∀ out (ep : Fin 16), ep ≠ 0 → (d.toggle out).getLsbD ep = (dev.toggle out).getLsbD ep

theorem wp_ehciSubmitAsync_control {setup : DevRequest} {req : BitVec 32} (hidle : s.agent.Idle)
    (hstatus : dev.status = usbStNotProc) (hep : pipeEndpoint pipe = 0)
    : wp (busWorld endpoints (some setup) stall) (ehciSubmitAsync dev parent pipe buffer length (some req))
        (fun r _ t =>
          0 ≤ r.1 → t.agent.stalled = false → t.agent.erred = false →
            ControlToggles endpoints stall setup dev length s.toggle r.2 t)
        (fun _ _ => True) e s := by
  have hquiet : s.agent.Quiet := ⟨hidle.ase, hidle.ass⟩
  obtain ⟨last, hlast, htoken⟩ := exists_last_chainTokens dev pipe length req
  have htracked : Bus.Tracked endpoints (some setup) stall
      (Bus.Control endpoints setup stall (chainTokens dev pipe length (some req)) last s.toggle) :=
    Bus.Control.tracked hlast
  apply wp_mono (wp_and (wp_ehciSubmitAsync_bus hidle)
    (Bus.wp_ehciSubmitAsync_tracked hquiet htracked ?_))
  . rintro ⟨ret, d⟩ e' t ⟨h, hcontrol⟩ hret hstalled herred
    obtain ⟨hinv, hready, hdev, hquiet⟩ := h hret
    have hcontrol := hcontrol hret
    rw [hstalled] at hready
    have hdev : d = _ := hdev
    show ControlToggles endpoints stall setup dev length s.toggle d t
    refine ⟨hquiet, ?_, ?_, ?_, ?_⟩
    . rw [hdev]
      exact completeAsync_eq dev pipe length
    . intro hzero
      rw [hdev, status_completeAsync_eq_zero_iff hstatus] at hzero
      have hexec := (Agent.Inv.executed_iff hinv hzero).mpr ⟨hready.symm, herred⟩
      have hmoved := (hexec last (by omega)).1
      obtain ⟨htoggle, hstall⟩ := hcontrol.done hmoved
      obtain ⟨hc, hidle⟩ := hinv.ended hlast hmoved
      obtain ⟨n, -, hbytes⟩ := hc.done last (by omega)
      rw [← hidle.last last hlast, htoken, tokenBytes_statusToken] at hbytes
      refine ⟨htoggle, hstall, ?_⟩
      rw [hdev]
      unfold completeAsync
      rw [if_pos (active_of_flags hzero)]
      show (length : Int) - (tokenBytes t.agent.dma.qh.qhOverlay.qtToken : Nat) = length
      omega
    . intro hfailed
      rw [hdev, ne_eq, status_completeAsync_eq_zero_iff hstatus] at hfailed
      apply hcontrol.waiting
      by_contra hmoved
      obtain ⟨hc, hidle⟩ := hinv.ended hlast hmoved
      rw [hidle.last last hlast] at hfailed
      exact hfailed (hc.clean.mp herred last (by omega))
    . intro out ep hne
      rw [hdev]
      apply (afterTransfer_completeAsync _).toggle
      rw [← val_pipeEndpoint, hep]
      exact fun hf => hne (Fin.ext hf)
  . exact fun _ _ _ => trivial
  . rintro t ⟨hbuilt, hendpt1, htoggle⟩ -
    refine ⟨(endpoint_of_endpt1 hendpt1).trans hep, ?_, fun _ => htoggle, ?_⟩
    . exact hbuilt.built.inv (chainTokens_length_le dev pipe length _) chainTokens_active
        (hbuilt.moved.trans hidle.moved) (hbuilt.erred.trans hidle.erred)
    . rw [hbuilt.moved, hidle.moved]
      exact fun hf => absurd rfl hf

end
