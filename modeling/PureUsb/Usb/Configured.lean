import PureUsb.Usb.DeviceTable
import PureUsb.Usb.Lemmas.Trace

/-!
This module contains what a device has gone through when `usb_scan_device` returns 0.
-/

open Stateful

/-- `usb_parse_config` returns 1 for `buffer`, wherever it stores what it finds. -/
def Accepted (buffer : Bytes 512) : Prop :=
  ∀ {M : Type} (m : ConfigMem M) (mem mem' : M) (ret : Int),
    parseConfig m buffer mem = .ok (ret, mem') → ret = 1

theorem parseHeader_eq_none {M : Type} {m : ConfigMem M} {buffer : Bytes 512} {mem : M}
    (h : parseHeader m buffer mem = .ok none)
    : buffer.byte 1 ≠ usbDtConfig := by
  intro htype
  unfold parseHeader at h
  rw [rd_eq, if_pos (by decide), Except.ok_bind, if_neg (not_not.mpr htype), rd_eq,
    if_pos (by decide), Except.ok_bind] at h
  cases hbytes : rdRange buffer 0 (buffer.byte 0).toNat with
  | error e =>
    rw [hbytes] at h
    cases h
  | ok bytes =>
    rw [hbytes, Except.ok_bind] at h
    cases hcopy : m.copy mem (.desc 0) bytes with
    | error e =>
      rw [hcopy] at h
      cases h
    | ok mem =>
      rw [hcopy, Except.ok_bind] at h
      cases hst : m.st mem .noOfIf 0 with
      | error e =>
        rw [hst] at h
        cases h
      | ok mem =>
        rw [hst, Except.ok_bind] at h
        cases hld : m.ld mem (.desc 0) with
        | error e =>
          rw [hld] at h
          cases h
        | ok index =>
          rw [hld] at h
          cases h

theorem accepted_iff {buffer : Bytes 512} : Accepted buffer ↔ buffer.byte 1 = usbDtConfig := by
  constructor
  . intro h
    by_contra htype
    have hnone : parseConfig strictMem buffer .zero = .ok (-1, .zero) := by
      unfold parseConfig
      rw [parseHeader_none _ _ htype]
      rfl
    exact absurd (h _ _ _ _ hnone) (by decide)
  . intro htype M m mem mem' ret h
    unfold parseConfig at h
    cases hheader : parseHeader m buffer mem with
    | error e =>
      rw [hheader] at h
      cases h
    | ok r =>
      rw [hheader] at h
      cases r with
      | none => exact absurd htype (parseHeader_eq_none hheader)
      | some s =>
        dsimp only [Bind.bind, Except.bind] at h
        split at h
        . cases h
        . cases h
          rfl

def announced (buffer : Bytes 512) : Nat := le16 (buffer 2) (buffer 3)

/--
The configuration descriptor was read twice, into `tmpbuf`, and the second read returned as many
bytes as the first announced, which fit in `tmpbuf`. `usb_parse_config` accepted what was there. The
only SET_CONFIGURATION was for the `bConfigurationValue` in these bytes, and it succeeded.
-/
structure ConfiguredBy {σ : Type} (l : List (HcdEvent σ)) (first second set : Exchange)
    (header buffer : Bytes 512) : Prop where
  reads : configReads l = [first, second]
  stored : ∃ tmpbuf : Bytes 512, header = tmpbuf.write 0 first.answer.data
  requested : second.setup.length = BitVec.ofNat 16 (announced header)
  complete : second.answer.result = announced header
  announced_le : announced header ≤ usbBufsiz
  filled : buffer = header.write 0 second.answer.data
  parsed : parsedBuffers l = [buffer]
  accepted : Accepted buffer
  sets : configurations l = [set]
  value : set.setup.value = (buffer 5).setWidth 16
  succeeded : set.answer.result = 0

def Configured {σ : Type} (l : List (HcdEvent σ)) : Prop :=
  ∃ first second set header buffer, ConfiguredBy l first second set header buffer

/--
What the device has to do for that: it answers both reads of the configuration with all the bytes
that are asked for, and these are a configuration descriptor that either is long enough to have a
`bConfigurationValue` or has a 0 in its place.
-/
structure AnswersFully {σ : Type} (l : List (HcdEvent σ)) : Prop where
  twice : (configReads l).length = 2
  complete : ∀ e ∈ configReads l, e.answer.result = e.setup.length.toNat
  value : ∀ buffer ∈ parsedBuffers l, buffer 1 = usbDtConfig ∧ (5 < (buffer 0).toNat ∨ buffer 5 = 0)

instance {σ : Type} (l : List (HcdEvent σ)) : Decidable (AnswersFully l) :=
  haveI : Decidable (∀ buffer ∈ parsedBuffers l,
      buffer 1 = usbDtConfig ∧ (5 < (buffer 0).toNat ∨ buffer 5 = 0)) := List.decidableBAll _ _
  decidable_of_iff ((configReads l).length = 2 ∧
      (∀ e ∈ configReads l, e.answer.result = e.setup.length.toNat) ∧
      ∀ buffer ∈ parsedBuffers l, buffer 1 = usbDtConfig ∧ (5 < (buffer 0).toNat ∨ buffer 5 = 0))
    ⟨fun ⟨h1, h2, h3⟩ => ⟨h1, h2, h3⟩, fun h => ⟨h.twice, h.complete, h.value⟩⟩

section

variable {σ : Type} {fits : Bytes 512 → Prop} {dev : Fin 32} {c : Bytes 1002} {u : Usb}
variable {s : σ × List (HcdEvent σ)} {reads sets : List Exchange} {parsed : List (Bytes 512)}

/-- `config` of `dev`, and what there is in the trace. -/
structure Traced (dev : Fin 32) (c : Bytes 1002) (reads : List Exchange) (parsed : List (Bytes 512))
    (sets : List Exchange) (u : Usb) (s : σ × List (HcdEvent σ)) : Prop where
  config : (u.usbDev dev).config = c
  seen : Seen s.2 reads parsed sets

theorem Traced.setDev (h : Traced dev c reads parsed sets u s) {p : Fin 32} {d : UsbDevice}
    (hd : d.config = (u.usbDev p).config)
    : Traced dev c reads parsed sets (u.setDev p d) s := by
  refine ⟨?_, h.seen⟩
  by_cases hp : dev = p
  . subst hp
    rw [Usb.setDev_same, hd, h.config]
  . rw [Usb.setDev_ne _ _ hp, h.config]

theorem wp_usbControlMsg_traced (h : Traced dev c reads parsed sets u s) {p : Fin 32}
    {pipe : BitVec 32} {request requesttype : Byte} {value index size : BitVec 16} {data : Buffer}
    {timeout : Nat} (htimeout : timeout ≠ 0)
    : wp (deviceWorld σ fits).traced
        (usbControlMsg p pipe request requesttype value index data size timeout)
        (fun r v t => ∃ answer : Submitted, r = (answer.result, answer.data) ∧
          answer.result ≤ size.toNat ∧
          let setup : DevRequest := ⟨requesttype, request, value, index, size⟩
          Traced dev c (reads ++ if setup.ReadsConfig then [⟨setup, answer⟩] else []) parsed
            (sets ++ if setup.Configures then [⟨setup, answer⟩] else []) v t)
        (fun _ _ => True) u s := by
  rw [wp_usbControlMsg htimeout]
  rintro setup x ⟨t, l⟩
  refine ⟨?_, fun _ _ => trivial⟩
  rintro r ⟨hr, hl⟩
  have hr : r.Allowed x := hr
  refine ⟨r, rfl, hr.result_le, ?_⟩
  have h : Traced dev c reads parsed sets (u.waiting p setup) s :=
    Traced.setDev (u := { u with setupPacket := setup }) ⟨h.config, h.seen⟩ rfl
  have h := h.setDev hr.dev.sameLinks.config
  refine ⟨h.config, ?_⟩
  rw [show l = _ from hl]
  exact h.seen.submit rfl

theorem wp_usbControlMsg_other (h : Traced dev c reads parsed sets u s) {p : Fin 32}
    {pipe : BitVec 32} {request requesttype : Byte} {value index size : BitVec 16} {data : Buffer}
    {timeout : Nat} (htimeout : timeout ≠ 0)
    (hread : ¬DevRequest.ReadsConfig ⟨requesttype, request, value, index, size⟩)
    (hset : ¬DevRequest.Configures ⟨requesttype, request, value, index, size⟩)
    : wp (deviceWorld σ fits).traced
        (usbControlMsg p pipe request requesttype value index data size timeout)
        (fun r v t => Traced dev c reads parsed sets v t ∧ r.1 ≤ size.toNat)
        (fun _ _ => True) u s := by
  refine wp_post (wp_usbControlMsg_traced h htimeout) ?_
  rintro r v t ⟨answer, rfl, hle, h⟩
  dsimp only at h
  rw [if_neg hread, if_neg hset, List.append_nil, List.append_nil] at h
  exact ⟨h, hle⟩

theorem frame_traced (p : Fin 32)
    : Frame (deviceWorld σ fits).traced (Traced dev c reads parsed sets) (fun _ _ => True) p where
  stack {u s n} h := by
    rintro ⟨t, l⟩
    refine ⟨?_, fun _ _ => trivial⟩
    rintro b ⟨-, hl⟩
    refine ⟨h.config, ?_⟩
    rw [show l = _ from hl]
    exact h.seen.stack
  msg h _ htimeout hroutine :=
    wp_usbControlMsg_other h htimeout hroutine.2 fun hf => hroutine.1 hf.1
  texts _ _ _ _ _ h := h.setDev rfl

theorem scanRule_traced (addr : Int)
    : ScanRule (deviceWorld σ fits).traced (fun _ _ => True) dev addr
        (Traced dev c reads parsed sets) (Traced dev c reads parsed sets) where
  frameA := frame_traced dev
  frameB := frame_traced dev
  parent _ _ := frame_traced _
  fault _ _ := trivial
  packetsA _ _ _ _ h _ _ _ := h.setDev rfl
  address {u s} h := by
    have h := h.setDev (d := { u.usbDev dev with devnum := addr }) rfl
    unfold usbSetAddress
    rw [wp_bind, wp_getDev, wp_bind]
    refine wp_post (wp_usbControlMsg_other h (by decide)
      (DevRequest.not_readsConfig (by decide)) (DevRequest.not_configures (by decide))) ?_
    exact fun _ _ _ h => h.1
  descriptorB _ h := h.setDev rfl

/-- What `usb_get_configuration_no` leaves in the trace. -/
inductive ConfigRead (l : List Exchange) (buffer : Bytes 512) : Prop where
  | once (first : Exchange) : l = [first] → ConfigRead l buffer
  | twice (first second : Exchange) (tmpbuf : Bytes 512) :
      l = [first, second] → first.answer.result = 9 → first.setup.length = 9 →
      announced (tmpbuf.write 0 first.answer.data) ≤ usbBufsiz →
      second.setup.length = BitVec.ofNat 16 (announced (tmpbuf.write 0 first.answer.data)) →
      buffer = (tmpbuf.write 0 first.answer.data).write 0 second.answer.data →
      ConfigRead l buffer

theorem wp_usbGetDescriptor_config (h : Traced dev c reads parsed sets u s) (index : Byte)
    (size : Nat)
    : wp (deviceWorld σ fits).traced (usbGetDescriptor dev usbDtConfig index .tmpbuf size)
        (fun r v t => ∃ e : Exchange, r = (e.answer.result, e.answer.data) ∧
          e.setup.length = BitVec.ofNat 16 size ∧ e.answer.result ≤ (BitVec.ofNat 16 size).toNat ∧
          Traced dev c (reads ++ [e]) parsed sets v t)
        (fun _ _ => True) u s := by
  unfold usbGetDescriptor
  rw [wp_bind, wp_getDev]
  refine wp_post (wp_usbControlMsg_traced h (by decide)) ?_
  rintro r v t ⟨answer, rfl, hle, h⟩
  dsimp only at h
  rw [if_pos (DevRequest.readsConfig_descriptor ..), if_neg (DevRequest.not_configures (by decide)),
    List.append_nil] at h
  exact ⟨⟨_, answer⟩, rfl, rfl, hle, h⟩

theorem wp_usbGetConfigurationNo_traced (h : Traced dev c [] parsed sets u s) (tmpbuf : Bytes 512)
    (cfgno : Byte)
    : wp (deviceWorld σ fits).traced (usbGetConfigurationNo dev tmpbuf cfgno)
        (fun r v t => ∃ reads, Traced dev c reads parsed sets v t ∧ ConfigRead reads r.2)
        (fun _ _ => True) u s := by
  unfold usbGetConfigurationNo
  rw [wp_bind]
  refine wp_post (wp_usbGetDescriptor_config h cfgno 9) ?_
  rintro r v t ⟨first, rfl, hlen, hle, h⟩
  dsimp only
  split
  . exact ⟨_, h, .once first rfl⟩
  . next hge =>
    split
    . exact ⟨_, h, .once first rfl⟩
    . next htotal =>
      rw [wp_bind]
      refine wp_post (wp_usbGetDescriptor_config h cfgno _) ?_
      rintro r v t ⟨second, rfl, hlen', -, h⟩
      refine ⟨_, h, .twice first second tmpbuf rfl ?_ hlen (Nat.le_of_not_lt htotal) hlen' rfl⟩
      have hle : first.answer.result ≤ 9 := hle
      omega

theorem wp_usbParseConfig_traced (h : Traced dev .zero reads parsed sets u s) (buffer : Bytes 512)
    : wp (deviceWorld σ ConfigFits).traced (usbParseConfig dev buffer 0)
        (fun _ v t => ∃ c, Traced dev c reads (parsed ++ [buffer]) sets v t ∧
          (buffer.byte 1 = usbDtConfig → c.byte 5 = descField buffer 0 5))
        (fun _ _ => True) u s := by
  apply wp_usbParseConfig_fits h.config
  rintro ⟨t, l⟩
  refine ⟨?_, fun _ _ => trivial⟩
  rintro _ ⟨hfits, hl⟩
  have hfits : ConfigFits buffer := hfits
  refine ⟨rfl, hfits, fun _ => trivial, fun ret c hstrict => ⟨c, ⟨?_, ?_⟩, fun htype => ?_⟩⟩
  . rw [Usb.setDev_same]
    rfl
  . rw [show l = _ from hl]
    exact h.seen.parsing
  . obtain ⟨-, t, s, -, -, hcounts, rfl⟩ := parseConfig_counts hfits htype hstrict
    exact hcounts.desc 5 (by decide)

theorem wp_usbSetMaxpacket_traced (h : Traced dev c reads parsed sets u s)
    : wp (deviceWorld σ fits).traced (usbSetMaxpacket dev)
        (fun _ v t => Traced dev c reads parsed sets v t) (fun _ _ => True) u s := by
  unfold usbSetMaxpacket
  rw [wp_bind, wp_get, wp_bind]
  cases hvisited : configEndpoints (tableMem dev u.usbDevAddr) u.usbDev with
  | error x => exact trivial
  | ok eps =>
    rw [wp_ofExcept_ok, wp_bind, wp_modifyDev]
    obtain ⟨epin, epout, heps, -⟩ := foldl_usbSetMaxpacketEp (u.usbDev dev) (wMaxPacketSize_lt hvisited)
    rw [heps]
    exact h.setDev rfl

theorem wp_usbSetConfiguration_traced (h : Traced dev c reads parsed [] u s) (value : Byte)
    : wp (deviceWorld σ fits).traced (usbSetConfiguration dev value)
        (fun r v t => ∃ set : Exchange, set.setup.value = value.setWidth 16 ∧
          (r = 0 → set.answer.result = 0) ∧ Traced dev c reads parsed [set] v t)
        (fun _ _ => True) u s := by
  unfold usbSetConfiguration
  rw [wp_bind, wp_getDev, wp_bind]
  refine wp_post (wp_usbControlMsg_traced h (by decide)) ?_
  rintro r v t ⟨answer, rfl, -, h⟩
  dsimp only at h ⊢
  rw [if_neg (DevRequest.not_readsConfig (by decide)), if_pos ⟨rfl, rfl⟩, List.append_nil] at h
  split
  . exact ⟨⟨_, answer⟩, rfl, fun hf => absurd (show (-1 : Int) = 0 from hf) (by decide), h⟩
  . split
    . exact ⟨⟨_, answer⟩, rfl, fun hf => absurd (show (-1 : Int) = 0 from hf) (by decide), h⟩
    . next hneg hpos =>
      exact ⟨⟨_, answer⟩, rfl, fun _ => show answer.result = 0 by omega, h.setDev rfl⟩

/-- What there is in the trace when the device was reported as configured. -/
inductive Selected (l : List (HcdEvent σ)) : Prop where
  | mk {reads : List Exchange} {buffer : Bytes 512} {set : Exchange} :
      Seen l reads [buffer] [set] → ConfigRead reads buffer →
      (buffer.byte 1 = usbDtConfig → set.setup.value = (descField buffer 0 5).setWidth 16) →
      set.answer.result = 0 → Selected l

theorem wp_scanConfiguration_traced (h : Traced dev .zero [] [] [] u s) (tmpbuf : Bytes 512)
    : wp (deviceWorld σ ConfigFits).traced (scanConfiguration dev tmpbuf)
        (fun r _ t => r = 0 → Selected t.2) (fun _ _ => True) u s := by
  unfold scanConfiguration
  rw [wp_bind]
  refine wp_post (wp_usbGetConfigurationNo_traced h tmpbuf 0) ?_
  rintro ⟨_, buffer⟩ v t ⟨reads, h, hread⟩
  dsimp only at hread ⊢
  rw [wp_bind]
  refine wp_post (wp_usbParseConfig_traced h buffer) ?_
  rintro _ v t ⟨c, h, hvalue⟩
  rw [wp_bind]
  refine wp_post (wp_usbSetMaxpacket_traced h) fun _ v t h => ?_
  rw [wp_bind, wp_getDev, wp_bind]
  have hbyte : (v.usbDev dev).bConfigurationValue = c.byte 5 := by
    unfold UsbDevice.bConfigurationValue
    rw [h.config, Bytes.byte_of_lt c (by decide)]
    rfl
  rw [hbyte]
  refine wp_post (wp_usbSetConfiguration_traced h (c.byte 5)) ?_
  rintro r v t ⟨set, hset, hret, h⟩
  split
  . exact fun hf => absurd (show (-1 : Int) = 0 from hf) (by decide)
  . next hr =>
    rw [wp_bind]
    refine wp_post ((frame_traced dev).scansStrings h) fun _ v t h _ => ?_
    refine .mk h.seen hread (fun htype => ?_) (hret (not_not.mp hr))
    rw [hset, hvalue htype]

theorem wp_usbScanDevice_traced (h : Traced dev .zero [] [] [] u s)
    : wp (deviceWorld σ ConfigFits).traced (usbScanDevice dev)
        (fun r _ t => r = 0 → Selected t.2) (fun _ _ => True) u s := by
  have hrule : ScanRule (deviceWorld σ ConfigFits).traced (fun _ _ => True) dev
      (u.usbDev dev).devnum (Traced dev .zero [] [] []) (Traced dev .zero [] [] []) :=
    scanRule_traced _
  refine hrule.scanDevice rfl ?_ ?_ ?_ ?_
  . rintro ⟨t, l⟩
    refine ⟨?_, fun _ _ => trivial⟩
    rintro tmpbuf ⟨-, hl⟩
    have hseen : Seen l [] [] [] := by
      rw [show l = _ from hl]
      exact h.seen.stack
    exact ⟨rfl, Traced.setDev ⟨h.config, hseen⟩ rfl⟩
  . exact fun _ hf => absurd hf (by decide)
  . exact fun _ hf => absurd hf (by decide)
  . exact fun tmpbuf h => wp_scanConfiguration_traced h tmpbuf

end

theorem setWidth_descField {buffer : Bytes 512}
    : (descField buffer 0 5).setWidth 16 = (buffer 5).setWidth 16 ↔
        5 < (buffer 0).toNat ∨ buffer 5 = 0 := by
  have hfield : descField buffer 0 5 = if 5 < (buffer 0).toNat then buffer 5 else 0 := by
    unfold descField
    rw [Bytes.byte_of_lt _ (by decide), Bytes.byte_of_lt _ (by decide)]
    rfl
  have hinj : ∀ x y : Byte, x.setWidth 16 = y.setWidth 16 ↔ x = y := by
    intro x y
    constructor
    . intro h
      have := congrArg BitVec.toNat h
      apply BitVec.eq_of_toNat_eq
      simp only [BitVec.toNat_setWidth] at this
      omega
    . exact congrArg _
  rw [hinj, hfield]
  split
  . next h => simp [h]
  . next h => simp [h, eq_comm]

theorem Selected.configured_iff {σ : Type} {l : List (HcdEvent σ)} (h : Selected l)
    : Configured l ↔ AnswersFully l := by
  obtain ⟨hseen, hread, hvalue, hresult⟩ := h
  rename_i reads buffer set
  constructor
  . rintro ⟨first, second, set', header, buffer', h⟩
    cases hseen.parsed.symm.trans h.parsed
    cases hseen.sets.symm.trans h.sets
    have htype := accepted_iff.mp h.accepted
    have htotal : second.setup.length.toNat = announced header := by
      have := h.announced_le
      rw [h.requested, BitVec.toNat_ofNat]
      simp only [usbBufsiz] at this
      omega
    refine ⟨by rw [h.reads]; rfl, fun e he => ?_, fun b hb => ?_⟩
    . have hreads := hseen.reads.symm.trans h.reads
      cases hread with
      | once _ hl => cases hl.symm.trans hreads
      | twice _ _ _ hl hfirst hnine =>
        cases hl.symm.trans hreads
        rw [h.reads] at he
        rcases List.mem_cons.mp he with rfl | he
        . rw [hfirst, hnine]
          rfl
        . cases List.mem_singleton.mp he
          rw [h.complete, htotal]
    . rw [h.parsed] at hb
      cases List.mem_singleton.mp hb
      refine ⟨by rw [← htype, Bytes.byte_of_lt _ (by decide)]; rfl, ?_⟩
      exact setWidth_descField.mp ((hvalue htype).symm.trans h.value)
  . rintro ⟨htwice, hcomplete, hbuffer⟩
    obtain ⟨htype, hvalid⟩ := hbuffer buffer (by rw [hseen.parsed]; exact List.mem_singleton_self _)
    have htype : buffer.byte 1 = usbDtConfig := by
      rw [Bytes.byte_of_lt _ (by decide)]
      exact htype
    rw [hseen.reads] at htwice hcomplete
    cases hread with
    | once first hl =>
      rw [hl] at htwice
      cases htwice
    | twice first second tmpbuf hl hfirst hnine hle hlen hfilled =>
      have htotal : second.setup.length.toNat = announced (tmpbuf.write 0 first.answer.data) := by
        rw [hlen, BitVec.toNat_ofNat]
        simp only [usbBufsiz] at hle
        omega
      refine ⟨first, second, set, _, buffer, hseen.reads.trans hl, ⟨tmpbuf, rfl⟩, hlen, ?_, hle,
        hfilled, hseen.parsed, accepted_iff.mpr htype, hseen.sets, ?_, hresult⟩
      . rw [hcomplete second (by rw [hl]; simp), htotal]
      . rw [hvalue htype]
        exact setWidth_descField.mpr hvalid

/--
Whatever the device answers, when `usb_scan_device` returns 0 for a device that was just allocated,
the device is configured if and only if it answered fully.
-/
theorem usbScanDevice_configured_iff {σ : Type} {dev : Fin 32} {u v : Usb} {s t : σ}
    {l : List (HcdEvent σ)} (hnew : (u.usbDev dev).config = .zero)
    (hrun : (usbScanDevice dev).Run (deviceWorld σ ConfigFits).traced u (s, []) (.ok (0, v)) (t, l))
    : Configured l ↔ AnswersFully l :=
  (wp_run (wp_usbScanDevice_traced ⟨hnew, seen_nil⟩) hrun rfl).configured_iff

/-- A device in slot 1 that was just allocated, behind the first port of the hub in slot 0. -/
def attachedUsb : Usb :=
  { bootUsb with
    gDevIndex := 2
    usbDev := fun i =>
      if i = 0 then
        { UsbDevice.zero with devnum := 1, maxchild := 2, children := fun _ => .dev 1 }
      else if i = 1 then
        { UsbDevice.zero with devnum := 2, parent := .dev 0 }
      else
        .fresh }

/-- A device that refuses to send its configuration is reported as enumerated. -/
theorem no_configuration_not_configured
    : ¬∀ (dev : Fin 32) (u v : Usb) (s t : Bool) (l : List (HcdEvent Bool)),
        (u.usbDev dev).config = .zero →
        (usbScanDevice dev).Run (deviceWorld Bool ConfigFits).traced u (s, []) (.ok (0, v)) (t, l) →
        Configured l := by
  intro h
  obtain ⟨r, v, ⟨t, l⟩, hr, hp⟩ :=
    exists_run_of_check
      (World.tracedHandler_offers (plainHandler_offers true [] fun _ h => h.resolve_left (by decide)))
      (m := usbScanDevice 1) (u := attachedUsb) (s := (false, []))
      (p := fun r _ t => r = 0 ∧ (configReads t.2).length = 1) (by decide +kernel)
  obtain ⟨rfl, hlen⟩ := of_decide_eq_true hp
  obtain ⟨first, second, set, header, buffer, hconf⟩ := h 1 attachedUsb v false t l rfl hr
  rw [hconf.reads] at hlen
  cases hlen

theorem usbScanDevice_configured_iff_two_interfaces
    : ∃ (v : Usb) (t : Bool) (l : List (HcdEvent Bool)),
        (usbScanDevice 1).Run (deviceWorld Bool ConfigFits).traced attachedUsb (false, [])
          (.ok (0, v)) (t, l) ∧
        AnswersFully l ∧ Configured l := by
  obtain ⟨r, v, ⟨t, l⟩, hr, hp⟩ :=
    exists_run_of_check
      (World.tracedHandler_offers
        (plainHandler_offers true (interfaceList 2) fun _ h => h.resolve_left (by decide)))
      (m := usbScanDevice 1) (u := attachedUsb) (s := (false, []))
      (p := fun r _ t => r = 0 ∧ AnswersFully t.2) (by decide +kernel)
  obtain ⟨rfl, hfull⟩ := of_decide_eq_true hp
  exact ⟨v, t, l, hr, hfull, (usbScanDevice_configured_iff rfl hr).mpr hfull⟩
