import PureUsb.Usb.Configured

/-!
This module contains what `usb_hub_init` stores in `hubdescriptor` and when these stores stay in the
fields they are meant for.
-/

open Stateful

/-- What a store of `usb_hub_init` is meant for: all of `hubdescriptor`, or one of its fields. -/
inductive HubField where
  | descriptor
  | wHubCharacteristics
  | deviceRemovable
  | portPowerCtrlMask

namespace HubField

def offset : HubField → Nat
  | descriptor => 0
  | wHubCharacteristics => 3
  | deviceRemovable => 7
  | portPowerCtrlMask => 9

def size : HubField → Nat
  | descriptor => 11
  | wHubCharacteristics => 2
  | deviceRemovable => 2
  | portPowerCtrlMask => 2

end HubField

/-- `data` is stored from the first byte of `field` on. -/
structure HubStore where
  field : HubField
  data : List Byte

namespace HubStore

def InBounds (s : HubStore) : Prop := s.data.length ≤ s.field.size

def apply (base : BitVec 32) (dev : Fin 32) (t : UsbTable) (s : HubStore) : Except Stop UsbTable :=
  pokes t base (hubdescriptorAddr dev + s.field.offset) s.data

end HubStore

def storedPorts (old : Bytes 11) (buffer : Bytes 512) : Nat :=
  (old.write 0 (buffer.range 0 (buffer 0).toNat) 2).toNat

/-- The stores that `usb_hub_init` makes when `hubdescriptor` is `old`. -/
def hubStores (old : Bytes 11) (buffer : Bytes 512) : List HubStore :=
  let n := (storedPorts old buffer + 1 + 7) / 8
  [⟨.descriptor, buffer.range 0 (buffer 0).toNat⟩,
   ⟨.wHubCharacteristics, [buffer 3, buffer 4]⟩,
   ⟨.deviceRemovable, [0xff, 0xff]⟩,
   ⟨.portPowerCtrlMask, [0xff, 0xff]⟩,
   ⟨.deviceRemovable, buffer.range 7 n⟩,
   ⟨.deviceRemovable, buffer.range 9 n⟩]

/-- The bitmaps have two bytes, which is enough for 15 ports. -/
theorem hubStores_inBounds_iff {old : Bytes 11} {buffer : Bytes 512}
    : (∀ s ∈ hubStores old buffer, s.InBounds)
        ↔
      (buffer 0).toNat ≤ 11 ∧ storedPorts old buffer ≤ 15 := by
  unfold hubStores
  simp only [List.forall_mem_cons, HubStore.InBounds, HubField.size, Bytes.length_range,
    List.length_cons, List.length_nil]
  constructor
  . rintro ⟨hlen, -, -, -, hn, -⟩
    exact ⟨hlen, by omega⟩
  . rintro ⟨hlen, hports⟩
    exact ⟨hlen, by omega, by omega, by omega, by omega, by omega, fun _ h => nomatch h⟩

theorem storedPorts_eq {old : Bytes 11} {buffer : Bytes 512}
    : storedPorts old buffer = if 2 < (buffer 0).toNat then (buffer 2).toNat else (old 2).toNat := by
  unfold storedPorts
  split
  . next h =>
    rw [Bytes.write_apply (j := 2) old (by simpa using h) rfl, Bytes.getElem_range,
      Bytes.byte_of_lt _ (by decide)]
    rfl
  . next h =>
    rw [Bytes.write_apply_of_ge old (by rw [Bytes.length_range]; show 0 + _ ≤ 2; omega)]

/-!
### The stores are those of the source
-/

section

variable {t t' : UsbTable} {base : BitVec 32} {dev : Fin 32}

/-- There is one byte of padding behind `hubdescriptor`. -/
theorem setByte_padding {d : UsbDevice} {o : Nat} {b : Byte} (h : offsetofHubdescriptor + 11 ≤ o)
    : d.setByte base o b = d := by
  simp only [offsetofHubdescriptor] at h
  unfold UsbDevice.setByte
  simp (disch := omega) only [if_neg]

theorem poke_behind_hubdescriptor {o : Nat} {b : Byte} (ho : 11 ≤ o) (hle : o < sizeofUsbDevice)
    (h : poke t base (hubdescriptorAddr dev + o) b = .ok t')
    : (t' dev).hubdescriptor = (t dev).hubdescriptor := by
  have haddr : (hubdescriptorAddr dev + o : Int) = ((1364 * dev + (1352 + o) : Nat) : Int) := by
    unfold hubdescriptorAddr
    simp only [sizeofUsbDevice, offsetofHubdescriptor]
    omega
  rw [haddr] at h
  unfold poke at h
  rw [Int.toNat_natCast] at h
  split at h
  . cases h
    dsimp only
    split
    . next hslot =>
      rw [setByte_padding]
      simp only [sizeofUsbDevice, offsetofHubdescriptor] at *
      omega
    . rfl
  . cases h

theorem pokes_append (l l' : List Byte) {a : Int}
    : pokes t base a (l ++ l') = (do
        let t ← pokes t base a l
        pokes t base (a + l.length) l') := by
  induction l generalizing t a with
  | nil =>
    show _ = pokes t base (a + 0) l'
    rw [Int.add_zero]
    rfl
  | cons b l ih =>
    rw [List.cons_append, pokes, pokes]
    cases poke t base a b with
    | error e => simp only [Except.error_bind]
    | ok t =>
      rw [Except.ok_bind, Except.ok_bind]
      have hnext : a + ((b :: l).length : Nat) = a + 1 + (l.length : Nat) := by
        rw [List.length_cons]
        omega
      rw [ih, hnext]

theorem pokes_hubdescriptor_eq {o : Nat} {l : List Byte} (hl : o + l.length ≤ sizeofUsbDevice)
    (h : pokes t base (hubdescriptorAddr dev + o) l = .ok t')
    : (t' dev).hubdescriptor = (t dev).hubdescriptor.write o l := by
  induction l generalizing t o with
  | nil =>
    cases h
    rw [Bytes.write_nil]
  | cons b l ih =>
    rw [List.length_cons] at hl
    unfold pokes at h
    cases hpoke : poke t base (hubdescriptorAddr dev + o) b with
    | error e =>
      rw [hpoke] at h
      cases h
    | ok t1 =>
      rw [hpoke, Except.ok_bind, show hubdescriptorAddr dev + o + 1 = hubdescriptorAddr dev + (o + 1 : Nat)
        by omega] at h
      rw [ih (by omega) h, ← Bytes.write_cons]
      congr 1
      by_cases ho : o < 11
      . have hfield : poke t base (hubdescriptorAddr dev + o) b
            = .ok (ByteField.hubdescriptor.putAt t dev
                ((ByteField.hubdescriptor.get (t dev)).write o [b])) :=
          ByteField.hubdescriptor.poke_field b ho
        rw [hpoke] at hfield
        cases hfield
        rw [ByteField.putAt_same]
        rfl
      . rw [poke_behind_hubdescriptor (by omega) (by omega) hpoke]
        funext i
        rw [Bytes.write_apply_of_lt _ (by omega)]

theorem copyBitmaps_eq (buffer : Bytes 512) {bNbrPorts : Nat} (h : bNbrPorts < 256)
    : copyBitmaps buffer bNbrPorts =
        .ok (buffer.range 7 ((bNbrPorts + 1 + 7) / 8), buffer.range 9 ((bNbrPorts + 1 + 7) / 8)) := by
  unfold copyBitmaps
  dsimp only
  rw [rdRange_eq buffer (by decide), if_pos (by omega), rdRange_eq buffer (by decide),
    if_pos (by omega)]
  rfl

theorem copyHubDescriptor_eq_stores (buffer : Bytes 512)
    : copyHubDescriptor t base dev buffer =
        (hubStores (t dev).hubdescriptor buffer).foldlM (HubStore.apply base dev) t := by
  have hbyte := (buffer 0).isLt
  have hlen : 0 + (buffer.range 0 (buffer 0).toNat).length ≤ sizeofUsbDevice := by
    rw [Bytes.length_range]
    show 0 + _ ≤ 1364
    omega
  unfold copyHubDescriptor hubStores
  simp only [List.foldlM_cons, List.foldlM_nil, HubStore.apply, HubField.offset]
  generalize haddr : hubdescriptorAddr dev = addr
  have hstored : ∀ {o : Nat} {l : List Byte} {t t' : UsbTable}, o + l.length ≤ sizeofUsbDevice →
      pokes t base (addr + o) l = .ok t' →
      (t' dev).hubdescriptor = (t dev).hubdescriptor.write o l := by
    intro o l t t' hl h
    rw [← haddr] at h
    exact pokes_hubdescriptor_eq hl h
  rw [rdRange_eq buffer (by decide), if_pos (by omega), Except.ok_bind, Int.natCast_zero, Int.add_zero]
  cases hcopy : pokes t base addr (buffer.range 0 (buffer 0).toNat) with
  | error e => simp only [Except.error_bind]
  | ok t1 =>
    rw [Except.ok_bind, Except.ok_bind]
    cases hchar : pokes t1 base (addr + (3 : Nat)) [buffer 3, buffer 4] with
    | error e => simp only [Except.error_bind]
    | ok t2 =>
      have hmasks : pokes t2 base (addr + 7) [0xff, 0xff, 0xff, 0xff] = (do
          let t ← pokes t2 base (addr + (7 : Nat)) [0xff, 0xff]
          pokes t base (addr + (9 : Nat)) [0xff, 0xff]) := by
        have h9 : addr + 7 + ([0xff, 0xff] : List Byte).length = addr + (9 : Nat) := by
          simp only [List.length_cons, List.length_nil]
          omega
        rw [show ([0xff, 0xff, 0xff, 0xff] : List Byte) = [0xff, 0xff] ++ [0xff, 0xff] from rfl,
          pokes_append, h9]
        rfl
      rw [Except.ok_bind, Except.ok_bind, hmasks]
      cases hremovable : pokes t2 base (addr + (7 : Nat)) [0xff, 0xff] with
      | error e => simp only [Except.error_bind]
      | ok t3 =>
        rw [Except.ok_bind, Except.ok_bind]
        cases hpower : pokes t3 base (addr + (9 : Nat)) [0xff, 0xff] with
        | error e => simp only [Except.error_bind]
        | ok t4 =>
          -- the port count is not touched after the copy
          have hports : ((t4 dev).hubdescriptor 2).toNat = storedPorts (t dev).hubdescriptor buffer := by
            rw [hstored (by decide) hpower, hstored (by decide) hremovable,
              hstored (show 3 + 2 ≤ sizeofUsbDevice by decide) hchar,
              hstored (o := 0) hlen (by rw [Int.natCast_zero, Int.add_zero]; exact hcopy),
              Bytes.write_apply_of_lt _ (by decide), Bytes.write_apply_of_lt _ (by decide),
              Bytes.write_apply_of_lt _ (by decide)]
            rfl
          have hbound : storedPorts (t dev).hubdescriptor buffer < 256 := BitVec.isLt _
          rw [Except.ok_bind, Except.ok_bind, hports, copyBitmaps_eq buffer hbound, Except.ok_bind]
          simp only [bind_pure]
          rfl

end

/-!
### Runs of `usb_hub_init`
-/

def DevRequest.ReadsHubStatus (setup : DevRequest) : Prop :=
  setup.requesttype = usbDirIn ||| usbRtHub ∧ setup.request = usbReqGetStatus

section

variable {σ : Type}

def Event.copied? (e : HcdEvent σ) : Option (Bytes 512) :=
  match e with
  | ⟨_, .copyingHub _ buffer, _⟩ => some buffer
  | _ => none

def Event.HubStatus (e : HcdEvent σ) : Prop :=
  ∃ x ∈ e.exchange?, x.setup.ReadsHubStatus ∧ 0 ≤ x.answer.result

def copiedBuffers (l : List (HcdEvent σ)) : List (Bytes 512) := l.filterMap Event.copied?

/-- `bufs` were copied, and the status was read if `read`. -/
structure HubTrace (l : List (HcdEvent σ)) (bufs : List (Bytes 512)) (read : Prop) : Prop where
  copied : copiedBuffers l = bufs
  status : (∃ e ∈ l, e.HubStatus) ↔ read

variable {w : HcdWorld σ} {l : List (HcdEvent σ)} {bufs : List (Bytes 512)} {read : Prop}

theorem HubTrace.append (h : HubTrace l bufs read) (e : HcdEvent σ)
    : HubTrace (l ++ [e]) (bufs ++ e.copied?.toList) (read ∨ e.HubStatus) := by
  constructor
  . unfold copiedBuffers
    rw [List.filterMap_append, ← h.copied]
    cases hc : e.copied? <;> simp [copiedBuffers, hc]
  . rw [← h.status]
    simp [or_and_right, exists_or]

theorem HubTrace.other (h : HubTrace l bufs read) {e : HcdEvent σ} (hcopied : e.copied? = none)
    (hstatus : ¬e.HubStatus)
    : HubTrace (l ++ [e]) bufs read := by
  have := h.append e
  rw [hcopied, Option.toList_none, List.append_nil] at this
  exact ⟨this.copied, this.status.trans (or_iff_left hstatus)⟩

theorem hubStatus_submit {s : σ} {x : Transfer} {y : Submitted} {setup : DevRequest}
    (hx : x.setup = some setup)
    : (⟨s, .submit x, .ok y⟩ : HcdEvent σ).HubStatus ↔ setup.ReadsHubStatus ∧ 0 ≤ y.result := by
  unfold Event.HubStatus
  rw [Event.exchange?_submit hx]
  simp

def CopiedOver (w : HcdWorld σ) (dev : Fin 32) (old : Bytes 11) (l : List (HcdEvent σ))
    (buffer : Bytes 512) : Prop :=
  ∃ v s r t, (v.usbDev dev).hubdescriptor = old ∧
    (storeHubDescriptor dev buffer).Run w.traced v s r t ∧ t.2 <+: l

def Copies (w : HcdWorld σ) (dev : Fin 32) (old : Bytes 11) (l : List (HcdEvent σ)) : Prop :=
  ∀ buffer ∈ copiedBuffers l, CopiedOver w dev old l buffer

variable {dev : Fin 32} {old : Bytes 11} {u : Usb} {s : σ × List (HcdEvent σ)}

theorem Copies.append (h : Copies w dev old l) {e : HcdEvent σ} (he : e.copied? = none)
    : Copies w dev old (l ++ [e]) := by
  intro buffer hb
  have hsame : copiedBuffers (l ++ [e]) = copiedBuffers l := by
    simp [copiedBuffers, he]
  rw [hsame] at hb
  obtain ⟨v, s, r, t, hold, hrun, hprefix⟩ := h buffer hb
  exact ⟨v, s, r, t, hold, hrun, hprefix.trans (List.prefix_append ..)⟩

theorem Copies.nil (h : HubTrace l [] read) : Copies w dev old l := by
  intro buffer hb
  rw [h.copied] at hb
  cases hb

/-- Nothing was copied yet. -/
structure Uncopied (dev : Fin 32) (old : Bytes 11) (u : Usb) (s : σ × List (HcdEvent σ)) : Prop where
  same : (u.usbDev dev).hubdescriptor = old
  trace : HubTrace s.2 [] False

theorem wp_usbGetHubDescriptor_uncopied (hw : Lawful w) (h : Uncopied dev old u s) (size : Nat)
    : wp w.traced (usbGetHubDescriptor dev size) (fun _ v t => Uncopied dev old v t)
        (fun _ t => Copies w dev old t.2) u s := by
  unfold usbGetHubDescriptor
  rw [wp_bind, wp_getDev]
  apply wp_usbControlMsg_event _ rfl (by decide)
  . intro y t hy
    constructor
    . have hafter := Usb.afterTransfer_answered (hw.submit hy)
      rw [hafter.sameLinks.hubdescriptor]
      exact h.same
    . apply h.trace.other rfl
      rw [hubStatus_submit rfl]
      rintro ⟨⟨-, hrequest⟩, -⟩
      exact absurd (show usbReqGetDescriptor = usbReqGetStatus from hrequest) (by decide)
  . intro e t _
    apply (Copies.nil h.trace).append rfl

/-- `buffer` was copied. -/
structure Copied (w : HcdWorld σ) (dev : Fin 32) (old : Bytes 11) (buffer : Bytes 512) (read : Prop)
    (u : Usb) (s : σ × List (HcdEvent σ)) : Prop where
  maxchild : (u.usbDev dev).maxchild = (buffer 2).toNat
  trace : HubTrace s.2 [buffer] read
  copies : Copies w dev old s.2

theorem wp_storeHubDescriptor_copied (h : Uncopied dev old u s) (buffer : Bytes 512)
    : wp w.traced (storeHubDescriptor dev buffer) (fun _ v t => Copied w dev old buffer False v t)
        (fun _ t => Copies w dev old t.2) u s := by
  have htrace : ∀ x, HubTrace (s.2 ++ [⟨s.1, .copyingHub dev buffer, x⟩]) [buffer] False := by
    intro x
    have := h.trace.append ⟨s.1, .copyingHub dev buffer, x⟩
    refine ⟨this.copied, this.status.trans (or_iff_left ?_)⟩
    rintro ⟨_, ⟨⟩, -⟩
  have hstep : wp w.traced (storeHubDescriptor dev buffer)
      (fun _ v t => (v.usbDev dev).maxchild = (buffer 2).toNat ∧ HubTrace t.2 [buffer] False)
      (fun _ t => HubTrace t.2 [buffer] False) u s := by
    unfold storeHubDescriptor
    rw [wp_bind, wp_ask]
    intro t
    constructor
    . intro x hx
      rw [wp_bind, wp_get, wp_bind]
      have htrace := htrace (.ok x)
      rw [← hx.2] at htrace
      cases copyHubDescriptor u.usbDev u.usbDevAddr dev buffer with
      | error e => exact htrace
      | ok usbDev =>
        rw [wp_ofExcept_ok, wp_bind, wp_set, wp_modifyDev, Usb.setDev_same]
        exact ⟨rfl, htrace⟩
    . intro e he
      have htrace := htrace (.error e)
      rwa [← he.2] at htrace
  have hcopies : ∀ {r t}, HubTrace t.2 [buffer] False →
      (storeHubDescriptor dev buffer).Run w.traced u s r t → Copies w dev old t.2 := by
    intro r t htrace hrun b hb
    rw [htrace.copied] at hb
    rw [List.mem_singleton.mp hb]
    exact ⟨u, s, r, t, h.same, hrun, List.prefix_rfl⟩
  apply wp_mono (wp_and hstep (wp_self _ _ _ _))
  . rintro _ v t ⟨⟨hmaxchild, htrace⟩, hrun⟩
    exact ⟨hmaxchild, htrace, hcopies htrace hrun⟩
  . rintro e t ⟨htrace, hrun⟩
    exact hcopies htrace hrun

theorem Copied.submit (hw : Lawful w) {buffer : Bytes 512} (h : Copied w dev old buffer read u s)
    {pipe : BitVec 32} {data : Buffer} {setup : DevRequest} {y : Submitted} {t : σ}
    (hy : w (.submit (u.request dev pipe data setup)) s.1 (.ok y) t)
    : Copied w dev old buffer (read ∨ setup.ReadsHubStatus ∧ 0 ≤ y.result) (u.answered dev setup y)
        (t, s.2 ++ [⟨s.1, .submit (u.request dev pipe data setup), .ok y⟩]) := by
  have hmaxchild : ((u.answered dev setup y).usbDev dev).maxchild = (u.usbDev dev).maxchild := by
    rw [(Usb.afterTransfer_answered (hw.submit hy)).eq]
  have htrace := h.trace.append ⟨s.1, .submit (u.request dev pipe data setup), .ok y⟩
  rw [hubStatus_submit rfl] at htrace
  exact ⟨hmaxchild.trans h.maxchild, htrace, h.copies.append rfl⟩

theorem frame_copied (hw : Lawful w) (buffer : Bytes 512)
    : Frame w.traced (Copied w dev old buffer True) (fun _ t => Copies w dev old t.2) dev where
  stack {u s n} h := by
    intro t
    constructor
    . intro x hx
      refine ⟨h.maxchild, ?_, ?_⟩
      . rw [hx.2]
        have := h.trace.append ⟨s.1, .stack n, .ok x⟩
        rwa [true_or] at this
      . rw [hx.2]
        exact h.copies.append rfl
    . intro e he
      rw [he.2]
      exact h.copies.append rfl
  msg {u s pipe request requesttype value index data size timeout} h _ htimeout _ := by
    apply wp_usbControlMsg_event _ rfl htimeout
    . intro y t hy
      constructor
      . have := h.submit hw hy
        rwa [true_or] at this
      . exact (hw.submit hy).result_le
    . intro e t _
      exact h.copies.append rfl
  texts {u s} _ _ _ _ _ h := by
    refine ⟨?_, h.trace, h.copies⟩
    rw [Usb.setDev_same]
    exact h.maxchild

/-- How `usb_hub_init` ends. -/
inductive HubInitEnd (w : HcdWorld σ) (dev : Fin 32) (old : Bytes 11) (ret : Int) (v : Usb)
    (t : σ × List (HcdEvent σ)) : Prop where
  | early : ret = -1 → HubTrace t.2 [] False → HubInitEnd w dev old ret v t
  | copied (buffer : Bytes 512) (read : Prop) :
      Copied w dev old buffer read v t → (ret = 0 ↔ read) → HubInitEnd w dev old ret v t

theorem wp_usbHubInit_end (hw : Lawful w) {s : σ}
    : wp w.traced (usbHubInit dev)
        (fun ret v t => HubInitEnd w dev (u.usbDev dev).hubdescriptor ret v t)
        (fun _ t => Copies w dev (u.usbDev dev).hubdescriptor t.2) u (s, []) := by
  generalize hold : (u.usbDev dev).hubdescriptor = old
  have hnil : HubTrace ([] : List (HcdEvent σ)) [] False := by
    refine ⟨rfl, iff_of_false ?_ id⟩
    rintro ⟨_, ⟨⟩, -⟩
  have hstack : ∀ x : Except Stop (Bytes 512), HubTrace [⟨s, .stack 512, x⟩] [] False := by
    intro x
    apply hnil.other (e := ⟨s, .stack 512, x⟩) rfl
    rintro ⟨_, ⟨⟩, -⟩
  unfold usbHubInit
  rw [wp_bind, wp_ask]
  intro t
  constructor
  . intro buffer ht
    have h : Uncopied dev old u t := by
      refine ⟨hold, ?_⟩
      rw [ht.2]
      apply hstack
    rw [wp_bind]
    apply wp_post (wp_usbGetHubDescriptor_uncopied hw h _)
    rintro ⟨ret, bytes⟩ u t h
    dsimp only
    split
    . exact .early rfl h.trace
    . rw [wp_bind]
      apply wp_post (wp_usbGetHubDescriptor_uncopied hw h _)
      rintro ⟨ret, bytes⟩ u t h
      dsimp only
      split
      . exact .early rfl h.trace
      . generalize (buffer.write 0 _).write 0 bytes = buffer
        rw [wp_bind]
        apply wp_post (wp_storeHubDescriptor_copied h buffer)
        intro _ u t h
        rw [wp_bind]
        unfold usbGetHubStatus
        rw [wp_bind, wp_getDev]
        apply wp_usbControlMsg_event _ rfl (by decide)
        . intro y t' hy
          have h := h.submit hw hy
          rw [false_or] at h
          have hreads : DevRequest.ReadsHubStatus ⟨usbDirIn ||| usbRtHub, usbReqGetStatus, 0, 0, 4⟩ :=
            ⟨rfl, rfl⟩
          dsimp only
          split
          . next hneg =>
            apply HubInitEnd.copied buffer _ h
            refine iff_of_false (fun hf => ?_) fun hf => absurd hf.2 (by omega)
            exact absurd (show (-1 : Int) = 0 from hf) (by decide)
          . next hpos =>
            rw [eq_true (And.intro hreads (show 0 ≤ y.result by omega))] at h
            rw [wp_bind]
            apply wp_post ((frame_copied hw buffer).hubPowerOn h)
            intro _ v t h
            exact .copied buffer True h (iff_of_true rfl trivial)
        . intro e t' _
          exact h.copies.append rfl
  . intro e ht
    rw [ht.2]
    exact Copies.nil (hstack _)

theorem HubInitEnd.copies {ret : Int} (h : HubInitEnd w dev old ret u s) : Copies w dev old s.2 := by
  cases h with
  | early _ h => exact Copies.nil h
  | copied buffer read h _ => exact h.copies

theorem HubInitEnd.maxchild_iff {ret : Int} (h : HubInitEnd w dev old ret u s)
    : (ret = 0 → (u.usbDev dev).maxchild ≤ usbMaxchildren)
        ↔
      ((∃ e ∈ s.2, e.HubStatus) → ∀ buffer ∈ copiedBuffers s.2, (buffer 2).toNat ≤ usbMaxchildren) := by
  cases h with
  | early hret h =>
    rw [h.status, hret]
    exact iff_of_true (fun hf => absurd hf (by decide)) (fun hf => hf.elim)
  | copied buffer read h hread =>
    rw [h.trace.status, h.trace.copied, h.maxchild, hread]
    simp only [List.mem_singleton, forall_eq]
    exact forall_congr' fun _ => Int.ofNat_le

end

/-- The stores of `usb_hub_init` stay in their fields, and there is a child pointer for each port. -/
structure HubInBounds {σ : Type} (dev : Fin 32) (u : Usb) (r : Except Stop (Int × Usb))
    (l : List (HcdEvent σ)) : Prop where
  stores : ∀ buffer ∈ copiedBuffers l, ∀ s ∈ hubStores (u.usbDev dev).hubdescriptor buffer, s.InBounds
  maxchild : ∀ v, r = .ok (0, v) → (v.usbDev dev).maxchild ≤ usbMaxchildren

/--
Whatever hub is behind it, `usb_hub_init` is in bounds if and only if the descriptor is not longer than
the structure, it counts no more than 15 ports, and no more than 8 if the status of the hub is read as well.
-/
theorem usbHubInit_inBounds_iff {σ : Type} {w : HcdWorld σ} (hw : Lawful w) {dev : Fin 32} {u : Usb}
    {s t : σ} {r : Except Stop (Int × Usb)} {l : List (HcdEvent σ)}
    (hr : (usbHubInit dev).Run w.traced u (s, []) r (t, l))
    : Copies w dev (u.usbDev dev).hubdescriptor l ∧
      (HubInBounds dev u r l
          ↔
        (∀ buffer ∈ copiedBuffers l,
          (buffer 0).toNat ≤ 11 ∧ storedPorts (u.usbDev dev).hubdescriptor buffer ≤ 15) ∧
        (∀ ret v, r = .ok (ret, v) → (∃ e ∈ l, e.HubStatus) →
          ∀ buffer ∈ copiedBuffers l, (buffer 2).toNat ≤ usbMaxchildren)) := by
  have hend : wp w.traced (usbHubInit dev)
      (fun ret v t => HubInitEnd w dev (u.usbDev dev).hubdescriptor ret v t)
      (fun _ t => Copies w dev (u.usbDev dev).hubdescriptor t.2) u (s, []) := wp_usbHubInit_end hw
  have hstores : (∀ buffer ∈ copiedBuffers l, ∀ s ∈ hubStores (u.usbDev dev).hubdescriptor buffer,
        s.InBounds)
      ↔ ∀ buffer ∈ copiedBuffers l,
        (buffer 0).toNat ≤ 11 ∧ storedPorts (u.usbDev dev).hubdescriptor buffer ≤ 15 :=
    forall₂_congr fun _ _ => hubStores_inBounds_iff
  match r with
  | .ok (ret, v) =>
    have hend := wp_run hend hr
    refine ⟨hend.copies, ?_⟩
    constructor
    . intro h
      refine ⟨hstores.mp h.stores, ?_⟩
      rintro _ _ ⟨⟩
      apply hend.maxchild_iff.mp
      rintro rfl
      exact h.maxchild v rfl
    . rintro ⟨h, hmax⟩
      refine ⟨hstores.mpr h, ?_⟩
      rintro _ ⟨⟩
      exact hend.maxchild_iff.mpr (hmax _ _ rfl) rfl
  | .error e =>
    have hend := wp_run_error hend hr
    refine ⟨hend, ?_⟩
    constructor
    . intro h
      exact ⟨hstores.mp h.stores, fun _ _ hf => nomatch hf⟩
    . rintro ⟨h, -⟩
      exact ⟨hstores.mpr h, fun _ hf => nomatch hf⟩

/-!
### Two hubs
-/

def hubScript (ports : Byte) (x : Transfer) (s : Unit) : Option (List Byte) × Unit :=
  let data : List Byte := match x.setup with
    | some setup =>
      if setup.request = usbReqGetDescriptor then [9, 0x29, ports, 0, 0, 50, 0, 0, 0]
      else if setup.request = usbReqGetStatus then [0, 0, 0, 0]
      else []
    | none => []
  (some data, s)

/-- The parent of `attachedUsb` turns out to have nine ports. -/
theorem nine_ports_not_inBounds
    : ∃ v l, (usbHubInit 0).Run (scriptWorld 0 (hubScript 9)).traced attachedUsb ((), [])
          (.ok (0, v)) ((), l) ∧
        (v.usbDev 0).maxchild = 9 ∧ ¬HubInBounds 0 attachedUsb (.ok (0, v)) l := by
  obtain ⟨r, v, ⟨_, l⟩, hr, hp⟩ :=
    exists_run_of_check (World.tracedHandler_serves (Prog.ofHandler_serves (scriptHandler 0 (hubScript 9)))).offers
      (m := usbHubInit 0) (u := attachedUsb) (s := ((), []))
      (p := fun r v _ => r = 0 ∧ (v.usbDev 0).maxchild = 9) (by decide +kernel)
  obtain ⟨rfl, hmaxchild⟩ := of_decide_eq_true hp
  refine ⟨v, l, hr, hmaxchild, fun h => ?_⟩
  have hle := h.maxchild v rfl
  rw [hmaxchild] at hle
  exact absurd hle (by decide)

theorem usbHubInit_inBounds_iff_four_ports
    : ∃ v l, (usbHubInit 0).Run (scriptWorld 0 (hubScript 4)).traced attachedUsb ((), [])
          (.ok (0, v)) ((), l) ∧
        HubInBounds 0 attachedUsb (.ok (0, v)) l := by
  obtain ⟨r, v, ⟨_, l⟩, hr, hp⟩ :=
    exists_run_of_check (World.tracedHandler_serves (Prog.ofHandler_serves (scriptHandler 0 (hubScript 4)))).offers
      (m := usbHubInit 0) (u := attachedUsb) (s := ((), []))
      (p := fun r _ t => r = 0 ∧ (copiedBuffers t.2).all fun buffer =>
        (buffer 0).toNat ≤ 11 ∧ storedPorts (attachedUsb.usbDev 0).hubdescriptor buffer ≤ 15 ∧
          (buffer 2).toNat ≤ usbMaxchildren) (by decide +kernel)
  obtain ⟨rfl, hfits⟩ := of_decide_eq_true hp
  rw [List.all_eq_true] at hfits
  have hfits := fun buffer hb => of_decide_eq_true (hfits buffer hb)
  refine ⟨v, l, hr, (usbHubInit_inBounds_iff (scriptWorld_lawful _ _) hr).2.mpr ⟨?_, ?_⟩⟩
  . exact fun buffer hb => ⟨(hfits buffer hb).1, (hfits buffer hb).2.1⟩
  . exact fun _ _ _ _ buffer hb => (hfits buffer hb).2.2
