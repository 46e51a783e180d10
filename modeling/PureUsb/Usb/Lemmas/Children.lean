import PureUsb.Usb.ConfigLoop
import PureUsb.Usb.DeviceTable

/-!
This module contains what becomes of the children of a hub while devices are enumerated, whatever
these send.
-/

open Stateful

/-!
### The parser only stores behind the start of its slot
-/

section

variable {t t' t'' : UsbTable} {k : Fin 32} {base : BitVec 32} {buffer : Bytes 512}
variable {s s' : ParseState UsbTable}

def SameBefore (k : Fin 32) (t t' : UsbTable) : Prop := ∀ j < k, t' j = t j

theorem SameBefore.refl (k : Fin 32) (t : UsbTable) : SameBefore k t t := fun _ _ => rfl

theorem SameBefore.trans (h : SameBefore k t t') (h' : SameBefore k t' t'') : SameBefore k t t'' :=
  fun j hj => (h' j hj).trans (h j hj)

theorem poke_before {a : Int} {b : Byte} (ha : (sizeofUsbDevice * k : Int) ≤ a)
    (h : poke t base a b = .ok t')
    : SameBefore k t t' := by
  intro j hj
  unfold poke at h
  split at h
  . cases h
    apply if_neg
    have := Fin.lt_def.mp hj
    simp only [sizeofUsbDevice] at ha
    omega
  . cases h

theorem pokes_before {a : Int} {l : List Byte} (ha : (sizeofUsbDevice * k : Int) ≤ a)
    (h : pokes t base a l = .ok t')
    : SameBefore k t t' := by
  induction l generalizing t a with
  | nil =>
    cases h
    apply SameBefore.refl
  | cons b l ih =>
    obtain ⟨t1, hpoke, h⟩ := Except.bind_eq_ok.mp h
    exact (poke_before ha hpoke).trans (ih (by omega) h)

/-- The places that the parser stores to: `ifno` is -1 before the first interface. -/
def ConfigLoc.Behind (l : ConfigLoc) : Prop := -114 ≤ l.offset

instance (l : ConfigLoc) : Decidable l.Behind := inferInstanceAs (Decidable (_ ≤ _))

theorem st_before {l : ConfigLoc} {b : Byte} (hl : l.Behind) (h : (tableMem k base).st t l b = .ok t')
    : SameBefore k t t' := by
  apply poke_before _ h
  unfold ConfigLoc.Behind at hl
  simp only [offsetofConfig]
  omega

theorem copy_before {l : ConfigLoc} {bs : List Byte} (hl : l.Behind)
    (h : (tableMem k base).copy t l bs = .ok t')
    : SameBefore k t t' := by
  apply pokes_before _ h
  unfold ConfigLoc.Behind at hl
  simp only [offsetofConfig]
  omega

theorem behind_ifDesc {i : Int} {o : Nat} (hi : 0 ≤ i ∨ (i = -1 ∧ 9 ≤ o))
    : (ConfigLoc.ifDesc i o).Behind := by
  simp only [ConfigLoc.Behind, ConfigLoc.offset]
  omega

theorem behind_epDesc {i : Int} (e o : Nat) (hi : -1 ≤ i) : (ConfigLoc.epDesc i e o).Behind := by
  simp only [ConfigLoc.Behind, ConfigLoc.offset]
  omega

/-- What a round leaves of `t`. -/
structure Stored (k : Fin 32) (t : UsbTable) (s : ParseState UsbTable) : Prop where
  same : SameBefore k t s.mem
  ifno : -1 ≤ s.ifno

theorem stored_parseInterface (hs : Stored k t s) (h : parseInterface (tableMem k base) buffer s = .ok s')
    : Stored k t s' := by
  unfold parseInterface at h
  obtain ⟨num, -, h⟩ := Except.bind_eq_ok.mp h
  split at h
  . obtain ⟨ifno, -, h⟩ := Except.bind_eq_ok.mp h
    obtain ⟨mem, hcount, h⟩ := Except.bind_eq_ok.mp h
    obtain ⟨len, -, h⟩ := Except.bind_eq_ok.mp h
    obtain ⟨bytes, -, h⟩ := Except.bind_eq_ok.mp h
    obtain ⟨mem1, hcopy, h⟩ := Except.bind_eq_ok.mp h
    obtain ⟨mem2, hno, h⟩ := Except.bind_eq_ok.mp h
    obtain ⟨mem3, hnum, h⟩ := Except.bind_eq_ok.mp h
    obtain ⟨curr, -, h⟩ := Except.bind_eq_ok.mp h
    cases h
    have hbehind : ∀ o, (ConfigLoc.ifDesc ifno.toNat o).Behind :=
      fun o => behind_ifDesc (.inl (Int.natCast_nonneg _))
    constructor
    . apply hs.same.trans
      apply (st_before (by decide) hcount).trans
      apply (copy_before (hbehind 0) hcopy).trans
      exact (st_before (hbehind 9) hno).trans (st_before (hbehind 10) hnum)
    . dsimp only
      omega
  . obtain ⟨n, -, h⟩ := Except.bind_eq_ok.mp h
    obtain ⟨mem, hnum, h⟩ := Except.bind_eq_ok.mp h
    cases h
    have hifno := hs.ifno
    exact ⟨hs.same.trans (st_before (behind_ifDesc (by omega)) hnum), hifno⟩

theorem stored_parseEndpoint (hs : Stored k t s) (h : parseEndpoint (tableMem k base) buffer s = .ok s')
    : Stored k t s' := by
  unfold parseEndpoint at h
  obtain ⟨epno, -, h⟩ := Except.bind_eq_ok.mp h
  obtain ⟨mem, hno, h⟩ := Except.bind_eq_ok.mp h
  obtain ⟨len, -, h⟩ := Except.bind_eq_ok.mp h
  obtain ⟨bytes, -, h⟩ := Except.bind_eq_ok.mp h
  obtain ⟨mem', hcopy, h⟩ := Except.bind_eq_ok.mp h
  cases h
  have hifno := hs.ifno
  constructor
  . apply hs.same.trans
    apply (st_before (behind_ifDesc (by omega)) hno).trans
    exact copy_before (behind_epDesc _ _ hifno) hcopy
  . exact hifno

theorem stored_gone (hs : Stored k t s) (h : Gone (tableMem k base) buffer s s') : Stored k t s' := by
  cases h with
  | interface _ h =>
    have := stored_parseInterface hs h
    exact ⟨this.same, this.ifno⟩
  | endpoint _ h =>
    have := stored_parseEndpoint hs h
    exact ⟨this.same, this.ifno⟩
  | other => exact ⟨hs.same, hs.ifno⟩

theorem parseLoop_before (fuel : Nat) (hs : Stored k t s)
    (h : parseLoop (tableMem k base) buffer fuel s = .ok t')
    : SameBefore k t t' := by
  induction fuel generalizing s with
  | zero => cases h
  | succ fuel ih =>
    unfold parseLoop at h
    obtain ⟨x, hx, h⟩ := Except.bind_eq_ok.mp h
    obtain ⟨_, _, -, -, ⟨-, s', rfl, hgone⟩ | ⟨-, rfl, -⟩ | ⟨-, rfl⟩⟩ := parseStep_eq_ok hx
    . exact ih (stored_gone hs hgone) h
    . cases h
      exact hs.same
    . cases h
      exact hs.same

theorem parseConfig_before {ret : Int} (h : parseConfig (tableMem k base) buffer t = .ok (ret, t'))
    : SameBefore k t t' := by
  unfold parseConfig at h
  obtain ⟨x, hheader, h⟩ := Except.bind_eq_ok.mp h
  unfold parseHeader at hheader
  obtain ⟨type, -, hheader⟩ := Except.bind_eq_ok.mp hheader
  split at hheader
  . cases hheader
    cases h
    apply SameBefore.refl
  . obtain ⟨len, -, hheader⟩ := Except.bind_eq_ok.mp hheader
    obtain ⟨bytes, -, hheader⟩ := Except.bind_eq_ok.mp hheader
    obtain ⟨mem, hcopy, hheader⟩ := Except.bind_eq_ok.mp hheader
    obtain ⟨mem1, hcount, hheader⟩ := Except.bind_eq_ok.mp hheader
    obtain ⟨index, -, hheader⟩ := Except.bind_eq_ok.mp hheader
    cases hheader
    obtain ⟨mem2, hloop, h⟩ := Except.bind_eq_ok.mp h
    cases h
    apply parseLoop_before parseFuel _ hloop
    constructor
    . exact (copy_before (by decide) hcopy).trans (st_before (by decide) hcount)
    . apply Int.le_refl

end

/-!
### Enumeration
-/

/-- The hub `dev` has the children `c`. -/
structure HasChildren (dev : Fin 32) (c : Fin 8 → DevPtr) (u : Usb) : Prop where
  index_le : u.gDevIndex ≤ usbMaxDevice
  lt : dev < u.gDevIndex
  children : (u.usbDev dev).children = c

/-- What a scan of the device `new` keeps, whatever it sends. -/
structure KeptByScan (new : Fin 32) (I : Usb → Prop) : Prop where
  packet : ∀ {u} p, I u → I { u with setupPacket := p }
  setDev : ∀ {u k d}, I u → d.children = (u.usbDev k).children → I (u.setDev k d)
  parsed : ∀ {u t}, I u → SameBefore new u.usbDev t → I { u with usbDev := t }

section

variable {σ : Type} {w : HcdWorld σ} {dev new : Fin 32} {c : Fin 8 → DevPtr} {u : Usb} {s : σ}

theorem HasChildren.setDev (h : HasChildren dev c u) {k : Fin 32} {d : UsbDevice}
    (hd : d.children = (u.usbDev k).children)
    : HasChildren dev c (u.setDev k d) := by
  refine ⟨h.index_le, h.lt, ?_⟩
  by_cases hk : dev = k
  . subst hk
    rw [Usb.setDev_same, hd, h.children]
  . rw [Usb.setDev_ne _ _ hk, h.children]

theorem keptByScan_hasChildren (hlt : dev < new) : KeptByScan new (HasChildren dev c) where
  packet _ h := ⟨h.index_le, h.lt, h.children⟩
  setDev h hd := h.setDev hd
  parsed h ht := ⟨h.index_le, h.lt, (congrArg UsbDevice.children (ht dev hlt)).trans h.children⟩

theorem frame_hasChildren (hw : Lawful w) (p : Fin 32)
    : Frame w (fun v _ => HasChildren dev c v) (fun _ _ => True) p := by
  apply frame_table hw
  . intro u _ h
    exact ⟨h.index_le, h.lt, h.children⟩
  . intro u d h hd
    exact h.setDev hd.children

namespace KeptByScan

variable {I : Usb → Prop}

theorem frame (hw : Lawful w) (h : KeptByScan new I) (p : Fin 32)
    : Frame w (fun v _ => I v) (fun _ _ => True) p := by
  apply frame_table hw
  . intro _ p hI
    exact h.packet p hI
  . intro _ _ hI hd
    exact h.setDev hI hd.children

theorem controlMsg (hw : Lawful w) (h : KeptByScan new I) {p : Fin 32} {pipe : BitVec 32}
    {request requesttype : Byte} {value index size : BitVec 16} {data : Buffer} {timeout : Nat} (hI : I u)
    (htimeout : timeout ≠ 0)
    : wp w (usbControlMsg p pipe request requesttype value index data size timeout) (fun _ v _ => I v)
        (fun _ _ => True) u s := by
  apply wp_post (wp_usbControlMsg_table hw ?_ ?_ htimeout) fun _ _ _ h => h.1
  . intro p
    exact h.packet p hI
  . intro _ _ hI hd
    exact h.setDev hI hd.children

theorem scanRule (hw : Lawful w) (h : KeptByScan new I) (addr : Int)
    : ScanRule w (fun _ _ => True) new addr (fun v _ => I v) (fun v _ => I v) where
  frameA := h.frame hw new
  frameB := h.frame hw new
  parent _ _ := h.frame hw _
  fault _ _ := trivial
  packetsA _ _ _ _ hI _ _ _ := h.setDev hI rfl
  address hI := by
    unfold usbSetAddress
    rw [wp_bind, wp_getDev, wp_bind]
    exact h.controlMsg hw (h.setDev hI rfl) (by decide)
  descriptorB _ hI := h.setDev hI rfl

theorem parsesConfig (h : KeptByScan new I) (hI : I u) (buffer : Bytes 512)
    : wp w (usbParseConfig new buffer 0) (fun _ v _ => I v) (fun _ _ => True) u s := by
  unfold usbParseConfig
  rw [wp_bind, wp_ask]
  intro t
  constructor
  . intro _ _
    rw [wp_bind, wp_modifyDev, wp_bind, wp_get, wp_bind]
    have hI : I (u.setDev new { u.usbDev new with configno := 0 }) := h.setDev hI rfl
    generalize u.setDev new { u.usbDev new with configno := 0 } = v at hI
    cases hparse : parseConfig (tableMem new v.usbDevAddr) buffer v.usbDev with
    | error e => trivial
    | ok r =>
      rw [wp_ofExcept_ok, wp_bind, wp_set, wp_pure]
      exact h.parsed hI (parseConfig_before hparse)
  . intro _ _
    trivial

theorem configRule (hw : Lawful w) (h : KeptByScan new I)
    : ConfigRule w (fun _ _ => True) new (fun v _ => I v) (fun v _ => I v) where
  frame := h.frame hw new
  read hI := by
    unfold usbGetDescriptor
    rw [wp_bind, wp_getDev]
    exact h.controlMsg hw hI (by decide)
  parse buffer hI := h.parsesConfig hI buffer
  fault _ _ := trivial
  packets _ _ hI _ _ := h.setDev hI rfl
  setConfiguration hI htimeout := h.controlMsg hw hI htimeout
  toggle hI := h.setDev hI rfl

theorem scanDevice (hw : Lawful w) (h : KeptByScan new I) (hI : I u)
    : wp w (usbScanDevice new) (fun _ v _ => I v) (fun _ _ => True) u s := by
  apply (h.scanRule hw _).scanDevice rfl
  . intro t
    constructor
    . intro _ _
      exact ⟨rfl, h.setDev hI rfl⟩
    . intro _ _
      trivial
  . exact id
  . exact id
  . exact fun tmpbuf hI => (h.configRule hw).scan hI tmpbuf

end KeptByScan

end
