import PureUsb.Usb.Lemmas.Alloc
import PureUsb.Usb.Lemmas.Scan
import PureUsb.Usb.Lemmas.Table
import Mathlib.Logic.Relation

/-!
This module contains the invariant of the device table.
-/

open Stateful

/-- A structure that nobody has used since `usb_init`. -/
def UsbDevice.fresh : UsbDevice := { UsbDevice.zero with devnum := -1 }

/-- The invariant of the table. -/
structure TableInv (u : Usb) : Prop where
  index_le : u.gDevIndex ≤ usbMaxDevice
  untouched : ∀ i : Fin 32, u.gDevIndex ≤ i → u.usbDev i = .fresh
  devnum : ∀ i : Fin 32, i < u.gDevIndex →
    (u.usbDev i).devnum = 0 ∨ (u.usbDev i).devnum = (i : Int) + 1
  parent : ∀ i : Fin 32, i < u.gDevIndex →
    (u.usbDev i).parent = .null ∨ ∃ j, (u.usbDev i).parent = .dev j ∧ j < i
  child : ∀ i : Fin 32, i < u.gDevIndex → ∀ p,
    (u.usbDev i).children p = .null ∨
    ∃ j, (u.usbDev i).children p = .dev j ∧ j < u.gDevIndex ∧ (u.usbDev j).parent = .dev i

def Usb.ParentOf (u : Usb) (j i : Fin 32) : Prop := (u.usbDev i).parent = .dev j

/-- The table after calls of the functions of `usb.c`, the first of which was `usb_init`. -/
inductive TableRun {σ : Type} (w : HcdWorld σ) : Usb → σ → Prop where
  | init {u v : Usb} {s t : σ} {r : Int} :
      usbInit.Run w u s (.ok (r, v)) t → TableRun w v t
  | alloc {u v : Usb} {s t : σ} {r : Option (Fin 32)} {parent : Option (Fin 32)} {port : Nat} :
      TableRun w u s → (∀ p ∈ parent, p < u.gDevIndex) →
      (usbAllocNewDevice parent port).Run w u s (.ok (r, v)) t → TableRun w v t
  | scanRoothub {u v : Usb} {s t : σ} {r : Int × Option (Fin 32)} :
      TableRun w u s → usbScanRoothub.Run w u s (.ok (r, v)) t → TableRun w v t
  | hubInit {u v : Usb} {s t : σ} {r : Int} {dev : Fin 32} :
      TableRun w u s → dev < u.gDevIndex → (usbHubInit dev).Run w u s (.ok (r, v)) t →
      TableRun w v t
  | hubScan {u v : Usb} {s t : σ} {r : Int × Option (Fin 32)} {dev : Fin 32} {i : Int} :
      TableRun w u s → dev < u.gDevIndex → 0 ≤ i ∧ i < usbMaxchildren →
      (usbHubScan dev i).Run w u s (.ok (r, v)) t → TableRun w v t

namespace TableInv

variable {u : Usb}

theorem devnum_ne (h : TableInv u) {i j : Fin 32} (hi : i < u.gDevIndex) (hj : j < u.gDevIndex)
    (hne : i ≠ j) (hnum : (u.usbDev i).devnum ≠ 0)
    : (u.usbDev i).devnum ≠ (u.usbDev j).devnum := by
  have hval : (i : Nat) ≠ j := fun hf => hne (Fin.ext hf)
  rcases h.devnum i hi with h1 | h1
  . exact absurd h1 hnum
  . rcases h.devnum j hj with h2 | h2 <;> omega

theorem lt_of_parentOf (h : TableInv u) {i j : Fin 32} (hp : u.ParentOf j i) : j < i := by
  unfold Usb.ParentOf at hp
  by_cases hi : i < u.gDevIndex
  . rcases h.parent i hi with hnull | ⟨k, hk, hlt⟩
    . rw [hnull] at hp
      cases hp
    . rw [hk] at hp
      cases hp
      exact hlt
  . rw [h.untouched i (by omega)] at hp
    cases hp

theorem acyclic (h : TableInv u) (i : Fin 32) : ¬Relation.TransGen u.ParentOf i i := by
  have hlt : ∀ j, Relation.TransGen u.ParentOf i j → i < j := by
    intro j hj
    induction hj with
    | single hp => exact h.lt_of_parentOf hp
    | tail _ hp ih => exact Nat.lt_trans ih (h.lt_of_parentOf hp)
  exact fun hf => Nat.lt_irrefl i (hlt i hf)

end TableInv

/-- The invariant of the table, with the sizes of the hub descriptors that were stored. -/
structure TableState (u : Usb) : Prop extends TableInv u where
  ports : ∀ i, ((u.usbDev i).hubdescriptor 2).toNat ≤ 31

namespace TableState

variable {u : Usb}

theorem setDev (h : TableState u) {dev : Fin 32} {d : UsbDevice} (hlt : dev < u.gDevIndex)
    (hnum : d.devnum = 0 ∨ d.devnum = (dev : Int) + 1)
    (hparent : d.parent = (u.usbDev dev).parent) (hchildren : d.children = (u.usbDev dev).children)
    (hports : (d.hubdescriptor 2).toNat ≤ 31)
    : TableState (u.setDev dev d) := by
  have hparents : ∀ i, ((u.setDev dev d).usbDev i).parent = (u.usbDev i).parent := by
    intro i
    by_cases hi : i = dev
    . rw [hi, Usb.setDev_same, hparent]
    . rw [Usb.setDev_ne _ _ hi]
  have hchildren : ∀ i, ((u.setDev dev d).usbDev i).children = (u.usbDev i).children := by
    intro i
    by_cases hi : i = dev
    . rw [hi, Usb.setDev_same, hchildren]
    . rw [Usb.setDev_ne _ _ hi]
  refine ⟨⟨h.index_le, ?_, ?_, ?_, ?_⟩, ?_⟩
  . intro i hi
    have hne : i ≠ dev := by
      rintro rfl
      exact absurd hlt (by simpa using hi)
    rw [Usb.setDev_ne _ _ hne]
    exact h.untouched i hi
  . intro i hi
    by_cases hdev : i = dev
    . rw [hdev, Usb.setDev_same]
      exact hnum
    . rw [Usb.setDev_ne _ _ hdev]
      exact h.devnum i hi
  . intro i hi
    rw [hparents]
    exact h.parent i hi
  . intro i hi p
    simp only [hparents, hchildren]
    exact h.child i hi p
  . intro i
    by_cases hdev : i = dev
    . rw [hdev, Usb.setDev_same]
      exact hports
    . rw [Usb.setDev_ne _ _ hdev]
      exact h.ports i

theorem setDev_links (h : TableState u) {dev : Fin 32} {d : UsbDevice} (hlt : dev < u.gDevIndex)
    (hd : (u.usbDev dev).SameLinks d)
    : TableState (u.setDev dev d) := by
  refine h.setDev hlt ?_ hd.parent hd.children ?_
  . rw [hd.devnum]
    exact h.devnum dev hlt
  . rw [hd.hubdescriptor]
    exact h.ports dev

section

variable {new : Fin 32} {parent : Option (Fin 32)} {port : Fin 8}

theorem ne_new (hnew : (new : Nat) = u.gDevIndex) {i : Fin 32} (hi : i < u.gDevIndex) : i ≠ new := by
  rintro rfl
  omega

theorem lt_or_eq_new (hnew : (new : Nat) = u.gDevIndex) {i : Fin 32}
    (hi : i < (u.alloc new parent port).gDevIndex)
    : i < u.gDevIndex ∨ i = new := by
  rw [Usb.alloc_gDevIndex] at hi
  rcases Nat.lt_or_eq_of_le (Nat.le_of_lt_succ hi) with hlt | heq
  . exact .inl hlt
  . exact .inr (Fin.ext (heq.trans hnew.symm))

variable (parent port) in
theorem child_alloc_of_old (h : TableState u) (hnew : (new : Nat) = u.gDevIndex) {i : Fin 32}
    (hi : i < u.gDevIndex) (q : Fin 8)
    : (u.usbDev i).children q = .null ∨
        ∃ j, (u.usbDev i).children q = .dev j ∧ j < (u.alloc new parent port).gDevIndex ∧
          ((u.alloc new parent port).usbDev j).parent = .dev i := by
  rcases h.child i hi q with hnull | ⟨j, hj, hlt, hparent⟩
  . exact .inl hnull
  . refine .inr ⟨j, hj, Nat.lt_succ_of_lt hlt, ?_⟩
    rw [Usb.parent_alloc (ne_new hnew hlt), hparent]

theorem child_alloc (h : TableState u) (hnew : (new : Nat) = u.gDevIndex) {i : Fin 32}
    (hi : i < (u.alloc new parent port).gDevIndex) (q : Fin 8)
    : ((u.alloc new parent port).usbDev i).children q = .null ∨
        ∃ j, ((u.alloc new parent port).usbDev i).children q = .dev j ∧
          j < (u.alloc new parent port).gDevIndex ∧
          ((u.alloc new parent port).usbDev j).parent = .dev i := by
  rcases lt_or_eq_new hnew hi with hlt | rfl
  . have hold := h.child_alloc_of_old parent port hnew hlt q
    by_cases hp : parent = some i
    . rw [Usb.alloc_parent (ne_new hnew hlt) hp]
      unfold Usb.withChild
      by_cases hq : q = port
      . subst hq
        refine .inr ⟨new, Function.update_self .., hnew ▸ Nat.lt_succ_self _, ?_⟩
        rw [Usb.alloc_new, hp]
        rfl
      . simp only [Function.update_of_ne hq]
        exact hold
    . rw [Usb.alloc_ne (ne_new hnew hlt) hp]
      exact hold
  . rw [Usb.alloc_new]
    exact .inl rfl

theorem alloc (h : TableState u) (hnew : (new : Nat) = u.gDevIndex)
    (hparent : ∀ p ∈ parent, p < u.gDevIndex)
    : TableState (u.alloc new parent port) := by
  refine ⟨⟨?_, ?_, ?_, ?_, fun i hi q => h.child_alloc hnew hi q⟩, ?_⟩
  . rw [Usb.alloc_gDevIndex, ← hnew]
    exact new.isLt
  . intro i hi
    rw [Usb.alloc_gDevIndex] at hi
    have hne : i ≠ new := by
      rintro rfl
      omega
    rw [Usb.alloc_ne hne, h.untouched i (by omega)]
    intro hp
    have := hparent i hp
    omega
  . intro i hi
    rcases lt_or_eq_new hnew hi with hlt | rfl
    . rw [Usb.devnum_alloc (ne_new hnew hlt)]
      exact h.devnum i hlt
    . rw [Usb.alloc_new]
      exact .inr (by show (u.gDevIndex : Int) + 1 = _; omega)
  . intro i hi
    rcases lt_or_eq_new hnew hi with hlt | rfl
    . rw [Usb.parent_alloc (ne_new hnew hlt)]
      exact h.parent i hlt
    . rw [Usb.alloc_new]
      cases parent with
      | none => exact .inl rfl
      | some p =>
        have := hparent p rfl
        exact .inr ⟨p, rfl, Fin.lt_def.mpr (by omega)⟩
  . intro i
    rw [Usb.hubdescriptor_alloc]
    exact h.ports i

end

end TableState

/-!
### Requests to a device
-/

section

variable {σ : Type} {fits : Bytes 512 → Prop}

theorem wp_usbControlMsg_after {w : HcdWorld σ} (hw : Lawful w) {I : Usb → Prop} {dev : Fin 32} {u : Usb}
    {s : σ} {pipe : BitVec 32} {request requesttype : Byte} {value index size : BitVec 16} {data : Buffer}
    {timeout : Nat} (hpacket : ∀ p, I { u with setupPacket := p })
    (hafter : ∀ v d, I v → (v.usbDev dev).AfterTransfer pipe d → I (v.setDev dev d))
    (htimeout : timeout ≠ 0)
    : wp w (usbControlMsg dev pipe request requesttype value index data size timeout)
        (fun r v _ => I v ∧ r.1 ≤ size.toNat) (fun _ _ => True) u s := by
  rw [wp_usbControlMsg htimeout]
  intro setup x t
  refine ⟨fun r hr => ?_, fun _ _ => trivial⟩
  have hr := hw.submit hr
  refine ⟨?_, hr.result_le⟩
  exact hafter _ _ (hafter _ _ (hpacket _) ((UsbDevice.AfterTransfer.refl _ _).withResult _ _)) hr.dev

theorem frame_after {w : HcdWorld σ} (hw : Lawful w) {I : Usb → Prop} {dev : Fin 32}
    (hpacket : ∀ u p, I u → I { u with setupPacket := p })
    (hafter : ∀ u pipe d, I u → (u.usbDev dev).AfterTransfer pipe d → I (u.setDev dev d))
    (htexts : ∀ u mf prod serial haveLangid stringLangid, I u →
      I (u.setDev dev ((u.usbDev dev).withTexts mf prod serial haveLangid stringLangid)))
    : Frame w (fun v _ => I v) (fun _ _ => True) dev where
  stack hI := fun _ => ⟨fun _ _ => hI, fun _ _ => trivial⟩
  msg hI _ htimeout _ :=
    wp_usbControlMsg_after hw (fun p => hpacket _ p hI) (fun v d => hafter v _ d) htimeout
  texts _ _ _ _ _ hI := htexts _ _ _ _ _ _ hI

theorem wp_usbControlMsg_table {w : HcdWorld σ} (hw : Lawful w) {I : Usb → Prop} {dev : Fin 32} {u : Usb}
    {s : σ} {pipe : BitVec 32} {request requesttype : Byte} {value index size : BitVec 16} {data : Buffer}
    {timeout : Nat} (hpacket : ∀ p, I { u with setupPacket := p })
    (hlinks : ∀ v d, I v → (v.usbDev dev).SameLinks d → I (v.setDev dev d))
    (htimeout : timeout ≠ 0)
    : wp w (usbControlMsg dev pipe request requesttype value index data size timeout)
        (fun r v _ => I v ∧ r.1 ≤ size.toNat) (fun _ _ => True) u s :=
  wp_usbControlMsg_after hw hpacket (fun v d hI hd => hlinks v d hI hd.sameLinks) htimeout

theorem frame_table {w : HcdWorld σ} (hw : Lawful w) {I : Usb → Prop} {dev : Fin 32}
    (hpacket : ∀ u p, I u → I { u with setupPacket := p })
    (hlinks : ∀ u d, I u → (u.usbDev dev).SameLinks d → I (u.setDev dev d))
    : Frame w (fun v _ => I v) (fun _ _ => True) dev := by
  apply frame_after hw hpacket
  . intro u _ d hI hd
    exact hlinks u d hI hd.sameLinks
  . intro u _ _ _ _ _ hI
    exact hlinks u _ hI ⟨rfl, rfl, rfl, rfl, rfl⟩

/-- There are `n` devices, and `dev` is one of them. -/
structure Allocated (n : Nat) (dev : Fin 32) (u : Usb) : Prop where
  table : TableState u
  index : u.gDevIndex = n
  lt : dev < n

/-- `dev` is being scanned, its `devnum` is `num` and no configuration was stored yet. -/
structure Scanning (n : Nat) (dev : Fin 32) (num : Int) (u : Usb) : Prop extends
    Allocated n dev u where
  devnum : (u.usbDev dev).devnum = num
  config : (u.usbDev dev).config = .zero

variable {n : Nat} {dev : Fin 32} {num : Int} {u : Usb} {s : σ}

theorem Allocated.setDev_links (h : Allocated n dev u) {p : Fin 32} {d : UsbDevice} (hp : p < n)
    (hd : (u.usbDev p).SameLinks d)
    : Allocated n dev (u.setDev p d) :=
  ⟨h.table.setDev_links (h.index.symm ▸ hp) hd, h.index, h.lt⟩

theorem Allocated.setupPacket (h : Allocated n dev u) (p : DevRequest)
    : Allocated n dev { u with setupPacket := p } :=
  ⟨⟨⟨h.table.index_le, h.table.untouched, h.table.devnum, h.table.parent, h.table.child⟩,
    h.table.ports⟩, h.index, h.lt⟩

theorem Allocated.frame {p : Fin 32} (hp : p < n)
    : Frame (deviceWorld σ fits) (fun v _ => Allocated n dev v) (fun _ _ => True) p :=
  frame_table (deviceWorld_lawful _ _) (fun _ p h => h.setupPacket p) fun _ _ h hd => h.setDev_links hp hd

theorem Scanning.setDev_links (h : Scanning n dev num u) {p : Fin 32} {d : UsbDevice} (hp : p < n)
    (hd : (u.usbDev p).SameLinks d)
    : Scanning n dev num (u.setDev p d) := by
  refine ⟨h.toAllocated.setDev_links hp hd, ?_, ?_⟩
  . by_cases hdev : dev = p
    . subst hdev
      rw [Usb.setDev_same, hd.devnum, h.devnum]
    . rw [Usb.setDev_ne _ _ hdev, h.devnum]
  . by_cases hdev : dev = p
    . subst hdev
      rw [Usb.setDev_same, hd.config, h.config]
    . rw [Usb.setDev_ne _ _ hdev, h.config]

theorem Scanning.setupPacket (h : Scanning n dev num u) (p : DevRequest)
    : Scanning n dev num { u with setupPacket := p } :=
  ⟨h.toAllocated.setupPacket p, h.devnum, h.config⟩

theorem Scanning.frame {p : Fin 32} (hp : p < n)
    : Frame (deviceWorld σ fits) (fun v _ => Scanning n dev num v) (fun _ _ => True) p :=
  frame_table (deviceWorld_lawful _ _) (fun _ p h => h.setupPacket p) fun _ _ h hd => h.setDev_links hp hd

/-!
### Enumeration
-/

theorem Scanning.address (h : Scanning n dev num u) {num' : Int}
    (hnum : num' = 0 ∨ num' = (dev : Int) + 1)
    : Scanning n dev num' (u.setDev dev { u.usbDev dev with devnum := num' }) := by
  refine ⟨⟨?_, h.index, h.lt⟩, ?_, ?_⟩
  . exact h.table.setDev (h.index.symm ▸ h.lt) hnum rfl rfl (h.table.ports dev)
  . rw [Usb.setDev_same]
  . rw [Usb.setDev_same]
    exact h.config

theorem scanRule_table (hlt : dev < n)
    : ScanRule (deviceWorld σ fits) (fun _ _ => True) dev ((dev : Int) + 1)
        (fun v _ => Scanning n dev 0 v) (fun v _ => Scanning n dev ((dev : Int) + 1) v) where
  frameA := Scanning.frame hlt
  frameB := Scanning.frame hlt
  parent hA hp := by
    refine Scanning.frame ?_
    have := hA.table.lt_of_parentOf hp
    omega
  fault _ _ := trivial
  packetsA _ _ _ _ hA _ _ _ := hA.setDev_links hlt ⟨rfl, rfl, rfl, rfl, rfl⟩
  address hA := by
    unfold usbSetAddress
    rw [wp_bind, wp_getDev, wp_bind]
    refine wp_post (wp_usbControlMsg_table (deviceWorld_lawful _ _) ?_ ?_ (by decide)) fun _ _ _ hB => hB.1
    . exact fun p => (hA.address (.inr rfl)).setupPacket p
    . exact fun _ _ hB hd => hB.setDev_links hlt hd
  descriptorB _ hB := hB.setDev_links hlt ⟨rfl, rfl, rfl, rfl, rfl⟩

def UsbDevice.withParsed (d : UsbDevice) (config : Bytes 1002) : UsbDevice :=
  { d with configno := 0, config }

theorem wp_usbParseConfig_fits {w : HcdWorld σ} {Q : Int → Usb → σ → Prop} {E : Stop → σ → Prop}
    {buffer : Bytes 512} (hconfig : (u.usbDev dev).config = .zero)
    (hask : wp w (Stateful.ask (HcdOp.parsing dev buffer))
      (fun _ v t => v = u ∧ ConfigFits buffer ∧ (∀ e, E e t) ∧
        ∀ ret c, parseConfig strictMem buffer .zero = .ok (ret, c) →
          Q ret (u.setDev dev ((u.usbDev dev).withParsed c)) t) E u s)
    : wp w (usbParseConfig dev buffer 0) Q E u s := by
  unfold usbParseConfig
  rw [wp_bind]
  apply wp_post hask
  rintro _ _ t ⟨rfl, hfits, hE, hQ⟩
  rw [wp_bind, wp_modifyDev, wp_bind, wp_get, wp_bind]
  generalize hv : Usb.setDev _ dev { Usb.usbDev _ dev with configno := 0 } = v
  have hzero : (v.usbDev dev).config = .zero := by
    rw [← hv, Usb.setDev_same]
    exact hconfig
  cases hparse : parseConfig (tableMem dev v.usbDevAddr) buffer v.usbDev with
  | error x => apply hE
  | ok r =>
    obtain ⟨ret, t'⟩ := r
    obtain ⟨c, rfl, hstrict⟩ := parseConfig_table hfits hzero hparse
    have hstored : ({ v with usbDev := v.usbDev.withConfig dev c } : Usb) =
        v.setDev dev { v.usbDev dev with config := c } := rfl
    rw [wp_ofExcept_ok, wp_bind, wp_set, wp_pure, hstored, ← hv, Usb.setDev_same, Usb.setDev_setDev]
    exact hQ ret c hstrict

theorem wp_usbParseConfig_ok {w : HcdWorld σ} {Q : Int → Usb → σ → Prop} {E : Stop → σ → Prop}
    {buffer : Bytes 512} {cfgno ret : Int} {c : Bytes 1002}
    (hstrict : parseConfig strictMem buffer (u.usbDev dev).config = .ok (ret, c))
    (hask : wp w (Stateful.ask (HcdOp.parsing dev buffer))
      (fun _ v t => v = u ∧ Q ret (u.setDev dev { u.usbDev dev with configno := cfgno, config := c }) t) E u s)
    : wp w (usbParseConfig dev buffer cfgno) Q E u s := by
  unfold usbParseConfig
  rw [wp_bind]
  apply wp_post hask
  rintro _ _ t ⟨rfl, hQ⟩
  rw [wp_bind, wp_modifyDev, wp_bind, wp_get, wp_bind]
  generalize hv : Usb.setDev _ dev { Usb.usbDev _ dev with configno := cfgno } = v
  have hstrict : parseConfig strictMem buffer (v.usbDev dev).config = .ok (ret, c) := by
    rw [← hv, Usb.setDev_same]
    exact hstrict
  have hstored : ({ v with usbDev := v.usbDev.withConfig dev c } : Usb) =
      v.setDev dev { v.usbDev dev with config := c } := rfl
  rw [parseConfig_table_ok hstrict, wp_ofExcept_ok, wp_bind, wp_set, wp_pure, hstored, ← hv,
    Usb.setDev_same, Usb.setDev_setDev]
  exact hQ

theorem wp_usbSetMaxpacket_ok {w : HcdWorld σ} {Q : Int → Usb → σ → Prop} {E : Stop → σ → Prop}
    {eps : List EndpointDescriptor} (hstrict : configEndpoints strictMem (u.usbDev dev).config = .ok eps)
    (hQ : Q 0 (u.setDev dev (eps.foldl usbSetMaxpacketEp (u.usbDev dev))) s)
    : wp w (usbSetMaxpacket dev) Q E u s := by
  have hconfig : HasConfig u.usbDev dev (u.usbDev dev).config u.usbDev := by
    unfold HasConfig
    rw [withConfig_self]
  have hsim := sim_configEndpoints (strictMem_refines u.usbDev dev u.usbDevAddr) hconfig
  rw [hstrict] at hsim
  obtain ⟨eps', heps, rfl⟩ := hsim.of_left
  unfold usbSetMaxpacket
  rw [wp_bind, wp_get, wp_bind, heps, wp_ofExcept_ok, wp_bind, wp_modifyDev]
  exact hQ

theorem Scanning.parsed (h : Scanning n dev num u) (c : Bytes 1002)
    : Allocated n dev (u.setDev dev ((u.usbDev dev).withParsed c)) := by
  have hlt : dev < u.gDevIndex := h.index.symm ▸ h.lt
  refine ⟨?_, h.index, h.lt⟩
  exact h.table.setDev hlt (h.table.devnum dev hlt) rfl rfl (h.table.ports dev)

theorem wp_usbParseConfig_table (h : Scanning n dev num u) (buffer : Bytes 512)
    : wp (deviceWorld σ ConfigFits) (usbParseConfig dev buffer 0) (fun _ v _ => Allocated n dev v)
        (fun _ _ => True) u s := by
  apply wp_usbParseConfig_fits h.config
  intro t
  exact ⟨fun _ hfits => ⟨rfl, hfits, fun _ => trivial, fun _ c _ => h.parsed c⟩, fun _ _ => trivial⟩

theorem configRule_table (hlt : dev < n)
    : ConfigRule (deviceWorld σ ConfigFits) (fun _ _ => True) dev
        (fun v _ => Scanning n dev num v) (fun v _ => Allocated n dev v) where
  frame := Allocated.frame hlt
  read hB := by
    unfold usbGetDescriptor
    rw [wp_bind, wp_getDev]
    refine wp_post (wp_usbControlMsg_table (deviceWorld_lawful _ _) ?_ ?_ (by decide)) fun _ _ _ hB => hB.1
    . exact fun p => hB.setupPacket p
    . exact fun _ _ hB hd => hB.setDev_links hlt hd
  parse buffer hB := wp_usbParseConfig_table hB buffer
  fault _ _ := trivial
  packets _ _ hC _ _ := hC.setDev_links hlt ⟨rfl, rfl, rfl, rfl, rfl⟩
  setConfiguration hC htimeout := by
    refine wp_post (wp_usbControlMsg_table (deviceWorld_lawful _ _) ?_ ?_ htimeout) fun _ _ _ hC => hC.1
    . exact fun p => hC.setupPacket p
    . exact fun _ _ hC hd => hC.setDev_links hlt hd
  toggle hC := hC.setDev_links hlt ⟨rfl, rfl, rfl, rfl, rfl⟩

theorem wp_usbScanDevice_table (h : Scanning n dev ((dev : Int) + 1) u)
    : wp (deviceWorld σ ConfigFits) (usbScanDevice dev) (fun _ v _ => Allocated n dev v)
        (fun _ _ => True) u s := by
  refine (scanRule_table h.lt).scanDevice h.devnum ?_ ?_ ?_ ?_
  . exact fun t => ⟨fun _ _ => ⟨rfl, h.address (.inl rfl)⟩, fun _ _ => trivial⟩
  . exact fun hA => hA.toAllocated
  . exact fun hB => hB.toAllocated
  . exact fun tmpbuf hB => (configRule_table h.lt).scan hB tmpbuf

/-!
### Calls
-/

/-- `dev` is one of the devices. -/
def InTable (dev : Fin 32) (u : Usb) : Prop := TableState u ∧ dev < u.gDevIndex

theorem InTable.setupPacket (h : InTable dev u) (p : DevRequest) : InTable dev { u with setupPacket := p } := by
  have h : Allocated u.gDevIndex dev u := ⟨h.1, rfl, h.2⟩
  exact ⟨(h.setupPacket p).table, h.lt⟩

theorem InTable.setDev_links (h : InTable dev u) {d : UsbDevice} (hd : (u.usbDev dev).SameLinks d)
    : InTable dev (u.setDev dev d) :=
  ⟨h.1.setDev_links h.2 hd, h.2⟩

theorem frame_inTable
    : Frame (deviceWorld σ fits) (fun v _ => InTable dev v) (fun _ _ => True) dev :=
  frame_table (deviceWorld_lawful _ _) (fun _ p h => h.setupPacket p) fun _ _ h hd => h.setDev_links hd

theorem scanning_alloc {new : Fin 32} {parent : Option (Fin 32)} (port : Fin 8) (h : TableState u)
    (hnew : (new : Nat) = u.gDevIndex) (hparent : ∀ p ∈ parent, p < u.gDevIndex)
    : Scanning (u.gDevIndex + 1) new ((new : Int) + 1) (u.alloc new parent port) where
  table := h.alloc hnew hparent
  index := rfl
  lt := by omega
  devnum := by
    rw [Usb.alloc_new, hnew]
    rfl
  config := by
    rw [Usb.alloc_new, h.untouched new (by omega)]
    rfl

theorem wp_usbAllocNewDevice_table {parent : Option (Fin 32)} {port : Nat} (h : TableState u)
    (hparent : ∀ p ∈ parent, p < u.gDevIndex)
    : wp (deviceWorld σ fits) (usbAllocNewDevice parent port)
        (fun r v _ => TableState v ∧ u.gDevIndex ≤ v.gDevIndex ∧
          ∀ new ∈ r, Scanning v.gDevIndex new ((new : Int) + 1) v)
        (fun _ _ => True) u s := by
  refine wp_usbAllocNewDevice h.index_le hparent (fun _ => ⟨h, Nat.le_refl _, fun _ h => nomatch h⟩) ?_
  intro new i hnew _
  refine ⟨h.alloc hnew hparent, Nat.le_succ _, ?_⟩
  rintro _ ⟨⟩
  exact scanning_alloc i h hnew hparent

theorem wp_enumeratePort_table {port : Int} {portstatus : BitVec 16} (h : InTable dev u)
    : wp (deviceWorld σ ConfigFits) (enumeratePort dev port portstatus) (fun _ v _ => InTable dev v)
        (fun _ _ => True) u s := by
  unfold enumeratePort
  rw [wp_bind]
  refine wp_post (wp_usbAllocNewDevice_table h.1 ?_) ?_
  . rintro _ ⟨⟩
    exact h.2
  . rintro (_ | new) v t ⟨htable, hle, hscan⟩
    . exact ⟨htable, Nat.lt_of_lt_of_le h.2 hle⟩
    . have hscan := hscan new rfl
      rw [wp_bind, wp_modifyDev, wp_bind]
      have hscan := hscan.setDev_links (d := { v.usbDev new with speed := portSpeed portstatus })
        hscan.lt ⟨rfl, rfl, rfl, rfl, rfl⟩
      refine wp_post (wp_usbScanDevice_table hscan) fun ret v' t' h' => ?_
      have hin : InTable dev v' := by
        refine ⟨h'.table, ?_⟩
        rw [h'.index]
        exact Nat.lt_of_lt_of_le h.2 hle
      split <;> exact hin

theorem wp_usbHubScan_table {i : Int} (hi : 0 ≤ i ∧ i < usbMaxchildren) (h : InTable dev u)
    : wp (deviceWorld σ ConfigFits) (usbHubScan dev i) (fun _ v _ => InTable dev v)
        (fun _ _ => True) u s := by
  have hrule : HubRule (deviceWorld σ ConfigFits) (fun _ _ => True) dev i
      (fun v _ => InTable dev v) :=
    ⟨frame_inTable, hi, fun _ h => wp_enumeratePort_table h⟩
  exact hrule.hubScan h

theorem wp_usbIsHub {w : HcdWorld σ} {E : Stop → σ → Prop} {Q : Int → Usb → σ → Prop} {ifnum : Nat}
    (hE : ∀ e, E e s) (h : ∀ r, Q r u s)
    : wp w (usbIsHub dev ifnum) Q E u s := by
  have hread : ∀ {α : Type} (x : Except Stop α) {Q : α → Usb → σ → Prop}, (∀ a, Q a u s) →
      wp w (Stateful.ofExcept x) Q E u s := by
    rintro α (e | a) Q h
    . exact hE e
    . exact h a
  unfold usbIsHub
  rw [wp_bind, wp_get]
  dsimp only
  rw [wp_bind]
  refine hread _ fun cls => ?_
  rw [wp_bind]
  refine hread _ fun subClass => ?_
  rw [wp_bind]
  refine hread _ fun bNumEndpoints => ?_
  rw [wp_bind]
  refine hread _ fun ep => ?_
  simp only [wp_ite, wp_pure]
  simp [h]

theorem wp_usbScanRoothub_table (h : TableState u)
    : wp (deviceWorld σ ConfigFits) usbScanRoothub (fun _ v _ => TableState v) (fun _ _ => True)
        u s := by
  unfold usbScanRoothub
  rw [wp_bind]
  refine wp_post (wp_usbAllocNewDevice_table h (fun _ h => nomatch h)) ?_
  rintro (_ | root) v t ⟨htable, -, hscan⟩
  . exact htable
  . rw [wp_bind]
    refine wp_post (wp_usbScanDevice_table (hscan root rfl)) fun ret v t h => ?_
    split
    . exact h.table
    . rw [wp_bind]
      refine wp_usbIsHub (fun _ => trivial) fun hub => ?_
      split <;> exact h.table

theorem wp_storeHubDescriptor_fits {w : HcdWorld σ} {Q : Unit → Usb → σ → Prop} {E : Stop → σ → Prop}
    {buffer : Bytes 512} (hports : ((u.usbDev dev).hubdescriptor 2).toNat ≤ 31)
    (hask : wp w (Stateful.ask (HcdOp.copyingHub dev buffer))
      (fun _ v t => v = u ∧ HubFits buffer ∧
        ∀ d : Bytes 11, (d 2).toNat ≤ 31 →
          Q () (u.setDev dev { u.usbDev dev with
            hubdescriptor := d, maxchild := (buffer 2).toNat }) t) E u s)
    : wp w (storeHubDescriptor dev buffer) Q E u s := by
  unfold storeHubDescriptor
  rw [wp_bind]
  apply wp_post hask
  rintro _ v t ⟨rfl, hfits, hQ⟩
  obtain ⟨d, hcopy, hd⟩ := copyHubDescriptor_fits v.usbDevAddr hfits hports
  rw [wp_bind, wp_get, wp_bind, hcopy, wp_ofExcept_ok, wp_bind, wp_set, wp_modifyDev]
  have hstored : Usb.setDev { v with usbDev := v.usbDev.withHub dev d } dev
      { v.usbDev.withHub dev d dev with maxchild := (buffer 2).toNat } =
      v.setDev dev { v.usbDev dev with hubdescriptor := d, maxchild := (buffer 2).toNat } := by
    rw [withHub_same]
    show (v.setDev dev _).setDev dev _ = _
    rw [Usb.setDev_setDev]
  rw [hstored]
  exact hQ d hd

theorem wp_usbHubInit_table (h : InTable dev u)
    : wp (deviceWorld σ fits) (usbHubInit dev) (fun _ v _ => InTable dev v) (fun _ _ => True)
        u s := by
  have hframe : Frame (deviceWorld σ fits) (fun v _ => InTable dev v) (fun _ _ => True) dev :=
    frame_inTable
  refine hframe.hubInit (fun {u s} buffer h => ?_) h
  apply wp_storeHubDescriptor_fits (h.1.ports dev)
  intro t
  refine ⟨fun _ hfits => ⟨rfl, hfits, fun d hports => ?_⟩, fun _ _ => trivial⟩
  exact ⟨h.1.setDev h.2 (h.1.devnum dev h.2) rfl rfl hports, h.2⟩

theorem wp_usbInit {w : HcdWorld σ} {E : Stop → σ → Prop}
    : wp w usbInit
        (fun _ v t => TableState v ∧ v.gDevIndex = 0 ∧ (∀ i, v.usbDev i = .fresh) ∧ t = s) E u s := by
  refine ⟨⟨⟨Nat.zero_le _, fun _ _ => rfl, ?_, ?_, ?_⟩, fun _ => Nat.zero_le _⟩, rfl, fun _ => rfl, rfl⟩
  . exact fun _ hi => absurd hi (Nat.not_lt_zero _)
  . exact fun _ hi => absurd hi (Nat.not_lt_zero _)
  . exact fun _ hi => absurd hi (Nat.not_lt_zero _)

theorem TableRun.state (h : TableRun (deviceWorld σ ConfigFits) u s) : TableState u := by
  induction h with
  | init hr => exact (wp_run (E := fun _ _ => True) wp_usbInit hr).1
  | alloc _ hparent hr ih => exact (wp_run (wp_usbAllocNewDevice_table ih hparent) hr).1
  | scanRoothub _ hr ih => exact wp_run (wp_usbScanRoothub_table ih) hr
  | hubInit _ hlt hr ih => exact (wp_run (wp_usbHubInit_table ⟨ih, hlt⟩) hr).1
  | hubScan _ hlt hi hr ih => exact (wp_run (wp_usbHubScan_table hi ⟨ih, hlt⟩) hr).1

/--
As long as every configuration that is parsed fits, the table is in order after each call: no two
devices share an address, and no device is among its own ancestors.
-/
theorem tableRun_inv (h : TableRun (deviceWorld σ ConfigFits) u s)
    : TableInv u ∧
      (∀ i j : Fin 32, i < u.gDevIndex → j < u.gDevIndex → i ≠ j → (u.usbDev i).devnum ≠ 0 →
        (u.usbDev i).devnum ≠ (u.usbDev j).devnum) ∧
      ∀ i, ¬Relation.TransGen u.ParentOf i i :=
  have hinv := h.state.toTableInv
  ⟨hinv, fun _ _ hi hj hne hnum => hinv.devnum_ne hi hj hne hnum, hinv.acyclic⟩

end

/-!
### Runs with concrete devices
-/

def plainDevice : List Byte := [18, 1, 0, 2, 0, 0, 0, 64, 0, 0, 0, 0, 0, 0, 0, 0, 0, 1]

def hubConfig : List Byte :=
  [9, 2, 25, 0, 1, 1, 0, 0xc0, 0, 9, 4, 0, 0, 1, 9, 0, 0, 0, 7, 5, 0x81, 3, 8, 0, 0xff]

/--
What the devices send: slot 0 is a hub with two ports, behind the first of which a device with the
configuration `config` waits. `changed` is the connection change of that port.
-/
def plainData (config : List Byte) (changed : Bool) (dev : Fin 32) (setup : DevRequest) : List Byte :=
  if setup.requesttype = 0xa3 then
    [3, 0, if changed then 1 else 0, 0]
  else if setup.requesttype = 0xa0 then
    if setup.request = usbReqGetStatus then [0, 0, 0, 0] else [9, 0x29, 2, 0, 0, 0, 0, 0, 0]
  else if setup.requesttype = usbDirIn then
    if setup.value = 0x0100 then plainDevice else if dev = 0 then hubConfig else config
  else
    []

/-- A device that was just plugged in; the next request to the port clears the connection change. -/
def pluggedScript (x : Transfer) (changed : Bool) : Option (List Byte) × Bool :=
  match x.setup with
  | none => (some [], false)
  | some setup =>
    (some (plainData (interfaceList 2) changed x.dev setup), changed && setup.requesttype ≠ usbRtPort)

/-- The driver with these devices behind it, up to the first configuration that does not fit. -/
def plainHandler (checked : Bool) (config : List Byte) (o : HcdOp) (changed : Bool)
    : Except Stop (HcdAns o) × Bool :=
  match o with
  | .submit x =>
    let data := match x.setup with
      | some setup => (plainData config changed x.dev setup).take x.length
      | none => []
    let cleared := match x.setup with
      | some setup => setup.requesttype = usbRtPort ∧ setup.value = usbPortFeatCConnection
      | none => False
    (.ok ⟨0, { x.usbDev x.dev with status := 0, actLen := data.length }, data⟩,
      changed && !cleared)
  | .stack _ => (.ok .zero, changed)
  | .parsing _ buffer =>
    if checked then
      match parseAndVisit strictMem buffer 64 .zero with
      | .ok _ => (.ok (), changed)
      | .error e => (.error e, changed)
    else
      (.ok (), changed)
  | .copyingHub _ buffer => (if HubFits buffer then .ok () else .error .fault, changed)

/-- `main` up to the device behind the first port of the root hub. -/
def enumerateFirst : UsbM (Int × Option (Fin 32)) := do
  let _ ← usbInit
  let _ ← usbScanRoothub
  let u ← get
  if 0 < u.gDevIndex then
    let _ ← usbHubInit 0
    let u ← get
    if 0 < u.gDevIndex then usbHubScan 0 0 else Stateful.stop .fault
  else
    Stateful.stop .fault

def bootUsb : Usb := ⟨fun _ => .zero, 0x10000, 0, 0, 0, 0, ⟨0, 0, 0, 0, 0⟩⟩

theorem plainHandler_offers (checked : Bool) (config : List Byte) {fits : Bytes 512 → Prop}
    (hfits : ∀ buffer, checked = false ∨ ConfigFits buffer → fits buffer)
    : Prog.Offers (plainHandler checked config) (deviceWorld Bool fits) := by
  intro o s y t h
  cases o with
  | submit x =>
    cases h
    have hlen : ∀ l : List Byte, (l.take x.length).length ≤ x.length := fun l => List.length_take_le ..
    refine ⟨?_, fun _ => ?_, ?_⟩
    . cases x.setup with
      | none => exact Nat.zero_le _
      | some setup => exact hlen _
    . cases x.setup with
      | none => exact Int.natCast_nonneg _
      | some setup => exact Int.ofNat_le.mpr (hlen _)
    . exact ⟨rfl, .inl rfl, fun _ _ _ => rfl⟩
  | stack n => exact trivial
  | parsing dev buffer =>
    unfold plainHandler at h
    dsimp only at h
    split at h
    . split at h
      . next eps heps => exact hfits buffer (.inr (fits_of_parsed heps))
      . cases h
    . next hchecked => exact hfits buffer (.inl (by simpa using hchecked))
  | copyingHub dev buffer =>
    unfold plainHandler at h
    dsimp only at h
    split at h
    . next hhub => exact hhub
    . cases h

theorem tableRun_enumerateFirst {σ : Type} {w : HcdWorld σ} {u v : Usb} {s t : σ}
    {r : Int × Option (Fin 32)} (h : enumerateFirst.Run w u s (.ok (r, v)) t)
    : TableRun w v t := by
  unfold enumerateFirst at h
  obtain ⟨_, u, s, hinit, h⟩ | ⟨_, hf, -⟩ := run_bind.mp h
  . have hrun : TableRun w u s := .init hinit
    obtain ⟨_, u, s, hroot, h⟩ | ⟨_, hf, -⟩ := run_bind.mp h
    . have hrun := hrun.scanRoothub hroot
      rw [run_get_bind] at h
      split at h
      . next hlt =>
        obtain ⟨_, u, s, hhub, h⟩ | ⟨_, hf, -⟩ := run_bind.mp h
        . have hrun := hrun.hubInit hlt hhub
          rw [run_get_bind] at h
          split at h
          . next hlt => exact hrun.hubScan hlt (by decide) h
          . cases h
        . cases hf
      . cases h
    . cases hf
  . cases hf

/-- The tenth interface of the first device is stored in the slot of the second. -/
theorem ten_interfaces_not_tableInv
    : ¬∀ (u : Usb) (s : Bool), TableRun (deviceWorld Bool fun _ => True) u s → TableInv u := by
  intro h
  obtain ⟨r, v, t, hr, hp⟩ :=
    exists_run_of_check (plainHandler_offers false (interfaceList 10) fun _ _ => trivial)
      (m := enumerateFirst) (u := bootUsb) (s := true)
      (p := fun _ v _ => v.gDevIndex = 2 ∧ (v.usbDev 2).mf 28 = 9) (by decide +kernel)
  obtain ⟨hindex, hmf⟩ := of_decide_eq_true hp
  have hfresh := (h v t (tableRun_enumerateFirst hr)).untouched 2 (by rw [hindex]; decide)
  rw [hfresh] at hmf
  exact absurd hmf (by decide)

theorem tableRun_inv_two_interfaces
    : ∃ (u : Usb) (s : Bool), TableRun (deviceWorld Bool ConfigFits) u s ∧
        u.gDevIndex = 2 ∧ (u.usbDev 1).devnum = 2 ∧ TableInv u := by
  obtain ⟨r, v, t, hr, hp⟩ :=
    exists_run_of_check
      (plainHandler_offers true (interfaceList 2) fun _ h => h.resolve_left (by decide))
      (m := enumerateFirst) (u := bootUsb) (s := true)
      (p := fun _ v _ => v.gDevIndex = 2 ∧ (v.usbDev 1).devnum = 2) (by decide +kernel)
  obtain ⟨hindex, hnum⟩ := of_decide_eq_true hp
  have hrun := tableRun_enumerateFirst hr
  exact ⟨v, t, hrun, hindex, hnum, (tableRun_inv hrun).1⟩
