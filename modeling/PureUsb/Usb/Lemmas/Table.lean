import PureUsb.Usb.ConfigBounds
import PureUsb.Usb.Contract

/-!
This module contains the connection between the memory that refuses bad accesses and the memory that
is really there: in the device table the parser does the same to one `config` as long as nothing is
refused.
-/

open Except (Sim)

/-- Whatever `m` does not refuse has the same effect in `m'`. -/
structure ConfigMem.Refines {M M' : Type} (m : ConfigMem M) (m' : ConfigMem M') (R : M → M' → Prop)
    : Prop where
  ld : ∀ {c t} l, R c t → Sim .fault Eq (m.ld c l) (m'.ld t l)
  st : ∀ {c t} l b, R c t → Sim .fault R (m.st c l b) (m'.st t l b)
  copy : ∀ {c t} l bs, R c t → Sim .fault R (m.copy c l bs) (m'.copy t l bs)

section

variable {M M' : Type} {m : ConfigMem M} {m' : ConfigMem M'} {R : M → M' → Prop}
variable {buffer : Bytes 512} {c : M} {t : M'} {s : ParseState M} {s' : ParseState M'}

/-- The variables of the loop agree, and the memories correspond. -/
inductive ParseState.Related (R : M → M' → Prop) : ParseState M → ParseState M' → Prop where
  | mk {c : M} {t : M'} (h : R c t) (index : Nat) (ifno currIfNum : Int) :
      Related R ⟨c, index, ifno, currIfNum⟩ ⟨t, index, ifno, currIfNum⟩

theorem sim_parseInterface (hm : m.Refines m' R) (hs : s.Related R s')
    : Sim .fault (ParseState.Related R) (parseInterface m buffer s) (parseInterface m' buffer s') := by
  obtain ⟨hR, index, ifno, currIfNum⟩ := hs
  unfold parseInterface
  refine (Sim.eq_refl _).bind fun num _ h => ?_
  subst h
  split
  . refine (hm.ld _ hR).bind fun n _ h => ?_
    subst h
    refine (hm.st _ _ hR).bind fun c t hR => ?_
    refine (Sim.eq_refl _).bind fun len _ h => ?_
    subst h
    refine (Sim.eq_refl _).bind fun bytes _ h => ?_
    subst h
    refine (hm.copy _ _ hR).bind fun c t hR => ?_
    refine (hm.st _ _ hR).bind fun c t hR => ?_
    refine (hm.st _ _ hR).bind fun c t hR => ?_
    refine (hm.ld _ hR).bind fun curr _ h => ?_
    subst h
    exact .pure (.mk hR ..)
  . refine (hm.ld _ hR).bind fun n _ h => ?_
    subst h
    refine (hm.st _ _ hR).bind fun c t hR => ?_
    exact .pure (.mk hR ..)

theorem sim_parseEndpoint (hm : m.Refines m' R) (hs : s.Related R s')
    : Sim .fault (ParseState.Related R) (parseEndpoint m buffer s) (parseEndpoint m' buffer s') := by
  obtain ⟨hR, index, ifno, currIfNum⟩ := hs
  unfold parseEndpoint
  refine (hm.ld _ hR).bind fun epno _ h => ?_
  subst h
  refine (hm.st _ _ hR).bind fun c t hR => ?_
  refine (Sim.eq_refl _).bind fun len _ h => ?_
  subst h
  refine (Sim.eq_refl _).bind fun bytes _ h => ?_
  subst h
  refine (hm.copy _ _ hR).bind fun c t hR => ?_
  exact .pure (.mk hR ..)

/-- The loop goes on in both, or ends in both. -/
inductive StepRelated (R : M → M' → Prop) : ParseState M ⊕ M → ParseState M' ⊕ M' → Prop where
  | goes {s : ParseState M} {s' : ParseState M'} (h : s.Related R s') : StepRelated R (.inl s) (.inl s')
  | ends {c : M} {t : M'} (h : R c t) : StepRelated R (.inr c) (.inr t)

theorem sim_parseStep (hm : m.Refines m' R) (hs : s.Related R s')
    : Sim .fault (StepRelated R) (parseStep m buffer s) (parseStep m' buffer s') := by
  have hs0 := hs
  obtain ⟨hR, index, ifno, currIfNum⟩ := hs
  unfold parseStep
  refine (hm.ld _ hR).bind fun lo _ h => ?_
  subst h
  refine (hm.ld _ hR).bind fun hi _ h => ?_
  subst h
  dsimp only
  split
  . refine (Sim.eq_refl _).bind fun type _ h => ?_
    subst h
    split
    . refine (sim_parseInterface hm hs0).bind fun s s' hs => ?_
      obtain ⟨hR, index, ifno, currIfNum⟩ := hs
      refine (Sim.eq_refl _).bind fun len _ h => ?_
      subst h
      exact .pure (.goes (.mk hR ..))
    . split
      . refine (sim_parseEndpoint hm hs0).bind fun s s' hs => ?_
        obtain ⟨hR, index, ifno, currIfNum⟩ := hs
        refine (Sim.eq_refl _).bind fun len _ h => ?_
        subst h
        exact .pure (.goes (.mk hR ..))
      . refine (Sim.eq_refl _).bind fun len _ h => ?_
        subst h
        split
        . exact .pure (.ends hR)
        . refine (Sim.eq_refl _).bind fun bytes _ h => ?_
          subst h
          exact .pure (.goes (.mk hR ..))
  . exact .pure (.ends hR)

theorem sim_parseLoop (hm : m.Refines m' R) (hs : s.Related R s') (fuel : Nat)
    : Sim .fault R (parseLoop m buffer fuel s) (parseLoop m' buffer fuel s') := by
  induction fuel generalizing s s' with
  | zero => exact .error Stop.hang
  | succ fuel ih =>
    unfold parseLoop
    refine (sim_parseStep hm hs).bind fun x y hxy => ?_
    cases hxy with
    | goes hs => exact ih hs
    | ends hR => exact .pure hR

theorem sim_parseHeader (hm : m.Refines m' R) (hR : R c t)
    : Sim .fault (Option.Rel (ParseState.Related R)) (parseHeader m buffer c)
        (parseHeader m' buffer t) := by
  unfold parseHeader
  refine (Sim.eq_refl _).bind fun type _ h => ?_
  subst h
  split
  . exact .pure .none
  . refine (Sim.eq_refl _).bind fun len _ h => ?_
    subst h
    refine (Sim.eq_refl _).bind fun bytes _ h => ?_
    subst h
    refine (hm.copy _ _ hR).bind fun c t hR => ?_
    refine (hm.st _ _ hR).bind fun c t hR => ?_
    refine (hm.ld _ hR).bind fun index _ h => ?_
    subst h
    exact .pure (.some (.mk hR ..))

theorem sim_parseConfig (hm : m.Refines m' R) (hR : R c t)
    : Sim .fault (fun x y => x.1 = y.1 ∧ R x.2 y.2) (parseConfig m buffer c)
        (parseConfig m' buffer t) := by
  unfold parseConfig
  refine (sim_parseHeader hm hR).bind fun x y hxy => ?_
  cases hxy with
  | none => exact .pure ⟨rfl, hR⟩
  | some hs =>
    refine (sim_parseLoop hm hs _).bind fun c t hR => ?_
    exact .pure ⟨rfl, hR⟩

theorem sim_configEndpoints (hm : m.Refines m' R) (hR : R c t)
    : Sim .fault Eq (configEndpoints m c) (configEndpoints m' t) := by
  unfold configEndpoints
  refine (hm.ld _ hR).bind fun n _ h => ?_
  subst h
  refine (Sim.mapM _ fun i _ => ?_).bind fun eps _ h => ?_
  . unfold interfaceEndpoints
    refine (hm.ld _ hR).bind fun n _ h => ?_
    subst h
    refine Sim.mapM _ fun e _ => ?_
    unfold loadEndpoint
    refine (hm.ld _ hR).bind fun _ _ h => ?_
    subst h
    refine (hm.ld _ hR).bind fun _ _ h => ?_
    subst h
    refine (hm.ld _ hR).bind fun _ _ h => ?_
    subst h
    refine (hm.ld _ hR).bind fun _ _ h => ?_
    subst h
    exact .pure rfl
  . subst h
    exact .pure rfl

end

/-!
### The device table
-/

/-- A field of `struct usb_device` that consists of bytes. -/
structure ByteField (n : Nat) where
  offset : Nat
  get : UsbDevice → Bytes n
  put : UsbDevice → Bytes n → UsbDevice
  inside : offset + n ≤ sizeofUsbDevice
  put_get : ∀ d, put d (get d) = d
  get_put : ∀ d b, get (put d b) = b
  put_put : ∀ d b b', put (put d b) b' = put d b'
  setByte : ∀ base d b {o}, o < n → d.setByte base (offset + o) b = put d ((get d).write o [b])

theorem UsbDevice.setByte_hubdescriptor (base : BitVec 32) (d : UsbDevice) (b : Byte) {o : Nat}
    (h : o < 11)
    : d.setByte base (offsetofHubdescriptor + o) b =
        { d with hubdescriptor := d.hubdescriptor.write o [b] } := by
  unfold setByte offsetofHubdescriptor
  simp (disch := omega) only [if_neg, if_pos, Nat.add_sub_cancel_left]

namespace ByteField

def config : ByteField 1002 where
  offset := offsetofConfig
  get d := d.config
  put d c := { d with config := c }
  inside := by decide
  put_get _ := rfl
  get_put _ _ := rfl
  put_put _ _ _ := rfl
  setByte base d b _ h := d.setByte_config base b h

def hubdescriptor : ByteField 11 where
  offset := offsetofHubdescriptor
  get d := d.hubdescriptor
  put d c := { d with hubdescriptor := c }
  inside := by decide
  put_get _ := rfl
  get_put _ _ := rfl
  put_put _ _ _ := rfl
  setByte base d b _ h := d.setByte_hubdescriptor base b h

variable {n : Nat} (f : ByteField n) {t : UsbTable} {k : Fin 32} {base : BitVec 32}

/-- Byte `o` of the field in `usb_dev[k]`. -/
abbrev addr (k : Fin 32) (o : Nat) : Int := sizeofUsbDevice * k + f.offset + o

theorem addr_eq {o : Nat} (h : o < n)
    : (0 ≤ f.addr k o ∧ f.addr k o < 32 * 1364) ∧ (f.addr k o).toNat / 1364 = k ∧
      (f.addr k o).toNat % 1364 = f.offset + o := by
  have hk := k.isLt
  have hinside : f.offset + n ≤ 1364 := f.inside
  have haddr : f.addr k o = ((1364 * k + (f.offset + o) : Nat) : Int) := by
    unfold addr sizeofUsbDevice
    omega
  rw [haddr, Int.toNat_natCast]
  omega

def putAt (t : UsbTable) (k : Fin 32) (b : Bytes n) : UsbTable :=
  Function.update t k (f.put (t k) b)

theorem putAt_same (b : Bytes n) : f.putAt t k b k = f.put (t k) b := by
  simp [putAt]

theorem putAt_self : f.putAt t k (f.get (t k)) = t := by
  unfold putAt
  rw [f.put_get]
  exact Function.update_eq_self k t

theorem putAt_putAt (b b' : Bytes n) : f.putAt (f.putAt t k b) k b' = f.putAt t k b' := by
  unfold putAt
  simp [f.put_put]

theorem poke_field {o : Nat} (b : Byte) (h : o < n)
    : poke t base (f.addr k o) b = .ok (f.putAt t k ((f.get (t k)).write o [b])) := by
  obtain ⟨hrange, hdiv, hmod⟩ := f.addr_eq (k := k) h
  unfold poke
  rw [if_pos hrange, hdiv, hmod]
  congr 1
  funext i
  unfold putAt
  by_cases hi : i = k
  . subst hi
    rw [if_pos rfl, f.setByte base _ b h, Function.update_self]
  . rw [if_neg fun hf => hi (Fin.ext hf), Function.update_of_ne hi]

theorem pokes_field {o : Nat} (l : List Byte) (h : o + l.length ≤ n)
    : pokes t base (f.addr k o) l = .ok (f.putAt t k ((f.get (t k)).write o l)) := by
  induction l generalizing t o with
  | nil =>
    rw [Bytes.write_nil, putAt_self]
    rfl
  | cons b l ih =>
    rw [List.length_cons] at h
    have hnext : f.addr k o + 1 = f.addr k (o + 1) := by
      unfold addr
      omega
    unfold pokes
    rw [f.poke_field b (by omega)]
    show pokes _ base (f.addr k o + 1) l = _
    rw [hnext, ih (by omega), putAt_putAt, putAt_same, f.get_put, Bytes.write_cons]

end ByteField

section

variable {t : UsbTable} {k : Fin 32} {base : BitVec 32} {c : Bytes 1002}

def UsbTable.withConfig (t : UsbTable) (k : Fin 32) (c : Bytes 1002) : UsbTable :=
  ByteField.config.putAt t k c

@[simp]
theorem withConfig_same : (t.withConfig k c) k = { t k with config := c } :=
  ByteField.config.putAt_same c

theorem withConfig_self : t.withConfig k (t k).config = t := ByteField.config.putAt_self

@[simp]
theorem withConfig_withConfig {c' : Bytes 1002}
    : (t.withConfig k c).withConfig k c' = t.withConfig k c' :=
  ByteField.config.putAt_putAt c c'

/-- Byte `o` of `usb_dev[k].config`. -/
abbrev configAddr (k : Fin 32) (o : Nat) : Int := sizeofUsbDevice * k + offsetofConfig + o

theorem peek_config {o : Nat} (h : o < 1002)
    : peek t base (configAddr k o) = .ok ((t k).config.byte o) := by
  obtain ⟨hrange, hdiv, hmod⟩ : (0 ≤ configAddr k o ∧ configAddr k o < 32 * 1364) ∧
      (configAddr k o).toNat / 1364 = k ∧ (configAddr k o).toNat % 1364 = offsetofConfig + o :=
    ByteField.config.addr_eq h
  have hslot : (⟨(configAddr k o).toNat / 1364, by omega⟩ : Fin 32) = k := Fin.ext hdiv
  unfold peek
  rw [dif_pos hrange, hslot, hmod, UsbDevice.getByte_config base _ h, Bytes.byte_of_lt _ h]

theorem poke_config {o : Nat} (b : Byte) (h : o < 1002)
    : poke t base (configAddr k o) b = .ok (t.withConfig k ((t k).config.write o [b])) :=
  ByteField.config.poke_field b h

theorem pokes_config {o : Nat} (l : List Byte) (h : o + l.length ≤ 1002)
    : pokes t base (configAddr k o) l = .ok (t.withConfig k ((t k).config.write o l)) :=
  ByteField.config.pokes_field l h

/-- The tables that only differ from `t` in the configuration of slot `k`. -/
def HasConfig (t : UsbTable) (k : Fin 32) (c : Bytes 1002) (t' : UsbTable) : Prop :=
  t' = t.withConfig k c

theorem HasConfig.config {t' : UsbTable} (h : HasConfig t k c t') : (t' k).config = c := by
  rw [h, withConfig_same]

theorem strictMem_refines (t : UsbTable) (k : Fin 32) (base : BitVec 32)
    : strictMem.Refines (tableMem k base) (HasConfig t k) where
  ld {c t'} l h := by
    by_cases hin : l.InBounds
    . obtain ⟨hnonneg, hlt⟩ := hin.offset_lt
      have hofs : l.offset = (l.offset.toNat : Int) := (Int.toNat_of_nonneg hnonneg).symm
      rw [strictMem_ld hin]
      show Sim .fault Eq _ (peek t' base (sizeofUsbDevice * k + offsetofConfig + l.offset))
      rw [hofs, peek_config hlt, h.config]
      exact .ok rfl
    . rw [strictMem_ld_fault hin]
      exact .bad
  st {c t'} l b h := by
    by_cases hin : l.InBounds
    . obtain ⟨hnonneg, hlt⟩ := hin.offset_lt
      have hofs : l.offset = (l.offset.toNat : Int) := (Int.toNat_of_nonneg hnonneg).symm
      rw [strictMem_st hin]
      show Sim .fault _ _ (poke t' base (sizeofUsbDevice * k + offsetofConfig + l.offset) b)
      rw [hofs, poke_config b hlt, h.config]
      refine .ok ?_
      rw [h]
      exact withConfig_withConfig
    . rw [strictMem_st_fault hin]
      exact .bad
  copy {c t'} l bs h := by
    by_cases hin : l.InBounds ∧ bs.length ≤ l.room
    . obtain ⟨hnonneg, hlt⟩ := hin.1.offset_lt
      have hofs : l.offset = (l.offset.toNat : Int) := (Int.toNat_of_nonneg hnonneg).symm
      have hroom := hin.1.offset_add_room_le
      rw [strictMem_copy hin.1 hin.2]
      show Sim .fault _ _ (pokes t' base (sizeofUsbDevice * k + offsetofConfig + l.offset) bs)
      rw [hofs, pokes_config bs (by omega), h.config]
      refine .ok ?_
      rw [h]
      exact withConfig_withConfig
    . rw [strictMem_copy_fault hin]
      exact .bad

/-!
### `usb_parse_config`
-/

theorem parseConfig_ne_fault {buffer : Bytes 512} (h : ConfigFits buffer)
    : parseConfig strictMem buffer .zero ≠ .error .fault := by
  intro hfault
  apply parsedInBounds_of_fits h parseFuel
  unfold parseConfig at hfault
  unfold parseAndVisit
  cases hheader : parseHeader strictMem buffer .zero with
  | error x =>
    rw [hheader] at hfault
    cases hfault
    rfl
  | ok s =>
    rw [hheader] at hfault
    cases s with
    | none => cases hfault
    | some s =>
      dsimp only [Bind.bind, Except.bind] at hfault ⊢
      cases hloop : parseLoop strictMem buffer parseFuel s with
      | error x =>
        rw [hloop] at hfault
        cases hfault
        rfl
      | ok c =>
        rw [hloop] at hfault
        cases hfault

theorem parseConfig_table_ok {buffer : Bytes 512} {ret : Int}
    (h : parseConfig strictMem buffer (t k).config = .ok (ret, c))
    : parseConfig (tableMem k base) buffer t = .ok (ret, t.withConfig k c) := by
  have hstart : HasConfig t k (t k).config t := by
    unfold HasConfig
    rw [withConfig_self]
  have hsim : Sim .fault _ (parseConfig strictMem buffer (t k).config) (parseConfig (tableMem k base) buffer t) :=
    sim_parseConfig (strictMem_refines t k base) hstart
  rw [h] at hsim
  obtain ⟨⟨ret', t'⟩, htable, hret, hc⟩ := hsim.of_left
  cases hret
  cases hc
  exact htable

theorem parseConfig_table {buffer : Bytes 512} {ret : Int} {t' : UsbTable} (hfits : ConfigFits buffer)
    (hzero : (t k).config = .zero) (h : parseConfig (tableMem k base) buffer t = .ok (ret, t'))
    : ∃ c, t' = t.withConfig k c ∧ parseConfig strictMem buffer .zero = .ok (ret, c) := by
  have hstart : HasConfig t k .zero t := by
    unfold HasConfig
    rw [← hzero, withConfig_self]
  have hsim : Sim .fault _ (parseConfig strictMem buffer .zero) (parseConfig (tableMem k base) buffer t) :=
    sim_parseConfig (strictMem_refines t k base) hstart
  rw [h] at hsim
  obtain ⟨⟨ret', c⟩, hstrict, hret, hc⟩ := hsim.of_right (parseConfig_ne_fault hfits)
  cases hret
  exact ⟨c, hc, hstrict⟩

end

/-!
### `usb_hub_init`
-/

theorem ports_write_le {d : Bytes 11} {buffer : Bytes 512} (hd : (d 2).toNat ≤ 31)
    (hbuffer : (buffer 2).toNat ≤ 31) (len : Nat)
    : (d.write 0 (buffer.range 0 len) 2).toNat ≤ 31 := by
  by_cases hlen : 2 < len
  . rw [Bytes.write_apply (j := 2) d (by simpa using hlen) rfl, Bytes.getElem_range,
      Bytes.byte_of_lt _ (by decide)]
    exact hbuffer
  . rw [Bytes.write_apply_of_ge d (by rw [Bytes.length_range]; show 0 + len ≤ 2; omega)]
    exact hd

section

variable {t : UsbTable} {dev : Fin 32}

/-- The table with `d` as the hub descriptor of slot `dev`. -/
def UsbTable.withHub (t : UsbTable) (dev : Fin 32) (d : Bytes 11) : UsbTable :=
  ByteField.hubdescriptor.putAt t dev d

theorem withHub_same (d : Bytes 11) : t.withHub dev d dev = { t dev with hubdescriptor := d } :=
  ByteField.hubdescriptor.putAt_same d

theorem withHub_self : t.withHub dev (t dev).hubdescriptor = t := ByteField.hubdescriptor.putAt_self

theorem pokes_hubdescriptor (base : BitVec 32) (d : Bytes 11) {a : Int} (o : Nat) {l : List Byte}
    (ha : a = ByteField.hubdescriptor.addr dev o) (h : o + l.length ≤ 11)
    : pokes (t.withHub dev d) base a l = .ok (t.withHub dev (d.write o l)) := by
  rw [ha, ByteField.hubdescriptor.pokes_field l h]
  unfold UsbTable.withHub
  rw [ByteField.putAt_putAt, ByteField.putAt_same, ByteField.get_put]

theorem copyBitmaps_fits (buffer : Bytes 512) {bNbrPorts : Nat} (h : bNbrPorts ≤ 31)
    : ∃ removable powerCtrl, copyBitmaps buffer bNbrPorts = .ok (removable, powerCtrl) ∧
        removable.length ≤ 4 ∧ powerCtrl.length ≤ 4 := by
  unfold copyBitmaps
  have hn : (bNbrPorts + 1 + 7) / 8 ≤ 4 := by omega
  generalize (bNbrPorts + 1 + 7) / 8 = n at hn
  dsimp only
  rw [rdRange_eq buffer (by decide), if_pos (by omega), rdRange_eq buffer (by decide),
    if_pos (by omega)]
  exact ⟨_, _, rfl, by rw [Bytes.length_range]; omega, by rw [Bytes.length_range]; omega⟩

theorem copyHubDescriptor_fits (base : BitVec 32) {buffer : Bytes 512}
    (hfits : HubFits buffer) (hports : ((t dev).hubdescriptor 2).toNat ≤ 31)
    : ∃ d, copyHubDescriptor t base dev buffer = .ok (t.withHub dev d) ∧ (d 2).toNat ≤ 31 := by
  obtain ⟨hlen, hbuffer⟩ := hfits
  have haddr : ∀ o : Nat, hubdescriptorAddr dev + o = ByteField.hubdescriptor.addr dev o :=
    fun _ => rfl
  have h3 : hubdescriptorAddr dev + 3 = ByteField.hubdescriptor.addr dev 3 := haddr 3
  have h7 : hubdescriptorAddr dev + 7 = ByteField.hubdescriptor.addr dev 7 := haddr 7
  have hports := ports_write_le hports hbuffer (buffer 0).toNat
  have hcopy : pokes (t.withHub dev (t dev).hubdescriptor) base (ByteField.hubdescriptor.addr dev 0)
      (buffer.range 0 (buffer 0).toNat) = _ :=
    pokes_hubdescriptor base (t dev).hubdescriptor 0 rfl (by rw [Bytes.length_range]; omega)
  rw [withHub_self, ← haddr, Int.natCast_zero, Int.add_zero] at hcopy
  generalize (t dev).hubdescriptor.write 0 (buffer.range 0 (buffer 0).toNat) = d at hports hcopy
  have hkept : ∀ (d : Bytes 11) l, d.write 3 l 2 = d 2 ∧ d.write 7 l 2 = d 2 := fun d l =>
    ⟨Bytes.write_apply_of_lt d (by decide), Bytes.write_apply_of_lt d (by decide)⟩
  unfold copyHubDescriptor
  rw [rdRange_eq buffer (by decide), if_pos (by omega), Except.ok_bind, hcopy, Except.ok_bind,
    pokes_hubdescriptor base d 3 h3 (by simp), Except.ok_bind,
    pokes_hubdescriptor base _ 7 h7 (by simp), Except.ok_bind, withHub_same]
  dsimp only
  rw [(hkept _ _).2, (hkept _ _).1]
  obtain ⟨removable, powerCtrl, hbitmaps, hremovable, hpower⟩ := copyBitmaps_fits buffer hports
  rw [hbitmaps, Except.ok_bind]
  dsimp only
  rw [pokes_hubdescriptor base _ 7 h7 (by omega), Except.ok_bind,
    pokes_hubdescriptor base _ 7 h7 (by omega)]
  refine ⟨_, rfl, ?_⟩
  simp only [hkept]
  exact hports

end
