import PureUsb.StackContents
import Mathlib.Order.Bounds.Basic

/-!
This module contains what `usb.c` makes of the strings that a device sends.
-/

open Stateful

/-!
### Workarounds
-/

/-- `n` code units behind the header are complete, printable, and have no high byte. -/
def PrintableUnits (buf : Bytes 512) (rc : Int) (n : Nat) : Prop :=
  ∀ k < n, 2 * (k : Int) + 3 < rc ∧ isprint (buf.byte (2 * k + 2)) = true ∧ buf.byte (2 * k + 3) = 0

section

variable {buf buf' : Bytes 512} {rc rc' : Int}

theorem PrintableUnits.succ {n : Nat} (h : PrintableUnits buf rc n) (hrc : 2 * (n : Int) + 3 < rc)
    (hlo : isprint (buf.byte (2 * n + 2)) = true) (hhi : buf.byte (2 * n + 3) = 0)
    : PrintableUnits buf rc (n + 1) := by
  intro k hk
  rcases Nat.lt_or_eq_of_le (Nat.le_of_lt_succ hk) with hlt | rfl
  . exact h k hlt
  . exact ⟨hrc, hlo, hhi⟩

theorem PrintableUnits.greatest {n : Nat} (h : PrintableUnits buf rc n) (hnot : ¬PrintableUnits buf rc (n + 1))
    : IsGreatest {n | PrintableUnits buf rc n} n := by
  refine ⟨h, ?_⟩
  intro m hm
  by_contra hlt
  exact hnot fun k hk => hm k (by omega)

theorem workaroundLength_greatest {fuel n m : Nat} (hn : PrintableUnits buf rc n)
    (h : workaroundLength buf rc fuel (2 * n + 2) = .ok m)
    : ∃ p, m = 2 * p + 2 ∧ IsGreatest {n | PrintableUnits buf rc n} p := by
  induction fuel generalizing n with
  | zero => cases h
  | succ fuel ih =>
    unfold workaroundLength at h
    split at h
    . next hlt =>
      obtain ⟨lo, hlo, h⟩ := Except.bind_eq_ok.mp h
      obtain ⟨hi, hhi, h⟩ := Except.bind_eq_ok.mp h
      have hlo := rd_eq_ok hlo
      have hhi := rd_eq_ok hhi
      split at h
      . next hbad =>
        cases h
        refine ⟨n, rfl, hn.greatest fun hnext => ?_⟩
        obtain ⟨-, hprint, hzero⟩ := hnext n (Nat.lt_succ_self n)
        rw [hlo, hhi, hprint, hzero] at hbad
        simp at hbad
      . next hgood =>
        rw [hlo, hhi] at hgood
        obtain ⟨hprint, hzero⟩ : isprint (buf.byte (2 * n + 2)) = true ∧ buf.byte (2 * n + 3) = 0 := by
          simpa using hgood
        exact ih (n := n + 1) (hn.succ (by omega) hprint hzero) h
    . next hlt =>
      cases h
      refine ⟨n, rfl, hn.greatest fun hnext => ?_⟩
      have := (hnext n (Nat.lt_succ_self n)).1
      omega

theorem fixString_zeros (h0 : buf 0 = 0) (h1 : buf 1 = 0) (h : fixString buf rc = .ok (buf', rc'))
    : ∃ p, IsGreatest {n | PrintableUnits buf rc n} p ∧
        if p = 0 then buf' = buf ∧ rc' = rc
        else buf' = buf.write 0 [BitVec.ofNat 8 (2 * p + 2)] ∧ rc' = (2 * p + 2 : Nat) := by
  unfold fixString at h
  rw [if_pos ⟨h0, h1⟩] at h
  obtain ⟨newlength, hlength, h⟩ := Except.bind_eq_ok.mp h
  obtain ⟨p, rfl, hp⟩ := workaroundLength_greatest (n := 0) (fun k hk => absurd hk (Nat.not_lt_zero k)) hlength
  refine ⟨p, hp, ?_⟩
  split at h
  . next hlong =>
    cases h
    rw [if_neg (by omega)]
    exact ⟨rfl, rfl⟩
  . next hshort =>
    cases h
    rw [if_pos (by omega)]
    exact ⟨rfl, rfl⟩

theorem fixString_others (hne : ¬(buf 0 = 0 ∧ buf 1 = 0)) (h : fixString buf rc = .ok (buf', rc'))
    : buf' = buf ∧ rc' = rc := by
  unfold fixString at h
  rw [if_neg hne] at h
  cases h
  exact ⟨rfl, rfl⟩

theorem fixString_le (h : fixString buf rc = .ok (buf', rc')) : rc' ≤ rc := by
  by_cases hzeros : buf 0 = 0 ∧ buf 1 = 0
  . obtain ⟨p, hp, hfixed⟩ := fixString_zeros hzeros.1 hzeros.2 h
    by_cases hnone : p = 0
    . rw [if_pos hnone] at hfixed
      exact hfixed.2.le
    . rw [if_neg hnone] at hfixed
      have hlast : 2 * ((p - 1 : Nat) : Int) + 3 < rc := (hp.1 (p - 1) (by omega)).1
      rw [hfixed.2]
      omega
  . exact (fixString_others hzeros h).2.le

end

/-!
### The attempts
-/

/--
What `usb_string_sub` makes of `rc` bytes that were read into `rbuf`. They are fixed, and what is no complete
code unit is cut off.
-/
structure SubResult (rc : Int) (rbuf : Bytes 512) (ret : Int) (tbuf : Bytes 512) : Prop where
  short : rc < 2 → ret = -1
  long : 2 ≤ rc → ∃ rc' m, fixString rbuf rc = .ok (tbuf, rc') ∧
    m = (if ((tbuf 0).toNat : Int) < rc' then ((tbuf 0).toNat : Int) else rc') ∧
    ret = if m - m % 2 < 2 then -1 else m - m % 2

section

variable {rc ret : Int} {rbuf tbuf : Bytes 512}

theorem SubResult.received (h : SubResult rc rbuf ret tbuf)
    : ret = -1 ∨ 2 ≤ ret ∧ ret % 2 = 0 ∧ ret ≤ (tbuf 0).toNat ∧ ret ≤ rc := by
  by_cases hshort : rc < 2
  . exact .inl (h.short hshort)
  obtain ⟨rc', m, hfix, hm, hret⟩ := h.long (by omega)
  have hle := fixString_le hfix
  have hfirst : m ≤ (tbuf 0).toNat ∧ m ≤ rc' := by
    split at hm <;> omega
  split at hret
  . exact .inl hret
  . exact .inr (by omega)

theorem SubResult.repaired (h : SubResult rc rbuf ret tbuf) (hlong : 2 ≤ rc) (hle : rc ≤ 255)
    (h0 : rbuf 0 = 0) (h1 : rbuf 1 = 0)
    : ∃ p, IsGreatest {n | PrintableUnits rbuf rc n} p ∧
        if p = 0 then ret = -1
        else ret = (2 * p + 2 : Nat) ∧ tbuf = rbuf.write 0 [BitVec.ofNat 8 (2 * p + 2)] := by
  obtain ⟨rc', m, hfix, hm, hret⟩ := h.long hlong
  obtain ⟨p, hp, hfixed⟩ := fixString_zeros h0 h1 hfix
  refine ⟨p, hp, ?_⟩
  by_cases hnone : p = 0
  . rw [if_pos hnone] at hfixed ⊢
    obtain ⟨rfl, rfl⟩ := hfixed
    have hfirst : (tbuf 0).toNat = 0 := by
      rw [h0]
      rfl
    rw [hm, hfirst, if_pos (by omega)] at hret
    exact hret
  . rw [if_neg hnone] at hfixed ⊢
    obtain ⟨rfl, rfl⟩ := hfixed
    have hlast : 2 * ((p - 1 : Nat) : Int) + 3 < rc := (hp.1 (p - 1) (by omega)).1
    have hfirst : (rbuf.write 0 [BitVec.ofNat 8 (2 * p + 2)]) 0 = BitVec.ofNat 8 (2 * p + 2) := rfl
    have hbyte : (BitVec.ofNat 8 (2 * p + 2)).toNat = 2 * p + 2 := by
      rw [BitVec.toNat_ofNat]
      exact Nat.mod_eq_of_lt (by omega)
    rw [hfirst, hbyte, if_neg (Int.lt_irrefl _)] at hm
    refine ⟨?_, rfl⟩
    rw [hret, hm, if_neg (by omega)]
    omega

end

/-- `J` holds of the buffer before each request for a string, `P` of what is received and of the buffer after it. -/
structure KeptByReads {σ : Type} (w : HcdWorld σ) (dev : Fin 32) (J : Bytes 512 → Usb → σ → Prop)
    (P : Int → Bytes 512 → Usb → σ → Prop) : Prop where
  ok : ∀ {rbuf u s pipe setup y t}, J rbuf u s → w (.submit (u.request dev pipe .mybuf setup)) s (.ok y) t →
    P y.result (rbuf.write 0 y.data) (u.answered dev setup y) t ∧ y.result ≤ setup.length.toNat
  error : ∀ {x s e t}, ¬w (.submit x) s (.error e) t
  again : ∀ {rc rbuf u s}, P rc rbuf u s → J rbuf u s

namespace KeptByReads

variable {σ : Type} {w : HcdWorld σ} {dev : Fin 32} {J : Bytes 512 → Usb → σ → Prop}
variable {P : Int → Bytes 512 → Usb → σ → Prop} {langid : BitVec 16} {index : Byte} {rbuf : Bytes 512}
variable {u : Usb} {s : σ}

theorem msg (h : KeptByReads w dev J P) {pipe : BitVec 32} {size : Nat} (hsize : size ≤ 255) (hJ : J rbuf u s)
    : wp w (usbControlMsg dev pipe usbReqGetDescriptor usbDirIn
          ((usbDtString.setWidth 16 <<< 8) + index.setWidth 16) langid .mybuf (BitVec.ofNat 16 size) usbCntlTimeout)
        (fun r v t => P r.1 (rbuf.write 0 r.2) v t ∧ r.1 ≤ 255) (fun _ _ => False) u s := by
  have hlength : (BitVec.ofNat 16 size).toNat ≤ 255 := by
    rw [BitVec.toNat_ofNat]
    omega
  rw [wp_usbControlMsg (by decide)]
  intro setup x t
  constructor
  . intro y hy
    have hy : w (.submit (u.request dev pipe .mybuf setup)) s (.ok y) t := hy
    obtain ⟨hP, hle⟩ := h.ok hJ hy
    exact ⟨hP, Int.le_trans hle (Int.ofNat_le.mpr hlength)⟩
  . exact fun e he => h.error he

theorem getStringTries (h : KeptByReads w dev J P) {size : Nat} (hsize : size ≤ 255) (tries : Nat)
    (hJ : J rbuf u s)
    : wp w (usbGetStringTries dev langid index size rbuf tries)
        (fun r v t => P r.1 r.2 v t ∧ r.1 ≤ 255) (fun _ _ => False) u s := by
  induction tries generalizing rbuf u s with
  | zero =>
    unfold usbGetStringTries
    rw [wp_bind, wp_getDev, wp_bind]
    refine wp_post (h.msg hsize hJ) fun r v t hr => ?_
    dsimp only
    split <;> exact hr
  | succ tries ih =>
    unfold usbGetStringTries
    rw [wp_bind, wp_getDev, wp_bind]
    refine wp_post (h.msg hsize hJ) fun r v t hr => ?_
    dsimp only
    split
    . exact hr
    . exact ih (h.again hr.1)

theorem reads (h : KeptByReads w dev J P) (hJ : J rbuf u s)
    : wp w (readString dev langid index rbuf) (fun r v t => P r.1 r.2 v t ∧ r.1 ≤ 255) (fun _ _ => False) u s := by
  unfold readString usbGetString
  rw [wp_bind]
  refine wp_post (h.getStringTries (by decide) 2 hJ) ?_
  rintro ⟨rc, rbuf⟩ v t hr
  dsimp only
  split
  . rw [wp_bind]
    refine wp_post (h.getStringTries (by decide) 2 (h.again hr.1)) ?_
    rintro ⟨rc, rbuf⟩ v t hr
    dsimp only
    split
    . have hlt := (rbuf 0).isLt
      exact h.getStringTries (by omega) 2 (h.again hr.1)
    . exact hr
  . exact hr

theorem stringSub (h : KeptByReads w dev J P) (hJ : J rbuf u s)
    : wp w (usbStringSub dev langid index rbuf)
        (fun r v t => ∃ rc rbuf, rc ≤ 255 ∧ P rc rbuf v t ∧ SubResult rc rbuf r.1 r.2) (fun _ _ => False) u
        s := by
  unfold usbStringSub
  rw [wp_bind]
  refine wp_post (h.reads hJ) ?_
  rintro ⟨rc, rbuf⟩ v t ⟨hP, hle⟩
  dsimp only at hP hle ⊢
  split
  . next hlong =>
    obtain ⟨⟨tbuf, rc'⟩, hfix⟩ := fixString_ok rbuf (show rc ≤ 512 by omega)
    rw [hfix, wp_bind, wp_ofExcept_ok]
    exact ⟨rc, rbuf, hle, hP, fun hf => by omega, fun _ => ⟨rc', _, hfix, rfl, rfl⟩⟩
  . next hshort => exact ⟨rc, rbuf, hle, hP, fun _ => rfl, fun hf => absurd hf hshort⟩

end KeptByReads

/-!
### What was received
-/

def fill (buf : Bytes 512) (l : List Answered) : Bytes 512 := l.foldl (fun b e => b.write 0 e.2.data) buf

theorem fill_append (buf : Bytes 512) (l : List Answered) (e : Answered)
    : fill buf (l ++ [e]) = (fill buf l).write 0 e.2.data := by
  simp [fill]

/-- No transfer stops the program, or has more bytes than were requested. -/
structure Answering {σ : Type} (w : HcdWorld σ) : Prop where
  submit : ∀ {x s r t}, w (.submit x) s r t → ∃ y, r = .ok y ∧ y.result ≤ x.length

/-- The last answer was `rc`, and all answers together left `rbuf`. -/
structure LastRead (buf : Bytes 512) (l : List Answered) (rc : Int) (rbuf : Bytes 512) : Prop where
  result : ∃ e ∈ l.getLast?, e.2.result = rc
  buf : rbuf = fill buf l

theorem LastRead.append (buf : Bytes 512) (l : List Answered) (e : Answered)
    : LastRead buf (l ++ [e]) e.2.result ((fill buf l).write 0 e.2.data) := by
  refine ⟨⟨e, ?_, rfl⟩, (fill_append buf l e).symm⟩
  simp

/--
What `usb_string_sub` returns and leaves in the buffer, after these answers: no more than there is, and of a
string that starts with two zeros what is printable.
-/
structure StringSub (buf : Bytes 512) (l : List Answered) (ret : Int) (tbuf : Bytes 512) : Prop where
  received : ret = -1 ∨ 2 ≤ ret ∧ ret % 2 = 0 ∧ ret ≤ (tbuf 0).toNat ∧ ∃ e ∈ l.getLast?, ret ≤ e.2.result
  repaired : ∀ e ∈ l.getLast?, 2 ≤ e.2.result → fill buf l 0 = 0 → fill buf l 1 = 0 →
    ∃ p, IsGreatest {n | PrintableUnits (fill buf l) e.2.result n} p ∧
      if p = 0 then ret = -1
      else ret = (2 * p + 2 : Nat) ∧ tbuf = (fill buf l).write 0 [BitVec.ofNat 8 (2 * p + 2)]

section

variable {σ : Type} {w : HcdWorld σ} {dev : Fin 32} {langid : BitVec 16} {index : Byte}
variable {buf rbuf tbuf : Bytes 512} {u : Usb} {s : σ × List (HcdEvent σ)} {l : List Answered} {rc ret : Int}

theorem keptByReads_lastRead (hw : Answering w) (dev : Fin 32) (buf : Bytes 512)
    : KeptByReads w.traced dev (fun rbuf _ s => rbuf = fill buf (transfers s.2))
        (fun rc rbuf _ s => LastRead buf (transfers s.2) rc rbuf) := by
  refine ⟨?_, ?_, fun h => h.buf⟩
  . rintro rbuf u s pipe setup y t rfl ⟨hy, ht⟩
    obtain ⟨_, ⟨⟩, hle⟩ := hw.submit hy
    rw [ht, transfers_append]
    exact ⟨.append buf _ _, hle⟩
  . rintro x s e t ⟨he, -⟩
    obtain ⟨_, ⟨⟩, -⟩ := hw.submit he

theorem LastRead.stringSub (h : LastRead buf l rc rbuf) (hle : rc ≤ 255) (hsub : SubResult rc rbuf ret tbuf)
    : StringSub buf l ret tbuf := by
  obtain ⟨e, he, rfl⟩ := h.result
  constructor
  . rcases hsub.received with hfails | ⟨htwo, heven, hfirst, hlast⟩
    . exact .inl hfails
    . exact .inr ⟨htwo, heven, hfirst, e, he, hlast⟩
  . intro e' he' hlong h0 h1
    cases Option.mem_unique he he'
    rw [← h.buf] at h0 h1 ⊢
    exact hsub.repaired hlong hle h0 h1

/-- For any answers, `usb_string_sub` returns no more than was received last. -/
theorem usbStringSub_received (hw : Answering w) {r : Except Stop ((Int × Bytes 512) × Usb)} {s t : σ}
    {l : List (HcdEvent σ)} (hr : (usbStringSub dev langid index buf).Run w.traced u (s, []) r (t, l))
    : ∃ ret tbuf v, r = .ok ((ret, tbuf), v) ∧ StringSub buf (transfers l) ret tbuf := by
  have hsub : wp w.traced (usbStringSub dev langid index buf)
      (fun r _ t => StringSub buf (transfers t.2) r.1 r.2) (fun _ _ => False) u (s, []) :=
    wp_post ((keptByReads_lastRead hw dev buf).stringSub rfl)
      fun _ _ _ ⟨_, _, hle, hread, hsub⟩ => hread.stringSub hle hsub
  match r with
  | .ok ((ret, tbuf), v) =>
    have hend := wp_run hsub hr
    exact ⟨ret, tbuf, v, rfl, hend⟩
  | .error e => exact absurd (wp_run_error hsub hr) id

end

theorem scriptWorld_ok {σ : Type} {garbage : Byte} {script : Transfer → σ → Option (List Byte) × σ} {o : HcdOp}
    {s t : σ} {e : Stop}
    : ¬scriptWorld garbage script o s (.error e) t := by
  intro h
  unfold scriptWorld World.ofHandler scriptHandler at h
  cases o with
  | submit x =>
    dsimp only at h
    split at h <;> cases h
  | _ => cases h

theorem scriptWorld_answering {σ : Type} (garbage : Byte) (script : Transfer → σ → Option (List Byte) × σ)
    : Answering (scriptWorld garbage script) := by
  constructor
  intro x s r t h
  cases r with
  | ok y => exact ⟨y, rfl, ((scriptWorld_lawful garbage script).submit h).result_le⟩
  | error e => exact absurd h scriptWorld_ok

def headlessString (_ : Transfer) (s : Unit) : Option (List Byte) × Unit :=
  (some [0, 0, 0x41, 0, 0x42, 0, 0, 0], s)

theorem usbStringSub_received_headless
    : ∃ tbuf v l, (usbStringSub 0 0 1 .zero).Run (scriptWorld 0 headlessString).traced attachedUsb ((), [])
          (.ok ((6, tbuf), v)) ((), l) ∧
        StringSub .zero (transfers l) 6 tbuf := by
  obtain ⟨⟨ret, tbuf⟩, v, ⟨_, l⟩, hr, hp⟩ :=
    exists_run_of_check (World.tracedHandler_serves (Prog.ofHandler_serves (scriptHandler 0 headlessString))).offers
      (m := usbStringSub 0 0 1 .zero) (u := attachedUsb) (s := ((), [])) (p := fun r _ _ => r.1 = 6)
      (by decide +kernel)
  obtain rfl : ret = 6 := of_decide_eq_true hp
  obtain ⟨_, _, _, ⟨⟩, hsub⟩ := usbStringSub_received (scriptWorld_answering 0 headlessString) hr
  exact ⟨tbuf, v, l, hr, hsub⟩

/-!
### Texts
-/

/-- What `usb_string` makes of the code unit `k`. -/
def unitChar (tbuf : Bytes 512) (k : Nat) : Byte :=
  if tbuf.byte (2 * k + 3) ≠ 0 then 63 else tbuf.byte (2 * k + 2)

theorem stringChars_eq (tbuf : Bytes 512) {err size fuel j : Nat} (herr : err ≤ 512) (heven : err % 2 = 0)
    (hfuel : err ≤ 2 * j + 2 + 2 * fuel)
    : stringChars tbuf err size fuel (2 * j + 2) j =
        .ok ((List.range' j (min (size - j) ((err - 2) / 2 - j))).map (unitChar tbuf)) := by
  induction fuel generalizing j with
  | zero =>
    have hnone : min (size - j) ((err - 2) / 2 - j) = 0 := by omega
    rw [hnone]
    rfl
  | succ fuel ih =>
    unfold stringChars
    split
    . next hlt =>
      split
      . next hfull =>
        have hnone : min (size - j) ((err - 2) / 2 - j) = 0 := by omega
        rw [hnone]
        rfl
      . next hroom =>
        have hsome : min (size - j) ((err - 2) / 2 - j) = min (size - (j + 1)) ((err - 2) / 2 - (j + 1)) + 1 := by
          omega
        rw [rd_eq, if_pos (by omega), rd_eq, if_pos (by omega), hsome]
        show (stringChars tbuf err size fuel (2 * (j + 1) + 2) (j + 1) >>= _) = _
        rw [ih (by omega)]
        rfl
    . next hge =>
      have hnone : min (size - j) ((err - 2) / 2 - j) = 0 := by omega
      rw [hnone]
      rfl

/-- What is known about the languages of the device is the same. -/
structure SameLangid (d d' : UsbDevice) : Prop where
  haveLangid : d'.haveLangid = d.haveLangid
  stringLangid : d'.stringLangid = d.stringLangid

section

variable {σ : Type} {w : HcdWorld σ} {dev : Fin 32} {u v : Usb} {s t : σ} {d d' : UsbDevice}

theorem SameLangid.refl (d : UsbDevice) : SameLangid d d := ⟨rfl, rfl⟩

theorem SameLangid.trans {d'' : UsbDevice} (h : SameLangid d d') (h' : SameLangid d' d'') : SameLangid d d'' :=
  ⟨h'.haveLangid.trans h.haveLangid, h'.stringLangid.trans h.stringLangid⟩

theorem keptByReads_sameLangid (hw : Lawful w) (hok : ∀ {o s e t}, ¬w o s (.error e) t) (dev : Fin 32)
    (d : UsbDevice)
    : KeptByReads w dev (fun _ u _ => SameLangid d (u.usbDev dev)) fun _ _ u _ => SameLangid d (u.usbDev dev) := by
  refine ⟨?_, hok, id⟩
  intro rbuf u s pipe setup y t h hy
  have hallowed := hw.submit hy
  refine ⟨?_, hallowed.result_le⟩
  rw [(Usb.afterTransfer_answered hallowed).eq]
  exact ⟨h.haveLangid, h.stringLangid⟩

/-- The language table was not known, and now it was read: `d'` is the structure of the device after that. -/
def LangidLearned (w : HcdWorld σ) (dev : Fin 32) (tbuf : Bytes 512) (u : Usb) (s : σ) (d' : UsbDevice) : Prop :=
  (u.usbDev dev).haveLangid = 0 ∧
  ∃ err table v t, (usbStringSub dev 0 0 tbuf).Run w u s (.ok ((err, table), v)) t ∧
    0 ≤ err ∧ 4 ≤ (table 0).toNat ∧ d'.haveLangid = -1 ∧ d'.stringLangid = le16 (table 2) (table 3)

theorem LangidLearned.same {tbuf : Bytes 512} (h : LangidLearned w dev tbuf u s d) (h' : SameLangid d d')
    : LangidLearned w dev tbuf u s d' := by
  obtain ⟨hunknown, err, table, v, t, hrun, herr, hlong, hhave, hlangid⟩ := h
  exact ⟨hunknown, err, table, v, t, hrun, herr, hlong, h'.haveLangid.trans hhave, h'.stringLangid.trans hlangid⟩

theorem wp_readLangid_langid (hw : Lawful w) (hok : ∀ {o s e t}, ¬w o s (.error e) t) (tbuf : Bytes 512)
    : wp w (readLangid dev tbuf)
        (fun _ v _ => SameLangid (u.usbDev dev) (v.usbDev dev) ∨ LangidLearned w dev tbuf u s (v.usbDev dev))
        (fun _ _ => False) u s := by
  have hkept := keptByReads_sameLangid hw hok dev (u.usbDev dev)
  unfold readLangid
  rw [wp_bind, wp_getDev]
  split
  . next hunknown =>
    rw [wp_bind]
    refine wp_mono (wp_and (hkept.stringSub (.refl _)) (wp_self w _ u s)) ?_ fun _ _ h => h.1
    rintro ⟨err, table⟩ v t ⟨⟨_, _, _, hsame, -⟩, hrun⟩
    dsimp only
    split
    . exact .inl hsame
    . next herr =>
      split
      . exact .inl hsame
      . next hlong =>
        rw [wp_bind, wp_modifyDev]
        refine .inr ⟨hunknown, err, table, v, t, hrun, by omega, by omega, ?_⟩
        rw [Usb.setDev_same]
        exact ⟨rfl, rfl⟩
  . exact .inl (.refl _)

/--
What `usb_string` returns and stores: `n` is the size of the array that the first `size` bytes are given to it
for, `tbuf` is what it has on its stack.
-/
structure StringText (w : HcdWorld σ) (dev : Fin 32) (index : Int) (size : Nat) {n : Nat} (buf : Bytes n)
    (tbuf : Bytes 512) (u : Usb) (s : σ) (ret : Int) (buf' : Bytes n) (v : Usb) (t : σ) : Prop where
  outside : ∀ i, size ≤ i → buf'.byte i = buf.byte i
  text : 0 ≤ ret → ∃ tbuf₁ u₁ s₁ len table,
    (readLangid dev tbuf).Run w u s (.ok ((true, tbuf₁), u₁)) s₁ ∧
    (usbStringSub dev (BitVec.ofInt 16 (u₁.usbDev dev).stringLangid) (BitVec.ofInt 8 index) tbuf₁).Run w u₁ s₁
      (.ok ((len, table), v)) t ∧
    2 ≤ len ∧ len % 2 = 0 ∧ ret = min ((size : Int) - 1) ((len - 2) / 2) ∧
    buf'.byte ret.toNat = 0 ∧ ∀ k : Nat, (k : Int) < ret → buf'.byte k = unitChar table k
  empty : ret < 0 → buf'.byte 0 = 0
  langid : SameLangid (u.usbDev dev) (v.usbDev dev) ∨ LangidLearned w dev tbuf u s (v.usbDev dev)

variable {index : Int} {size n : Nat} {buf : Bytes n} {tbuf : Bytes 512} {r : Except Stop ((Int × Bytes n) × Usb)}

theorem StringText.failed {ret : Int} (hret : ret < 0) (hsize : 0 < size) (hn : size ≤ n)
    (hlangid : SameLangid (u.usbDev dev) (v.usbDev dev) ∨ LangidLearned w dev tbuf u s (v.usbDev dev))
    : StringText w dev index size buf tbuf u s ret (buf.write 0 [0]) v t where
  outside i hi := Bytes.byte_write_of_ge buf [0] (show 0 + 1 ≤ i by omega)
  text h := absurd hret (Int.not_lt.mpr h)
  empty _ := Bytes.byte_write buf [0] Nat.zero_lt_one (show 0 + 0 < n by omega)
  langid := hlangid

theorem byte_storedText (buf : Bytes n) (table : Bytes 512) {m : Nat} (hm : m < size) (hn : size ≤ n)
    : let b := (buf.write 0 [0]).write 0 ((List.range' 0 m).map (unitChar table) ++ [0])
      (∀ i, size ≤ i → b.byte i = buf.byte i) ∧ b.byte m = 0 ∧ ∀ k < m, b.byte k = unitChar table k := by
  intro b
  have hlength : ((List.range' 0 m).map (unitChar table) ++ [0]).length = m + 1 := by simp
  have hbyte : ∀ k (hk : k < ((List.range' 0 m).map (unitChar table) ++ [0]).length),
      b.byte k = ((List.range' 0 m).map (unitChar table) ++ [0])[k] := by
    intro k hk
    have := Bytes.byte_write (buf.write 0 [0]) _ hk (show 0 + k < n by omega)
    rwa [Nat.zero_add] at this
  refine ⟨?_, ?_, ?_⟩
  . intro i hi
    have hunchanged : b.byte i = (buf.write 0 [0]).byte i := Bytes.byte_write_of_ge _ _ (by omega)
    rw [hunchanged]
    exact Bytes.byte_write_of_ge buf [0] (show 0 + 1 ≤ i by omega)
  . rw [hbyte m (by omega)]
    simp
  . intro k hk
    rw [hbyte k (by omega)]
    simp [hk]

theorem wp_usbStringAt_text (hw : Lawful w) (hok : ∀ {o s e t}, ¬w o s (.error e) t) (hindex : index ≠ 0)
    (hsize : 0 < size) (hn : size ≤ n)
    : wp w (usbStringAt dev index size buf)
        (fun r v t => ∃ tbuf s₀, w (.stack 512) s (.ok tbuf) s₀ ∧
          StringText w dev index size buf tbuf u s₀ r.1 r.2 v t)
        (fun _ _ => False) u s := by
  unfold usbStringAt
  rw [if_neg (by omega), wp_bind, wp_ask]
  refine fun s₀ => ⟨fun tbuf hstack => ?_, fun _ he => hok he⟩
  rw [wp_bind]
  refine wp_mono (wp_and (wp_readLangid_langid hw hok tbuf) (wp_self w _ u s₀)) ?_ fun _ _ h => h.1
  rintro ⟨known, tbuf₁⟩ u₁ s₁ ⟨hlangid, hknown⟩
  dsimp only
  split
  . next hyes =>
    subst hyes
    rw [wp_bind, wp_getDev, wp_bind]
    have hkept := keptByReads_sameLangid hw hok dev (u₁.usbDev dev)
    refine wp_mono (wp_and (hkept.stringSub (.refl _)) (wp_self w _ u₁ s₁)) ?_ fun _ _ h => h.1
    rintro ⟨len, table⟩ v t ⟨⟨_, _, _, hsame, hsub⟩, hrun⟩
    have hlangid' := hlangid.imp (·.trans hsame) (·.same hsame)
    dsimp only at hsub ⊢
    split
    . next hneg => exact ⟨tbuf, s₀, hstack, .failed hneg hsize hn hlangid'⟩
    . next hnonneg =>
      obtain hfails | ⟨htwo, heven, hfirst, -⟩ := hsub.received
      . omega
      have hbyte := (table 0).isLt
      rw [stringChars_eq (j := 0) table (by omega) (by omega) (by omega), wp_bind, wp_ofExcept_ok]
      generalize hm : min (size - 1 - 0) ((len.toNat - 2) / 2 - 0) = m
      obtain ⟨houtside, hlast, hchars⟩ := byte_storedText buf table (show m < size by omega) hn
      rw [List.length_map, List.length_range']
      refine ⟨tbuf, s₀, hstack, houtside, fun _ => ?_, fun hneg => ?_, hlangid'⟩
      . refine ⟨tbuf₁, u₁, s₁, len, table, hknown, hrun, htwo, heven, ?_, hlast, ?_⟩
        . dsimp only
          omega
        . exact fun k hk => hchars k (Int.ofNat_lt.mp hk)
      . exact absurd hneg (Int.not_lt.mpr (Int.natCast_nonneg m))
  . exact ⟨tbuf, s₀, hstack, .failed (show (-1 : Int) < 0 by decide) hsize hn hlangid⟩

/-- For any answers, `usb_string` stores the text of the string, with a terminator, in the array it is given. -/
theorem usbStringAt_text (hw : Lawful w) (hok : ∀ {o s e t}, ¬w o s (.error e) t) (hindex : index ≠ 0)
    (hsize : 0 < size) (hn : size ≤ n) (hr : (usbStringAt dev index size buf).Run w u s r t)
    : ∃ ret buf' v tbuf s₀, r = .ok ((ret, buf'), v) ∧ w (.stack 512) s (.ok tbuf) s₀ ∧
        StringText w dev index size buf tbuf u s₀ ret buf' v t := by
  have htext : wp w (usbStringAt dev index size buf) _ _ u s := wp_usbStringAt_text hw hok hindex hsize hn
  match r with
  | .ok ((ret, buf'), v) =>
    obtain ⟨tbuf, s₀, hstack, h⟩ := wp_run htext hr
    exact ⟨ret, buf', v, tbuf, s₀, rfl, hstack, h⟩
  | .error e => exact absurd (wp_run_error htext hr) id

end

def greeting (x : Transfer) (s : Unit) : Option (List Byte) × Unit :=
  (some (if x.setup.any (·.string? = some 0) then [4, 3, 0x09, 0x04] else [8, 3, 0x48, 0, 0x69, 0, 0x3a, 0x26]), s)

theorem usbStringAt_text_greeting
    : ∃ (buf' : Bytes 8) (v : Usb) (tbuf : Bytes 512) (s₀ : Unit),
        (usbStringAt 0 1 4 .zero).Run (scriptWorld 0 greeting) attachedUsb () (.ok ((3, buf'), v)) () ∧
        StringText (scriptWorld 0 greeting) 0 1 4 .zero tbuf attachedUsb s₀ 3 buf' v () := by
  obtain ⟨⟨ret, buf'⟩, v, _, hr, hp⟩ := exists_run_of_check (Prog.ofHandler_serves (scriptHandler 0 greeting)).offers
    (m := usbStringAt 0 1 4 (.zero : Bytes 8)) (u := attachedUsb) (s := ()) (p := fun r _ _ => r.1 = 3)
    (by decide +kernel)
  obtain rfl : ret = 3 := of_decide_eq_true hp
  obtain ⟨_, _, _, tbuf, s₀, ⟨⟩, -, htext⟩ := usbStringAt_text (scriptWorld_lawful 0 greeting)
    scriptWorld_ok (by decide) (by decide) (by decide) hr
  exact ⟨buf', v, tbuf, s₀, hr, htext⟩
