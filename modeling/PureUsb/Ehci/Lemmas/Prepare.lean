import PureUsb.Ehci.Lemmas.Chain

/-!
This module contains what the driver leaves in the shared memory by the time it links the queue head.
-/

open Stateful

/-!
### Memory that belongs to the driver
-/

/-- As long as `I` holds, only the driver changes the memory `dma`. -/
structure DriverOwned {σ : Type} (w : EhciWorld σ) (I : σ → Prop) (dma : σ → Dma) : Prop where
  load : ∀ {s t : σ} {m : Dma}, I s → w .load s (.ok m) t → I t ∧ m = dma s ∧ dma t = dma s
  store : ∀ {s t : σ} {f : Dma → Dma} {x : Unit}, I s → w (.store f) s (.ok x) t →
    I t ∧ dma t = f (dma s)

/-- The shared memory on its own: the registers read as anything and change nothing. -/
def memWorld : EhciWorld Dma :=
  World.interleaved (fun m m' => m' = m) fun o m x m' =>
    match o, x with
    | .load, x => x = m ∧ m' = m
    | .store f, _ => m' = f m
    | .readl _, _ => m' = m
    | .writel _ _, _ => m' = m

def memHandler (o : EhciOp) (m : Dma) : Except Stop (EhciAns o) × Dma :=
  match o with
  | .load => (.ok m, m)
  | .store f => (.ok (), f m)
  | .readl _ => (.ok 0, m)
  | .writel _ _ => (.ok (), m)

theorem memHandler_serves : Prog.Serves memHandler memWorld := by
  intro o m
  cases o with
  | load => exact World.interleaved_ok.mpr ⟨m, rfl, rfl, rfl⟩
  | _ => exact World.interleaved_ok.mpr ⟨m, rfl, rfl⟩

theorem memWorld_owned : DriverOwned memWorld (fun _ => True) id where
  load _ hw := by
    obtain ⟨m, rfl, hx, rfl⟩ := World.interleaved_ok.mp hw
    exact ⟨trivial, hx, rfl⟩
  store _ hw := by
    obtain ⟨m, rfl, rfl⟩ := World.interleaved_ok.mp hw
    exact ⟨trivial, rfl⟩

/-!
### `ehci_submit_async` before the queue head is linked
-/

/-- `ehci_submit_async` up to the link: the last qTD of the chain, or `none` for `goto fail`. -/
def prepareAsync (dev : UsbDevice) (parent : Option UsbDevice) (pipe buffer : BitVec 32)
    (length : Nat) (req : Option (BitVec 32)) : EhciM (Option (Fin 3)) := do
  allocQh
  storeDma fun m =>
    { m with qh := { m.qh with qhLink := .qhList, qhEndpt1 := qhEndpt1 dev pipe } }
  match parent with
  | none => Stateful.stop .fault
  | some parent =>
    storeDma fun m => { m with qh := { m.qh with qhEndpt2 := qhEndpt2 dev parent } }
    storeDma fun m => m.setOverlay { m.qh.qhOverlay with qtNext := .terminate }
    buildChain dev pipe buffer length req

theorem prepareAsync_bind {α : Type} (dev parent : UsbDevice) (pipe buffer : BitVec 32) (length : Nat)
    (req : Option (BitVec 32)) (k : Option (Fin 3) → EhciM α)
    : prepareAsync dev (some parent) pipe buffer length req >>= k = (do
        allocQh
        storeDma fun m => { m with qh := { m.qh with qhLink := .qhList, qhEndpt1 := qhEndpt1 dev pipe } }
        storeDma fun m => { m with qh := { m.qh with qhEndpt2 := qhEndpt2 dev parent } }
        storeDma fun m => m.setOverlay { m.qh.qhOverlay with qtNext := .terminate }
        buildChain dev pipe buffer length req >>= k) := by
  simp only [prepareAsync, bind_assoc]

theorem ehciSubmitAsync_eq_prepareAsync (dev : UsbDevice) (parent : Option UsbDevice)
    (pipe buffer : BitVec 32) (length : Nat) (req : Option (BitVec 32))
    : ehciSubmitAsync dev parent pipe buffer length req = do
        match ← prepareAsync dev parent pipe buffer length req with
        | none => failAsync dev
        | some td =>
          storeDma fun m => m.setLink .qh
          let ret ← enableAsync
          if ret < 0 then
            failAsync dev
          else
            pollTries td 999
            let ret ← disableAsync
            if ret < 0 then
              failAsync dev
            else
              storeDma fun m => m.setLink .qhList
              let m ← loadDma
              let dev := completeAsync dev pipe length m.qh.qhOverlay.qtToken
              return (if dev.status ≠ usbStNotProc then 0 else -1, dev) := by
  cases parent with
  | none => rfl
  | some parent => exact (prepareAsync_bind dev parent pipe buffer length req _).symm

def preparedQh (dev parent : UsbDevice) (pipe : BitVec 32) : QH where
  qhLink := .qhList
  qhEndpt1 := qhEndpt1 dev pipe
  qhEndpt2 := qhEndpt2 dev parent
  qhCurtd := .null
  qhOverlay := { QTD.zero with qtNext := .terminate }

/-- The qTD of a stage before another one is behind it. -/
def stageTd (token : BitVec 32) (buffer : Option (BitVec 32 × Nat)) : QTD :=
  (fillBuffer { QTD.zero with qtNext := .terminate, qtAltnext := .terminate, qtToken := token } buffer).1

/-- `ehci_td_buffer` has room for the buffer. -/
def FitsTd (buffer : Option (BitVec 32 × Nat)) : Prop := (fillBuffer .zero buffer).2 = 0

instance (buffer : Option (BitVec 32 × Nat)) : Decidable (FitsTd buffer) :=
  inferInstanceAs (Decidable (_ = _))

def Dma.append (m : Dma) (prev : Option (Fin 3)) (i : Fin 3) (td : QTD) : Dma :=
  linkTd prev i (m.setTd i td)

/-- The memory once the chain of a transfer is behind the queue head. -/
def Dma.withChain (m : Dma) (dev : UsbDevice) (pipe buffer : BitVec 32) (length : Nat)
    (req : Option (BitVec 32)) : Dma :=
  match req with
  | none =>
    let toggle := usbGettoggle dev (usbPipeendpoint pipe) (usbPipeout pipe)
    m.append none 0 (stageTd (dataToken toggle length false pipe) (some (buffer, length)))
  | some req =>
    let m := m.append none 0 (stageTd setupToken (some (req, 8)))
    if length > 0 then
      (m.append (some 0) 1 (stageTd (dataToken 1 length true pipe) (some (buffer, length)))).append (some 1) 2
        (stageTd (statusToken 1 pipe) none)
    else
      m.append (some 0) 1 (stageTd (statusToken 1 pipe) none)

theorem tdBufferFrom_snd (td td' : QTD) (addr : BitVec 32) (sz n idx : Nat)
    : (tdBufferFrom td addr sz n idx).2 = (tdBufferFrom td' addr sz n idx).2 := by
  induction n generalizing td td' addr sz idx with
  | zero => rfl
  | succ n ih =>
    unfold tdBufferFrom
    dsimp only
    split
    . rfl
    . apply ih

theorem fillBuffer_snd (td : QTD) (buffer : Option (BitVec 32 × Nat))
    : (fillBuffer td buffer).2 = 0 ↔ FitsTd buffer := by
  unfold FitsTd fillBuffer
  cases buffer with
  | none => exact Iff.rfl
  | some buffer =>
    unfold ehciTdBuffer
    dsimp only
    rw [tdBufferFrom_snd td .zero]

section

variable {σ : Type} {w : EhciWorld σ} {I : σ → Prop} {dma : σ → Dma} {e : Ehci} {s : σ}

namespace DriverOwned

theorem wp_storeDma {f : Dma → Dma} {Q : Unit → Ehci → σ → Prop} (h : DriverOwned w I dma) (hs : I s)
    (hq : ∀ t, I t → dma t = f (dma s) → Q () e t)
    : wp w (storeDma f) Q (fun _ _ => True) e s := by
  intro t
  constructor
  . intro x hw
    obtain ⟨ht, hdma⟩ := h.store hs hw
    exact hq t ht hdma
  . intro _ _
    trivial

theorem wp_loadDma {Q : Dma → Ehci → σ → Prop} (h : DriverOwned w I dma) (hs : I s)
    (hq : ∀ t, I t → dma t = dma s → Q (dma s) e t)
    : wp w loadDma Q (fun _ _ => True) e s := by
  intro t
  constructor
  . intro m hw
    obtain ⟨ht, rfl, hdma⟩ := h.load hs hw
    exact hq t ht hdma
  . intro _ _
    trivial

theorem wp_appendTd {prev : Option (Fin 3)} {i : Fin 3} {token : BitVec 32}
    {buffer : Option (BitVec 32 × Nat)} (h : DriverOwned w I dma) (hs : I s) (hntds : e.ntds = i.castSucc)
    : wp w (appendTd prev token buffer)
        (fun r e' t =>
          I t ∧ e' = { e with ntds := i.succ } ∧
          (r = none ∨ r = some i ∧ FitsTd buffer ∧ dma t = (dma s).append prev i (stageTd token buffer)))
        (fun _ _ => True) e s := by
  have hlt : e.ntds ≠ 3 := by
    rw [hntds]
    exact Fin.castSucc_ne_last i
  have hi : (⟨e.ntds, by omega⟩ : Fin 3) = i := by
    simp only [hntds, Fin.val_castSucc]
  have hsucc : e.ntds + 1 = i.succ := by
    rw [hntds]
    exact Fin.coeSucc_eq_succ
  unfold appendTd allocTd
  rw [wp_bind, wp_bind, wp_get, dif_neg hlt, hi, wp_bind]
  apply h.wp_storeDma hs
  intro t1 hs1 hdma1
  rw [wp_bind, wp_set, wp_pure]
  dsimp only
  rw [wp_bind]
  apply h.wp_storeDma hs1
  intro t2 hs2 hdma2
  rw [wp_bind]
  apply h.wp_loadDma hs2
  intro t3 hs3 hdma3
  rw [wp_bind]
  apply h.wp_storeDma hs3
  intro t4 hs4 hdma4
  rw [wp_ite, hsucc]
  constructor
  . intro _
    exact ⟨hs4, rfl, .inl rfl⟩
  . intro hfits
    rw [wp_bind]
    apply h.wp_storeDma hs4
    intro t5 hs5 hdma5
    refine ⟨hs5, rfl, .inr ⟨rfl, (fillBuffer_snd _ _).mp (not_not.mp hfits), ?_⟩⟩
    rw [hdma5, hdma4, hdma3, hdma2, hdma1]
    simp only [Dma.append, Dma.setTd, Function.update_self, Function.update_idem, stageTd]

variable {dev parent : UsbDevice} {pipe buffer : BitVec 32} {length : Nat} {req : Option (BitVec 32)}

theorem wp_buildChain (h : DriverOwned w I dma) (hs : I s) (hntds : e.ntds = 0)
    : wp w (buildChain dev pipe buffer length req)
        (fun r _ t =>
          I t ∧ (r ≠ none → FitsTd (some (buffer, length)) ∧ dma t = (dma s).withChain dev pipe buffer length req))
        (fun _ _ => True) e s := by
  unfold buildChain Dma.withChain
  cases req with
  | none =>
    apply wp_post (h.wp_appendTd (i := 0) hs hntds)
    rintro r e1 t1 ⟨ht1, -, hr⟩
    refine ⟨ht1, fun hne => ?_⟩
    obtain ⟨-, hfits, hdma⟩ := hr.resolve_left hne
    exact ⟨hfits, hdma⟩
  | some req =>
    dsimp only
    rw [wp_bind]
    apply wp_post (h.wp_appendTd (i := 0) hs hntds)
    rintro r e1 t1 ⟨ht1, rfl, rfl | ⟨rfl, -, hdma1⟩⟩
    . exact ⟨ht1, fun hf => absurd rfl hf⟩
    . dsimp only
      rw [wp_bind]
      unfold appendData
      split
      . apply wp_post (h.wp_appendTd (i := 1) ht1 rfl)
        rintro r e2 t2 ⟨ht2, rfl, rfl | ⟨rfl, hfits, hdma2⟩⟩
        . exact ⟨ht2, fun hf => absurd rfl hf⟩
        . apply wp_post (h.wp_appendTd (i := 2) ht2 rfl)
          rintro r e3 t3 ⟨ht3, -, hr⟩
          refine ⟨ht3, fun hne => ?_⟩
          obtain ⟨-, -, hdma3⟩ := hr.resolve_left hne
          rw [hdma3, hdma2, hdma1]
          exact ⟨hfits, rfl⟩
      . next hlength =>
        rw [wp_pure]
        apply wp_post (h.wp_appendTd (i := 1) ht1 rfl)
        rintro r e2 t2 ⟨ht2, -, hr⟩
        refine ⟨ht2, fun hne => ?_⟩
        obtain ⟨-, -, hdma2⟩ := hr.resolve_left hne
        rw [hdma2, hdma1]
        obtain rfl : length = 0 := by omega
        exact ⟨rfl, rfl⟩

/-- The memory at the moment when the queue head gets linked. -/
theorem wp_prepareAsync (h : DriverOwned w I dma) (hs : I s)
    : wp w (prepareAsync dev (some parent) pipe buffer length req)
        (fun r _ t =>
          I t ∧ (r ≠ none → FitsTd (some (buffer, length)) ∧
            dma t = { dma s with qh := preparedQh dev parent pipe }.withChain dev pipe buffer length req))
        (fun _ _ => True) e s := by
  unfold prepareAsync allocQh
  simp only [wp_bind]
  apply h.wp_storeDma hs
  intro t1 ht1 hdma1
  rw [wp_modify]
  apply h.wp_storeDma ht1
  intro t2 ht2 hdma2
  apply h.wp_storeDma ht2
  intro t3 ht3 hdma3
  apply h.wp_storeDma ht3
  intro t4 ht4 hdma4
  have hdma : dma t4 = { dma s with qh := preparedQh dev parent pipe } := by
    rw [hdma4, hdma3, hdma2, hdma1]
    rfl
  apply wp_post (h.wp_buildChain ht4 rfl)
  intro r e5 t5 h5
  rw [← hdma]
  exact h5

end DriverOwned

/-- `dev->parent` is followed in any case. -/
theorem prepareAsync_none {r : Option (Fin 3) × Ehci} {t : σ}
    : ¬(prepareAsync dev none pipe buffer length req).Run w e s (.ok r) t := by
  intro hr
  have hstop : wp w (prepareAsync dev none pipe buffer length req) (fun _ _ _ => False) (fun _ _ => True) e s := by
    unfold prepareAsync
    apply wp_bind_any
    intro _ _ _
    apply wp_bind_any
    intro _ _ _
    trivial
  exact wp_run hstop hr

end
