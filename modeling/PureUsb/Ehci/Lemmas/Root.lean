import PureUsb.Ehci.Lemmas.Basic

/-!
This module contains the rules for the emulated root hub in an arbitrary world: which registers its
requests touch and what they leave alone.
-/

open Stateful

def Masked (v : BitVec 32) : Prop := v &&& ehciPsClear = 0

instance (v : BitVec 32) : Decidable (Masked v) :=
  inferInstanceAs (Decidable (_ = _))

namespace Masked

theorem and_not_clear (v : BitVec 32) : Masked (v &&& ~~~ehciPsClear) := by
  unfold Masked
  rw [BitVec.and_assoc, BitVec.not_and_self]
  exact BitVec.and_zero

theorem or {v v' : BitVec 32} (h : Masked v) (h' : Masked v') : Masked (v ||| v') := by
  unfold Masked at *
  rw [BitVec.and_or_distrib_right, h, h']
  rfl

theorem and {v : BitVec 32} (h : Masked v) (v' : BitVec 32) : Masked (v &&& v') := by
  unfold Masked at *
  rw [BitVec.and_assoc, BitVec.and_comm v', ← BitVec.and_assoc, h]
  exact BitVec.zero_and

end Masked

/--
`I` is kept by reads of any register but `USBSTS` and by writes to any register but `USBCMD`, if the
value satisfies `P`; a world that stops the program leaves `E`.
-/
structure KeptByRoot {σ : Type} (w : EhciWorld σ) (P : BitVec 32 → Prop) (I : σ → Prop)
    (E : Stop → σ → Prop) : Prop where
  read : ∀ {r s t v}, r ≠ .usbsts → I s → w (.readl r) s (.ok v) t → I t
  write : ∀ {r v s t x}, r ≠ .usbcmd → P v → I s → w (.writel r v) s (.ok x) t → I t
  stop : ∀ {o s t x}, I s → w o s (.error x) t → E x t

theorem statusReg_ne_usbsts (index : BitVec 16) : statusReg index ≠ .usbsts := by
  unfold statusReg
  split <;> simp

theorem statusReg_ne_usbcmd (index : BitVec 16) : statusReg index ≠ .usbcmd := by
  unfold statusReg
  split <;> simp

section

variable {σ : Type} {w : EhciWorld σ} {P : BitVec 32 → Prop} {I : σ → Prop} {E : Stop → σ → Prop}
variable {e : Ehci} {s : σ} {req : DevRequest}

namespace KeptByRoot

theorem mono {P' : BitVec 32 → Prop} (h : KeptByRoot w P I E) (hp : ∀ v, P' v → P v)
    : KeptByRoot w P' I E where
  read := h.read
  write hr hv := h.write hr (hp _ hv)
  stop := h.stop

theorem readl (h : KeptByRoot w P I E) (hs : I s) {r : Reg} (hr : r ≠ .usbsts)
    {Q : BitVec 32 → Ehci → σ → Prop} (hq : ∀ v t, I t → Q v (e.record r 0 v) t)
    : wp w (ehciReadl r) Q E e s := by
  rw [wp_ehciReadl]
  intro t
  exact ⟨fun v hv => hq v t (h.read hr hs hv), fun x hx => h.stop hs hx⟩

theorem writel (h : KeptByRoot w P I E) (hs : I s) {r : Reg} {v : BitVec 32} (hr : r ≠ .usbcmd)
    (hv : P v) {Q : Unit → Ehci → σ → Prop} (hq : ∀ t, I t → Q () (e.record r 1 v) t)
    : wp w (ehciWritel r v) Q E e s := by
  rw [wp_ehciWritel]
  intro t
  exact ⟨fun x hx => hq t (h.write hr hv hs hx), fun x hx => h.stop hs hx⟩

end KeptByRoot

theorem wp_resetRootPort (h : KeptByRoot w Masked I E) (hs : I s) {reg : BitVec 32}
    (hreg : Masked reg)
    : wp w (resetRootPort req reg) (fun _ e' t => I t ∧ e'.rootdev = e.rootdev) E e s := by
  have hcmd := statusReg_ne_usbcmd req.index
  unfold resetRootPort
  split
  . exact h.writel hs hcmd (hreg.or (by decide)) fun t ht => ⟨ht, rfl⟩
  . have hpr : Masked ((reg ||| ehciPsPr) &&& ~~~ehciPsPe) := (hreg.or (by decide)).and _
    simp only [wp_bind]
    refine h.writel hs hcmd hpr fun t ht => ?_
    refine h.writel ht hcmd (hpr.and _) fun t ht => ?_
    unfold handshake
    refine wp_post (wp_handshakeTries (I := I) (E := E) ?_ ?_ ht) ?_
    . exact fun t u v ht hv => h.read (statusReg_ne_usbsts req.index) ht hv
    . exact fun t u x ht hx => h.stop ht hx
    . rintro ret e' t ⟨rfl, ht, -⟩
      split
      . exact ⟨ht, rfl⟩
      . exact ⟨ht, rfl⟩

theorem wp_rootSetFeature (h : KeptByRoot w Masked I E) (hs : I s)
    : wp w (rootSetFeature req) (fun _ e' t => I t ∧ e'.rootdev = e.rootdev) E e s := by
  have hcmd := statusReg_ne_usbcmd req.index
  have hknown : ∀ (known : Bool) (e' : Ehci) t, I t → e'.rootdev = e.rootdev →
      wp w
        (do
          let known ← pure known
          if known = true then
            let _ ← ehciReadl .usbcmd
            return true
          else
            return false)
        (fun _ e' t => I t ∧ e'.rootdev = e.rootdev) E e' t := by
    intro known e' t ht he
    rw [wp_bind, wp_pure]
    split
    . rw [wp_bind]
      exact h.readl ht (by decide) fun v u hu => ⟨hu, he⟩
    . exact ⟨ht, he⟩
  unfold rootSetFeature
  rw [wp_bind]
  refine h.readl hs (statusReg_ne_usbsts req.index) fun reg t ht => ?_
  have hreg := Masked.and_not_clear reg
  dsimp only
  split
  . rw [wp_bind]
    exact h.writel ht hcmd (hreg.or (by decide)) fun t ht => hknown _ _ _ ht rfl
  . split
    . rw [wp_bind]
      refine h.readl ht (by decide) fun ppc t ht => ?_
      split
      . rw [wp_bind]
        refine h.writel ht hcmd (hreg.or (by decide)) fun t ht => ?_
        rw [wp_bind]
        exact h.writel ht (by decide) (by decide) fun t ht => hknown _ _ _ ht rfl
      . exact hknown _ _ _ ht rfl
    . split
      . rw [wp_bind]
        refine wp_post (wp_resetRootPort h ht hreg) ?_
        exact fun _ e' t ht => hknown _ _ _ ht.1 ht.2
      . exact hknown _ _ _ ht rfl

theorem wp_rootClearFeature_kept (h : KeptByRoot w (fun _ => True) I E) (hs : I s)
    : wp w (rootClearFeature req) (fun _ e' t => I t ∧ e'.rootdev = e.rootdev) E e s := by
  have hvalue : ∀ reg e' t, I t → e'.rootdev = e.rootdev →
      wp w (rootClearFeatureValue req reg) (fun _ e' t => I t ∧ e'.rootdev = e.rootdev) E e' t := by
    intro reg e' t ht he
    unfold rootClearFeatureValue
    split
    . exact ⟨ht, he⟩
    . split
      . exact ⟨ht, he⟩
      . split
        . rw [wp_bind]
          exact h.readl ht (by decide) fun v t ht => ⟨ht, he⟩
        . split
          . exact ⟨ht, he⟩
          . split
            . exact ⟨ht, he⟩
            . split
              . exact ⟨ht, he⟩
              . exact ⟨ht, he⟩
  unfold rootClearFeature
  rw [wp_bind]
  refine h.readl hs (statusReg_ne_usbsts req.index) fun reg t ht => ?_
  rw [wp_bind]
  refine wp_post (hvalue reg _ t ht rfl) ?_
  rintro (_ | v) e' t ⟨ht, he⟩
  . exact ⟨ht, he⟩
  . rw [wp_bind]
    refine h.writel ht (statusReg_ne_usbcmd req.index) trivial fun t ht => ?_
    rw [wp_bind]
    exact h.readl ht (by decide) fun v t ht => ⟨ht, he⟩

def DevRequest.rootdevAfter (req : DevRequest) (rootdev : Int) : Int :=
  if req.typeReq = 0x0005 then req.value.toNat else rootdev

theorem wp_rootRequest_kept (h : KeptByRoot w (fun _ => True) I E) (hs : I s)
    : wp w (rootRequest req) (fun _ e' t => I t ∧ e'.rootdev = req.rootdevAfter e.rootdev) E e s := by
  unfold rootRequest DevRequest.rootdevAfter
  split
  . next htype =>
    rw [htype]
    exact ⟨hs, rfl⟩
  . split
    . next htype =>
      rw [htype]
      split <;> exact ⟨hs, rfl⟩
    . split
      . exact ⟨hs, rfl⟩
      . split
        . exact ⟨hs, rfl⟩
        . split
          . exact ⟨hs, rfl⟩
          . split
            . rw [wp_bind]
              exact h.readl hs (statusReg_ne_usbsts req.index) fun reg t ht => ⟨ht, rfl⟩
            . split
              . rw [wp_bind]
                refine wp_post (wp_rootSetFeature (h.mono fun _ _ => trivial) hs) ?_
                intro known e' t ht
                split <;> exact ht
              . split
                . rw [wp_bind]
                  refine wp_post (wp_rootClearFeature_kept h hs) ?_
                  intro known e' t ht
                  split <;> exact ht
                . exact ⟨hs, rfl⟩

theorem wp_ehciSubmitRoot {Q : Int × UsbDevice × List Byte → Ehci → σ → Prop} {dev : UsbDevice}
    {length : Nat}
    : wp w (ehciSubmitRoot dev length req) Q E e s
        ↔
      if req.index.toNat > 2 then
        Q (-1, dev, []) e s
      else
        wp w (rootRequest req)
          (fun r e' t =>
            match r with
            | some src =>
              let len := min (min src.length req.length.toNat) length
              Q (0, { dev with actLen := len, status := 0 }, src.take len) e' t
            | none => Q (-1, { dev with actLen := 0, status := usbStStalled }, []) e' t)
          E e s := by
  unfold ehciSubmitRoot configSysUsbEhciMaxRootPorts
  split
  . rfl
  . rw [wp_bind]
    constructor
    . intro h
      refine wp_post h ?_
      rintro (_ | src) e' t h <;> exact h
    . intro h
      refine wp_post h ?_
      rintro (_ | src) e' t h <;> exact h

theorem wp_ehciSubmitRoot_kept (h : KeptByRoot w (fun _ => True) I E) (hs : I s) {dev : UsbDevice}
    {length : Nat}
    : wp w (ehciSubmitRoot dev length req)
        (fun _ e' t =>
          I t ∧
          e'.rootdev = if req.index.toNat > 2 then e.rootdev else req.rootdevAfter e.rootdev)
        E e s := by
  rw [wp_ehciSubmitRoot]
  split
  . exact ⟨hs, rfl⟩
  . refine wp_post (wp_rootRequest_kept h hs) ?_
    rintro (_ | src) e' t ht <;> exact ht

end
