import PureUsb.Usb.Impl.Scan

/-!
This module contains the specification of `usb_alloc_new_device`.
-/

open Stateful

namespace Usb

def newDevice (u : Usb) (d : UsbDevice) (parent : Option (Fin 32)) : UsbDevice :=
  { d with
    devnum := u.gDevIndex + 1
    maxchild := 0
    children := fun _ => .null
    parent := parent.elim .null .dev }

def withChild (d : UsbDevice) (port : Fin 8) (new : Fin 32) : UsbDevice :=
  { d with children := Function.update d.children port (.dev new) }

def alloc (u : Usb) (new : Fin 32) (parent : Option (Fin 32)) (port : Fin 8) : Usb :=
  { u with
    usbDev := fun i =>
      if i = new then u.newDevice (u.usbDev new) parent
      else if parent = some i then withChild (u.usbDev i) port new
      else u.usbDev i
    gDevIndex := u.gDevIndex + 1 }

variable {u : Usb} {new i : Fin 32} {parent : Option (Fin 32)} {port : Fin 8}

@[simp]
theorem alloc_gDevIndex : (u.alloc new parent port).gDevIndex = u.gDevIndex + 1 := rfl

@[simp]
theorem alloc_new
    : (u.alloc new parent port).usbDev new = u.newDevice (u.usbDev new) parent := if_pos rfl

theorem alloc_parent (h : i ≠ new) (hp : parent = some i)
    : (u.alloc new parent port).usbDev i = withChild (u.usbDev i) port new :=
  (if_neg h).trans (if_pos hp)

theorem alloc_ne (h : i ≠ new) (hp : parent ≠ some i)
    : (u.alloc new parent port).usbDev i = u.usbDev i :=
  (if_neg h).trans (if_neg hp)

theorem alloc_old (h : i ≠ new)
    : ∃ children, (u.alloc new parent port).usbDev i = { u.usbDev i with children } := by
  by_cases hp : parent = some i
  . exact ⟨_, alloc_parent h hp⟩
  . exact ⟨_, alloc_ne h hp⟩

theorem devnum_alloc (h : i ≠ new)
    : ((u.alloc new parent port).usbDev i).devnum = (u.usbDev i).devnum := by
  obtain ⟨_, heq⟩ : ∃ _, (u.alloc new parent port).usbDev i = _ := alloc_old h
  rw [heq]

theorem parent_alloc (h : i ≠ new)
    : ((u.alloc new parent port).usbDev i).parent = (u.usbDev i).parent := by
  obtain ⟨_, heq⟩ : ∃ _, (u.alloc new parent port).usbDev i = _ := alloc_old h
  rw [heq]

theorem hubdescriptor_alloc
    : ((u.alloc new parent port).usbDev i).hubdescriptor = (u.usbDev i).hubdescriptor := by
  by_cases h : i = new
  . subst h
    rw [alloc_new]
    rfl
  . obtain ⟨_, heq⟩ : ∃ _, (u.alloc new parent port).usbDev i = _ := alloc_old h
    rw [heq]

end Usb

theorem wp_usbAllocNewDevice {σ : Type} {w : HcdWorld σ} {E : Stop → σ → Prop} {u : Usb} {s : σ}
    {parent : Option (Fin 32)} {port : Nat} {Q : Option (Fin 32) → Usb → σ → Prop}
    (hle : u.gDevIndex ≤ usbMaxDevice) (hparent : ∀ p ∈ parent, p < u.gDevIndex)
    (hnone : u.gDevIndex = usbMaxDevice ∨ usbMaxchildren ≤ port → Q none u s)
    (hsome : ∀ (new : Fin 32) (i : Fin 8), (new : Nat) = u.gDevIndex → (i : Nat) = port →
      Q (some new) (u.alloc new parent i) s)
    : wp w (usbAllocNewDevice parent port) Q E u s := by
  unfold usbAllocNewDevice
  rw [wp_bind, wp_get]
  split
  . next hfull => exact hnone (.inl hfull)
  . split
    . next hfull hport =>
      have hlt : u.gDevIndex < usbMaxDevice := by omega
      rw [dif_pos hlt]
      have h := hsome ⟨u.gDevIndex, hlt⟩ ⟨port, hport⟩ rfl rfl
      suffices hstate : ∀ v : Usb, v.usbDev = (u.alloc ⟨u.gDevIndex, hlt⟩ parent ⟨port, hport⟩).usbDev →
          v = { u with usbDev := v.usbDev } →
          Q (some ⟨u.gDevIndex, hlt⟩) { v with gDevIndex := v.gDevIndex + 1 } s by
        rw [wp_bind, wp_modifyDev]
        cases parent with
        | none =>
          refine hstate _ (funext fun i => ?_) rfl
          by_cases hi : i = ⟨u.gDevIndex, hlt⟩
          . subst hi
            simp [Usb.alloc, Usb.newDevice]
          . simp [Usb.alloc, Usb.setDev_ne, hi]
        | some p =>
          have hne : p ≠ ⟨u.gDevIndex, hlt⟩ := by
            rintro rfl
            exact Nat.lt_irrefl _ (hparent _ rfl)
          refine hstate _ (funext fun i => ?_) rfl
          by_cases hi : i = ⟨u.gDevIndex, hlt⟩
          . subst hi
            simp [Usb.alloc, Usb.newDevice, Usb.setDev_ne, hne.symm]
          . by_cases hp : p = i
            . subst hp
              simp [Usb.alloc, Usb.withChild, Usb.setDev_ne, hi]
            . simp [Usb.alloc, Usb.setDev_ne, hi, hp, Ne.symm hp]
      intro v husbDev hv
      rw [hv, husbDev]
      exact h
    . next hport => exact hnone (.inr (Nat.le_of_not_lt hport))
