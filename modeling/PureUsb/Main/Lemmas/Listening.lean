import PureUsb.Main.Listening
import PureUsb.Main.Lemmas.Enumerate

/-!
This module contains what resets and SET_ADDRESS do to the addresses on the bus.
-/

open Stateful

namespace DevRequest

variable {setup : DevRequest}

theorem rootdevAfter_of_address (h : setup.address? = none) (rootdev : Int)
    : setup.rootdevAfter rootdev = rootdev := by
  apply rootdevAfter_of_ne
  intro htype
  unfold address? at h
  rw [if_pos (requesttype_of_typeReq htype)] at h
  cases h

theorem address_of_resetPort {port : Nat} (h : setup.resetPort? = some port) : setup.address? = none := by
  unfold resetPort? at h
  split at h
  . next hreset =>
    apply if_neg
    rintro ⟨htype, -⟩
    rw [hreset.1] at htype
    exact absurd htype (by decide)
  . cases h

theorem resetPort_of_address {a : Nat} (h : setup.address? = some a) : setup.resetPort? = none := by
  cases hport : setup.resetPort? with
  | none => rfl
  | some port =>
    rw [address_of_resetPort hport] at h
    cases h

end DevRequest

namespace Listening

variable {b b' : Listening} {n a port : Nat} {place : Option (List Nat)} {x : Transfer} {setup : DevRequest}

def Less (b' b : Listening) : Prop := ∀ p, b' p = none ∨ b' p = b p

/--
All addresses that were assigned are different and go up to `n`; only the device at `place` may answer
to address 0.
-/
structure Spread (b : Listening) (n : Nat) (place : Option (List Nat)) : Prop where
  range : ∀ {p a}, b p = some a → a = 0 ∨ (2 ≤ a ∧ a ≤ n)
  unique : ∀ {p q a}, b p = some a → b q = some a → p = q
  zero : ∀ {p}, b p = some 0 → place = some p

/-- `place` is behind the port `port` of the hub with the address `a`. -/
def Above (b : Listening) (a port : Nat) (place : Option (List Nat)) : Prop :=
  ∀ q, b.At 1 a q → a ≠ 0 ∧ place = some (q ++ [port])

theorem Less.eq {p : List Nat} (h : Less b' b) (hp : b' p = some a) : b p = some a := by
  rcases h p with hnone | heq
  . rw [hnone] at hp
    cases hp
  . rw [← heq, hp]

theorem At.of_less {q : List Nat} (h : Less b' b) (hq : b'.At 1 a q) : b.At 1 a q := by
  unfold At at hq ⊢
  split
  . next hroot => rwa [if_pos hroot] at hq
  . next hroot =>
    rw [if_neg hroot] at hq
    exact h.eq hq

namespace Spread

theorem noConflict (h : b.Spread n place) : b.NoConflict 1 := by
  refine ⟨h.unique, fun hp => ?_⟩
  have := h.range hp
  omega

theorem mono {m : Nat} (h : b.Spread n place) (hn : n ≤ m) : b.Spread m place := by
  refine ⟨fun hp => ?_, h.unique, h.zero⟩
  have := h.range hp
  omega

theorem less (h : b.Spread n place) (hb : Less b' b) : b'.Spread n place :=
  ⟨fun hp => h.range (hb.eq hp), fun hp hq => h.unique (hb.eq hp) (hb.eq hq), fun hp => h.zero (hb.eq hp)⟩

theorem settled (h : b.Spread n place) (hzero : ∀ p, b p ≠ some 0) (place' : Option (List Nat))
    : b.Spread n place' :=
  ⟨h.range, h.unique, fun hp => absurd hp (hzero _)⟩

end Spread

theorem Above.less (h : b.Above a port place) (hb : Less b' b) : b'.Above a port place :=
  fun q hq => h q (hq.of_less hb)

/-!
### One transfer
-/

theorem Change.less {rootdev : Int} {p : List Nat} {r : Option Nat} (h : b.Change rootdev x p r)
    (hx : ∀ setup ∈ x.setup, setup.Harmless)
    : r = none ∨ r = b p := by
  cases h with
  | silent => exact .inl rfl
  | same => exact .inr rfl
  | reset hsetup hport _ _ =>
    rw [(hx _ hsetup).resetPort] at hport
    cases hport
  | address hsetup haddress _ _ =>
    rw [(hx _ hsetup).address] at haddress
    cases haddress

theorem After.less {rootdev : Int} {o : HcdOp} (h : b.After rootdev o b') (ho : o.Harmless) : Less b' b := by
  cases o with
  | submit x => exact fun p => (h p).less ho
  | _ => exact h

theorem change_reset {p : List Nat} {r : Option Nat} (ha : b.Above a port place)
    (h : b.Change 1 x p r) (hx : x.setup = some setup) (hport : setup.resetPort? = some port)
    (haddress : x.address = a)
    : r = none ∨ r = b p ∨ (r = some 0 ∧ a ≠ 0 ∧ place = some p) := by
  cases h with
  | silent => exact .inl rfl
  | same => exact .inr (.inl rfl)
  | reset hx' hport' hq hp =>
    rw [hx'] at hx
    cases hx
    rw [hport'] at hport
    cases hport
    rw [haddress] at hq
    obtain ⟨hne, hplace⟩ := ha _ hq
    exact .inr (.inr ⟨rfl, hne, by rw [hplace, hp]⟩)
  | address hx' haddress' _ _ =>
    rw [hx'] at hx
    cases hx
    rw [DevRequest.address_of_resetPort hport] at haddress'
    cases haddress'

theorem Spread.reset (hs : b.Spread n place) (ha : b.Above a port place)
    (h : ∀ p, b.Change 1 x p (b' p)) (hx : x.setup = some setup)
    (hport : setup.resetPort? = some port) (haddress : x.address = a)
    : b'.Spread n place := by
  have hcase : ∀ {p c}, b' p = some c → b p = some c ∨ (c = 0 ∧ place = some p) := by
    intro p c hp
    rcases change_reset ha (h p) hx hport haddress with hnone | hsame | ⟨hzero, -, hplace⟩
    . rw [hnone] at hp
      cases hp
    . exact .inl (hsame ▸ hp)
    . rw [hzero] at hp
      cases hp
      exact .inr ⟨rfl, hplace⟩
  have hzero : ∀ {p}, b' p = some 0 → place = some p := by
    intro p hp
    rcases hcase hp with hold | ⟨-, hplace⟩
    . exact hs.zero hold
    . exact hplace
  refine ⟨fun hp => ?_, fun {p q c} hp hq => ?_, hzero⟩
  . rcases hcase hp with hold | ⟨hc, -⟩
    . exact hs.range hold
    . exact .inl hc
  . by_cases hc : c = 0
    . subst hc
      exact Option.some.inj ((hzero hp).symm.trans (hzero hq))
    . exact hs.unique ((hcase hp).resolve_right fun hf => hc hf.1) ((hcase hq).resolve_right fun hf => hc hf.1)

theorem Above.reset (ha : b.Above a port place) (h : ∀ p, b.Change 1 x p (b' p))
    (hx : x.setup = some setup) (hport : setup.resetPort? = some port) (haddress : x.address = a)
    : b'.Above a port place := by
  intro q hq
  apply ha
  unfold At at hq ⊢
  split
  . next hroot => rwa [if_pos hroot] at hq
  . next hroot =>
    rw [if_neg hroot] at hq
    rcases change_reset ha (h q) hx hport haddress with hnone | hsame | ⟨hzero, hne, -⟩
    . rw [hnone] at hq
      cases hq
    . rwa [hsame] at hq
    . rw [hzero] at hq
      cases hq
      exact absurd rfl hne

theorem change_address {p : List Nat} {r : Option Nat} (h : b.Change 1 x p r) (hx : x.setup = some setup)
    (hassign : setup.address? = some a) (haddress : x.address = 0)
    : r = none ∨ r = b p ∨ (r = some a ∧ b p = some 0) := by
  cases h with
  | silent => exact .inl rfl
  | same => exact .inr (.inl rfl)
  | reset hx' hport' _ _ =>
    rw [hx'] at hx
    cases hx
    rw [DevRequest.resetPort_of_address hassign] at hport'
    cases hport'
  | address hx' hassign' _ hp =>
    rw [hx'] at hx
    cases hx
    rw [hassign'] at hassign
    cases hassign
    rw [haddress] at hp
    exact .inr (.inr ⟨rfl, hp⟩)

theorem Spread.assign (hn : 1 ≤ n) (hs : b.Spread n place) (h : ∀ p, b.Change 1 x p (b' p))
    (hx : x.setup = some setup) (hassign : setup.address? = some (n + 1)) (haddress : x.address = 0)
    : b'.Spread (n + 1) place := by
  have hcase : ∀ {p c}, b' p = some c → b p = some c ∨ (c = n + 1 ∧ b p = some 0) := by
    intro p c hp
    rcases change_address (h p) hx hassign haddress with hnone | hsame | ⟨hnew, hzero⟩
    . rw [hnone] at hp
      cases hp
    . exact .inl (hsame ▸ hp)
    . rw [hnew] at hp
      cases hp
      exact .inr ⟨rfl, hzero⟩
  have hfresh : ∀ {p}, b p ≠ some (n + 1) := by
    intro p hp
    have := hs.range hp
    omega
  refine ⟨fun hp => ?_, fun hp hq => ?_, fun hp => ?_⟩
  . rcases hcase hp with hold | ⟨hc, -⟩
    . have := hs.range hold
      omega
    . omega
  . rcases hcase hp with hold | ⟨hc, hzero⟩
    . rcases hcase hq with hold' | ⟨hc, -⟩
      . exact hs.unique hold hold'
      . exact absurd (hc ▸ hold) hfresh
    . rcases hcase hq with hold' | ⟨-, hzero'⟩
      . exact absurd (hc ▸ hold') hfresh
      . exact hs.unique hzero hzero'
  . rcases hcase hp with hold | ⟨hf, -⟩
    . exact hs.zero hold
    . cases hf

theorem Above.assign (ha : b.Above a port place) (han : a ≤ n) (h : ∀ p, b.Change 1 x p (b' p))
    (hx : x.setup = some setup) (hassign : setup.address? = some (n + 1)) (haddress : x.address = 0)
    : b'.Above a port place := by
  intro q hq
  apply ha
  unfold At at hq ⊢
  split
  . next hroot => rwa [if_pos hroot] at hq
  . next hroot =>
    rw [if_neg hroot] at hq
    rcases change_address (h q) hx hassign haddress with hnone | hsame | ⟨hnew, -⟩
    . rw [hnone] at hq
      cases hq
    . rwa [hsame] at hq
    . rw [hnew] at hq
      cases hq
      omega

end Listening
