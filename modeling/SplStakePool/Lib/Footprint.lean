import Mathlib.Algebra.Group.Action.Defs
import Mathlib.Logic.Function.Basic
import Mathlib.Data.Set.Lattice
import Mathlib.Order.CompletePartialOrder
import SplStakePool.Lib.Exec

/-!
# Operations with cells of their own and a shared pot

A store has contents in cells. An operation reads and writes cells of its own, and pays into one cell
that it shares with the others, the pot. It may look at the kind of what is in the pot, which payments
do not change, but not at how much is there. Operations without common cells can be swapped
(`Local.swap`), and whether one of them fails does not depend on the other (`Local.keeps`).

Payments are an action of a commutative monoid on the contents.
-/

namespace Footprint
open Exec

variable {ι α κ M ε β : Type} [AddCommMonoid M] [AddAction M α]

/-- Two stores with the same contents in the cells of `K`, and a pot of the kind `c` in both. -/
structure Agree (kind : α → κ) (c : κ) (pot : ι) (K : Set ι) (s s' : ι → α) : Prop where
  own : ∀ k ∈ K, s' k = s k
  left : kind (s pot) = c
  right : kind (s' pot) = c

variable (M) in
/-- The store `s'` is `s` with contents of `t` in the cells of `K`, and `n` more in the pot. -/
structure Lands (pot : ι) (K : Set ι) (t : ι → α) (n : M) (s s' : ι → α) : Prop where
  own : ∀ k ∈ K, s' k = t k
  paid : s' pot = n +ᵥ s pot
  frame : ∀ k ∉ K, k ≠ pot → s' k = s k

variable (M) in
/-- The same work done on two stores. -/
def SameWork (pot : ι) (K : Set ι) (s s' t t' : ι → α) : Prop :=
  ∃ (r : ι → α) (n : M), Lands M pot K r n s t ∧ Lands M pot K r n s' t'

variable (M) in
/-- An operation that returns a value, the same for stores that agree on its cells. -/
def Local (kind : α → κ) (c : κ) (pot : ι) (K : Set ι) (f : (ι → α) → Except ε ((ι → α) × β)) : Prop :=
  ∀ s s', Agree kind c pot K s s' →
    Both (fun r r' : (ι → α) × β => r'.2 = r.2 ∧ SameWork M pot K s s' r.1 r'.1) (f s) (f s')

variable {kind : α → κ} {c : κ} {pot : ι} {K L : Set ι} {s s' t t' u u' : ι → α} {n : M}

namespace Lands

/-- Work in disjoint sets of cells can be swapped. -/
theorem swap {m : M} {r r' : ι → α} (h : Lands M pot K r n s t) (h' : Lands M pot L r' m t u)
    (g' : Lands M pot L r' m s t') (g : Lands M pot K r n t' u') (hd : Disjoint K L) (hK : pot ∉ K)
    (hL : pot ∉ L) : u = u' := by
  funext k
  by_cases hk : k ∈ K
  · have hl : k ∉ L := Set.disjoint_left.1 hd hk
    have hp : k ≠ pot := fun he => hK (he ▸ hk)
    rw [h'.frame k hl hp, h.own k hk, g.own k hk]
  by_cases hl : k ∈ L
  · have hp : k ≠ pot := fun he => hL (he ▸ hl)
    rw [h'.own k hl, g.frame k hk hp, g'.own k hl]
  by_cases hp : k = pot
  · rw [hp, h'.paid, h.paid, g.paid, g'.paid, vadd_vadd, vadd_vadd, add_comm]
  · rw [h'.frame k hl hp, h.frame k hk hp, g.frame k hk hp, g'.frame k hl hp]

end Lands

namespace SameWork

theorem refl (h : ∀ k ∈ K, s' k = s k) : SameWork M pot K s s' s s' :=
  ⟨s, 0, ⟨fun _ _ => rfl, (zero_vadd M _).symm, fun _ _ _ => rfl⟩,
    ⟨h, (zero_vadd M _).symm, fun _ _ _ => rfl⟩⟩

theorem trans (h : SameWork M pot K s s' t t') (h' : SameWork M pot K t t' u u') :
    SameWork M pot K s s' u u' := by
  obtain ⟨r, n, hl, hr⟩ := h
  obtain ⟨r', m, hl', hr'⟩ := h'
  refine ⟨r', m + n, ⟨hl'.own, ?_, fun k hk hp => ?_⟩, ⟨hr'.own, ?_, fun k hk hp => ?_⟩⟩
  · rw [hl'.paid, hl.paid, vadd_vadd]
  · rw [hl'.frame k hk hp, hl.frame k hk hp]
  · rw [hr'.paid, hr.paid, vadd_vadd]
  · rw [hr'.frame k hk hp, hr.frame k hk hp]

theorem write [DecidableEq ι] {k : ι} (hk : k ∈ K) (hp : pot ∉ K) (ha : ∀ k ∈ K, s' k = s k) (a : α) :
    SameWork M pot K s s' (Function.update s k a) (Function.update s' k a) := by
  have hpk : pot ≠ k := fun he => hp (he ▸ hk)
  have hout : ∀ (x : ι → α), ∀ j ∉ K, Function.update x k a j = x j := fun x j hj =>
    Function.update_of_ne (fun he : j = k => hj (he ▸ hk)) _ _
  refine ⟨Function.update s k a, 0, ⟨fun _ _ => rfl, ?_, fun j hj _ => hout s j hj⟩,
    ⟨fun j hj => ?_, ?_, fun j hj _ => hout s' j hj⟩⟩
  · rw [zero_vadd, Function.update_of_ne hpk]
  · by_cases hjk : j = k
    · rw [hjk, Function.update_self, Function.update_self]
    · rw [Function.update_of_ne hjk, Function.update_of_ne hjk, ha j hj]
  · rw [zero_vadd, Function.update_of_ne hpk]

theorem pay [DecidableEq ι] (hp : pot ∉ K) (ha : ∀ k ∈ K, s' k = s k) (n : M) :
    SameWork M pot K s s' (Function.update s pot (n +ᵥ s pot)) (Function.update s' pot (n +ᵥ s' pot)) := by
  have hne : ∀ k ∈ K, k ≠ pot := fun k hk he => hp (he ▸ hk)
  refine ⟨s, n, ⟨fun k hk => ?_, Function.update_self .., fun k _ hk => Function.update_of_ne hk ..⟩,
    ⟨fun k hk => ?_, Function.update_self .., fun k _ hk => Function.update_of_ne hk ..⟩⟩
  · rw [Function.update_of_ne (hne k hk)]
  · rw [Function.update_of_ne (hne k hk), ha k hk]

theorem agree (hk : ∀ (n : M) a, kind (n +ᵥ a) = kind a) (ha : Agree kind c pot K s s')
    (h : SameWork M pot K s s' t t') : Agree kind c pot K t t' := by
  obtain ⟨r, n, hl, hr⟩ := h
  exact ⟨fun k hk => by rw [hr.own k hk, hl.own k hk], by rw [hl.paid, hk, ha.left],
    by rw [hr.paid, hk, ha.right]⟩

end SameWork

namespace Local
variable {γ : Type} {f : (ι → α) → Except ε ((ι → α) × β)} {g : (ι → α) → Except ε ((ι → α) × γ)}
  {b : β} {d : γ}

theorem agree (hk : ∀ (n : M) a, kind (n +ᵥ a) = kind a) (hd : Disjoint K L) (hL : pot ∉ L)
    (hs : kind (s pot) = c) (h : Lands M pot K u n s t) : Agree kind c pot L s t where
  own k hk' := h.frame k (Set.disjoint_right.1 hd hk') fun he => hL (he ▸ hk')
  left := hs
  right := by rw [h.paid, hk, hs]

theorem lands (hf : Local M kind c pot K f) (hs : kind (s pot) = c) (h : f s = .ok (t, b)) :
    ∃ r n, Lands M pot K r n s t := by
  have := hf s s ⟨fun _ _ => rfl, hs, hs⟩
  rw [h] at this
  cases this with
  | ok h =>
    obtain ⟨-, r, n, hl, -⟩ := h
    exact ⟨r, n, hl⟩

theorem kind_pot (hk : ∀ (n : M) a, kind (n +ᵥ a) = kind a) (hf : Local M kind c pot K f)
    (hs : kind (s pot) = c) (h : f s = .ok (t, b)) : kind (t pot) = c := by
  obtain ⟨r, n, hl⟩ := hf.lands hs h
  rw [hl.paid, hk, hs]

/-- An operation fails after another one with other cells if and only if it fails before it, and returns
the same. -/
theorem keeps (hk : ∀ (n : M) a, kind (n +ᵥ a) = kind a) (hf : Local M kind c pot K f)
    (hg : Local M kind c pot L g) (hd : Disjoint K L) (hL : pot ∉ L) (hs : kind (s pot) = c)
    (h : f s = .ok (t, b)) : Both (fun r r' : (ι → α) × γ => r'.2 = r.2) (g s) (g t) := by
  obtain ⟨r, n, hl⟩ := hf.lands hs h
  exact (hg s t (agree hk hd hL hs hl)).mono fun _ _ hr => hr.1

theorem swap (hk : ∀ (n : M) a, kind (n +ᵥ a) = kind a) (hf : Local M kind c pot K f)
    (hg : Local M kind c pot L g) (hd : Disjoint K L) (hK : pot ∉ K) (hL : pot ∉ L)
    (hs : kind (s pot) = c) (h : f s = .ok (t, b)) (h' : g s = .ok (t', d)) :
    ∃ u, g t = .ok (u, d) ∧ f t' = .ok (u, b) := by
  obtain ⟨r, n, hl⟩ := hf.lands hs h
  obtain ⟨r', m, hl'⟩ := hg.lands hs h'
  -- `g` on the store that `f` leaves, and `f` on the one that `g` leaves
  have hgt := hg s t (agree hk hd hL hs hl)
  have hft := hf s t' (agree hk hd.symm hK hs hl')
  rw [h'] at hgt
  rw [h] at hft
  obtain ⟨⟨u, _⟩, hgu, rfl, q, m, hq, hq'⟩ := hgt.of_ok
  obtain ⟨⟨u', _⟩, hfu, rfl, r, n, hr, hr'⟩ := hft.of_ok
  obtain rfl := hr.swap hq' hq hr' hd hK hL
  exact ⟨u, hgu, hfu⟩

end Local
end Footprint
