import Mathlib.Data.List.Pairwise
import Mathlib.Data.List.Perm.Basic
import SplStakePool.Lib.Transition

/-!
# Steps that can be swapped

Two steps can be swapped at a state when neither decides whether the other is possible, and both orders
end in the same state. A list of steps of which any two can be swapped can be run in any order, whether
the run stops at a step that is not possible (`runList_perm`) or skips it (`attemptAll_perm`).
-/

universe u v

namespace System
variable {σ : Type u} {lab : Type v}

/-- Takes the step if it is possible. -/
def attempt (exec : σ → lab → Option σ) (s : σ) (l : lab) : σ := (exec s l).getD s

/-- Takes the steps that are possible, one after the other. -/
def attemptAll (exec : σ → lab → Option σ) (s : σ) (ls : List lab) : σ := ls.foldl (attempt exec) s

/-- Two steps that can be swapped at a state. -/
structure Swaps (exec : σ → lab → Option σ) (s : σ) (x y : lab) : Prop where
  both : ∀ t u, exec s x = some t → exec s y = some u → ∃ r, exec t y = some r ∧ exec u x = some r
  left : ∀ t, exec s x = some t → exec s y = none → exec t y = none
  right : ∀ u, exec s y = some u → exec s x = none → exec u x = none

namespace Swaps
variable {exec : σ → lab → Option σ} {s : σ} {x y : lab}

theorem bind (h : Swaps exec s x y) :
    ((exec s x).bind fun t => exec t y) = (exec s y).bind fun u => exec u x := by
  cases hx : exec s x with
  | none =>
    cases hy : exec s y with
    | none => rfl
    | some u => exact (h.right u hy hx).symm
  | some t =>
    cases hy : exec s y with
    | none => exact h.left t hx hy
    | some u =>
      obtain ⟨r, ht, hu⟩ := h.both t u hx hy
      rw [Option.bind_some, Option.bind_some, ht, hu]

theorem attempt (h : Swaps exec s x y) :
    attempt exec (attempt exec s x) y = System.attempt exec (System.attempt exec s y) x := by
  unfold System.attempt
  cases hx : exec s x with
  | none =>
    cases hy : exec s y with
    | none => rw [Option.getD_none, hx, hy]
    | some u => rw [Option.getD_none, hy, Option.getD_some, h.right u hy hx, Option.getD_none]
  | some t =>
    cases hy : exec s y with
    | none => rw [Option.getD_some, h.left t hx hy, Option.getD_none, Option.getD_none, hx, Option.getD_some]
    | some u =>
      obtain ⟨r, ht, hu⟩ := h.both t u hx hy
      rw [Option.getD_some, Option.getD_some, ht, hu, Option.getD_some, Option.getD_some]

end Swaps

section
variable {exec : σ → lab → Option σ} {I : σ → Prop} {P : lab → Prop} {D : lab → lab → Prop}
  {l l' : List lab}

theorem runList_cons {s : σ} {x : lab} :
    runList exec s (x :: l) = (exec s x).bind fun t => runList exec t l := rfl

theorem runList_perm (hI : ∀ s x t, I s → P x → exec s x = some t → I t)
    (hD : ∀ s x y, I s → P x → P y → D x y → Swaps exec s x y) (hsymm : ∀ x y, D x y → D y x)
    (h : l.Perm l') : ∀ s, I s → (∀ x ∈ l, P x) → l.Pairwise D → runList exec s l = runList exec s l' := by
  induction h with
  | nil => intros; rfl
  | cons x _ ih =>
    intro s hs hP hp
    rw [runList_cons, runList_cons]
    cases hx : exec s x with
    | none => rfl
    | some t =>
      exact ih t (hI s x t hs (hP x (by simp)) hx) (fun y hy => hP y (by simp [hy])) (List.pairwise_cons.1 hp).2
  | swap x y l =>
    intro s hs hP hp
    have hyx := hD s y x hs (hP y (by simp)) (hP x (by simp)) ((List.pairwise_cons.1 hp).1 x (by simp))
    simp only [runList_cons]
    rw [← Option.bind_assoc, ← Option.bind_assoc, hyx.bind]
  | trans h₁ _ ih₁ ih₂ =>
    intro s hs hP hp
    rw [ih₁ s hs hP hp]
    exact ih₂ s hs (fun x hx => hP x (h₁.mem_iff.2 hx)) ((h₁.pairwise_iff fun h => hsymm _ _ h).1 hp)

theorem attemptAll_perm (hI : ∀ s x t, I s → P x → exec s x = some t → I t)
    (hD : ∀ s x y, I s → P x → P y → D x y → Swaps exec s x y) (hsymm : ∀ x y, D x y → D y x)
    (h : l.Perm l') : ∀ s, I s → (∀ x ∈ l, P x) → l.Pairwise D →
      attemptAll exec s l = attemptAll exec s l' := by
  induction h with
  | nil => intros; rfl
  | cons x _ ih =>
    intro s hs hP hp
    refine ih (attempt exec s x) ?_ (fun y hy => hP y (by simp [hy])) (List.pairwise_cons.1 hp).2
    unfold attempt
    cases hx : exec s x with
    | none => exact hs
    | some t => exact hI s x t hs (hP x (by simp)) hx
  | swap x y l =>
    intro s hs hP hp
    have hyx := hD s y x hs (hP y (by simp)) (hP x (by simp)) ((List.pairwise_cons.1 hp).1 x (by simp))
    show attemptAll exec (attempt exec (attempt exec s y) x) l =
      attemptAll exec (attempt exec (attempt exec s x) y) l
    rw [hyx.attempt]
  | trans h₁ _ ih₁ ih₂ =>
    intro s hs hP hp
    rw [ih₁ s hs hP hp]
    exact ih₂ s hs (fun x hx => hP x (h₁.mem_iff.2 hx)) ((h₁.pairwise_iff fun h => hsymm _ _ h).1 hp)

end
end System
