import SplStakePool.Lib.Transition
import Mathlib.Logic.Function.Basic

/-!
# Components over a shared state

A family of components, each with a state of its own, that all use one shared state and step one at a time in any
order. `InterferenceFree` is the proof obligation of the components one by one: a component keeps its invariant when it
steps itself, and what the others and the environment do to the shared state is something that it relies on.
`InterferenceFree.invariant` takes this to the runs of the whole family, `InterferenceFree.others` to the runs in
which a component does not step.
-/

/-- Components with an index in `ι`, a shared state in `γ` and their own states in `σ`. -/
structure Components (ι γ σ lab ext : Type*) where
  init : γ → (ι → σ) → Prop
  /-- What a component can do to the shared state and its own. -/
  step : ι → γ × σ → lab → γ × σ → Prop
  /-- What can happen to the shared state otherwise. -/
  env : γ → (ι → σ) → ext → γ → Prop

namespace Components
variable {ι γ σ lab ext : Type*} [DecidableEq ι] {C : Components ι γ σ lab ext}

/-- A step of one component, or of the environment. -/
inductive Step (C : Components ι γ σ lab ext) (x : γ × (ι → σ)) : (ι × lab) ⊕ ext → γ × (ι → σ) → Prop
  | own {i : ι} {l : lab} {g : γ} {s : σ} (h : C.step i (x.1, x.2 i) l (g, s)) :
      Step C x (.inl (i, l)) (g, Function.update x.2 i s)
  | env {e : ext} {g : γ} (h : C.env x.1 x.2 e g) : Step C x (.inr e) (g, x.2)

/-- All components, stepping one at a time. -/
def system (C : Components ι γ σ lab ext) : System (γ × (ι → σ)) ((ι × lab) ⊕ ext) where
  init x := C.init x.1 x.2
  step := Step C

/-- Steps of the other components and of the environment. -/
def Others (i : ι) (l : (ι × lab) ⊕ ext) : Prop := ∀ a, l ≠ .inl (i, a)

/-- Every component keeps its invariant `I` and relies on `R` of the rest: the others, when their invariants and its
own hold, and the environment only do to the shared state what its invariant stands. -/
structure InterferenceFree (C : Components ι γ σ lab ext) (I : ι → γ → σ → Prop) (R : ι → σ → γ → γ → Prop) : Prop where
  own : ∀ {i g s l g' s'}, I i g s → C.step i (g, s) l (g', s') → I i g' s'
  other : ∀ {i j g s l g' s' t}, i ≠ j → I i g s → I j g t → C.step i (g, s) l (g', s') → R j t g g'
  env : ∀ {g ss e g'}, (∀ i, I i g (ss i)) → C.env g ss e g' → ∀ j, R j (ss j) g g'
  stable : ∀ {j g t g'}, I j g t → R j t g g' → I j g' t

namespace InterferenceFree
variable {I : ι → γ → σ → Prop} {R : ι → σ → γ → γ → Prop} {x y : γ × (ι → σ)} {l : (ι × lab) ⊕ ext}

theorem step (h : InterferenceFree C I R) (hI : ∀ i, I i x.1 (x.2 i)) (hs : Step C x l y) (j : ι) : I j y.1 (y.2 j) := by
  cases hs with
  | @own i _ _ s hs =>
    by_cases hj : j = i
    · subst hj
      dsimp only
      rw [Function.update_self]
      exact h.own (hI j) hs
    · dsimp only
      rw [Function.update_of_ne hj]
      exact h.stable (hI j) (h.other (Ne.symm hj) (hI i) (hI j) hs)
  | env hs => exact h.stable (hI j) (h.env hI hs j)

/-- The invariants of all components hold in every run. -/
theorem invariant (h : InterferenceFree C I R) {ok : γ × (ι → σ) → (ι × lab) ⊕ ext → Prop}
    (hinit : ∀ g ss, C.init g ss → ∀ i, I i g (ss i)) (hr : C.system.Reach ok x) : ∀ i, I i x.1 (x.2 i) :=
  hr.invariant (fun x hx => hinit x.1 x.2 hx) fun _ _ _ _ hI _ hs => h.step hI hs

/-- In a run without steps of a component, its state stays, and the rest only does what it relies on. -/
theorem others (h : InterferenceFree C I R) {i : ι} (hI : ∀ j, I j x.1 (x.2 j))
    (hp : C.system.Path (fun _ => Others i) x y) :
    (∀ j, I j y.1 (y.2 j)) ∧ y.2 i = x.2 i ∧ Relation.ReflTransGen (R i (x.2 i)) x.1 y.1 := by
  induction hp with
  | refl => exact ⟨hI, rfl, .refl⟩
  | @step t u l _ hok hs ih =>
    obtain ⟨hI', he, hR⟩ := ih
    refine ⟨h.step hI' hs, ?_⟩
    cases hs with
    | @own k a _ _ hs =>
      have hk : k ≠ i := fun hk => hok a (by rw [hk])
      refine ⟨by rw [← he]; exact Function.update_of_ne hk.symm _ _, hR.tail ?_⟩
      rw [← he]
      exact h.other hk (hI' k) (hI' i) hs
    | env hs =>
      refine ⟨he, hR.tail ?_⟩
      rw [← he]
      exact h.env hI' hs i

end InterferenceFree
end Components
