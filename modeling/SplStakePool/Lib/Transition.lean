import Mathlib.Logic.Relation

/-!
# Labelled transition systems and their runs

A system has initial states and labelled steps. A run may be restricted to steps meeting a condition
`ok` on the state and label before the step: `Path` is such a run between two states, `Reach` a run
from an initial state. `Reach.invariant` and `Path.invariant` are the two induction rules; each takes
what one step preserves to what a whole run preserves, and `Path.simulates` takes a step that an abstract
system simulates to a run. `Run` records the steps, for properties of
histories; its rule is `Run.invariant`.
-/

universe u v

structure System (σ : Type u) (lab : Type v) where
  init : σ → Prop
  step : σ → lab → σ → Prop

namespace System
variable {σ : Type u} {lab : Type v} {S : System σ lab} {ok ok' : σ → lab → Prop}

/-- The states of a run from `s` whose steps all meet `ok`. -/
inductive Path (S : System σ lab) (ok : σ → lab → Prop) (s : σ) : σ → Prop
  | refl : Path S ok s s
  | step {t u : σ} {l : lab} (h : Path S ok s t) (hok : ok t l) (hs : S.step t l u) : Path S ok s u

/-- The states of a run from an initial state whose steps all meet `ok`. -/
def Reach (S : System σ lab) (ok : σ → lab → Prop) (s : σ) : Prop := ∃ s₀, S.init s₀ ∧ S.Path ok s₀ s

/-- The states of any run from an initial state. -/
abbrev Reachable (S : System σ lab) (s : σ) : Prop := S.Reach (fun _ _ => True) s

namespace Path

theorem mono (h : ∀ s l, ok s l → ok' s l) {s t : σ} (hp : S.Path ok s t) : S.Path ok' s t := by
  induction hp with
  | refl => exact .refl
  | step _ hok hs ih => exact .step ih (h _ _ hok) hs

theorem trans {s t u : σ} (h₁ : S.Path ok s t) (h₂ : S.Path ok t u) : S.Path ok s u := by
  induction h₂ with
  | refl => exact h₁
  | step _ hok hs ih => exact .step ih hok hs

theorem single {s t : σ} {l : lab} (hok : ok s l) (hs : S.step s l t) : S.Path ok s t :=
  .step .refl hok hs

/-- What one step preserves, a run preserves. The step may use that its source lies on the run. -/
theorem invariant {I : σ → Prop} {s t : σ} (hp : S.Path ok s t) (h₀ : I s)
    (hstep : ∀ a l b, S.Path ok s a → I a → ok a l → S.step a l b → I b) : I t := by
  induction hp with
  | refl => exact h₀
  | step hp hok hs ih => exact hstep _ _ _ hp ih hok hs

/-- When every step is some moves of an abstract state, so is a run: the abstract system simulates it. -/
theorem simulates {τ : Type*} {move : τ → τ → Prop} {abs : σ → τ} {s t : σ} (hp : S.Path ok s t)
    (hstep : ∀ a l b, S.Path ok s a → ok a l → S.step a l b →
      Relation.ReflTransGen move (abs a) (abs b)) : Relation.ReflTransGen move (abs s) (abs t) := by
  induction hp with
  | refl => exact .refl
  | step hp hok hs ih => exact ih.trans (hstep _ _ _ hp hok hs)

end Path

namespace Reach

theorem of_init {s : σ} (h : S.init s) : S.Reach ok s := ⟨s, h, .refl⟩

theorem step {s t : σ} {l : lab} (h : S.Reach ok s) (hok : ok s l) (hs : S.step s l t) : S.Reach ok t :=
  let ⟨s₀, h₀, hp⟩ := h; ⟨s₀, h₀, hp.step hok hs⟩

theorem mono (h : ∀ s l, ok s l → ok' s l) {s : σ} (hr : S.Reach ok s) : S.Reach ok' s :=
  let ⟨s₀, h₀, hp⟩ := hr; ⟨s₀, h₀, hp.mono h⟩

theorem trans_path {s t : σ} (h : S.Reachable s) (hp : S.Path ok s t) : S.Reachable t :=
  let ⟨s₀, h₀, hp₀⟩ := h; ⟨s₀, h₀, hp₀.trans (hp.mono fun _ _ _ => trivial)⟩

theorem reachable {s : σ} (h : S.Reach ok s) : S.Reachable s := h.mono fun _ _ _ => trivial

/-- What holds initially and is preserved by every step holds in every state reached. -/
theorem invariant {I : σ → Prop} {s : σ} (hr : S.Reach ok s) (h₀ : ∀ s, S.init s → I s)
    (hstep : ∀ a l b, S.Reach ok a → I a → ok a l → S.step a l b → I b) : I s :=
  let ⟨s₀, hs₀, hp⟩ := hr
  hp.invariant (h₀ s₀ hs₀) fun a l b ha => hstep a l b ⟨s₀, hs₀, ha⟩

end Reach

/-! ## Recorded runs -/

/-- A step of a run, with the states before and after it. -/
structure Event (σ : Type u) (lab : Type v) where
  source : σ
  label : lab
  target : σ

/-- The runs from `s`, with their steps in order. -/
inductive Run (S : System σ lab) (s : σ) : List (Event σ lab) → σ → Prop
  | nil : Run S s [] s
  | snoc {es : List (Event σ lab)} {t u : σ} {l : lab} (h : Run S s es t) (hs : S.step t l u) :
      Run S s (es ++ [⟨t, l, u⟩]) u

namespace Run
variable {s t u : σ} {es es' : List (Event σ lab)} {e : Event σ lab}

theorem path (h : S.Run s es t) : S.Path (fun _ _ => True) s t := by
  induction h with
  | nil => exact .refl
  | snoc _ hs ih => exact ih.step trivial hs

theorem reachable (h : S.Run s es t) (hs : S.init s) : S.Reachable t := ⟨s, hs, h.path⟩

/-- A run is cut at every step of it. -/
theorem cut (h : S.Run s es' t) : ∀ es₁ e es₂, es' = es₁ ++ e :: es₂ →
    S.Run s es₁ e.source ∧ S.step e.source e.label e.target ∧ S.Run e.target es₂ t := by
  induction h with
  | nil =>
    intro es₁ e es₂ he
    simp at he
  | @snoc es t u l h hs ih =>
    intro es₁ e es₂ he
    rcases List.eq_nil_or_concat es₂ with rfl | ⟨es₃, e', rfl⟩
    · -- the last step
      obtain ⟨h₁, h₂⟩ := List.append_inj' he rfl
      obtain rfl := (List.cons.inj h₂).1
      exact ⟨h₁ ▸ h, hs, .nil⟩
    · rw [List.concat_eq_append, ← List.cons_append, ← List.append_assoc] at he
      obtain ⟨he₁, he₂⟩ := List.append_inj' he rfl
      obtain rfl := (List.cons.inj he₂).1
      obtain ⟨h₁, h₂, h₃⟩ := ih _ _ _ he₁
      rw [List.concat_eq_append]
      exact ⟨h₁, h₂, h₃.snoc hs⟩

/-- What holds of the empty history and is preserved by every step holds of every history. -/
theorem invariant {I : List (Event σ lab) → σ → Prop} (h : S.Run s es t) (h₀ : I [] s)
    (hstep : ∀ es t l u, S.Run s es t → I es t → S.step t l u → I (es ++ [⟨t, l, u⟩]) u) : I es t := by
  induction h with
  | nil => exact h₀
  | snoc h hs ih => exact hstep _ _ _ _ h ih hs

theorem of_path {ok : σ → lab → Prop} (h : S.Path ok s t) : ∃ es, S.Run s es t := by
  induction h with
  | refl => exact ⟨[], .nil⟩
  | step _ _ hs ih =>
    obtain ⟨es, h⟩ := ih
    exact ⟨_, h.snoc hs⟩

end Run

/-- `exec` is a partial step function that only takes steps of the system meeting `ok`. -/
def Executes (S : System σ lab) (ok : σ → lab → Prop) (exec : σ → lab → Option σ) : Prop :=
  ∀ s l t, exec s l = some t → ok s l ∧ S.step s l t

/-- Runs a list of labels. -/
def runList (exec : σ → lab → Option σ) : σ → List lab → Option σ
  | s, [] => some s
  | s, l :: ls => (exec s l).bind fun t => runList exec t ls

theorem Executes.path {exec : σ → lab → Option σ} (he : S.Executes ok exec) {s t : σ} {ls : List lab}
    (h : runList exec s ls = some t) : S.Path ok s t := by
  induction ls generalizing s with
  | nil => simp only [runList, Option.some.injEq] at h; exact h ▸ .refl
  | cons l ls ih =>
    simp only [runList, Option.bind_eq_some_iff] at h
    obtain ⟨u, hu, h⟩ := h
    obtain ⟨hok, hs⟩ := he _ _ _ hu
    exact (Path.single hok hs).trans (ih h)

/-- Only the labels of the list need to meet `ok`. -/
theorem Path.of_runList {exec : σ → lab → Option σ} (hs : ∀ s l t, exec s l = some t → S.step s l t)
    {s t : σ} {ls : List lab} (hok : ∀ l ∈ ls, ∀ s, ok s l) (h : runList exec s ls = some t) :
    S.Path ok s t := by
  induction ls generalizing s with
  | nil => simp only [runList, Option.some.injEq] at h; exact h ▸ .refl
  | cons l ls ih =>
    simp only [runList, Option.bind_eq_some_iff] at h
    obtain ⟨u, hu, h⟩ := h
    exact (Path.single (hok l (by simp) s) (hs _ _ _ hu)).trans (ih (fun l hl => hok l (by simp [hl])) h)

end System
