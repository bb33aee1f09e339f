import Mathlib.Logic.Basic

/-!
# Programs that may fail

A fallible program is a value of `Except ε α`. `ensure` is an early return with an error, `orErr`
turns an absent value into an error. The `eq_ok` lemmas read a successful run backwards, one step of
the program at a time.

Three judgements go through a program step by step, each with one rule for a sequence: `Avoids` says which error
a program does not return, `Requires` what must hold for it to succeed, and `Both` relates two runs that succeed.
Two runs are in `Lockstep` when each step of the one succeeds as the other does, with related results.
-/

namespace Exec
variable {ε α β : Type}

/-- Goes on when `c` holds, returns the error `e` otherwise. -/
def ensure (c : Prop) [Decidable c] (e : ε) : Except ε Unit := if c then .ok () else .error e

/-- The value of `o`, or the error `e`. -/
def orErr (o : Option α) (e : ε) : Except ε α :=
  match o with
  | some a => .ok a
  | none => .error e

theorem bind_eq_ok {x : Except ε α} {f : α → Except ε β} {b : β} :
    (x >>= f) = .ok b ↔ ∃ a, x = .ok a ∧ f a = .ok b := by
  cases x <;> simp [bind, Except.bind]

theorem pure_eq_ok {a b : α} : (pure a : Except ε α) = .ok b ↔ a = b := by
  simp [pure, Except.pure]

theorem ensure_eq_ok {c : Prop} [Decidable c] {e : ε} {u : Unit} : ensure c e = .ok u ↔ c := by
  unfold ensure; split <;> simp [*]

theorem orErr_eq_ok {o : Option α} {e : ε} {a : α} : orErr o e = .ok a ↔ o = some a := by
  cases o <;> simp [orErr]

theorem toOption_eq_some {x : Except ε α} {a : α} : x.toOption = some a ↔ x = .ok a := by
  cases x <;> simp [Except.toOption]

theorem exists_unit {p : Unit → Prop} : (∃ u, p u) ↔ p () := ⟨fun ⟨_, h⟩ => h, fun h => ⟨(), h⟩⟩

/-- A step that is only taken under a condition. -/
theorem ite_pure_eq_ok {c : Prop} [Decidable c] {x : Except ε α} {a b : α} :
    (if c then x else pure a) = .ok b ↔ (c ∧ x = .ok b) ∨ (¬ c ∧ a = b) := by
  split <;> simp [*, pure_eq_ok]

@[simp] theorem ensure_of {c : Prop} [Decidable c] {e : ε} (h : c) : ensure c e = .ok () := by
  simp [ensure, h]

theorem ok_bind {a : α} {f : α → Except ε β} : (Except.ok a >>= f) = f a := rfl

/-! ## Errors and conditions -/

/-- A program that does not return the error `e`. -/
def Avoids (e : ε) (x : Except ε α) : Prop := x ≠ .error e

namespace Avoids
variable {e e' : ε}

theorem ok {a : α} : Avoids e (.ok a : Except ε α) := fun h => by cases h

theorem pure {a : α} : Avoids e (pure a : Except ε α) := ok

theorem error (h : e' ≠ e) : Avoids e (.error e' : Except ε α) := fun he => h (Except.error.inj he)

theorem bind {x : Except ε α} {f : α → Except ε β} (hx : Avoids e x)
    (hf : ∀ a, x = .ok a → Avoids e (f a)) : Avoids e (x >>= f) := by
  cases x with
  | ok a => exact hf a rfl
  | error e' => exact error fun he => hx (by rw [he])

theorem ensure {c : Prop} [Decidable c] (h : e' ≠ e) : Avoids e (ensure c e') := by
  unfold Exec.ensure
  split
  · exact ok
  · exact error h

theorem orErr {o : Option α} (h : e' ≠ e) : Avoids e (orErr o e') := by
  cases o with
  | some a => exact ok
  | none => exact error h

end Avoids

/-- A program that only succeeds when the condition `c` holds. -/
def Requires (c : Prop) (x : Except ε α) : Prop := ∀ a, x = .ok a → c

namespace Requires
variable {c : Prop} {x : Except ε α} {f : α → Except ε β}

theorem first (hx : Requires c x) : Requires c (x >>= f) := by
  intro b h
  obtain ⟨a, ha, -⟩ := bind_eq_ok.1 h
  exact hx a ha

theorem next (hf : ∀ a, Requires c (f a)) : Requires c (x >>= f) := by
  intro b h
  obtain ⟨a, -, hb⟩ := bind_eq_ok.1 h
  exact hf a b hb

theorem error {e : ε} : Requires c (.error e : Except ε α) := fun _ h => by cases h

end Requires

/-! ## Two runs -/

/-- Two runs that both fail, or whose results are related. -/
inductive Both (R : α → α → Prop) : Except ε α → Except ε α → Prop
  | ok {a a' : α} (h : R a a') : Both R (.ok a) (.ok a')
  | error (e e' : ε) : Both R (.error e) (.error e')

namespace Both
variable {R : α → α → Prop} {x x' : Except ε α} {a a' : α}

theorem pure (h : R a a') : Both R (pure a : Except ε α) (pure a') := ok h

theorem bind {R' : β → β → Prop} {f f' : α → Except ε β} (hx : Both R x x')
    (hf : ∀ a a', R a a' → Both R' (f a) (f' a')) : Both R' (x >>= f) (x' >>= f') := by
  cases hx with
  | ok h => exact hf _ _ h
  | error e e' => exact error e e'

theorem same (x : Except ε α) (h : ∀ a, R a a) : Both R x x := by
  cases x with
  | ok a => exact ok (h a)
  | error e => exact error e e

theorem mono {R' : α → α → Prop} (h : Both R x x') (hR : ∀ a a', R a a' → R' a a') : Both R' x x' := by
  cases h with
  | ok h => exact ok (hR _ _ h)
  | error e e' => exact error e e'

theorem of_ok (h : Both R (.ok a) x') : ∃ a', x' = .ok a' ∧ R a a' := by
  cases h with
  | ok h => exact ⟨_, rfl, h⟩

end Both

variable {γ : Type}

/-- Two runs that fail with the same error, or whose results are related. -/
inductive Lockstep (R : α → β → Prop) : Except ε α → Except ε β → Prop
  | ok {a : α} {b : β} (h : R a b) : Lockstep R (.ok a) (.ok b)
  | error (e : ε) : Lockstep R (.error e) (.error e)

namespace Lockstep
variable {R : α → β → Prop} {x : Except ε α} {y : Except ε β}

theorem pure {a : α} {b : β} (h : R a b) : Lockstep R (pure a : Except ε α) (pure b) := ok h

theorem bind {α' β' : Type} {R' : α' → β' → Prop} {f : α → Except ε α'} {g : β → Except ε β'}
    (hx : Lockstep R x y) (hf : ∀ a b, R a b → Lockstep R' (f a) (g b)) : Lockstep R' (x >>= f) (y >>= g) := by
  cases hx with
  | ok h => exact hf _ _ h
  | error e => exact error e

theorem step {z z' : Except ε γ} {f : γ → Except ε α} {g : γ → Except ε β} (hz : z' = z)
    (hf : ∀ c, z = .ok c → Lockstep R (f c) (g c)) : Lockstep R (z >>= f) (z' >>= g) := by
  subst hz
  cases h : z' with
  | ok c => exact hf c h
  | error e => exact error e

theorem of_ok {a : α} (h : Lockstep R (.ok a) y) : ∃ b, y = .ok b ∧ R a b := by
  cases h with
  | ok h => exact ⟨_, rfl, h⟩

theorem orErr_map (g : α → β) (o : Option α) (e : ε) :
    Lockstep (fun a b => b = g a) (orErr o e) (orErr (o.map g) e) := by
  cases o with
  | some a => exact ok rfl
  | none => exact error e

end Lockstep

end Exec
