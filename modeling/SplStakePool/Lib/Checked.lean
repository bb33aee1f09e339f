import Mathlib.Algebra.Order.Ring.Nat

/-!
# Checked machine arithmetic on naturals

Unsigned machine integers are naturals; an operation that can overflow takes the width in bits and
returns `none` on overflow, as the checked operations of the source language do. Every operation has
one `eq_some` lemma, which is all that the proofs about code use.
-/

namespace Machine

/-- The largest unsigned value of `bits` bits. -/
def maxValue (bits : Nat) : Nat := 2 ^ bits - 1

def checkedAdd (bits a b : Nat) : Option Nat := if a + b < 2 ^ bits then some (a + b) else none

def checkedSub (a b : Nat) : Option Nat := if b ≤ a then some (a - b) else none

def checkedMul (bits a b : Nat) : Option Nat := if a * b < 2 ^ bits then some (a * b) else none

def checkedDiv (a b : Nat) : Option Nat := if b = 0 then none else some (a / b)

/-- Conversion to a narrower width, `none` when the value does not fit. -/
def tryFrom (bits a : Nat) : Option Nat := if a < 2 ^ bits then some a else none

def saturatingAdd (bits a b : Nat) : Nat := min (a + b) (maxValue bits)

/-- Subtraction stopping at zero, which is what `-` on naturals does. -/
def saturatingSub (a b : Nat) : Nat := a - b

variable {bits a b c : Nat}

theorem checkedAdd_eq_some : checkedAdd bits a b = some c ↔ a + b < 2 ^ bits ∧ a + b = c := by
  unfold checkedAdd; split <;> simp [*]

theorem checkedSub_eq_some : checkedSub a b = some c ↔ b ≤ a ∧ a - b = c := by
  unfold checkedSub; split <;> simp [*]

theorem checkedMul_eq_some : checkedMul bits a b = some c ↔ a * b < 2 ^ bits ∧ a * b = c := by
  unfold checkedMul; split <;> simp [*]

theorem checkedDiv_eq_some : checkedDiv a b = some c ↔ b ≠ 0 ∧ a / b = c := by
  unfold checkedDiv; split <;> simp [*]

theorem tryFrom_eq_some : tryFrom bits a = some c ↔ a < 2 ^ bits ∧ a = c := by
  unfold tryFrom; split <;> simp [*]

theorem checkedAdd_of_lt (h : a + b < 2 ^ bits) : checkedAdd bits a b = some (a + b) := by
  simp [checkedAdd, h]

theorem checkedSub_of_le (h : b ≤ a) : checkedSub a b = some (a - b) := by simp [checkedSub, h]

theorem checkedMul_of_lt (h : a * b < 2 ^ bits) : checkedMul bits a b = some (a * b) := by
  simp [checkedMul, h]

theorem tryFrom_of_lt (h : a < 2 ^ bits) : tryFrom bits a = some a := by simp [tryFrom, h]

@[simp] theorem saturatingSub_eq : saturatingSub a b = a - b := rfl

theorem le_saturatingAdd_of_le (h : c ≤ a + b) (hc : c ≤ maxValue bits) :
    c ≤ saturatingAdd bits a b := by
  simp only [saturatingAdd]; omega

end Machine
