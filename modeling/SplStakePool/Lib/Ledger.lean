import Mathlib.Logic.Function.Basic

/-!
# Ledgers

Balances of accounts, between which amounts are moved. A subtraction stops at zero, so that the laws of a move
only need that the amount is there where they say so.

* `move_through`: an amount that is moved on from an account is moved past it.
* `gather`: two amounts collected on an empty account and moved on together are moved separately.
-/

namespace Ledger
open Function

variable {κ : Type*} [DecidableEq κ] {f : κ → Nat} {a b c k : κ} {m n : Nat}

/-- Moves an amount from one account to another. -/
def move (f : κ → Nat) (src dst : κ) (n : Nat) : κ → Nat := update (update f src (f src - n)) dst (f dst + n)

@[simp] theorem move_dst : move f a b n b = f b + n := update_self _ _ _

@[simp] theorem move_src (h : a ≠ b) : move f a b n a = f a - n := by
  rw [move, update_of_ne h, update_self]

theorem move_of_ne (ha : k ≠ a) (hb : k ≠ b) : move f a b n k = f k := by
  rw [move, update_of_ne hb, update_of_ne ha]

@[simp] theorem move_zero : move f a b 0 = f := by
  funext k
  by_cases hb : k = b
  · rw [hb, move_dst, Nat.add_zero]
  by_cases ha : k = a
  · rw [ha, move_src (ha ▸ hb), Nat.sub_zero]
  · exact move_of_ne ha hb

theorem move_through (hab : a ≠ b) (hbc : b ≠ c) (hac : a ≠ c) : move (move f a b n) b c n = move f a c n := by
  funext k
  by_cases hc : k = c
  · rw [hc, move_dst, move_dst, move_of_ne hac.symm hbc.symm]
  by_cases hb : k = b
  · rw [hb, move_src hbc, move_dst, Nat.add_sub_cancel, move_of_ne hab.symm hbc]
  by_cases ha : k = a
  · rw [ha, move_of_ne hab hac, move_src hab, move_src hac]
  · rw [move_of_ne hb hc, move_of_ne ha hb, move_of_ne ha hc]

/-- Two amounts gathered on an empty account and moved on together. -/
theorem gather {e : κ} (hab : a ≠ b) (hae : a ≠ e) (hbe : b ≠ e) (hac : a ≠ c) (hbc : b ≠ c) (hec : e ≠ c)
    (he : f e = 0) :
    move (move (move f a e m) b e n) e c (move (move f a e m) b e n e) = move (move f a c m) b c n := by
  have hsum : move (move f a e m) b e n e = m + n := by rw [move_dst, move_dst, he, Nat.zero_add]
  rw [hsum]
  funext k
  by_cases hc : k = c
  · rw [hc, move_dst, move_dst, move_dst, move_of_ne hbc.symm hec.symm, move_of_ne hac.symm hec.symm, Nat.add_assoc]
  by_cases hke : k = e
  · rw [hke, move_src hec, hsum, Nat.sub_self, move_of_ne hbe.symm hec, move_of_ne hae.symm hec, he]
  by_cases hb : k = b
  · rw [hb, move_of_ne hbe hbc, move_src hbe, move_src hbc, move_of_ne hab.symm hbe, move_of_ne hab.symm hbc]
  by_cases ha : k = a
  · rw [ha, move_of_ne hae hac, move_of_ne hab hae, move_src hae, move_of_ne hab hac, move_src hac]
  · rw [move_of_ne hke hc, move_of_ne hb hke, move_of_ne ha hke, move_of_ne hb hc, move_of_ne ha hc]

end Ledger
