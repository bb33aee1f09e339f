import SplStakePool.Invariant.Delegation
import SplStakePool.Properties.FeeSchedule
import SplStakePool.Properties.MergingUpdates

/-!
# The validators that get the stake of the pool

Whatever counts towards the value of the pool is in stake accounts that only the pool can use. They are delegated to
the validator that they are recorded for, and a staker has added that validator. A restart of the cluster can leave a
stake undelegated; it is never delegated to another validator then.

That nothing else is delegated to is the invariant `AllDelegates` of the steps, and that the pool controls the accounts
is in the core invariant. The join of a vote account is found by going back along the run to the step that pushed it.
-/

namespace SplStakePool
open Exec Machine System

variable {Key : Type} [DecidableEq Key] [Inhabited Key] {rt : Runtime Key} {s w w' : World Key} {es : History Key}
  {l : Label Key} {v : ValidatorStakeInfo Key} {acc : Accounts Key} {k : Key}

omit [DecidableEq Key] in
theorem EntryOk.hasValidatorStake (h : EntryOk rt acc v) (h0 : 0 < v.activeStakeLamports) : v.HasValidatorStake := by
  obtain ⟨s, hs, hok⟩ := h.status
  refine ⟨s, hs, ?_⟩
  cases s with
  | active | deactivatingAll | deactivatingValidator => rfl
  | deactivatingTransient => exact absurd hok (Nat.ne_of_gt h0)
  | readyForRemoval => exact absurd hok.1 (Nat.ne_of_gt h0)

omit [DecidableEq Key] in
/-- A stake account that only the pool can use, and that is delegated to a vote account unless it is undelegated. -/
structure StakedWith (rt : Runtime Key) (a : Account Key) (vote : Key) : Prop where
  controlled : Controlled rt a
  delegated : a.DelegatedTo vote ∨ ∃ m, a.data = .stakeState (.initialized m)

omit [DecidableEq Key] in
theorem StakedWith.onlyTo {a : Account Key} (h : StakedWith rt a k) : a.DelegatedOnlyTo k := by
  rcases h.delegated with ⟨m, s, hd, rfl⟩ | ⟨m, hd⟩
  · exact .of_stake hd
  · rintro j ⟨m', s, hd', -⟩
    rw [hd] at hd'
    cases hd'

section
open Reference

end

end SplStakePool
