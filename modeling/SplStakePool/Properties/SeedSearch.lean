import SplStakePool.Client.AddValidator
import SplStakePool.Runtime.Session

/-!
# The seed that a validator is added with

The client is to take the first seed of which the validator stake account does not exist, for the program to
create. The loop asks for the reserve instead, and breaks when it exists: it takes no seed, whether that
account exists or not, and without a reserve it never ends.

The loop does the same in every turn, so that it breaks in the first one or in none, by induction on the fuel. The
client then is right exactly if no seed is the first free one.
-/

namespace SplStakePool
open Exec

section
variable {Key : Type} {rt : Runtime Key} {getAccount : GetAccount Key} {stakePool : StakePool Key}
  {programId vote stakePoolAddress stakeHistoryId stakeConfigId : Key} {fuel : Nat} {i : UInt32}

theorem vsaAddTurn_eq : vsaAddTurn rt getAccount stakePool programId vote stakePoolAddress i =
    if (getAccount stakePool.reserveStake).isSome then
      some ((findStakeProgramAddress rt programId vote stakePoolAddress (nonZeroU32 i)).1, nonZeroU32 i)
    else none := rfl

theorem vsaAddLoop_of_reserve (h : (getAccount stakePool.reserveStake).isSome) :
    vsaAddLoop rt getAccount stakePool programId vote stakePoolAddress (fuel + 1) i =
      some ((findStakeProgramAddress rt programId vote stakePoolAddress (nonZeroU32 i)).1, nonZeroU32 i) := by
  rw [vsaAddLoop, vsaAddTurn_eq, if_pos h]

theorem vsaAddLoop_eq_none (h : getAccount stakePool.reserveStake = none) (fuel : Nat) (i : UInt32) :
    vsaAddLoop rt getAccount stakePool programId vote stakePoolAddress fuel i = none := by
  induction fuel generalizing i with
  | zero => rfl
  | succ fuel ih =>
    rw [vsaAddLoop, vsaAddTurn_eq, h]
    exact ih (i + 1)

theorem vsaAddLoop_eq_some {found : Key × Option UInt32}
    (h : vsaAddLoop rt getAccount stakePool programId vote stakePoolAddress fuel 0 = some found) :
    (getAccount stakePool.reserveStake).isSome ∧
      found = ((findStakeProgramAddress rt programId vote stakePoolAddress none).1, none) := by
  cases hr : getAccount stakePool.reserveStake with
  | none =>
    rw [vsaAddLoop_eq_none hr] at h
    cases h
  | some a =>
    cases fuel with
    | zero => cases h
    | succ fuel =>
      rw [vsaAddLoop_of_reserve (Option.isSome_iff_exists.2 ⟨a, hr⟩)] at h
      cases h
      exact ⟨rfl, rfl⟩

section
variable (rt getAccount programId vote stakePoolAddress)

/-- The validator stake account of a candidate: no seed for 0, and the seeds 1, 2, … after it. -/
def candidate (i : UInt32) : Key := (findStakeProgramAddress rt programId vote stakePoolAddress (nonZeroU32 i)).1

/-- The first candidate whose account does not exist. -/
def FirstFree (i : UInt32) : Prop :=
  getAccount (candidate rt programId vote stakePoolAddress i) = none ∧
    ∀ j < i, getAccount (candidate rt programId vote stakePoolAddress j) ≠ none

/-- The accounts as the runtime loads them. -/
def loadAccounts : Accounts Key := fun k => (getAccount k).getD ⟨0, rt.systemProgramId, .none⟩

/-- The system program makes a stake account of an account that does not exist. -/
def CreatesStakeAccounts : Prop :=
  ∃ a a', rt.allocate stakeSpace ⟨0, rt.systemProgramId, .none⟩ = .ok a ∧ rt.assign rt.stakeProgramId a = .ok a'

variable [DecidableEq Key] (stakeHistoryId stakeConfigId stakePool)

/-- The client ends, having sent an instruction with the first free candidate, whose account the program can
create. -/
def AddsFirstFree (validatorList : ValidatorList Key) : Prop :=
  ∃ fuel ins i info,
    commandVsaAdd rt stakeHistoryId stakeConfigId getAccount stakePool programId vote stakePoolAddress validatorList
      fuel = some (some ins) ∧
    FirstFree rt getAccount programId vote stakePoolAddress i ∧ ins.data = .addValidatorToPool i ∧
    ins.accounts[5]? = some info ∧ info.key = candidate rt programId vote stakePoolAddress i ∧
    ∃ accounts', createStakeAccount rt (loadAccounts rt getAccount) info = .ok accounts'

end

variable [DecidableEq Key]

theorem commandVsaAdd_eq_some {validatorList : ValidatorList Key} {ins : Instruction Key}
    (h : commandVsaAdd rt stakeHistoryId stakeConfigId getAccount stakePool programId vote stakePoolAddress
      validatorList fuel = some (some ins)) :
    (getAccount stakePool.reserveStake).isSome ∧ ins = addValidatorToPoolWithVote rt stakeHistoryId stakeConfigId
      programId stakePool stakePoolAddress vote none := by
  unfold commandVsaAdd at h
  split at h
  · cases h
  · obtain ⟨found, hl, h⟩ := Option.bind_eq_some_iff.1 h
    obtain ⟨hr, rfl⟩ := vsaAddLoop_eq_some hl
    cases h
    exact ⟨hr, rfl⟩

/-- A client that does not know the validator yet adds it with the first free seed exactly when the reserve exists
and the account without a seed does not. -/
theorem vsa_add_first_free_iff (hrt : CreatesStakeAccounts rt) {validatorList : ValidatorList Key}
    (hnew : validatorList.find vote = none) :
    AddsFirstFree rt getAccount stakePool programId vote stakePoolAddress stakeHistoryId stakeConfigId validatorList ↔
      (getAccount stakePool.reserveStake).isSome ∧
        getAccount (findStakeProgramAddress rt programId vote stakePoolAddress none).1 = none := by
  constructor
  · rintro ⟨fuel, ins, i, info, hins, hfree, hdata, -⟩
    obtain ⟨hr, rfl⟩ := commandVsaAdd_eq_some hins
    cases hdata
    exact ⟨hr, hfree.1⟩
  · rintro ⟨hr, hfree⟩
    obtain ⟨a, a', ha, ha'⟩ := hrt
    refine ⟨1, addValidatorToPoolWithVote rt stakeHistoryId stakeConfigId programId stakePool stakePoolAddress vote
      none, 0, .writable (candidate rt programId vote stakePoolAddress 0), ?_,
      ⟨hfree, fun j hj => absurd hj UInt32.not_lt_zero⟩, rfl, rfl, rfl, ?_⟩
    · rw [commandVsaAdd, hnew, vsaAddLoop_of_reserve hr]
      rfl
    · have hload : loadAccounts rt getAccount (candidate rt programId vote stakePoolAddress 0) =
          ⟨0, rt.systemProgramId, .none⟩ := by
        rw [loadAccounts, show getAccount (candidate rt programId vote stakePoolAddress 0) = none from hfree]
        rfl
      refine ⟨Function.update (loadAccounts rt getAccount) (candidate rt programId vote stakePoolAddress 0) a', ?_⟩
      rw [createStakeAccount, AccountInfo.writable, hload, ha, ok_bind, ha', ok_bind]
      rfl

end

namespace Reference

theorem createsStakeAccounts : CreatesStakeAccounts runtime := ⟨_, _, rfl, rfl⟩

def emptyList : ValidatorList Key := ⟨⟨.validatorList, 3⟩, []⟩

/-- The accounts of a pool that has never had the validator: its reserve. -/
def reserveOnly : GetAccount Key := fun k =>
  if k = blankPool.reserveStake then some ⟨rent stakeSpace, stakeProgram, .stakeState (.initialized poolMeta)⟩
  else none

/-- Somebody sent the rent to the validator stake account without a seed when the validator was removed, and
initialized it. -/
def hijacked : GetAccount Key := fun k =>
  if k = candidate runtime runtime.programId vote stakePoolKey 0 then
    some ⟨rent stakeSpace, stakeProgram, .stakeState (.initialized ⟨rent stakeSpace, ⟨user, user⟩, default⟩)⟩
  else reserveOnly k

end Reference

open Reference in
theorem vsa_add_first_free_iff_reserveOnly :
    AddsFirstFree runtime reserveOnly blankPool runtime.programId vote stakePoolKey default default emptyList ↔
      (reserveOnly blankPool.reserveStake).isSome ∧
        reserveOnly (findStakeProgramAddress runtime runtime.programId vote stakePoolKey none).1 = none :=
  vsa_add_first_free_iff createsStakeAccounts rfl

open Reference in
/-- Where the account without a seed exists and the one with seed 1 does not, the client does not take seed 1. -/
theorem vsa_add_not_first_free :
    FirstFree runtime hijacked runtime.programId vote stakePoolKey 1 ∧
      ¬ AddsFirstFree runtime hijacked blankPool runtime.programId vote stakePoolKey default default emptyList := by
  refine ⟨⟨by decide, fun j hj => ?_⟩, fun h => ?_⟩
  · have hzero : j = 0 := by
      rw [UInt32.lt_iff_toNat_lt] at hj
      exact UInt32.toNat_inj.1 (Nat.lt_one_iff.1 hj)
    subst hzero
    decide
  · obtain ⟨fuel, ins, i, info, hins, hfree, hdata, -⟩ := h
    obtain ⟨-, rfl⟩ := commandVsaAdd_eq_some hins
    cases hdata
    exact absurd hfree.1 (by decide)

end SplStakePool
