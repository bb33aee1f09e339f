import SplStakePool.Client.Rebalance
import SplStakePool.Lib.Gather

/-!
# The rebalancing bot (`rebalance.py`, `actions.py`)

The bot shares the stake of a pool evenly among its validators, with an increase or a decrease for each that is off its
share. The actions are awaited together: each one gets the pool and then the list, builds an instruction of them, and
sends it. An exception is `none`, and the numbers of the bot are Python's, of any size.

An action waits where it asks the cluster for something, which is where another one can take its turn. So an action is
a task in the sense of the library, and what it has got of the cluster so far is its state.
-/

namespace SplStakePool.Bot

variable {Key : Type}

/-- `MINIMUM_ACTIVE_STAKE` of the client -/
def minimumActiveStake : Int := 1000000000

inductive Direction
  | decrease | increase
deriving DecidableEq

variable (Key) in
/-- A call of an action, `decrease_validator_stake` or `increase_validator_stake`. -/
structure Move where
  direction : Direction
  validatorVote : Key
  lamports : Int

section
variable (totalLamports retainedReserveLamports stakeRentExemption : Int) (validators : List (ValidatorStakeInfo Key))

/-- The share of each validator before rent is set aside. -/
def grossLamportsPerValidator : Int := (totalLamports - retainedReserveLamports).fdiv validators.length

def numIncreases : Nat := (validators.filter fun v => v.transientStakeLamports = 0 ∧
  (v.activeStakeLamports : Int) < grossLamportsPerValidator totalLamports retainedReserveLamports validators).length

def totalUsableLamports : Int :=
  totalLamports - retainedReserveLamports -
    numIncreases totalLamports retainedReserveLamports validators * stakeRentExemption

def lamportsPerValidator : Int :=
  (totalUsableLamports totalLamports retainedReserveLamports stakeRentExemption validators).fdiv validators.length

end

/-- The move of a validator to its share, if there is one. -/
def moveTo (stakeRentExemption lamportsPerValidator : Int) (v : ValidatorStakeInfo Key) : Option (Move Key) :=
  if v.transientStakeLamports ≠ 0 then none
  else if (v.activeStakeLamports : Int) > lamportsPerValidator then
    let lamportsToDecrease := v.activeStakeLamports - lamportsPerValidator
    if lamportsToDecrease ≤ stakeRentExemption then none
    else some ⟨.decrease, v.voteAccountAddress, lamportsToDecrease⟩
  else if (v.activeStakeLamports : Int) < lamportsPerValidator then
    let lamportsToIncrease := lamportsPerValidator - v.activeStakeLamports
    if lamportsToIncrease < minimumActiveStake then none
    else some ⟨.increase, v.voteAccountAddress, lamportsToIncrease⟩
  else none

/-- The actions of `rebalance`. Without validators the division raises. -/
def rebalance (stakePool : StakePool Key) (validatorList : ValidatorList Key)
    (retainedReserveLamports stakeRentExemption : Int) : Option (List (Move Key)) :=
  if validatorList.validators = [] then none
  else some (validatorList.validators.filterMap (moveTo stakeRentExemption (lamportsPerValidator
    stakePool.totalLamports retainedReserveLamports stakeRentExemption validatorList.validators)))

/-- An integer for a field of eight bytes, which raises if it is out of range. -/
def toUInt64 (n : Int) : Option UInt64 := if 0 ≤ n ∧ n < 2 ^ 64 then some (.ofNat n.toNat) else none

/-- The seed of the transient stake account: bumped up by one to avoid reuse, or that of the existing account. -/
def transientStakeSeed (v : ValidatorStakeInfo Key) (ephemeralStakeSeed : Option UInt64) : Option UInt64 :=
  match ephemeralStakeSeed with
  | none => toUInt64 (v.transientSeedSuffix.toNat + 1)
  | some _ => some v.transientSeedSuffix

namespace Actions

section
variable [DecidableEq Key] (rt : Runtime Key) (stakeHistoryId stakeConfigId stakePoolProgramId stakePoolAddress : Key)
  (stakePool : StakePool Key) (validatorList : ValidatorList Key) (staker validatorVote : Key) (lamports : Int)
  (ephemeralStakeSeed : Option UInt64)

def increaseValidatorStake : Option (Instruction Key) := do
  let withdrawAuthority := (findWithdrawAuthorityProgramAddress rt stakePoolProgramId stakePoolAddress).1
  let validatorInfo ← validatorList.find validatorVote
  let transientStakeSeed ← transientStakeSeed validatorInfo ephemeralStakeSeed
  let validatorStakeSeed := nonZeroU32 validatorInfo.validatorSeedSuffix
  let transientStake := (findTransientStakeProgramAddress rt stakePoolProgramId validatorInfo.voteAccountAddress
    stakePoolAddress transientStakeSeed).1
  let validatorStake := (findStakeProgramAddress rt stakePoolProgramId validatorInfo.voteAccountAddress
    stakePoolAddress validatorStakeSeed).1
  let lamports ← toUInt64 lamports
  match ephemeralStakeSeed with
  | some ephemeralStakeSeed =>
    let ephemeralStake :=
      (findEphemeralStakeProgramAddress rt stakePoolProgramId stakePoolAddress ephemeralStakeSeed).1
    return increaseAdditionalValidatorStake rt stakeHistoryId stakeConfigId stakePoolProgramId stakePoolAddress staker
      withdrawAuthority stakePool.validatorList stakePool.reserveStake ephemeralStake transientStake validatorStake
      validatorVote lamports.toNat transientStakeSeed ephemeralStakeSeed
  | none =>
    return SplStakePool.increaseValidatorStake rt stakeHistoryId stakeConfigId stakePoolProgramId stakePoolAddress staker
      withdrawAuthority stakePool.validatorList stakePool.reserveStake transientStake validatorStake validatorVote
      lamports.toNat transientStakeSeed

def decreaseValidatorStake : Option (Instruction Key) := do
  let withdrawAuthority := (findWithdrawAuthorityProgramAddress rt stakePoolProgramId stakePoolAddress).1
  let validatorInfo ← validatorList.find validatorVote
  let validatorStakeSeed := nonZeroU32 validatorInfo.validatorSeedSuffix
  let validatorStake := (findStakeProgramAddress rt stakePoolProgramId validatorInfo.voteAccountAddress
    stakePoolAddress validatorStakeSeed).1
  let transientStakeSeed ← transientStakeSeed validatorInfo ephemeralStakeSeed
  let transientStake := (findTransientStakeProgramAddress rt stakePoolProgramId validatorInfo.voteAccountAddress
    stakePoolAddress transientStakeSeed).1
  let lamports ← toUInt64 lamports
  match ephemeralStakeSeed with
  | some ephemeralStakeSeed =>
    let ephemeralStake :=
      (findEphemeralStakeProgramAddress rt stakePoolProgramId stakePoolAddress ephemeralStakeSeed).1
    return decreaseAdditionalValidatorStake rt stakeHistoryId stakePoolProgramId stakePoolAddress staker
      withdrawAuthority stakePool.validatorList stakePool.reserveStake validatorStake ephemeralStake transientStake
      lamports.toNat transientStakeSeed ephemeralStakeSeed
  | none =>
    return decreaseValidatorStakeWithReserve rt stakeHistoryId stakePoolProgramId stakePoolAddress staker
      withdrawAuthority stakePool.validatorList stakePool.reserveStake validatorStake transientStake lamports.toNat
      transientStakeSeed

end

variable (Key) in
/-- Where an action waits: for the pool, for the list, or for its transaction. -/
inductive Task
  | start (move : Move Key)
  | hasPool (move : Move Key) (stakePool : StakePool Key)
  | sending (ins : Instruction Key)

/-- How an action fails. -/
inductive Failure
  | raised
  | program (e : ProgramError)

variable [DecidableEq Key] (rt : Runtime Key)
  (stakeHistoryId stakeConfigId stakePoolProgramId stakePoolAddress staker : Key)

/-- The instruction of an action of the bot, which gives no seed of an ephemeral account. -/
def buildMove (stakePool : StakePool Key) (validatorList : ValidatorList Key) (move : Move Key) :
    Option (Instruction Key) :=
  match move.direction with
  | .increase => increaseValidatorStake rt stakeHistoryId stakeConfigId stakePoolProgramId stakePoolAddress stakePool
    validatorList staker move.validatorVote move.lamports none
  | .decrease => decreaseValidatorStake rt stakeHistoryId stakePoolProgramId stakePoolAddress stakePool validatorList
    staker move.validatorVote move.lamports none

/-- A turn of an action, which runs until it waits again. What a transaction does is `send`. -/
def turn (send : World Key → Instruction Key → Except ProgramError (World Key)) (w : World Key) :
    Task Key → Except Failure (World Key × Option (Task Key))
  | .start move => .ok (w, some (.hasPool move w.stakePool))
  | .hasPool move stakePool =>
    match buildMove rt stakeHistoryId stakeConfigId stakePoolProgramId stakePoolAddress staker stakePool
      w.validatorList move with
    | some ins => .ok (w, some (.sending ins))
    | none => .error .raised
  | .sending ins =>
    match send w ins with
    | .ok w' => .ok (w', none)
    | .error e => .error (.program e)

end Actions
end SplStakePool.Bot
