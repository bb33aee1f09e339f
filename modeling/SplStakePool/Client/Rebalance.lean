import SplStakePool.Client.AddValidator

/-!
# Moving stake to and from a validator (`instruction.rs`)

The builders of the instructions that move stake between the reserve and a validator. What is built for a vote
account has the derived addresses of the validator, for the seeds that are given.
-/

namespace SplStakePool

variable {Key : Type}

section
variable (rt : Runtime Key) (stakeHistoryId stakeConfigId : Key)

def increaseValidatorStake (programId stakePool staker stakePoolWithdrawAuthority validatorList reserveStake
    transientStake validatorStake validator : Key) (lamports : Nat) (transientStakeSeed : UInt64) : Instruction Key where
  programId
  accounts := [.readonly stakePool, .readonlySigner staker, .readonly stakePoolWithdrawAuthority,
    .writable validatorList, .writable reserveStake, .writable transientStake, .readonly validatorStake,
    .readonly validator, .readonly rt.clockId, .readonly rt.rentId, .readonly stakeHistoryId,
    .readonly stakeConfigId, .readonly rt.systemProgramId, .readonly rt.stakeProgramId]
  data := .increaseValidatorStake lamports transientStakeSeed

def increaseAdditionalValidatorStake (programId stakePool staker stakePoolWithdrawAuthority validatorList reserveStake
    ephemeralStake transientStake validatorStake validator : Key) (lamports : Nat)
    (transientStakeSeed ephemeralStakeSeed : UInt64) : Instruction Key where
  programId
  accounts := [.readonly stakePool, .readonlySigner staker, .readonly stakePoolWithdrawAuthority,
    .writable validatorList, .writable reserveStake, .writable ephemeralStake, .writable transientStake,
    .readonly validatorStake, .readonly validator, .readonly rt.clockId, .readonly stakeHistoryId,
    .readonly stakeConfigId, .readonly rt.systemProgramId, .readonly rt.stakeProgramId]
  data := .increaseAdditionalValidatorStake lamports transientStakeSeed ephemeralStakeSeed

def decreaseAdditionalValidatorStake (programId stakePool staker stakePoolWithdrawAuthority validatorList reserveStake
    validatorStake ephemeralStake transientStake : Key) (lamports : Nat)
    (transientStakeSeed ephemeralStakeSeed : UInt64) : Instruction Key where
  programId
  accounts := [.readonly stakePool, .readonlySigner staker, .readonly stakePoolWithdrawAuthority,
    .writable validatorList, .writable reserveStake, .writable validatorStake, .writable ephemeralStake,
    .writable transientStake, .readonly rt.clockId, .readonly stakeHistoryId, .readonly rt.systemProgramId,
    .readonly rt.stakeProgramId]
  data := .decreaseAdditionalValidatorStake lamports transientStakeSeed ephemeralStakeSeed

def decreaseValidatorStakeWithReserve (programId stakePool staker stakePoolWithdrawAuthority validatorList
    reserveStake validatorStake transientStake : Key) (lamports : Nat) (transientStakeSeed : UInt64) :
    Instruction Key where
  programId
  accounts := [.readonly stakePool, .readonlySigner staker, .readonly stakePoolWithdrawAuthority,
    .writable validatorList, .writable reserveStake, .writable validatorStake, .writable transientStake,
    .readonly rt.clockId, .readonly stakeHistoryId, .readonly rt.systemProgramId, .readonly rt.stakeProgramId]
  data := .decreaseValidatorStakeWithReserve lamports transientStakeSeed

def increaseValidatorStakeWithVote (programId : Key) (stakePool : StakePool Key)
    (stakePoolAddress voteAccountAddress : Key) (lamports : Nat) (validatorStakeSeed : Option UInt32)
    (transientStakeSeed : UInt64) : Instruction Key :=
  let poolWithdrawAuthority := (findWithdrawAuthorityProgramAddress rt programId stakePoolAddress).1
  let (transientStakeAddress, _) := findTransientStakeProgramAddress rt programId voteAccountAddress
    stakePoolAddress transientStakeSeed
  let (validatorStakeAddress, _) := findStakeProgramAddress rt programId voteAccountAddress stakePoolAddress
    validatorStakeSeed
  increaseValidatorStake rt stakeHistoryId stakeConfigId programId stakePoolAddress stakePool.staker
    poolWithdrawAuthority stakePool.validatorList stakePool.reserveStake transientStakeAddress
    validatorStakeAddress voteAccountAddress lamports transientStakeSeed

def decreaseValidatorStakeWithVote (programId : Key) (stakePool : StakePool Key)
    (stakePoolAddress voteAccountAddress : Key) (lamports : Nat) (validatorStakeSeed : Option UInt32)
    (transientStakeSeed : UInt64) : Instruction Key :=
  let poolWithdrawAuthority := (findWithdrawAuthorityProgramAddress rt programId stakePoolAddress).1
  let (validatorStakeAddress, _) := findStakeProgramAddress rt programId voteAccountAddress stakePoolAddress
    validatorStakeSeed
  let (transientStakeAddress, _) := findTransientStakeProgramAddress rt programId voteAccountAddress
    stakePoolAddress transientStakeSeed
  decreaseValidatorStakeWithReserve rt stakeHistoryId programId stakePoolAddress stakePool.staker
    poolWithdrawAuthority stakePool.validatorList stakePool.reserveStake validatorStakeAddress
    transientStakeAddress lamports transientStakeSeed

end
end SplStakePool
