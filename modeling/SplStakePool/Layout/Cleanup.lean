import SplStakePool.Layout.Views
import SplStakePool.Processor.UpdatePool

/-!
# `CleanupRemovedValidatorEntries` on bytes

The instruction as it runs on the bytes of its two accounts, with the list compacted in place by `retain`
and then searched for the preferred validators. The result is `none` where the source panics.
-/

namespace SplStakePool
open Borsh BigVec Exec

/-- An account, with its bytes. -/
structure ProgramAccountInfo where
  key : Pubkey
  owner : Pubkey
  isWritable : Bool
  data : List UInt8

/-- The pool with other preferred validators. -/
def StoredStakePool.withPreferred (s : StoredStakePool) (preferredDeposit preferredWithdraw : Option Pubkey) :
    StoredStakePool where
  pool := { s.pool with
    preferredDepositValidatorVoteAddress := preferredDeposit
    preferredWithdrawValidatorVoteAddress := preferredWithdraw }
  reserved := s.reserved
  inRange := ⟨s.inRange.totalLamports_lt, s.inRange.poolTokenSupply_lt, s.inRange.lastUpdateEpoch_lt,
    s.inRange.lockup, s.inRange.lastEpochPoolTokenSupply_lt, s.inRange.lastEpochTotalLamports_lt,
    s.inRange.maxValidatorStake_lt⟩

namespace CleanupBytes

/-- The preferred validator that is left: it is reset when it is not found or not active. -/
def keepPreferred (validatorList : List UInt8) : Option Pubkey → Option (Option Pubkey)
  | none => some none
  | some preferred => do
    match ← Raw.find ValidatorStakeInfo.size (ValidatorStakeInfo.memcmpPubkeyBytes preferred.bytes)
      validatorList with
    | none => return none
    | some bytes =>
      let validator ← PodValidatorStakeInfo.fromBytes bytes
      match validator.status.status with
      | .ok .active => return some preferred
      | _ => return none

/-- The checks, and what they read: the pool, the header of the list and the vector behind it. -/
def check (programId : Pubkey) (stakePoolInfo validatorListInfo : ProgramAccountInfo) :
    Except ProgramError (StoredStakePool × ValidatorListHeader × List UInt8) := do
  ensure (programId = stakePoolInfo.owner) .incorrectProgramId
  let stakePool ← orErr (StoredStakePool.read stakePoolInfo.data) .borshIoError
  ensure stakePool.pool.isValid (.custom .invalidState)
  ensure (validatorListInfo.key = stakePool.pool.validatorList) (.custom .invalidValidatorStakeList)
  ensure (programId = validatorListInfo.owner) .incorrectProgramId
  let (header, validatorList) ← orErr (ValidatorListHeader.deserializeVec validatorListInfo.data) .borshIoError
  ensure header.isValid (.custom .invalidState)
  return (stakePool, header, validatorList)

/-- The pool after the list has been compacted. -/
def repair (stakePoolInfo : ProgramAccountInfo) (stakePool : StoredStakePool) (validatorList : List UInt8) :
    Option (Except ProgramError (List UInt8)) := do
  if stakePoolInfo.isWritable then
    let preferredDeposit ← keepPreferred validatorList stakePool.pool.preferredDepositValidatorVoteAddress
    let preferredWithdraw ← keepPreferred validatorList stakePool.pool.preferredWithdrawValidatorVoteAddress
    let stakePool := stakePool.withPreferred preferredDeposit preferredWithdraw
    return orErr (toWriter stakePoolInfo.data stakePool.serialize) .borshIoError
  else return .ok stakePoolInfo.data

/-- `process_cleanup_removed_validator_entries`, to the bytes of the pool and of the list. -/
def process (programId : Pubkey) (stakePoolInfo validatorListInfo : ProgramAccountInfo) :
    Option (Except ProgramError (List UInt8 × List UInt8)) :=
  match check programId stakePoolInfo validatorListInfo with
  | .error e => some (.error e)
  | .ok (stakePool, header, validatorList) => do
    let (r, validatorList) ← Raw.retain ValidatorStakeInfo.size (fun x => !ValidatorStakeInfo.isRemovedBytes x)
      validatorList
    match r with
    | .error e => return .error e
    | .ok () =>
      let listData := validatorListInfo.data.take header.bytes.length ++ validatorList
      return (← repair stakePoolInfo stakePool validatorList).map fun poolData => (poolData, listData)

end CleanupBytes

end SplStakePool
