import SplStakePool.Layout.Pool

/-!
# The accounts as the Python client reads them (`state.py`)

The layouts of the Python client and what it makes of what they parse. An exception is `none`. A parsed
container has the same shape as the named tuple that is built from it, integers are unbounded, and a parsed
key is its 32 bytes.

An optional field is a switch on the byte in front of it, which parses nothing for a byte that it has no case for. So
the decoder goes on at once with the next field, whatever stands there.
-/

namespace SplStakePool.Python
open Borsh

structure Fee where
  numerator : Nat
  denominator : Nat
deriving DecidableEq

structure Lockup where
  unixTimestamp : Int
  epoch : Nat
  custodian : Pubkey
deriving DecidableEq

structure StakePool where
  manager : Pubkey
  staker : Pubkey
  stakeDepositAuthority : Pubkey
  stakeWithdrawBumpSeed : Nat
  validatorList : Pubkey
  reserveStake : Pubkey
  poolMint : Pubkey
  managerFeeAccount : Pubkey
  tokenProgramId : Pubkey
  totalLamports : Nat
  poolTokenSupply : Nat
  lastUpdateEpoch : Nat
  lockup : Lockup
  epochFee : Fee
  nextEpochFee : Option Fee
  preferredDepositValidator : Option Pubkey
  preferredWithdrawValidator : Option Pubkey
  stakeDepositFee : Fee
  stakeWithdrawalFee : Fee
  nextStakeWithdrawalFee : Option Fee
  stakeReferralFee : Nat
  solDepositAuthority : Option Pubkey
  solDepositFee : Fee
  solReferralFee : Nat
  solWithdrawAuthority : Option Pubkey
  solWithdrawalFee : Fee
  nextSolWithdrawalFee : Option Fee
  lastEpochPoolTokenSupply : Nat
  lastEpochTotalLamports : Nat
deriving DecidableEq

def int8ul : Decoder Nat := UInt8.toNat <$> u8

def int32ul : Decoder Nat := uint 4

def int64ul : Decoder Nat := uint 8

/-- `Bytes(32)` -/
def publicKeyLayout : Decoder Pubkey := fixedBytes 32

/-- A `Switch` with the cases 0, which is `Pass`, and 1. Any other value takes the default of a `Switch`,
which is `Pass` too. -/
def switch {α : Type} (tag : Nat) (d : Decoder α) : Decoder (Option α) :=
  if tag = 0 then return none
  else if tag = 1 then some <$> d
  else return none

def feeLayout : Decoder Fee := do
  let denominator ← int64ul
  let numerator ← int64ul
  return { denominator, numerator }

/-- The timestamp is parsed as an unsigned number. -/
def lockupLayout : Decoder Lockup := do
  let unixTimestamp ← int64ul
  let epoch ← int64ul
  let custodian ← publicKeyLayout
  return { unixTimestamp := unixTimestamp, epoch, custodian }

def decodeStakePoolLayout : Decoder StakePool := do
  let _version ← int8ul
  let _accountType ← int8ul
  let manager ← publicKeyLayout
  let staker ← publicKeyLayout
  let stakeDepositAuthority ← publicKeyLayout
  let stakeWithdrawBumpSeed ← int8ul
  let validatorList ← publicKeyLayout
  let reserveStake ← publicKeyLayout
  let poolMint ← publicKeyLayout
  let managerFeeAccount ← publicKeyLayout
  let tokenProgramId ← publicKeyLayout
  let totalLamports ← int64ul
  let poolTokenSupply ← int64ul
  let lastUpdateEpoch ← int64ul
  let lockup ← lockupLayout
  let epochFee ← feeLayout
  let nextEpochFeeOption ← int8ul
  let nextEpochFee ← switch nextEpochFeeOption feeLayout
  let preferredDepositValidatorOption ← int8ul
  let preferredDepositValidator ← switch preferredDepositValidatorOption publicKeyLayout
  let preferredWithdrawValidatorOption ← int8ul
  let preferredWithdrawValidator ← switch preferredWithdrawValidatorOption publicKeyLayout
  let stakeDepositFee ← feeLayout
  let stakeWithdrawalFee ← feeLayout
  let nextStakeWithdrawalFeeOption ← int8ul
  let nextStakeWithdrawalFee ← switch nextStakeWithdrawalFeeOption feeLayout
  let stakeReferralFee ← int8ul
  let solDepositAuthorityOption ← int8ul
  let solDepositAuthority ← switch solDepositAuthorityOption publicKeyLayout
  let solDepositFee ← feeLayout
  let solReferralFee ← int8ul
  let solWithdrawAuthorityOption ← int8ul
  let solWithdrawAuthority ← switch solWithdrawAuthorityOption publicKeyLayout
  let solWithdrawalFee ← feeLayout
  let nextSolWithdrawalFeeOption ← int8ul
  let nextSolWithdrawalFee ← switch nextSolWithdrawalFeeOption feeLayout
  let lastEpochPoolTokenSupply ← int64ul
  let lastEpochTotalLamports ← int64ul
  let maxValidatorStakeOption ← int8ul
  let _maxValidatorStake ← switch maxValidatorStakeOption int64ul
  return {
    manager, staker, stakeDepositAuthority, stakeWithdrawBumpSeed, validatorList, reserveStake, poolMint
    managerFeeAccount, tokenProgramId, totalLamports, poolTokenSupply, lastUpdateEpoch, lockup, epochFee
    nextEpochFee, preferredDepositValidator, preferredWithdrawValidator, stakeDepositFee, stakeWithdrawalFee
    nextStakeWithdrawalFee, stakeReferralFee, solDepositAuthority, solDepositFee, solReferralFee
    solWithdrawAuthority, solWithdrawalFee, nextSolWithdrawalFee, lastEpochPoolTokenSupply
    lastEpochTotalLamports }

/-- The bytes of a key are true, and `popitem` is called on them: `bytes` has no such method. -/
def decodeOptionalPublickey (container : Option Pubkey) : Option (Option Pubkey) :=
  match container with
  | some _ => none
  | none => some none

def StakePool.decode (data : List UInt8) : Option StakePool := do
  let (parsed, _) ← decodeStakePoolLayout data
  let preferredDepositValidator ← decodeOptionalPublickey parsed.preferredDepositValidator
  let preferredWithdrawValidator ← decodeOptionalPublickey parsed.preferredWithdrawValidator
  let solDepositAuthority ← decodeOptionalPublickey parsed.solDepositAuthority
  let solWithdrawAuthority ← decodeOptionalPublickey parsed.solWithdrawAuthority
  return { parsed with
    preferredDepositValidator, preferredWithdrawValidator, solDepositAuthority, solWithdrawAuthority }

/-- The values of `StakeStatus`; two of them are 3. -/
def stakeStatus : StakeStatus → Nat
  | .active => 0
  | .deactivatingTransient => 1
  | .readyForRemoval => 2
  | .deactivatingValidator => 3
  | .deactivatingAll => 3

structure ValidatorStakeInfo where
  activeStakeLamports : Nat
  transientStakeLamports : Nat
  lastUpdateEpoch : Nat
  transientSeedSuffix : Nat
  unused : Nat
  validatorSeedSuffix : Nat
  status : Nat
  voteAccountAddress : Pubkey
deriving DecidableEq

structure ValidatorList where
  maxValidators : Nat
  validators : List ValidatorStakeInfo
deriving DecidableEq

def validatorInfoLayout : Decoder ValidatorStakeInfo := do
  let activeStakeLamports ← int64ul
  let transientStakeLamports ← int64ul
  let lastUpdateEpoch ← int64ul
  let transientSeedSuffix ← int64ul
  let unused ← int32ul
  let validatorSeedSuffix ← int32ul
  let status ← int8ul
  let voteAccountAddress ← publicKeyLayout
  return { activeStakeLamports, transientStakeLamports, lastUpdateEpoch, transientSeedSuffix, unused
           validatorSeedSuffix, status, voteAccountAddress }

def decodeValidatorListLayout : Decoder ValidatorList := do
  let _accountType ← int8ul
  let maxValidators ← int32ul
  let validatorsLen ← int32ul
  let validators ← repeated validatorInfoLayout validatorsLen
  return { maxValidators, validators }

def ValidatorList.decode (data : List UInt8) : Option ValidatorList := tryFromSliceUnchecked decodeValidatorListLayout data

end SplStakePool.Python
