import SplStakePool.Instruction
import SplStakePool.Layout.Pool

/-!
# Instruction data

How an instruction is encoded and decoded: a byte for the variant, then its fields. Nothing may be
behind them.

The decoder is the one that Borsh derives for the type, so that each optional field and each enumeration has its own
byte. `Redelegate` is decoded with its fields, which are then dropped: it is the one instruction for which the
encoding has to be told what they were.
-/

namespace SplStakePool
open Borsh

def PreferredValidatorType.deserialize : Decoder PreferredValidatorType := do
  let tag ← u8
  if tag = 0 then return .deposit
  else if tag = 1 then return .withdraw
  else failure

def PreferredValidatorType.serialize : PreferredValidatorType → List UInt8
  | .deposit => [0]
  | .withdraw => [1]

def FundingType.deserialize : Decoder FundingType := do
  let tag ← u8
  if tag = 0 then return .stakeDeposit
  else if tag = 1 then return .solDeposit
  else if tag = 2 then return .solWithdraw
  else failure

def FundingType.serialize : FundingType → List UInt8
  | .stakeDeposit => [0]
  | .solDeposit => [1]
  | .solWithdraw => [2]

def FeeType.deserialize : Decoder FeeType := do
  let tag ← u8
  if tag = 0 then FeeType.solReferral <$> u8
  else if tag = 1 then FeeType.stakeReferral <$> u8
  else if tag = 2 then FeeType.epoch <$> Fee.deserialize
  else if tag = 3 then FeeType.stakeWithdrawal <$> Fee.deserialize
  else if tag = 4 then FeeType.solDeposit <$> Fee.deserialize
  else if tag = 5 then FeeType.stakeDeposit <$> Fee.deserialize
  else if tag = 6 then FeeType.solWithdrawal <$> Fee.deserialize
  else failure

def FeeType.serialize : FeeType → List UInt8
  | .solReferral pct => [0, pct]
  | .stakeReferral pct => [1, pct]
  | .epoch fee => 2 :: fee.serialize
  | .stakeWithdrawal fee => 3 :: fee.serialize
  | .solDeposit fee => 4 :: fee.serialize
  | .stakeDeposit fee => 5 :: fee.serialize
  | .solWithdrawal fee => 6 :: fee.serialize

/-- The fields of the deprecated `Redelegate`, which the program does not use. -/
structure RedelegateFields where
  lamports : UInt64
  sourceTransientStakeSeed : UInt64
  ephemeralStakeSeed : UInt64
  destinationTransientStakeSeed : UInt64

namespace StakePoolInstruction

/-- The fields of a variant. -/
def deserializeVariant (tag : UInt8) : Decoder (StakePoolInstruction Pubkey) :=
  match tag.toNat with
  | 0 => do
    let fee ← Fee.deserialize
    let withdrawalFee ← Fee.deserialize
    let depositFee ← Fee.deserialize
    let referralFee ← u8
    let maxValidators ← uint 4
    return .initializePool fee withdrawalFee depositFee referralFee maxValidators
  | 1 => do
    let seed ← u32
    return .addValidatorToPool seed
  | 2 => return .removeValidatorFromPool
  | 3 => do
    let lamports ← uint 8
    let transientStakeSeed ← u64
    return .decreaseValidatorStake lamports transientStakeSeed
  | 4 => do
    let lamports ← uint 8
    let transientStakeSeed ← u64
    return .increaseValidatorStake lamports transientStakeSeed
  | 5 => do
    let validatorType ← PreferredValidatorType.deserialize
    let validatorVoteAddress ← option pubkey
    return .setPreferredValidator validatorType validatorVoteAddress
  | 6 => do
    let startIndex ← uint 4
    let noMerge ← bool
    return .updateValidatorListBalance startIndex noMerge
  | 7 => return .updateStakePoolBalance
  | 8 => return .cleanupRemovedValidatorEntries
  | 9 => return .depositStake
  | 10 => do
    let poolTokens ← uint 8
    return .withdrawStake poolTokens
  | 11 => return .setManager
  | 12 => do
    let fee ← FeeType.deserialize
    return .setFee fee
  | 13 => return .setStaker
  | 14 => do
    let lamports ← uint 8
    return .depositSol lamports
  | 15 => do
    let fundingType ← FundingType.deserialize
    return .setFundingAuthority fundingType
  | 16 => do
    let poolTokens ← uint 8
    return .withdrawSol poolTokens
  | 17 => do
    let name ← string
    let symbol ← string
    let uri ← string
    return .createTokenMetadata name symbol uri
  | 18 => do
    let name ← string
    let symbol ← string
    let uri ← string
    return .updateTokenMetadata name symbol uri
  | 19 => do
    let lamports ← uint 8
    let transientStakeSeed ← u64
    let ephemeralStakeSeed ← u64
    return .increaseAdditionalValidatorStake lamports transientStakeSeed ephemeralStakeSeed
  | 20 => do
    let lamports ← uint 8
    let transientStakeSeed ← u64
    let ephemeralStakeSeed ← u64
    return .decreaseAdditionalValidatorStake lamports transientStakeSeed ephemeralStakeSeed
  | 21 => do
    let lamports ← uint 8
    let transientStakeSeed ← u64
    return .decreaseValidatorStakeWithReserve lamports transientStakeSeed
  | 22 => do
    -- the fields of the deprecated variant are read, but never used
    let _ ← repeated u64 4
    return .redelegate
  | 23 => do
    let minimumPoolTokensOut ← uint 8
    return .depositStakeWithSlippage minimumPoolTokensOut
  | 24 => do
    let poolTokensIn ← uint 8
    let minimumLamportsOut ← uint 8
    return .withdrawStakeWithSlippage poolTokensIn minimumLamportsOut
  | 25 => do
    let lamportsIn ← uint 8
    let minimumPoolTokensOut ← uint 8
    return .depositSolWithSlippage lamportsIn minimumPoolTokensOut
  | 26 => do
    let poolTokensIn ← uint 8
    let minimumLamportsOut ← uint 8
    return .withdrawSolWithSlippage poolTokensIn minimumLamportsOut
  | 27 => do
    let maxStake ← option (uint 8)
    return .setMaxValidatorStake maxStake
  | _ => failure

def deserialize : Decoder (StakePoolInstruction Pubkey) := do
  let tag ← u8
  deserializeVariant tag

/-- The encoding of an instruction; of a `Redelegate`, with these fields. -/
def serialize (redelegateFields : RedelegateFields) : StakePoolInstruction Pubkey → List UInt8
  | .initializePool fee withdrawalFee depositFee referralFee maxValidators =>
    0 :: List.flatten [fee.serialize, withdrawalFee.serialize, depositFee.serialize, [referralFee],
      uintBytes 4 maxValidators]
  | .addValidatorToPool seed => 1 :: List.flatten [uintBytes 4 seed.toNat]
  | .removeValidatorFromPool => [2]
  | .decreaseValidatorStake lamports transientStakeSeed =>
    3 :: List.flatten [uintBytes 8 lamports, uintBytes 8 transientStakeSeed.toNat]
  | .increaseValidatorStake lamports transientStakeSeed =>
    4 :: List.flatten [uintBytes 8 lamports, uintBytes 8 transientStakeSeed.toNat]
  | .setPreferredValidator validatorType validatorVoteAddress =>
    5 :: List.flatten [validatorType.serialize, optionBytes FixedBytes.bytes validatorVoteAddress]
  | .updateValidatorListBalance startIndex noMerge =>
    6 :: List.flatten [uintBytes 4 startIndex, boolBytes noMerge]
  | .updateStakePoolBalance => [7]
  | .cleanupRemovedValidatorEntries => [8]
  | .depositStake => [9]
  | .withdrawStake poolTokens => 10 :: List.flatten [uintBytes 8 poolTokens]
  | .setManager => [11]
  | .setFee fee => 12 :: List.flatten [fee.serialize]
  | .setStaker => [13]
  | .depositSol lamports => 14 :: List.flatten [uintBytes 8 lamports]
  | .setFundingAuthority fundingType => 15 :: List.flatten [fundingType.serialize]
  | .withdrawSol poolTokens => 16 :: List.flatten [uintBytes 8 poolTokens]
  | .createTokenMetadata name symbol uri =>
    17 :: List.flatten [stringBytes name, stringBytes symbol, stringBytes uri]
  | .updateTokenMetadata name symbol uri =>
    18 :: List.flatten [stringBytes name, stringBytes symbol, stringBytes uri]
  | .increaseAdditionalValidatorStake lamports transientStakeSeed ephemeralStakeSeed =>
    19 :: List.flatten [uintBytes 8 lamports, uintBytes 8 transientStakeSeed.toNat,
      uintBytes 8 ephemeralStakeSeed.toNat]
  | .decreaseAdditionalValidatorStake lamports transientStakeSeed ephemeralStakeSeed =>
    20 :: List.flatten [uintBytes 8 lamports, uintBytes 8 transientStakeSeed.toNat,
      uintBytes 8 ephemeralStakeSeed.toNat]
  | .decreaseValidatorStakeWithReserve lamports transientStakeSeed =>
    21 :: List.flatten [uintBytes 8 lamports, uintBytes 8 transientStakeSeed.toNat]
  | .redelegate =>
    22 :: List.flatten [uintBytes 8 redelegateFields.lamports.toNat,
      uintBytes 8 redelegateFields.sourceTransientStakeSeed.toNat,
      uintBytes 8 redelegateFields.ephemeralStakeSeed.toNat,
      uintBytes 8 redelegateFields.destinationTransientStakeSeed.toNat]
  | .depositStakeWithSlippage minimumPoolTokensOut => 23 :: List.flatten [uintBytes 8 minimumPoolTokensOut]
  | .withdrawStakeWithSlippage poolTokensIn minimumLamportsOut =>
    24 :: List.flatten [uintBytes 8 poolTokensIn, uintBytes 8 minimumLamportsOut]
  | .depositSolWithSlippage lamportsIn minimumPoolTokensOut =>
    25 :: List.flatten [uintBytes 8 lamportsIn, uintBytes 8 minimumPoolTokensOut]
  | .withdrawSolWithSlippage poolTokensIn minimumLamportsOut =>
    26 :: List.flatten [uintBytes 8 poolTokensIn, uintBytes 8 minimumLamportsOut]
  | .setMaxValidatorStake maxStake => 27 :: List.flatten [optionBytes (uintBytes 8) maxStake]

/-- The numbers fit into their types, and the lengths of the strings into 32 bits. -/
def InRange : StakePoolInstruction Pubkey → Prop
  | .initializePool _ _ _ _ maxValidators => maxValidators < 2 ^ 32
  | .updateValidatorListBalance startIndex _ => startIndex < 2 ^ 32
  | .decreaseValidatorStake lamports _ | .increaseValidatorStake lamports _
  | .increaseAdditionalValidatorStake lamports _ _ | .decreaseAdditionalValidatorStake lamports _ _
  | .decreaseValidatorStakeWithReserve lamports _ | .depositSol lamports => lamports < 2 ^ 64
  | .withdrawStake poolTokens | .withdrawSol poolTokens => poolTokens < 2 ^ 64
  | .createTokenMetadata name symbol uri | .updateTokenMetadata name symbol uri =>
    (utf8 name).length < 2 ^ 32 ∧ (utf8 symbol).length < 2 ^ 32 ∧ (utf8 uri).length < 2 ^ 32
  | .depositStakeWithSlippage minimumPoolTokensOut => minimumPoolTokensOut < 2 ^ 64
  | .withdrawStakeWithSlippage poolTokensIn minimumLamportsOut
  | .withdrawSolWithSlippage poolTokensIn minimumLamportsOut =>
    poolTokensIn < 2 ^ 64 ∧ minimumLamportsOut < 2 ^ 64
  | .depositSolWithSlippage lamportsIn minimumPoolTokensOut =>
    lamportsIn < 2 ^ 64 ∧ minimumPoolTokensOut < 2 ^ 64
  | .setMaxValidatorStake maxStake => ∀ m ∈ maxStake, m < 2 ^ 64
  | _ => True

end StakePoolInstruction
end SplStakePool
