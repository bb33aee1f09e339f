/-!
# Errors (`error.rs`)

The errors of the pool, in the order of the source, which is the order of their numbers. An instruction can end
in one of these, in an error of the stake program that the pool names, or in a generic error of the runtime, so
that a statement about the error of a failed instruction can tell them apart.
-/

namespace SplStakePool

inductive StakePoolError
  | alreadyInUse | invalidProgramAddress | invalidState | calculationFailure | feeTooHigh
  | wrongAccountMint | wrongManager | signatureMissing | invalidValidatorStakeList | invalidFeeAccount
  | wrongPoolMint | wrongStakeStake | userStakeNotActive | validatorAlreadyAdded | validatorNotFound
  | invalidStakeAccountAddress | stakeListOutOfDate | stakeListAndPoolOutOfDate
  | unknownValidatorStakeAccount | wrongMintingAuthority
  | unexpectedValidatorListAccountSize | wrongStaker | nonZeroPoolTokenSupply
  | stakeLamportsNotEqualToMinimum | incorrectDepositVoteAddress
  | incorrectWithdrawVoteAddress | invalidMintFreezeAuthority | feeIncreaseTooHigh
  | withdrawalTooSmall | depositTooSmall
  | invalidStakeDepositAuthority | invalidSolDepositAuthority | invalidPreferredValidator
  | transientAccountInUse | invalidSolWithdrawAuthority
  | solWithdrawalTooLarge | invalidMetadataAccount | unsupportedMintExtension
  | unsupportedFeeAccountExtension | exceededSlippage
  | incorrectMintDecimals | reserveDepleted | missingRequiredSysvar
  | epochRewardDistributionInProgress | tooManyValidatorsInPool | exceedsMaxValidatorStake
deriving DecidableEq, Repr

/-- The errors of the stake program that the pool names or that its calls end in. -/
inductive StakeError
  | alreadyDeactivated | insufficientStake | mergeTransientStake | mergeMismatch
  | insufficientDelegation | epochRewardsActive
deriving DecidableEq, Repr

/-- The error of an instruction. Errors of the pool and of the stake program are both numbered
`Custom` errors at run time; here they are kept apart. -/
inductive ProgramError
  | custom (e : StakePoolError)
  | stake (e : StakeError)
  | invalidArgument | invalidInstructionData | invalidAccountData | accountDataTooSmall
  | insufficientFunds | incorrectProgramId | missingRequiredSignature | accountAlreadyInUse
  | uninitializedAccount | notEnoughAccountKeys | accountNotRentExempt | invalidSeeds | borshIoError
  | invalidAccountOwner | accountFrozen | arithmeticOverflow
deriving DecidableEq, Repr

instance : Coe StakePoolError ProgramError := ⟨.custom⟩

end SplStakePool
