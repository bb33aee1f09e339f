import SplStakePool.Client.PyInstruction

/-!
# When the program takes what the Python client builds

An instruction reaches its handler when the program decodes the data to it. The handler then takes the accounts
one after the other, and asks some of them for a signature. The builders agree with both, except for four of them:
`initialize` ignores the token program that it is given, `deposit_stake` never asks the deposit authority for its
signature, `withdraw_sol` drops the withdraw authority that it is given, and the builders that start from a vote
account build for the program of the client only.

Data and accounts are treated apart. A layout raises when a field does not fit, and else builds the bytes that Borsh
writes; the accounts of a builder are run through the reader of the handler, which says which account ends in which
place and what is left for the optional ones at the end.
-/

namespace SplStakePool.Python
open Borsh Exec

@[simps]
def AccountMeta.info (m : AccountMeta) : AccountInfo Pubkey where
  key := m.pubkey
  isSigner := m.isSigner
  isWritable := m.isWritable

/-- A call of a builder. -/
inductive Call
  | initializePool (params : InitializeParams)
  | addValidatorToPool (params : AddValidatorToPoolParams)
  | addValidatorToPoolWithVote (params : AddValidatorToPoolWithVoteParams)
  | removeValidatorFromPool (params : RemoveValidatorFromPoolParams)
  | removeValidatorFromPoolWithVote (params : RemoveValidatorFromPoolWithVoteParams)
  | depositStake (params : DepositStakeParams)
  | withdrawStake (params : WithdrawStakeParams)
  | depositSol (params : DepositSolParams)
  | withdrawSol (params : WithdrawSolParams)
  | updateValidatorListBalance (params : UpdateValidatorListBalanceParams)
  | updateStakePoolBalance (params : UpdateStakePoolBalanceParams)
  | cleanupRemovedValidatorEntries (params : CleanupRemovedValidatorEntriesParams)
  | increaseValidatorStake (params : IncreaseValidatorStakeParams)
  | increaseAdditionalValidatorStake (params : IncreaseAdditionalValidatorStakeParams)
  | decreaseValidatorStake (params : DecreaseValidatorStakeParams)
  | decreaseAdditionalValidatorStake (params : DecreaseAdditionalValidatorStakeParams)
  | decreaseValidatorStakeWithReserve (params : DecreaseValidatorStakeWithReserveParams)
  | createTokenMetadata (params : CreateTokenMetadataParams)
  | updateTokenMetadata (params : UpdateTokenMetadataParams)

namespace Call

/-- The program that the parameters name. -/
def programId : Call → Pubkey
  | .initializePool p => p.programId
  | .addValidatorToPool p => p.programId
  | .addValidatorToPoolWithVote p => p.programId
  | .removeValidatorFromPool p => p.programId
  | .removeValidatorFromPoolWithVote p => p.programId
  | .depositStake p => p.programId
  | .withdrawStake p => p.programId
  | .depositSol p => p.programId
  | .withdrawSol p => p.programId
  | .updateValidatorListBalance p => p.programId
  | .updateStakePoolBalance p => p.programId
  | .cleanupRemovedValidatorEntries p => p.programId
  | .increaseValidatorStake p => p.programId
  | .increaseAdditionalValidatorStake p => p.programId
  | .decreaseValidatorStake p => p.programId
  | .decreaseAdditionalValidatorStake p => p.programId
  | .decreaseValidatorStakeWithReserve p => p.programId
  | .createTokenMetadata p => p.programId
  | .updateTokenMetadata p => p.programId

/-- The instruction that the call is for. -/
def instruction : Call → StakePoolInstruction Pubkey
  | .initializePool p =>
    .initializePool p.epochFee p.withdrawalFee p.depositFee p.referralFee p.maxValidators.toNat
  | .addValidatorToPool p => .addValidatorToPool (p.seed.getD 0)
  | .addValidatorToPoolWithVote p => .addValidatorToPool (p.validatorStakeSeed.getD 0)
  | .removeValidatorFromPool _ => .removeValidatorFromPool
  | .removeValidatorFromPoolWithVote _ => .removeValidatorFromPool
  | .depositStake _ => .depositStake
  | .withdrawStake p => .withdrawStake p.amount.toNat
  | .depositSol p => .depositSol p.amount.toNat
  | .withdrawSol p => .withdrawSol p.amount.toNat
  | .updateValidatorListBalance p => .updateValidatorListBalance p.startIndex.toNat p.noMerge
  | .updateStakePoolBalance _ => .updateStakePoolBalance
  | .cleanupRemovedValidatorEntries _ => .cleanupRemovedValidatorEntries
  | .increaseValidatorStake p => .increaseValidatorStake p.lamports.toNat p.transientStakeSeed
  | .increaseAdditionalValidatorStake p =>
    .increaseAdditionalValidatorStake p.lamports.toNat p.transientStakeSeed p.ephemeralStakeSeed
  | .decreaseValidatorStake p => .decreaseValidatorStake p.lamports.toNat p.transientStakeSeed
  | .decreaseAdditionalValidatorStake p =>
    .decreaseAdditionalValidatorStake p.lamports.toNat p.transientStakeSeed p.ephemeralStakeSeed
  | .decreaseValidatorStakeWithReserve p =>
    .decreaseValidatorStakeWithReserve p.lamports.toNat p.transientStakeSeed
  | .createTokenMetadata p => .createTokenMetadata p.name p.symbol p.uri
  | .updateTokenMetadata p => .updateTokenMetadata p.name p.symbol p.uri

variable (rt : Runtime Pubkey) (c : Constants)

def build : Call → Option Instruction
  | .initializePool p => Python.initializePool c p
  | .addValidatorToPool p => Python.addValidatorToPool p
  | .addValidatorToPoolWithVote p => Python.addValidatorToPoolWithVote rt c p
  | .removeValidatorFromPool p => Python.removeValidatorFromPool p
  | .removeValidatorFromPoolWithVote p => Python.removeValidatorFromPoolWithVote rt c p
  | .depositStake p => Python.depositStake p
  | .withdrawStake p => Python.withdrawStake p
  | .depositSol p => Python.depositSol p
  | .withdrawSol p => Python.withdrawSol p
  | .updateValidatorListBalance p => Python.updateValidatorListBalance p
  | .updateStakePoolBalance p => Python.updateStakePoolBalance p
  | .cleanupRemovedValidatorEntries p => Python.cleanupRemovedValidatorEntries p
  | .increaseValidatorStake p => Python.increaseValidatorStake p
  | .increaseAdditionalValidatorStake p => Python.increaseAdditionalValidatorStake p
  | .decreaseValidatorStake p => Python.decreaseValidatorStake p
  | .decreaseAdditionalValidatorStake p => Python.decreaseAdditionalValidatorStake p
  | .decreaseValidatorStakeWithReserve p => Python.decreaseValidatorStakeWithReserve p
  | .createTokenMetadata p => Python.createTokenMetadata p
  | .updateTokenMetadata p => Python.updateTokenMetadata p

/-- The runtime with its system variables at the addresses that a call gives. -/
@[simps]
def atSysvars (clock rent : Pubkey) : Runtime Pubkey := { rt with clockId := clock, rentId := rent }

/-- The account at a position that the handler only passes on. -/
def At (accounts : List (AccountInfo Pubkey)) (i : Nat) (key : Pubkey) : Prop :=
  accounts[i]?.map AccountInfo.key = some key

/-- The optional authority is the one given, and signs. -/
def SignsIfGiven (info : Option (AccountInfo Pubkey)) (key : Option Pubkey) : Prop :=
  info.map AccountInfo.key = key ∧ ∀ i ∈ info, i.isSigner = true

/-- The handler takes each account for what it is in the parameters, none is left over, and those that it asks for
a signature sign. -/
def Consumed (accounts : List (AccountInfo Pubkey)) : Call → Prop
  | .initializePool p => ∃ a, InitializeAccounts.parse accounts = .ok (a, []) ∧
    [a.stakePoolInfo, a.managerInfo, a.stakerInfo, a.withdrawAuthorityInfo, a.validatorListInfo,
      a.reserveStakeInfo, a.poolMintInfo, a.managerFeeInfo, a.tokenProgramInfo].map AccountInfo.key =
    [p.stakePool, p.manager, p.staker, p.withdrawAuthority, p.validatorList, p.reserveStake, p.poolMint,
      p.managerFeeAccount, p.tokenProgramId] ∧
    a.managerInfo.isSigner = true ∧ SignsIfGiven a.depositAuthorityInfo p.depositAuthority
  | .addValidatorToPool p =>
    ∃ a, AddValidatorToPoolAccounts.parse (atSysvars rt p.clockSysvar p.rentSysvar) accounts = .ok (a, []) ∧
    [a.stakePoolInfo, a.stakerInfo, a.reserveStakeInfo, a.withdrawAuthorityInfo, a.validatorListInfo, a.stakeInfo,
      a.validatorVoteInfo, a.systemProgramInfo, a.stakeProgramInfo].map AccountInfo.key =
    [p.stakePool, p.staker, p.reserveStake, p.withdrawAuthority, p.validatorList, p.validatorStake,
      p.validatorVote, p.systemProgramId, p.stakeProgramId] ∧
    At accounts 9 p.stakeHistorySysvar ∧ At accounts 10 p.stakeConfigSysvar ∧ a.stakerInfo.isSigner = true
  | .addValidatorToPoolWithVote p =>
    ∃ a, AddValidatorToPoolAccounts.parse (atSysvars rt c.clock c.rent) accounts = .ok (a, []) ∧
    [a.stakePoolInfo, a.stakerInfo, a.reserveStakeInfo, a.withdrawAuthorityInfo, a.validatorListInfo, a.stakeInfo,
      a.validatorVoteInfo, a.systemProgramInfo, a.stakeProgramInfo].map AccountInfo.key =
    [p.stakePool, p.staker, p.reserveStake, (findWithdrawAuthorityProgramAddress rt p.programId p.stakePool).1,
      p.validatorList, (SplStakePool.findStakeProgramAddress rt p.programId p.validator p.stakePool
        (nonZeroU32 (p.validatorStakeSeed.getD 0))).1, p.validator, c.systemProgramId, c.stakeProgramId] ∧
    At accounts 9 c.stakeHistory ∧ At accounts 10 c.sysvarStakeConfigId ∧ a.stakerInfo.isSigner = true
  | .removeValidatorFromPool p =>
    ∃ a, RemoveValidatorFromPoolAccounts.parse (atSysvars rt p.clockSysvar rt.rentId) accounts = .ok (a, []) ∧
    [a.stakePoolInfo, a.stakerInfo, a.withdrawAuthorityInfo, a.validatorListInfo, a.stakeAccountInfo,
      a.transientStakeAccountInfo, a.stakeProgramInfo].map AccountInfo.key =
    [p.stakePool, p.staker, p.withdrawAuthority, p.validatorList, p.validatorStake, p.transientStake,
      p.stakeProgramId] ∧
    a.stakerInfo.isSigner = true
  | .removeValidatorFromPoolWithVote p =>
    ∃ a, RemoveValidatorFromPoolAccounts.parse (atSysvars rt c.clock c.rent) accounts = .ok (a, []) ∧
    [a.stakePoolInfo, a.stakerInfo, a.withdrawAuthorityInfo, a.validatorListInfo, a.stakeAccountInfo,
      a.transientStakeAccountInfo, a.stakeProgramInfo].map AccountInfo.key =
    [p.stakePool, p.staker, (findWithdrawAuthorityProgramAddress rt p.programId p.stakePool).1, p.validatorList,
      (SplStakePool.findStakeProgramAddress rt p.programId p.validator p.stakePool
        (nonZeroU32 (p.validatorStakeSeed.getD 0))).1,
      (findTransientStakeProgramAddress rt p.programId p.validator p.stakePool p.transientStakeSeed).1,
      c.stakeProgramId] ∧
    a.stakerInfo.isSigner = true
  -- the program signs for the deposit authority that it derives, any other signs itself
  | .depositStake p =>
    ∃ a, DepositStakeAccounts.parse (atSysvars rt p.clockSysvar rt.rentId) accounts = .ok (a, []) ∧
    [a.stakePoolInfo, a.validatorListInfo, a.stakeDepositAuthorityInfo, a.withdrawAuthorityInfo, a.stakeInfo,
      a.validatorStakeAccountInfo, a.reserveStakeAccountInfo, a.destUserPoolInfo, a.managerFeeInfo,
      a.referrerFeeInfo, a.poolMintInfo, a.tokenProgramInfo, a.stakeProgramInfo].map AccountInfo.key =
    [p.stakePool, p.validatorList, p.depositAuthority, p.withdrawAuthority, p.depositStake, p.validatorStake,
      p.reserveStake, p.destinationPoolAccount, p.managerFeeAccount, p.referralPoolAccount, p.poolMint,
      p.tokenProgramId, p.stakeProgramId] ∧
    At accounts 12 p.stakeHistorySysvar ∧
    (p.depositAuthority ≠ (findDepositAuthorityProgramAddress rt p.programId p.stakePool).1 →
      a.stakeDepositAuthorityInfo.isSigner = true)
  | .withdrawStake p =>
    ∃ a, WithdrawStakeAccounts.parse (atSysvars rt p.clockSysvar rt.rentId) accounts = .ok (a, []) ∧
    [a.stakePoolInfo, a.validatorListInfo, a.withdrawAuthorityInfo, a.stakeSplitFrom, a.stakeSplitTo,
      a.userStakeAuthorityInfo, a.userTransferAuthorityInfo, a.burnFromPoolInfo, a.managerFeeInfo, a.poolMintInfo,
      a.tokenProgramInfo, a.stakeProgramInfo].map AccountInfo.key =
    [p.stakePool, p.validatorList, p.withdrawAuthority, p.validatorStake, p.destinationStake,
      p.destinationStakeAuthority, p.sourceTransferAuthority, p.sourcePoolAccount, p.managerFeeAccount, p.poolMint,
      p.tokenProgramId, p.stakeProgramId] ∧
    a.userTransferAuthorityInfo.isSigner = true
  | .depositSol p => ∃ a, DepositSolAccounts.parse accounts = .ok (a, []) ∧
    [a.stakePoolInfo, a.withdrawAuthorityInfo, a.reserveStakeAccountInfo, a.fromUserLamportsInfo,
      a.destUserPoolInfo, a.managerFeeInfo, a.referrerFeeInfo, a.poolMintInfo, a.systemProgramInfo,
      a.tokenProgramInfo].map AccountInfo.key =
    [p.stakePool, p.withdrawAuthority, p.reserveStake, p.fundingAccount, p.destinationPoolAccount,
      p.managerFeeAccount, p.referralPoolAccount, p.poolMint, p.systemProgramId, p.tokenProgramId] ∧
    a.fromUserLamportsInfo.isSigner = true ∧ SignsIfGiven a.solDepositAuthorityInfo p.depositAuthority ∧
    ∀ pool : SplStakePool.StakePool Pubkey, pool.solDepositAuthority = p.depositAuthority →
      pool.checkSolDepositAuthority a.solDepositAuthorityInfo = .ok ()
  | .withdrawSol p => ∃ a, WithdrawSolAccounts.parse accounts = .ok (a, []) ∧
    [a.stakePoolInfo, a.withdrawAuthorityInfo, a.userTransferAuthorityInfo, a.burnFromPoolInfo,
      a.reserveStakeInfo, a.destinationLamportsInfo, a.managerFeeInfo, a.poolMintInfo, a.stakeProgramInfo,
      a.tokenProgramInfo].map AccountInfo.key =
    [p.stakePool, p.withdrawAuthority, p.sourceTransferAuthority, p.sourcePoolAccount, p.reserveStake,
      p.destinationSystemAccount, p.managerFeeAccount, p.poolMint, p.stakeProgramId, p.tokenProgramId] ∧
    At accounts 8 p.clockSysvar ∧ At accounts 9 p.stakeHistorySysvar ∧
    a.userTransferAuthorityInfo.isSigner = true ∧ SignsIfGiven a.solWithdrawAuthorityInfo p.solWithdrawAuthority ∧
    ∀ pool : SplStakePool.StakePool Pubkey, pool.solWithdrawAuthority = p.solWithdrawAuthority →
      pool.checkSolWithdrawAuthority a.solWithdrawAuthorityInfo = .ok ()
  -- the accounts of the validators are not taken one by one
  | .updateValidatorListBalance p =>
    ∃ a rest, UpdateValidatorListBalanceAccounts.parse (atSysvars rt p.clockSysvar rt.rentId) accounts =
      .ok (a, rest) ∧
    [a.stakePoolInfo, a.withdrawAuthorityInfo, a.validatorListInfo, a.reserveStakeInfo,
      a.stakeProgramInfo].map AccountInfo.key =
    [p.stakePool, p.withdrawAuthority, p.validatorList, p.reserveStake, p.stakeProgramId] ∧
    At accounts 5 p.stakeHistorySysvar ∧
    a.validatorStakeAccounts.map AccountInfo.key = p.validatorAndTransientStakePairs
  | .updateStakePoolBalance p => ∃ a, UpdateStakePoolBalanceAccounts.parse accounts = .ok (a, []) ∧
    [a.stakePoolInfo, a.withdrawInfo, a.validatorListInfo, a.reserveStakeInfo, a.managerFeeInfo, a.poolMintInfo,
      a.tokenProgramInfo].map AccountInfo.key =
    [p.stakePool, p.withdrawAuthority, p.validatorList, p.reserveStake, p.managerFeeAccount, p.poolMint,
      p.tokenProgramId]
  | .cleanupRemovedValidatorEntries p =>
    ∃ a, CleanupRemovedValidatorEntriesAccounts.parse accounts = .ok (a, []) ∧
    [a.stakePoolInfo, a.validatorListInfo].map AccountInfo.key = [p.stakePool, p.validatorList]
  | .increaseValidatorStake p =>
    ∃ a, IncreaseValidatorStakeAccounts.parse (atSysvars rt p.clockSysvar p.rentSysvar) none accounts =
      .ok (a, []) ∧
    [a.stakePoolInfo, a.stakerInfo, a.withdrawAuthorityInfo, a.validatorListInfo, a.reserveStakeAccountInfo,
      a.transientStakeAccountInfo, a.validatorStakeAccountInfo, a.validatorVoteAccountInfo, a.systemProgramInfo,
      a.stakeProgramInfo].map AccountInfo.key =
    [p.stakePool, p.staker, p.withdrawAuthority, p.validatorList, p.reserveStake, p.transientStake,
      p.validatorStake, p.validatorVote, p.systemProgramId, p.stakeProgramId] ∧
    a.maybeEphemeral = none ∧ At accounts 10 p.stakeHistorySysvar ∧ At accounts 11 p.stakeConfigSysvar ∧
    a.stakerInfo.isSigner = true
  | .increaseAdditionalValidatorStake p =>
    ∃ a, IncreaseValidatorStakeAccounts.parse (atSysvars rt p.clockSysvar rt.rentId) (some p.ephemeralStakeSeed)
      accounts = .ok (a, []) ∧
    [a.stakePoolInfo, a.stakerInfo, a.withdrawAuthorityInfo, a.validatorListInfo, a.reserveStakeAccountInfo,
      a.transientStakeAccountInfo, a.validatorStakeAccountInfo, a.validatorVoteAccountInfo, a.systemProgramInfo,
      a.stakeProgramInfo].map AccountInfo.key =
    [p.stakePool, p.staker, p.withdrawAuthority, p.validatorList, p.reserveStake, p.transientStake,
      p.validatorStake, p.validatorVote, p.systemProgramId, p.stakeProgramId] ∧
    a.maybeEphemeral.map (Prod.map id AccountInfo.key) = some (p.ephemeralStakeSeed, p.ephemeralStake) ∧
    At accounts 10 p.stakeHistorySysvar ∧ At accounts 11 p.stakeConfigSysvar ∧ a.stakerInfo.isSigner = true
  | .decreaseValidatorStake p =>
    ∃ a, DecreaseValidatorStakeAccounts.parse (atSysvars rt p.clockSysvar p.rentSysvar) none false accounts =
      .ok (a, []) ∧
    [a.stakePoolInfo, a.stakerInfo, a.withdrawAuthorityInfo, a.validatorListInfo, a.validatorStakeAccountInfo,
      a.transientStakeAccountInfo, a.systemProgramInfo, a.stakeProgramInfo].map AccountInfo.key =
    [p.stakePool, p.staker, p.withdrawAuthority, p.validatorList, p.validatorStake, p.transientStake,
      p.systemProgramId, p.stakeProgramId] ∧
    a.maybeReserveStakeInfo = none ∧ a.maybeEphemeral = none ∧ a.stakerInfo.isSigner = true
  | .decreaseAdditionalValidatorStake p =>
    ∃ a, DecreaseValidatorStakeAccounts.parse (atSysvars rt p.clockSysvar rt.rentId) (some p.ephemeralStakeSeed)
      true accounts = .ok (a, []) ∧
    [a.stakePoolInfo, a.stakerInfo, a.withdrawAuthorityInfo, a.validatorListInfo, a.validatorStakeAccountInfo,
      a.transientStakeAccountInfo, a.systemProgramInfo, a.stakeProgramInfo].map AccountInfo.key =
    [p.stakePool, p.staker, p.withdrawAuthority, p.validatorList, p.validatorStake, p.transientStake,
      p.systemProgramId, p.stakeProgramId] ∧
    a.maybeReserveStakeInfo.map AccountInfo.key = some p.reserveStake ∧
    a.maybeEphemeral.map (Prod.map id AccountInfo.key) = some (p.ephemeralStakeSeed, p.ephemeralStake) ∧
    At accounts 9 p.stakeHistorySysvar ∧ a.stakerInfo.isSigner = true
  | .decreaseValidatorStakeWithReserve p =>
    ∃ a, DecreaseValidatorStakeAccounts.parse (atSysvars rt p.clockSysvar rt.rentId) none true accounts =
      .ok (a, []) ∧
    [a.stakePoolInfo, a.stakerInfo, a.withdrawAuthorityInfo, a.validatorListInfo, a.validatorStakeAccountInfo,
      a.transientStakeAccountInfo, a.systemProgramInfo, a.stakeProgramInfo].map AccountInfo.key =
    [p.stakePool, p.staker, p.withdrawAuthority, p.validatorList, p.validatorStake, p.transientStake,
      p.systemProgramId, p.stakeProgramId] ∧
    a.maybeReserveStakeInfo.map AccountInfo.key = some p.reserveStake ∧ a.maybeEphemeral = none ∧
    At accounts 8 p.stakeHistorySysvar ∧ a.stakerInfo.isSigner = true
  | .createTokenMetadata p => ∃ a, CreateTokenMetadataAccounts.parse accounts = .ok (a, []) ∧
    [a.stakePoolInfo, a.managerInfo, a.withdrawAuthorityInfo, a.poolMintInfo, a.payerInfo, a.metadataInfo,
      a.mplTokenMetadataProgramInfo, a.systemProgramInfo].map AccountInfo.key =
    [p.stakePool, p.manager, p.withdrawAuthority, p.poolMint, p.payer, p.tokenMetadata, p.metadataProgramId,
      p.systemProgramId] ∧
    a.managerInfo.isSigner = true ∧ a.payerInfo.isSigner = true
  | .updateTokenMetadata p => ∃ a, UpdateTokenMetadataAccounts.parse accounts = .ok (a, []) ∧
    [a.stakePoolInfo, a.managerInfo, a.withdrawAuthorityInfo, a.metadataInfo,
      a.mplTokenMetadataProgramInfo].map AccountInfo.key =
    [p.stakePool, p.manager, p.withdrawAuthority, p.tokenMetadata, p.metadataProgramId] ∧
    a.managerInfo.isSigner = true

/-- The call returns an instruction for the program that is given, which decodes its data to the instruction that
the call is for, and of which the handler takes the accounts. -/
def Matches (call : Call) : Prop :=
  ∃ i, call.build rt c = some i ∧ i.programId = call.programId ∧
    tryFromSlice StakePoolInstruction.deserialize i.data = some call.instruction ∧
    call.Consumed rt c (i.accounts.map AccountMeta.info)

/-- The strings are short enough for their length to be written. -/
def Prefixable (name symbol uri : String) : Prop :=
  (utf8 name).length < 2 ^ 32 ∧ (utf8 symbol).length < 2 ^ 32 ∧ (utf8 uri).length < 2 ^ 32

/-- The calls that match the program. -/
def HoldsWhen : Call → Prop
  | .initializePool p => p.tokenProgramId = c.tokenProgramId
  | .addValidatorToPoolWithVote p => p.programId = c.stakePoolProgramId
  | .removeValidatorFromPoolWithVote p => p.programId = c.stakePoolProgramId
  | .depositStake p => p.depositAuthority = (findDepositAuthorityProgramAddress rt p.programId p.stakePool).1
  | .withdrawSol p => p.solWithdrawAuthority = none
  | .createTokenMetadata p => Prefixable p.name p.symbol p.uri
  | .updateTokenMetadata p => Prefixable p.name p.symbol p.uri
  | .addValidatorToPool _ | .removeValidatorFromPool _ | .withdrawStake _ | .depositSol _
  | .updateValidatorListBalance _ | .updateStakePoolBalance _ | .cleanupRemovedValidatorEntries _
  | .increaseValidatorStake _ | .increaseAdditionalValidatorStake _ | .decreaseValidatorStake _
  | .decreaseAdditionalValidatorStake _ | .decreaseValidatorStakeWithReserve _ => True

end Call

/-! ## The data -/

theorem buildInt_of_lt {count n : Nat} (h : n < 256 ^ count) : buildInt count n = some (uintBytes count n) := if_pos h

theorem buildInt_u8 (n : UInt8) : buildInt 1 n.toNat = some [n] := by
  rw [buildInt_of_lt n.toNat_lt]
  simp [uintBytes, Buffer.toLeBytes]

theorem buildInt_u32 (n : UInt32) : buildInt 4 n.toNat = some (uintBytes 4 n.toNat) := buildInt_of_lt n.toNat_lt

theorem buildInt_u64 (n : UInt64) : buildInt 8 n.toNat = some (uintBytes 8 n.toNat) := buildInt_of_lt n.toNat_lt

theorem buildInt_bool (b : Bool) : buildInt 1 b.toNat = some (boolBytes b) := by cases b <;> rfl

theorem buildString_of_lt {s : String} (h : (utf8 s).length < 2 ^ 32) : buildString s = some (stringBytes s) := by
  rw [buildString, buildInt_of_lt (by omega), stringBytes]
  simp

theorem buildString_of_not_lt {s : String} (h : ¬ (utf8 s).length < 2 ^ 32) : buildString s = none := by
  rw [buildString, buildInt, if_neg (by omega)]
  rfl

/-- A structure whose fields are built has their bytes one behind the other. -/
theorem buildStruct_map_some (fields : List (List UInt8)) : buildStruct (fields.map some) = some fields.flatten := by
  induction fields with
  | nil => rfl
  | cons bytes fields ih =>
    rw [List.map_cons, buildStruct, ih]
    rfl

theorem buildStruct_eq_none {fields : List (Option (List UInt8))} (h : none ∈ fields) :
    buildStruct fields = none := by
  induction fields with
  | nil => cases h
  | cons field fields ih =>
    rw [buildStruct]
    cases field with
    | none => rfl
    | some bytes =>
      rw [ih ((List.mem_cons.1 h).resolve_left (by simp))]
      rfl

theorem buildFee_eq (fee : SplStakePool.Fee) : buildFee fee = some fee.serialize := by
  rw [buildFee, buildInt_u64, buildInt_u64]
  exact buildStruct_map_some [_, _]

theorem buildInstruction_eq (type : InstructionType) (args : Args) :
    buildInstruction type args = (type.layout.build args).map (UInt8.ofNat type.value :: ·) := by
  have htype : buildInt 1 type.value = some [UInt8.ofNat type.value] := by cases type <;> rfl
  rw [buildInstruction, htype, buildStruct, buildStruct]
  cases type.layout.build args with
  | none => rfl
  | some bytes => simp [buildStruct]

theorem buildInstruction_of_fields {type : InstructionType} {args : Args} {fields : List (List UInt8)}
    (h : type.layout.build args = buildStruct (fields.map some)) :
    buildInstruction type args = some (UInt8.ofNat type.value :: fields.flatten) := by
  rw [buildInstruction_eq, h, buildStruct_map_some]
  rfl

theorem buildInstruction_moveStake {type : InstructionType} (h : type.layout = .moveStake) (l s : UInt64) :
    buildInstruction type (.moveStake l.toNat s.toNat) =
      some (UInt8.ofNat type.value :: [uintBytes 8 l.toNat, uintBytes 8 s.toNat].flatten) := by
  refine buildInstruction_of_fields ?_
  rw [h, Layout.build, buildInt_u64, buildInt_u64]
  rfl

theorem buildInstruction_moveStakeWithEphemeralStake {type : InstructionType}
    (h : type.layout = .moveStakeWithEphemeralStake) (l s e : UInt64) :
    buildInstruction type (.moveStakeWithEphemeralStake l.toNat s.toNat e.toNat) =
      some (UInt8.ofNat type.value :: [uintBytes 8 l.toNat, uintBytes 8 s.toNat, uintBytes 8 e.toNat].flatten) := by
  refine buildInstruction_of_fields ?_
  rw [h, Layout.build, buildInt_u64, buildInt_u64, buildInt_u64]
  rfl

theorem buildInstruction_amount {type : InstructionType} (h : type.layout = .amount) (n : UInt64) :
    buildInstruction type (.amount n.toNat) = some (UInt8.ofNat type.value :: [uintBytes 8 n.toNat].flatten) := by
  refine buildInstruction_of_fields ?_
  rw [h, Layout.build, buildInt_u64]
  rfl

theorem buildInstruction_seed (seed : Option UInt32) :
    buildInstruction .addValidatorToPool (.seed ((seed.map UInt32.toNat).getD 0)) =
      some (1 :: [uintBytes 4 (seed.getD 0).toNat].flatten) := by
  refine @buildInstruction_of_fields .addValidatorToPool _ [uintBytes 4 (seed.getD 0).toNat] ?_
  have : (seed.map UInt32.toNat).getD 0 = (seed.getD 0).toNat := by cases seed <;> rfl
  rw [InstructionType.layout, Layout.build, this, buildInt_u32]
  rfl

theorem buildInstruction_pass {type : InstructionType} (h : type.layout = .pass) :
    buildInstruction type .none = some [UInt8.ofNat type.value] := by
  rw [buildInstruction_eq, h]
  rfl

theorem buildInstruction_tokenMetadata {type : InstructionType} (h : type.layout = .tokenMetadata)
    {name symbol uri : String} (hs : Call.Prefixable name symbol uri) :
    buildInstruction type (.tokenMetadata name symbol uri) =
      some (UInt8.ofNat type.value :: [stringBytes name, stringBytes symbol, stringBytes uri].flatten) := by
  obtain ⟨hname, hsymbol, huri⟩ := hs
  refine buildInstruction_of_fields ?_
  rw [h, Layout.build, buildString_of_lt hname, buildString_of_lt hsymbol, buildString_of_lt huri]
  rfl

theorem buildInstruction_tokenMetadata_eq_none {type : InstructionType} (h : type.layout = .tokenMetadata)
    {name symbol uri : String} (hs : ¬ Call.Prefixable name symbol uri) :
    buildInstruction type (.tokenMetadata name symbol uri) = none := by
  have hnone : none ∈ [buildString name, buildString symbol, buildString uri] := by
    by_contra hmem
    refine hs ⟨?_, ?_, ?_⟩ <;> by_contra hlt <;> exact hmem (by simp [buildString_of_not_lt hlt])
  rw [buildInstruction_eq, h, Layout.build, buildStruct_eq_none hnone]
  rfl

/-! ## The accounts -/

section
variable {Key β : Type} [DecidableEq Key] {id : Key} {info : AccountInfo Key} {rest : List (AccountInfo Key)}

omit [DecidableEq Key] in
theorem nextAccountInfo_cons (f : AccountInfo Key → AccountIter Key β) :
    (nextAccountInfo >>= f) (info :: rest) = f info rest := rfl

omit [DecidableEq Key] in
theorem nextAccountInfo?_bind (accounts : List (AccountInfo Key))
    (f : Option (AccountInfo Key) → AccountIter Key β) :
    (nextAccountInfo? >>= f) accounts = f accounts.head? accounts.tail := rfl

omit [DecidableEq Key] in
theorem remainingAccounts_bind (accounts : List (AccountInfo Key))
    (f : List (AccountInfo Key) → AccountIter Key β) :
    (remainingAccounts >>= f) accounts = f accounts accounts := rfl

omit [DecidableEq Key] in
theorem pure_iter_eq_ok {a b : β} {accounts rest : List (AccountInfo Key)} :
    (pure a : AccountIter Key β) accounts = .ok (b, rest) ↔ a = b ∧ accounts = rest := by
  show Except.ok (a, accounts) = Except.ok (b, rest) ↔ _
  simp

theorem nextSysvar_cons (h : info.key = id) (f : AccountInfo Key → AccountIter Key β) :
    (nextSysvar id >>= f) (info :: rest) = f info rest := by
  rw [nextSysvar, bind_assoc, nextAccountInfo_cons, ensure_of h]
  rfl

end

namespace Call
variable {rt : Runtime Pubkey} {c : Constants} {call : Call} {type : InstructionType} {args : Args}
  {bytes : List UInt8} {programId : Pubkey} {accounts : List AccountMeta}

/-- A builder whose data is what the program reads matches it when its accounts do. -/
theorem matches_iff
    (hb : call.build rt c = (buildInstruction type args).bind fun data => some { programId, accounts, data })
    (hd : buildInstruction type args = some bytes)
    (hr : Reads StakePoolInstruction.deserialize bytes call.instruction) :
    call.Matches rt c ↔ programId = call.programId ∧ call.Consumed rt c (accounts.map AccountMeta.info) := by
  rw [hd] at hb
  constructor
  · rintro ⟨i, hi, hp, -, hc⟩
    rw [hb] at hi
    cases hi
    exact ⟨hp, hc⟩
  · rintro ⟨hp, hc⟩
    exact ⟨_, hb, hp, hr.tryFromSlice, hc⟩

/-- A builder that raises matches nothing. -/
theorem not_matches
    (hb : call.build rt c = (buildInstruction type args).bind fun data => some { programId, accounts, data })
    (hd : buildInstruction type args = none) : ¬ call.Matches rt c := by
  rintro ⟨i, hi, -⟩
  rw [hb, hd] at hi
  cases hi

theorem checkFundingAuthority_of_signs {info : Option (AccountInfo Pubkey)} {key : Option Pubkey}
    (h : SignsIfGiven info key) (wrong : StakePoolError) :
    StakePool.checkFundingAuthority key info wrong = .ok () := by
  obtain ⟨rfl, hs⟩ := h
  cases info with
  | none => rfl
  | some i => simp [StakePool.checkFundingAuthority, orErr, ensure, hs i rfl, ok_bind]

theorem findStakeProgramAddress_eq (programId vote stakePool : Pubkey) (seed : Option UInt32) :
    findStakeProgramAddress rt programId vote stakePool seed =
      SplStakePool.findStakeProgramAddress rt programId vote stakePool (nonZeroU32 (seed.getD 0)) := by
  cases seed with
  | none => rfl
  | some seed =>
    rw [findStakeProgramAddress, SplStakePool.findStakeProgramAddress, nonZeroU32, Option.getD_some]
    by_cases h : seed = 0 <;> simp [h]

theorem matches_initializePool_iff (p : InitializeParams) :
    (Call.initializePool p).Matches rt c ↔ p.tokenProgramId = c.tokenProgramId := by
  have hdata : buildInstruction .initializePool (.initializePool p.epochFee p.withdrawalFee p.depositFee
      p.referralFee.toNat p.maxValidators.toNat) = some (0 :: [p.epochFee.serialize, p.withdrawalFee.serialize,
        p.depositFee.serialize, [p.referralFee], uintBytes 4 p.maxValidators.toNat].flatten) := by
    refine @buildInstruction_of_fields .initializePool _ _ ?_
    rw [InstructionType.layout, Layout.build, buildFee_eq, buildFee_eq, buildFee_eq, buildInt_u8, buildInt_u32]
    rfl
  refine (matches_iff rfl hdata ?_).trans ?_
  · exact .tag (.cons (Fee.reads _) (.cons (Fee.reads _) (.cons (Fee.reads _) (.cons (reads_u8 _)
      (.cons (reads_uint p.maxValidators.toNat_lt) (.done _))))))
  · cases h : p.depositAuthority <;>
      simp [-bind_pure_comp, programId, Consumed, InitializeAccounts.parse, nextAccountInfo_cons,
        nextAccountInfo?_bind, pure_iter_eq_ok, SignsIfGiven, h, @eq_comm _ c.tokenProgramId]

theorem matches_addValidatorToPool (p : AddValidatorToPoolParams) : (Call.addValidatorToPool p).Matches rt c := by
  refine (matches_iff rfl (buildInstruction_seed _) ?_).2 ⟨rfl, ?_⟩
  · exact .tag (.cons (reads_u32 _) (.done _))
  · simp [-bind_pure_comp, Consumed, AddValidatorToPoolAccounts.parse,
      nextAccountInfo_cons, nextSysvar_cons, pure_iter_eq_ok, At]

theorem matches_addValidatorToPoolWithVote_iff (p : AddValidatorToPoolWithVoteParams) :
    (Call.addValidatorToPoolWithVote p).Matches rt c ↔ p.programId = c.stakePoolProgramId := by
  refine (matches_iff rfl (buildInstruction_seed _) ?_).trans ⟨fun h => h.1.symm, fun h => ⟨h.symm, ?_⟩⟩
  · exact .tag (.cons (reads_u32 _) (.done _))
  · rw [Consumed, ← findStakeProgramAddress_eq, findStakeProgramAddress.eq_def]
    simp [-bind_pure_comp, AddValidatorToPoolAccounts.parse, nextAccountInfo_cons, nextSysvar_cons, pure_iter_eq_ok,
      At, findWithdrawAuthorityProgramAddress]

theorem matches_removeValidatorFromPool (p : RemoveValidatorFromPoolParams) :
    (Call.removeValidatorFromPool p).Matches rt c := by
  refine (matches_iff rfl (@buildInstruction_pass .removeValidatorFromPool rfl) ?_).2 ⟨rfl, ?_⟩
  · exact .tag (.nil _)
  · simp [-bind_pure_comp, Consumed, RemoveValidatorFromPoolAccounts.parse,
      nextAccountInfo_cons, nextSysvar_cons, pure_iter_eq_ok]

theorem matches_removeValidatorFromPoolWithVote_iff (p : RemoveValidatorFromPoolWithVoteParams) :
    (Call.removeValidatorFromPoolWithVote p).Matches rt c ↔ p.programId = c.stakePoolProgramId := by
  refine (matches_iff rfl (@buildInstruction_pass .removeValidatorFromPool rfl) ?_).trans
    ⟨fun h => h.1.symm, fun h => ⟨h.symm, ?_⟩⟩
  · exact .tag (.nil _)
  · rw [Consumed, ← findStakeProgramAddress_eq, findStakeProgramAddress.eq_def]
    simp [-bind_pure_comp, RemoveValidatorFromPoolAccounts.parse, nextAccountInfo_cons, nextSysvar_cons,
      pure_iter_eq_ok, findWithdrawAuthorityProgramAddress, findTransientStakeProgramAddress]

theorem matches_depositStake_iff (p : DepositStakeParams) : (Call.depositStake p).Matches rt c ↔
    p.depositAuthority = (findDepositAuthorityProgramAddress rt p.programId p.stakePool).1 := by
  refine (matches_iff rfl (@buildInstruction_pass .depositStake rfl) ?_).trans ?_
  · exact .tag (.nil _)
  -- no account but the derived one may do without a signature
  · simp [-bind_pure_comp, programId, Consumed, DepositStakeAccounts.parse, nextAccountInfo_cons, nextSysvar_cons,
      pure_iter_eq_ok, At]

theorem matches_withdrawStake (p : WithdrawStakeParams) : (Call.withdrawStake p).Matches rt c := by
  refine (matches_iff rfl (buildInstruction_amount rfl _) ?_).2 ⟨rfl, ?_⟩
  · exact .tag (.cons (reads_uint p.amount.toNat_lt) (.done _))
  · simp [-bind_pure_comp, Consumed, WithdrawStakeAccounts.parse,
      nextAccountInfo_cons, nextSysvar_cons, pure_iter_eq_ok]

theorem matches_depositSol (p : DepositSolParams) : (Call.depositSol p).Matches rt c := by
  refine (matches_iff rfl (buildInstruction_amount rfl _) ?_).2 ⟨rfl, ?_⟩
  · exact .tag (.cons (reads_uint p.amount.toNat_lt) (.done _))
  have hsigns : SignsIfGiven (p.depositAuthority.map fun key => ⟨key, true, false⟩) p.depositAuthority := by
    cases p.depositAuthority <;> simp [SignsIfGiven]
  have hcheck : ∀ pool : SplStakePool.StakePool Pubkey, pool.solDepositAuthority = p.depositAuthority →
      pool.checkSolDepositAuthority (p.depositAuthority.map fun key => ⟨key, true, false⟩) = .ok () := by
    intro pool hpool
    rw [StakePool.checkSolDepositAuthority, hpool]
    exact checkFundingAuthority_of_signs hsigns _
  cases h : p.depositAuthority <;> rw [h] at hsigns hcheck <;>
    simpa [-bind_pure_comp, Consumed, DepositSolAccounts.parse, nextAccountInfo_cons, nextAccountInfo?_bind,
      pure_iter_eq_ok, h] using ⟨hsigns, hcheck⟩

/-- Behind the twelve accounts that are always there, nothing is left for the handler to take. -/
theorem matches_withdrawSol_iff (p : WithdrawSolParams) :
    (Call.withdrawSol p).Matches rt c ↔ p.solWithdrawAuthority = none := by
  refine (matches_iff rfl (buildInstruction_amount rfl _) ?_).trans ?_
  · exact .tag (.cons (reads_uint p.amount.toNat_lt) (.done _))
  have hcheck : ∀ pool : SplStakePool.StakePool Pubkey, pool.solWithdrawAuthority = none →
      pool.checkSolWithdrawAuthority none = .ok () := by
    intro pool hpool
    rw [StakePool.checkSolWithdrawAuthority, hpool]
    rfl
  cases h : p.solWithdrawAuthority with
  | none =>
    simpa [-bind_pure_comp, programId, Consumed, WithdrawSolAccounts.parse, nextAccountInfo_cons,
      nextAccountInfo?_bind, pure_iter_eq_ok, At, SignsIfGiven, h] using hcheck
  | some key =>
    simp [-bind_pure_comp, programId, Consumed, WithdrawSolAccounts.parse, nextAccountInfo_cons,
      nextAccountInfo?_bind, pure_iter_eq_ok, SignsIfGiven, h]

theorem matches_updateValidatorListBalance (p : UpdateValidatorListBalanceParams) :
    (Call.updateValidatorListBalance p).Matches rt c := by
  have hdata : buildInstruction .updateValidatorListBalance (.updateValidatorListBalance p.startIndex.toNat
      p.noMerge) = some (6 :: [uintBytes 4 p.startIndex.toNat, boolBytes p.noMerge].flatten) := by
    refine @buildInstruction_of_fields .updateValidatorListBalance _ _ ?_
    rw [InstructionType.layout, Layout.build, buildInt_u32, buildInt_bool]
    rfl
  refine (matches_iff rfl hdata ?_).2 ⟨rfl, ?_⟩
  · exact .tag (.cons (reads_uint p.startIndex.toNat_lt) (.cons (reads_bool _) (.done _)))
  · simp [-bind_pure_comp, Consumed, UpdateValidatorListBalanceAccounts.parse, nextAccountInfo_cons, nextSysvar_cons,
      remainingAccounts_bind, pure_iter_eq_ok, At, Function.comp_def]

theorem matches_updateStakePoolBalance (p : UpdateStakePoolBalanceParams) :
    (Call.updateStakePoolBalance p).Matches rt c := by
  refine (matches_iff rfl (@buildInstruction_pass .updateStakePoolBalance rfl) ?_).2 ⟨rfl, ?_⟩
  · exact .tag (.nil _)
  · simp [-bind_pure_comp, Consumed, UpdateStakePoolBalanceAccounts.parse, nextAccountInfo_cons, pure_iter_eq_ok]

theorem matches_cleanupRemovedValidatorEntries (p : CleanupRemovedValidatorEntriesParams) :
    (Call.cleanupRemovedValidatorEntries p).Matches rt c := by
  refine (matches_iff rfl (@buildInstruction_pass .cleanupRemovedValidatorEntries rfl) ?_).2 ⟨rfl, ?_⟩
  · exact .tag (.nil _)
  · simp [-bind_pure_comp, Consumed, CleanupRemovedValidatorEntriesAccounts.parse,
      nextAccountInfo_cons, pure_iter_eq_ok]

theorem matches_increaseValidatorStake (p : IncreaseValidatorStakeParams) :
    (Call.increaseValidatorStake p).Matches rt c := by
  refine (matches_iff rfl (buildInstruction_moveStake rfl _ _) ?_).2 ⟨rfl, ?_⟩
  · exact .tag (.cons (reads_uint p.lamports.toNat_lt) (.cons (reads_u64 _) (.done _)))
  · simp [-bind_pure_comp, Consumed, IncreaseValidatorStakeAccounts.parse,
      nextAccountInfo_cons, nextSysvar_cons, pure_iter_eq_ok, At]

theorem matches_increaseAdditionalValidatorStake (p : IncreaseAdditionalValidatorStakeParams) :
    (Call.increaseAdditionalValidatorStake p).Matches rt c := by
  refine (matches_iff rfl (buildInstruction_moveStakeWithEphemeralStake rfl _ _ _) ?_).2 ⟨rfl, ?_⟩
  · exact .tag (.cons (reads_uint p.lamports.toNat_lt) (.cons (reads_u64 _)
      (.cons (reads_u64 _) (.done _))))
  · simp [-bind_pure_comp, Consumed, IncreaseValidatorStakeAccounts.parse,
      nextAccountInfo_cons, nextSysvar_cons, pure_iter_eq_ok, At]

theorem matches_decreaseValidatorStake (p : DecreaseValidatorStakeParams) :
    (Call.decreaseValidatorStake p).Matches rt c := by
  refine (matches_iff rfl (buildInstruction_moveStake rfl _ _) ?_).2 ⟨rfl, ?_⟩
  · exact .tag (.cons (reads_uint p.lamports.toNat_lt) (.cons (reads_u64 _) (.done _)))
  · simp [-bind_pure_comp, Consumed, DecreaseValidatorStakeAccounts.parse,
      nextAccountInfo_cons, nextSysvar_cons, pure_iter_eq_ok]

theorem matches_decreaseAdditionalValidatorStake (p : DecreaseAdditionalValidatorStakeParams) :
    (Call.decreaseAdditionalValidatorStake p).Matches rt c := by
  refine (matches_iff rfl (buildInstruction_moveStakeWithEphemeralStake rfl _ _ _) ?_).2 ⟨rfl, ?_⟩
  · exact .tag (.cons (reads_uint p.lamports.toNat_lt) (.cons (reads_u64 _)
      (.cons (reads_u64 _) (.done _))))
  · simp [-bind_pure_comp, Consumed, DecreaseValidatorStakeAccounts.parse,
      nextAccountInfo_cons, nextSysvar_cons, pure_iter_eq_ok, At]

theorem matches_decreaseValidatorStakeWithReserve (p : DecreaseValidatorStakeWithReserveParams) :
    (Call.decreaseValidatorStakeWithReserve p).Matches rt c := by
  refine (matches_iff rfl (buildInstruction_moveStake rfl _ _) ?_).2 ⟨rfl, ?_⟩
  · exact .tag (.cons (reads_uint p.lamports.toNat_lt) (.cons (reads_u64 _) (.done _)))
  · simp [-bind_pure_comp, Consumed, DecreaseValidatorStakeAccounts.parse,
      nextAccountInfo_cons, nextSysvar_cons, pure_iter_eq_ok, At]

theorem matches_createTokenMetadata_iff (p : CreateTokenMetadataParams) :
    (Call.createTokenMetadata p).Matches rt c ↔ Prefixable p.name p.symbol p.uri := by
  by_cases hs : Prefixable p.name p.symbol p.uri
  · refine (matches_iff rfl (buildInstruction_tokenMetadata rfl hs) ?_).trans (iff_of_true ⟨rfl, ?_⟩ hs)
    · exact .tag (.cons (reads_string hs.1) (.cons (reads_string hs.2.1) (.cons (reads_string hs.2.2) (.done _))))
    · simp [-bind_pure_comp, Consumed, CreateTokenMetadataAccounts.parse, nextAccountInfo_cons, pure_iter_eq_ok]
  · exact iff_of_false (not_matches rfl (buildInstruction_tokenMetadata_eq_none rfl hs)) hs

theorem matches_updateTokenMetadata_iff (p : UpdateTokenMetadataParams) :
    (Call.updateTokenMetadata p).Matches rt c ↔ Prefixable p.name p.symbol p.uri := by
  by_cases hs : Prefixable p.name p.symbol p.uri
  · refine (matches_iff rfl (buildInstruction_tokenMetadata rfl hs) ?_).trans (iff_of_true ⟨rfl, ?_⟩ hs)
    · exact .tag (.cons (reads_string hs.1) (.cons (reads_string hs.2.1) (.cons (reads_string hs.2.2) (.done _))))
    · simp [-bind_pure_comp, Consumed, UpdateTokenMetadataAccounts.parse, nextAccountInfo_cons, pure_iter_eq_ok]
  · exact iff_of_false (not_matches rfl (buildInstruction_tokenMetadata_eq_none rfl hs)) hs

end Call

/-- Which calls of the builders match the program. -/
theorem python_matches_iff (rt : Runtime Pubkey) (c : Constants) (call : Call) :
    call.Matches rt c ↔ call.HoldsWhen rt c := by
  cases call with
  | initializePool p => exact Call.matches_initializePool_iff p
  | addValidatorToPool p => exact iff_of_true (Call.matches_addValidatorToPool p) trivial
  | addValidatorToPoolWithVote p => exact Call.matches_addValidatorToPoolWithVote_iff p
  | removeValidatorFromPool p => exact iff_of_true (Call.matches_removeValidatorFromPool p) trivial
  | removeValidatorFromPoolWithVote p => exact Call.matches_removeValidatorFromPoolWithVote_iff p
  | depositStake p => exact Call.matches_depositStake_iff p
  | withdrawStake p => exact iff_of_true (Call.matches_withdrawStake p) trivial
  | depositSol p => exact iff_of_true (Call.matches_depositSol p) trivial
  | withdrawSol p => exact Call.matches_withdrawSol_iff p
  | updateValidatorListBalance p => exact iff_of_true (Call.matches_updateValidatorListBalance p) trivial
  | updateStakePoolBalance p => exact iff_of_true (Call.matches_updateStakePoolBalance p) trivial
  | cleanupRemovedValidatorEntries p => exact iff_of_true (Call.matches_cleanupRemovedValidatorEntries p) trivial
  | increaseValidatorStake p => exact iff_of_true (Call.matches_increaseValidatorStake p) trivial
  | increaseAdditionalValidatorStake p => exact iff_of_true (Call.matches_increaseAdditionalValidatorStake p) trivial
  | decreaseValidatorStake p => exact iff_of_true (Call.matches_decreaseValidatorStake p) trivial
  | decreaseAdditionalValidatorStake p => exact iff_of_true (Call.matches_decreaseAdditionalValidatorStake p) trivial
  | decreaseValidatorStakeWithReserve p => exact iff_of_true (Call.matches_decreaseValidatorStakeWithReserve p) trivial
  | createTokenMetadata p => exact Call.matches_createTokenMetadata_iff p
  | updateTokenMetadata p => exact Call.matches_updateTokenMetadata_iff p

/-- A withdrawal of five tokens from a pool with a withdraw authority. -/
def authorizedWithdrawal : WithdrawSolParams :=
  let key (n : Nat) : Pubkey := ⟨List.replicate 32 (.ofNat n), List.length_replicate⟩
  { programId := key 1, stakePool := key 2, withdrawAuthority := key 3, sourceTransferAuthority := key 4
    sourcePoolAccount := key 5, reserveStake := key 6, destinationSystemAccount := key 7, managerFeeAccount := key 8
    poolMint := key 9, clockSysvar := key 10, stakeHistorySysvar := key 11, stakeProgramId := key 12
    tokenProgramId := key 13, amount := 5, solWithdrawAuthority := some (key 14) }

/-- The withdraw authority does not reach the handler. -/
theorem python_not_matches :
    ¬ ∃ (rt : Runtime Pubkey) (c : Constants), (Call.withdrawSol authorizedWithdrawal).Matches rt c := by
  rintro ⟨rt, c, h⟩
  cases (Call.matches_withdrawSol_iff _).1 h

end SplStakePool.Python
