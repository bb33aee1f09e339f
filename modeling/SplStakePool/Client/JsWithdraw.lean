import SplStakePool.Client.JsUpdate

/-!
# The withdrawal of stake as the JavaScript client builds it (`index.ts`, `utils/stake.ts`)

The client plans which stake accounts a withdrawal takes its lamports from, and builds an instruction for
each of them. An exception is `none`, a `BN` is an integer, and amounts of tokens are natural numbers.

How the engine sorts is a parameter: it may throw, and it returns a permutation. What the client reads of the cluster is
a record with a function for each kind of request. The plan goes through four types of accounts one after the other, and
the instructions through the plan.
-/

namespace SplStakePool.Js
open Borsh

variable {Key : Type}

/-- `new BN` of a number and `toNumber` of a `BN` throw where a double is not exact. -/
def safe (n : Int) : Option Int := if n.natAbs < 2 ^ 53 then some n else none

def lamportsPerSol : Int := 1000000000

def minimumActiveStake : Int := lamportsPerSol

/-- What `sort` does. It throws where a comparison does, and rearranges the list otherwise: the order is the
engine's where the comparison is not consistent. -/
structure Sorting (α : Type) where
  run : List α → Option (List α)
  perm : ∀ {as bs}, run as = some bs → bs.Perm as

def insertBy {α : Type} (compareFn : α → α → Option Int) (a : α) : List α → Option (List α)
  | [] => some [a]
  | b :: bs => do
    if (← compareFn a b) ≤ 0 then return a :: b :: bs
    return b :: (← insertBy compareFn a bs)

/-- A stable sort. -/
def sortBy {α : Type} (compareFn : α → α → Option Int) : List α → Option (List α)
  | [] => some []
  | a :: as => do insertBy compareFn a (← sortBy compareFn as)

section
variable {α : Type} {compareFn : α → α → Option Int}

theorem insertBy_perm {a : α} {as bs : List α} (h : insertBy compareFn a as = some bs) : bs.Perm (a :: as) := by
  induction as generalizing bs with
  | nil =>
    cases h
    exact .refl _
  | cons b as ih =>
    simp only [insertBy, Option.bind_eq_bind, Option.bind_eq_some_iff] at h
    obtain ⟨c, -, h⟩ := h
    split at h
    · cases h
      exact .refl _
    · obtain ⟨cs, hcs, h⟩ := Option.bind_eq_some_iff.1 h
      cases h
      exact ((ih hcs).cons b).trans (.swap a b as)

theorem sortBy_perm {as bs : List α} (h : sortBy compareFn as = some bs) : bs.Perm as := by
  induction as generalizing bs with
  | nil =>
    cases h
    exact .refl _
  | cons a as ih =>
    obtain ⟨cs, hcs, h⟩ := Option.bind_eq_some_iff.1 h
    exact (insertBy_perm h).trans ((ih hcs).cons a)

end

/-- An engine with that sort. -/
def Sorting.stable {α : Type} (compareFn : α → α → Option Int) : Sorting α := ⟨sortBy compareFn, sortBy_perm⟩

section
variable (stakePool : StakePool Key)

def calcPoolTokensForDeposit (stakeLamports : Nat) : Nat :=
  if stakePool.poolTokenSupply = 0 ∨ stakePool.totalLamports = 0 then stakeLamports
  else stakeLamports * stakePool.poolTokenSupply / stakePool.totalLamports

/-- A division by 0 throws. -/
def calcLamportsWithdrawAmount (poolTokens : Int) : Option Int :=
  let numerator := poolTokens * stakePool.totalLamports
  let denominator : Int := stakePool.poolTokenSupply
  if numerator < denominator then some 0
  else if denominator = 0 then none
  else some (numerator / denominator)

/-- `inverseFee.numerator` -/
def inverseFeeNumerator : Int :=
  stakePool.stakeWithdrawalFee.denominator.toNat - stakePool.stakeWithdrawalFee.numerator.toNat

/-- The pool tokens that may be withdrawn for lamports. -/
def availableForWithdrawal (skipFee : Bool) (lamports : Nat) : Int :=
  if !skipFee ∧ inverseFeeNumerator stakePool ≠ 0 then
    Int.tdiv (calcPoolTokensForDeposit stakePool lamports * stakePool.stakeWithdrawalFee.denominator.toNat)
      (inverseFeeNumerator stakePool)
  else calcPoolTokensForDeposit stakePool lamports

end

/-! ## The plan -/

inductive ValidatorAccountType
  | preferred | active | transient | reserve
deriving DecidableEq

variable (Key) in
structure ValidatorAccount where
  type : ValidatorAccountType
  voteAddress : Option Key
  stakeAddress : Key
  lamports : Nat

variable (Key) in
structure WithdrawAccount where
  stakeAddress : Key
  voteAddress : Option Key
  poolAmount : Nat

variable (Key) in
/-- A stake account as `getStakeAccount` parses it. -/
structure StakeAccount where
  /-- `type == 'delegated'` -/
  delegated : Bool
  /-- `info?.stake?.delegation.voter` -/
  voter : Option Key

variable (Key) in
/-- What the client reads from the cluster. -/
structure Connection where
  /-- The lamports and the data of an account, from `getAccountInfo`. -/
  accountInfo : Key → Option (Nat × List UInt8)
  /-- The amount of a token account, from `getAccount`. -/
  tokenAmount : Key → Option Nat
  stakeAccount : Key → Option (StakeAccount Key)
  /-- `getMinimumBalanceForRentExemption(StakeProgram.space)` -/
  rentExemption : Int
  /-- `getStakePoolProgramId` -/
  programId : Key

/-- The default comparison: highest balance first. -/
def compareLamports (a b : ValidatorAccount Key) : Option Int := safe (b.lamports - a.lamports)

section
variable [DecidableEq Key] (rt : Runtime Key) (newPublicKey : List UInt8 → Key)
  (sort : (ValidatorAccount Key → ValidatorAccount Key → Option Int) → Sorting (ValidatorAccount Key))
  (connection : Connection Key) (stakePool : StakePool Key) (stakePoolAddress : Key)

/-- `minBalance` -/
def minBalance : Int := connection.rentExemption + minimumActiveStake

/-- The accounts that are pushed for a validator. -/
def validatorAccounts (validator : ValidatorStakeInfo Key) : List (ValidatorAccount Key) :=
  -- `ValidatorStakeInfoStatus.Active`
  if validator.status ≠ 0 then []
  else
    let stakeAccountAddress :=
      findStakeProgramAddress rt connection.programId validator.voteAccountAddress stakePoolAddress none
    let validatorAccount :=
      if validator.activeStakeLamports = 0 then []
      else
        let isPreferred := stakePool.preferredWithdrawValidatorVoteAddress = some validator.voteAccountAddress
        [⟨if isPreferred then .preferred else .active, some validator.voteAccountAddress, stakeAccountAddress,
          validator.activeStakeLamports⟩]
    let transientStakeLamports := (validator.transientStakeLamports : Int) - minBalance connection
    let transientAccount :=
      if 0 < transientStakeLamports then
        [⟨.transient, some validator.voteAccountAddress,
          findTransientStakeProgramAddress rt connection.programId validator.voteAccountAddress stakePoolAddress
            validator.transientSeedSuffixStart, transientStakeLamports.toNat⟩]
      else []
    validatorAccount ++ transientAccount

/-- The accounts of a pool: those of its validators in the order of the comparison, then the reserve. -/
def withdrawableAccounts (compareFn : Option (ValidatorAccount Key → ValidatorAccount Key → Option Int))
    (validatorList : ValidatorList Key) : Option (List (ValidatorAccount Key)) := do
  let _ ← safe (minBalance connection)
  let accounts ← (sort (compareFn.getD compareLamports)).run
    (validatorList.validators.flatMap (validatorAccounts rt connection stakePool stakePoolAddress))
  let reserveStake := (connection.accountInfo stakePool.reserveStake).map Prod.fst
  let reserveStakeBalance ← safe ((reserveStake.getD 0 : Int) - connection.rentExemption)
  return if 0 < reserveStakeBalance then
    accounts ++ [⟨.reserve, none, stakePool.reserveStake, reserveStakeBalance.toNat⟩]
  else accounts

/-- The loop over the accounts of a type, with the amount that remains after it. -/
def withdrawFromAccounts (skipFee : Bool) :
    List (ValidatorAccount Key) → Nat → List (WithdrawAccount Key) × Nat
  | [], remainingAmount => ([], remainingAmount)
  | account :: filteredAccounts, remainingAmount =>
    if account.lamports ≤ minBalance connection ∧ account.type = .transient then
      withdrawFromAccounts skipFee filteredAccounts remainingAmount
    else
      let poolAmount := min (availableForWithdrawal stakePool skipFee account.lamports) remainingAmount
      if poolAmount ≤ 0 then withdrawFromAccounts skipFee filteredAccounts remainingAmount
      else
        let withdrawFrom := ⟨account.stakeAddress, account.voteAddress, poolAmount.toNat⟩
        let remainingAmount := remainingAmount - poolAmount.toNat
        if remainingAmount = 0 then ([withdrawFrom], remainingAmount)
        else
          let (withdrawFroms, remainingAmount) :=
            withdrawFromAccounts skipFee filteredAccounts remainingAmount
          (withdrawFrom :: withdrawFroms, remainingAmount)

/-- The loop over the types. -/
def withdrawFromTypes (skipFee : Bool) (accounts : List (ValidatorAccount Key)) :
    List ValidatorAccountType → Nat → List (WithdrawAccount Key) × Nat
  | [], remainingAmount => ([], remainingAmount)
  | type :: types, remainingAmount =>
    let (withdrawFrom, remainingAmount) := withdrawFromAccounts connection stakePool skipFee
      (accounts.filter fun a => a.type = type) remainingAmount
    if remainingAmount = 0 then (withdrawFrom, remainingAmount)
    else
      let (withdrawFroms, remainingAmount) := withdrawFromTypes skipFee accounts types remainingAmount
      (withdrawFrom ++ withdrawFroms, remainingAmount)

/-- The order in which the types are used. -/
def withdrawalOrder : List ValidatorAccountType := [.preferred, .active, .transient, .reserve]

/-- The list of a pool, as the client decodes it. -/
def validatorListOf : Option (ValidatorList Key) := do
  let (_, data) ← connection.accountInfo stakePool.validatorList
  tryFromSliceUnchecked (validatorListLayout newPublicKey) data

def prepareWithdrawAccounts (amount : Nat)
    (compareFn : Option (ValidatorAccount Key → ValidatorAccount Key → Option Int)) (skipFee : Bool) :
    Option (List (WithdrawAccount Key)) := do
  let validatorList ← validatorListOf newPublicKey connection stakePool
  if validatorList.validators.isEmpty then none
  else
    let accounts ← withdrawableAccounts rt sort connection stakePool stakePoolAddress compareFn validatorList
    let (withdrawFrom, remainingAmount) :=
      withdrawFromTypes connection stakePool skipFee accounts withdrawalOrder amount
    if 0 < remainingAmount then none else some withdrawFrom

/-! ## The instructions -/

variable (Key) in
inductive TransactionInstruction
  /-- `createApproveInstruction` -/
  | approve (account delegate owner : Key) (amount : Nat)
  /-- `SystemProgram.createAccount` -/
  | createAccount (fromPubkey newAccountPubkey : Key) (lamports : Int)
  | stakePool (instruction : Instruction Key)

variable (Key) in
/-- The keys of a withdrawal and what the caller chooses. -/
structure WithdrawStakeParams where
  tokenOwner : Key
  useReserve : Bool
  voteAccountAddress : Option Key
  stakeReceiver : Option Key
  poolTokenAccount : Option Key
  validatorComparator : Option (ValidatorAccount Key → ValidatorAccount Key → Option Int)
  /-- `getAssociatedTokenAddressSync` -/
  associatedTokenAddress : Key → Key → Key
  /-- The keys that `Keypair.generate` returns, in the order of the calls. -/
  generate : Nat → Key

/-- `StakePoolInstruction.withdrawStake` -/
def withdrawStakeInstruction (withdrawAuthority validatorStake destinationStake destinationStakeAuthority
    sourceTransferAuthority sourcePoolAccount : Key) (poolTokens : Nat) : Instruction Key where
  programId := connection.programId
  accounts := [.writable stakePoolAddress, .writable stakePool.validatorList, .readonly withdrawAuthority,
    .writable validatorStake, .writable destinationStake, .readonly destinationStakeAuthority,
    ⟨sourceTransferAuthority, true, false⟩, .writable sourcePoolAccount, .writable stakePool.managerFeeAccount,
    .writable stakePool.poolMint, .readonly rt.clockId, .readonly rt.tokenProgramId,
    .readonly rt.stakeProgramId]
  data := .withdrawStake poolTokens

/-- The one account of a withdrawal from a given validator. -/
def withdrawFromValidator (voteAccount : Key) (availableLamports : Nat → Option Int) (poolAmount : Nat) :
    Option (List (WithdrawAccount Key)) := do
  let stakeAccountAddress :=
    findStakeProgramAddress rt connection.programId voteAccount stakePoolAddress none
  let (lamports, _) ← connection.accountInfo stakeAccountAddress
  let availableForWithdrawal ←
    calcLamportsWithdrawAmount stakePool (← availableLamports lamports)
  if availableForWithdrawal < poolAmount then none
  else some [⟨stakeAccountAddress, some voteAccount, poolAmount⟩]

/-- The accounts to withdraw from. -/
def withdrawAccounts (params : WithdrawStakeParams Key) (poolTokenAccount : Key)
    (stakeReceiverAccount : Option (StakeAccount Key)) (poolAmount : Nat) :
    Option (List (WithdrawAccount Key)) :=
  if params.useReserve then some [⟨stakePool.reserveStake, none, poolAmount⟩]
  else if stakeReceiverAccount.any (·.delegated) then do
    let voteAccount ← stakeReceiverAccount.bind (·.voter)
    let validatorList ← validatorListOf newPublicKey connection stakePool
    let isValidVoter := validatorList.validators.any fun v => v.voteAccountAddress = voteAccount
    -- the two are compared as objects, so that they differ
    if params.voteAccountAddress.isSome then none
    else if isValidVoter then
      withdrawFromValidator rt connection stakePool stakePoolAddress voteAccount
        (fun lamports => safe (lamports - minimumActiveStake - connection.rentExemption)) poolAmount
    else none
  else
    match params.voteAccountAddress with
    | some voteAccountAddress =>
      withdrawFromValidator rt connection stakePool stakePoolAddress voteAccountAddress (fun lamports => do
        let availableLamports ← safe (lamports - minimumActiveStake - connection.rentExemption)
        if availableLamports < 0 then none else some availableLamports) poolAmount
    | none =>
      prepareWithdrawAccounts rt newPublicKey sort connection stakePool stakePoolAddress poolAmount
        params.validatorComparator (poolTokenAccount = stakePool.managerFeeAccount)

def maxWithdrawAccounts : Nat := 5

/-- The loop over the accounts. The `i`-th account gets the key that is generated after `i` others and the
transfer authority. -/
def withdrawInstructions (params : WithdrawStakeParams Key) (poolTokenAccount : Key)
    (stakeReceiverAccount : Option (StakeAccount Key)) :
    Nat → List (WithdrawAccount Key) → Option (List (TransactionInstruction Key))
  | _, [] => some []
  | i, withdrawAccount :: withdrawAccounts =>
    if i > maxWithdrawAccounts then some []
    else do
      let _solWithdrawAmount ← calcLamportsWithdrawAmount stakePool withdrawAccount.poolAmount
      let newAccount := params.stakeReceiver.isNone || stakeReceiverAccount.any (·.delegated)
      let stakeToReceive := if newAccount then params.generate (i + 1)
        else params.stakeReceiver.getD (params.generate (i + 1))
      let created := if newAccount then
        [.createAccount params.tokenOwner stakeToReceive connection.rentExemption] else []
      let poolTokens ← safe withdrawAccount.poolAmount
      let instructions ← withdrawInstructions params poolTokenAccount stakeReceiverAccount (i + 1) withdrawAccounts
      return created ++ .stakePool (withdrawStakeInstruction rt connection stakePool stakePoolAddress
        (findWithdrawAuthorityProgramAddress rt connection.programId stakePoolAddress).1
        withdrawAccount.stakeAddress stakeToReceive params.tokenOwner (params.generate 0) poolTokenAccount
        poolTokens.toNat) :: instructions

/-- `getStakeAccount` of the receiver, if there is one. -/
def getStakeReceiver (params : WithdrawStakeParams Key) : Option (Option (StakeAccount Key)) :=
  match params.stakeReceiver with
  | none => some none
  | some stakeReceiver => (connection.stakeAccount stakeReceiver).map some

/-- The instructions of a withdrawal. The merges that follow them are built and then dropped. -/
def withdrawStake (params : WithdrawStakeParams Key) (poolAmount : Nat) :
    Option (List (TransactionInstruction Key)) := do
  -- `new BN(solToLamports(amount))`
  let _ ← safe poolAmount
  let poolTokenAccount := params.poolTokenAccount.getD
    (params.associatedTokenAddress stakePool.poolMint params.tokenOwner)
  let tokenAmount ← connection.tokenAmount poolTokenAccount
  if tokenAmount < poolAmount then none
  else
    let stakeReceiverAccount ← getStakeReceiver connection params
    let accounts ← withdrawAccounts rt newPublicKey sort connection stakePool stakePoolAddress params
      poolTokenAccount stakeReceiverAccount poolAmount
    let instructions ← withdrawInstructions rt connection stakePool stakePoolAddress params poolTokenAccount
      stakeReceiverAccount 0 accounts
    return .approve poolTokenAccount (params.generate 0) params.tokenOwner poolAmount :: instructions

end
end SplStakePool.Js
