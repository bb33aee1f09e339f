import SplStakePool.Client.Update

/-!
# Adding a validator from the command line (`main.rs`, `instruction.rs`)

The client looks for a seed of which the validator stake account does not exist yet, and adds the validator with
it. The accounts that exist are those that the client gets, and an RPC failure is left out.

The loop of the source has no bound, so that it takes fuel here: it does not end if no fuel is enough.
-/

namespace SplStakePool

variable {Key : Type}

/-- `AccountMeta::new_readonly`, of a signer -/
def AccountInfo.readonlySigner (k : Key) : AccountInfo Key := ⟨k, true, false⟩

section
variable (rt : Runtime Key) (stakeHistoryId stakeConfigId : Key)

def addValidatorToPool (programId stakePool staker reserve stakePoolWithdraw validatorList stake validator : Key)
    (seed : Option UInt32) : Instruction Key where
  programId
  accounts := [.writable stakePool, .readonlySigner staker, .writable reserve, .readonly stakePoolWithdraw,
    .writable validatorList, .writable stake, .readonly validator, .readonly rt.rentId, .readonly rt.clockId,
    .readonly stakeHistoryId, .readonly stakeConfigId, .readonly rt.systemProgramId, .readonly rt.stakeProgramId]
  data := .addValidatorToPool (seed.getD 0)

def addValidatorToPoolWithVote (programId : Key) (stakePool : StakePool Key)
    (stakePoolAddress voteAccountAddress : Key) (seed : Option UInt32) : Instruction Key :=
  let poolWithdrawAuthority := (findWithdrawAuthorityProgramAddress rt programId stakePoolAddress).1
  let (stakeAccountAddress, _) := findStakeProgramAddress rt programId voteAccountAddress stakePoolAddress seed
  addValidatorToPool rt stakeHistoryId stakeConfigId programId stakePoolAddress stakePool.staker
    stakePool.reserveStake poolWithdrawAuthority stakePool.validatorList stakeAccountAddress voteAccountAddress seed

/-- `get_account_with_commitment`, on the accounts that exist -/
abbrev GetAccount (Key : Type) := Key → Option (Account Key)

variable (getAccount : GetAccount Key) (stakePool : StakePool Key)
  (stakePoolProgramId voteAccount stakePoolAddress : Key)

/-- A turn of the loop: the address and the seed that it breaks with, if it does. The account that is looked for
is the reserve. -/
def vsaAddTurn (i : UInt32) : Option (Key × Option UInt32) :=
  let seed := nonZeroU32 i
  let (address, _) := findStakeProgramAddress rt stakePoolProgramId voteAccount stakePoolAddress seed
  let maybeAccount := getAccount stakePool.reserveStake
  if maybeAccount.isSome then some (address, seed) else none

/-- The loop, if it breaks within a number of turns. The counter wraps around. -/
def vsaAddLoop : Nat → UInt32 → Option (Key × Option UInt32)
  | 0, _ => none
  | fuel + 1, i =>
    match vsaAddTurn rt getAccount stakePool stakePoolProgramId voteAccount stakePoolAddress i with
    | some found => some found
    | none => vsaAddLoop fuel (i + 1)

/-- The instruction that is sent, if any. -/
def commandVsaAdd [DecidableEq Key] (validatorList : ValidatorList Key) (fuel : Nat) :
    Option (Option (Instruction Key)) :=
  if (validatorList.find voteAccount).isSome then some none
  else do
    let (_, validatorSeed) ← vsaAddLoop rt getAccount stakePool stakePoolProgramId voteAccount stakePoolAddress fuel 0
    return some (addValidatorToPoolWithVote rt stakeHistoryId stakeConfigId stakePoolProgramId stakePool
      stakePoolAddress voteAccount validatorSeed)

end
end SplStakePool
