import SplStakePool.Instruction
import SplStakePool.Lib.Buffer
import SplStakePool.Lib.Chunks

/-!
# The instructions of an update (`instruction.rs`)

Clients build the instructions that update a pool in an epoch: the list in chunks, then the pool. The
builders are `none` where the source panics.

What an instruction of theirs names is told by the indices of its entries (`indices`): those of a chunk for the one
builder, and for the other those of the chunks with an entry that was not updated in the epoch. So the whole update is
described by lists of numbers, and whether it covers the pool is a statement about them.
-/

namespace SplStakePool
open Machine

variable {Key : Type}

/-- `MAX_VALIDATORS_TO_UPDATE` -/
def maxValidatorsToUpdate : Nat := 5

variable (Key) in
/-- An instruction with the accounts that it names. -/
structure Instruction where
  programId : Key
  accounts : List (AccountInfo Key)
  data : StakePoolInstruction Key

/-- `AccountMeta::new_readonly`, of an account that does not sign -/
def AccountInfo.readonly (k : Key) : AccountInfo Key := ⟨k, false, false⟩

/-- `AccountMeta::new`, of an account that does not sign -/
def AccountInfo.writable (k : Key) : AccountInfo Key := ⟨k, false, true⟩

/-- `unwrap` -/
def unwrap {ε α : Type} : Except ε α → Option α
  | .ok a => some a
  | .error _ => none

section
variable (rt : Runtime Key) (stakeHistoryId : Key)

/-- The two accounts of an entry. -/
def entryAccounts (programId stakePool : Key) (v : ValidatorStakeInfo Key) : List (AccountInfo Key) :=
  [.writable (findStakeProgramAddress rt programId v.voteAccountAddress stakePool
      (nonZeroU32 v.validatorSeedSuffix)).1,
    .writable (findTransientStakeProgramAddress rt programId v.voteAccountAddress stakePool
      v.transientSeedSuffix).1]

/-- Updates `validatorList[startIndex..startIndex + len]`. -/
def updateValidatorListBalanceChunk (programId stakePool stakePoolWithdrawAuthority validatorListAddress
    reserveStake : Key) (validatorList : ValidatorList Key) (len startIndex : Nat) (noMerge : Bool) :
    Option (Except ProgramError (Instruction Key)) :=
  let accounts := [.readonly stakePool, .readonly stakePoolWithdrawAuthority, .writable validatorListAddress,
    .writable reserveStake, .readonly rt.clockId, .readonly stakeHistoryId, .readonly rt.stakeProgramId]
  match Buffer.slice validatorList.validators startIndex (saturatingAdd 64 startIndex len) with
  | none => some (.error .invalidInstructionData)
  | some validatorListSubslice => do
    -- the index must fit into 32 bits
    let start ← tryFrom 32 startIndex
    return .ok {
      programId
      accounts := accounts ++ validatorListSubslice.flatMap (entryAccounts rt programId stakePool)
      data := .updateValidatorListBalance start noMerge }

/-- No instruction if all entries of the chunk are up to date. -/
def updateStaleValidatorListBalanceChunk (programId stakePool stakePoolWithdrawAuthority
    validatorListAddress reserveStake : Key) (validatorList : ValidatorList Key) (len startIndex : Nat)
    (noMerge : Bool) (currentEpoch : Nat) : Option (Except ProgramError (Option (Instruction Key))) :=
  match Buffer.slice validatorList.validators startIndex (saturatingAdd 64 startIndex len) with
  | none => some (.error .invalidInstructionData)
  | some validatorListSubslice =>
    if validatorListSubslice.all fun info => currentEpoch ≤ info.lastUpdateEpoch then some (.ok none)
    else
      (updateValidatorListBalanceChunk rt stakeHistoryId programId stakePool stakePoolWithdrawAuthority
        validatorListAddress reserveStake validatorList len startIndex noMerge).map fun r => r.map some

def updateStakePoolBalance (programId stakePool withdrawAuthority validatorListStorage reserveStake
    managerFeeAccount stakePoolMint tokenProgramId : Key) : Instruction Key where
  programId
  accounts := [.writable stakePool, .readonly withdrawAuthority, .writable validatorListStorage,
    .readonly reserveStake, .writable managerFeeAccount, .writable stakePoolMint, .readonly tokenProgramId]
  data := .updateStakePoolBalance

def cleanupRemovedValidatorEntries (programId stakePool validatorListStorage : Key) : Instruction Key where
  programId
  accounts := [.writable stakePool, .writable validatorListStorage]
  data := .cleanupRemovedValidatorEntries

/-- What follows the update of the list. -/
def finalInstructions (programId : Key) (stakePool : StakePool Key) (stakePoolAddress : Key) :
    List (Instruction Key) :=
  let withdrawAuthority := (findWithdrawAuthorityProgramAddress rt programId stakePoolAddress).1
  [updateStakePoolBalance programId stakePoolAddress withdrawAuthority stakePool.validatorList
      stakePool.reserveStake stakePool.managerFeeAccount stakePool.poolMint stakePool.tokenProgramId,
    cleanupRemovedValidatorEntries programId stakePoolAddress stakePool.validatorList]

/-- All instructions for updating a pool. -/
def updateStakePool (programId : Key) (stakePool : StakePool Key) (validatorList : ValidatorList Key)
    (stakePoolAddress : Key) (noMerge : Bool) : Option (List (Instruction Key) × List (Instruction Key)) := do
  let withdrawAuthority := (findWithdrawAuthorityProgramAddress rt programId stakePoolAddress).1
  let updateListInstructions ← (Chunks.enumerate maxValidatorsToUpdate validatorList.validators).mapM
    fun (i, chunk) => do
      unwrap (← updateValidatorListBalanceChunk rt stakeHistoryId programId stakePoolAddress withdrawAuthority
        stakePool.validatorList stakePool.reserveStake validatorList chunk.length
        (min (i * maxValidatorsToUpdate) (maxValue 64)) noMerge)
  return (updateListInstructions, finalInstructions rt programId stakePool stakePoolAddress)

/-- The instructions for the chunks with an entry that is not up to date. -/
def updateStaleStakePool (programId : Key) (stakePool : StakePool Key) (validatorList : ValidatorList Key)
    (stakePoolAddress : Key) (noMerge : Bool) (currentEpoch : Nat) :
    Option (List (Instruction Key) × List (Instruction Key)) := do
  let withdrawAuthority := (findWithdrawAuthorityProgramAddress rt programId stakePoolAddress).1
  let updateListInstructions ← (Chunks.enumerate maxValidatorsToUpdate validatorList.validators).mapM
    fun (i, chunk) => do
      unwrap (← updateStaleValidatorListBalanceChunk rt stakeHistoryId programId stakePoolAddress
        withdrawAuthority stakePool.validatorList stakePool.reserveStake validatorList chunk.length
        (min (i * maxValidatorsToUpdate) (maxValue 64)) noMerge currentEpoch)
  return (updateListInstructions.filterMap id, finalInstructions rt programId stakePool stakePoolAddress)

end

section
variable {rt : Runtime Key} {stakeHistoryId programId stakePoolAddress : Key} {stakePool : StakePool Key}
  {l : ValidatorList Key} {noMerge : Bool} {i currentEpoch : Nat} {ins : Instruction Key}
  {instrs finals : List (Instruction Key)}

variable (rt stakeHistoryId programId stakePoolAddress stakePool l noMerge) in
/-- The instruction for the chunk with a number. -/
def chunkInstruction (i : Nat) : Instruction Key where
  programId
  accounts := [.readonly stakePoolAddress,
    .readonly (findWithdrawAuthorityProgramAddress rt programId stakePoolAddress).1,
    .writable stakePool.validatorList, .writable stakePool.reserveStake, .readonly rt.clockId,
    .readonly stakeHistoryId, .readonly rt.stakeProgramId] ++
    (Chunks.chunk maxValidatorsToUpdate i l.validators).flatMap (entryAccounts rt programId stakePoolAddress)
  data := .updateValidatorListBalance (i * maxValidatorsToUpdate) noMerge

/-- The entries that an update of the list is for: a pair of accounts behind the first seven for each. -/
def Instruction.indices (ins : Instruction Key) : List Nat :=
  match ins.data with
  | .updateValidatorListBalance startIndex _ => List.range' startIndex ((ins.accounts.length - 7) / 2)
  | _ => []

theorem length_entryAccounts (vs : List (ValidatorStakeInfo Key)) :
    (vs.flatMap (entryAccounts rt programId stakePoolAddress)).length = 2 * vs.length := by
  induction vs with
  | nil => rfl
  | cons v vs ih =>
    rw [List.flatMap_cons, List.length_append, ih, List.length_cons, entryAccounts, List.length_cons,
      List.length_singleton]
    omega

theorem indices_chunkInstruction :
    (chunkInstruction rt stakeHistoryId programId stakePoolAddress stakePool l noMerge i).indices =
      List.range' (i * maxValidatorsToUpdate)
        (min maxValidatorsToUpdate (l.validators.length - i * maxValidatorsToUpdate)) := by
  simp only [Instruction.indices, chunkInstruction, List.length_append, length_entryAccounts,
    Chunks.length_chunk, List.length_cons, List.length_nil]
  congr 1
  omega

theorem slice_chunk (hlen : l.validators.length < 2 ^ 64)
    (hi : i < Chunks.count maxValidatorsToUpdate l.validators) :
    Buffer.slice l.validators (i * maxValidatorsToUpdate) (saturatingAdd 64 (i * maxValidatorsToUpdate)
      (Chunks.chunk maxValidatorsToUpdate i l.validators).length) =
      some (Chunks.chunk maxValidatorsToUpdate i l.validators) := by
  have hlt := Chunks.mul_lt_length hi
  have hsat : saturatingAdd 64 (i * maxValidatorsToUpdate)
      (Chunks.chunk maxValidatorsToUpdate i l.validators).length =
      i * maxValidatorsToUpdate + min maxValidatorsToUpdate (l.validators.length - i * maxValidatorsToUpdate) := by
    simp only [Chunks.length_chunk, saturatingAdd, maxValue]
    omega
  have hle : i * maxValidatorsToUpdate +
      min maxValidatorsToUpdate (l.validators.length - i * maxValidatorsToUpdate) ≤ l.validators.length := by
    omega
  have htake : (l.validators.drop (i * maxValidatorsToUpdate)).take
      (min maxValidatorsToUpdate (l.validators.length - i * maxValidatorsToUpdate)) =
      Chunks.chunk maxValidatorsToUpdate i l.validators := by
    rw [← List.length_drop, ← List.take_eq_take_min]
    rfl
  rw [hsat, Buffer.slice, if_pos ⟨Nat.le_add_right _ _, hle⟩, Nat.add_sub_cancel_left, htake]

theorem start_eq (hlen : l.validators.length < 2 ^ 64) (hi : i < Chunks.count maxValidatorsToUpdate l.validators) :
    min (i * maxValidatorsToUpdate) (maxValue 64) = i * maxValidatorsToUpdate := by
  have := Chunks.mul_lt_length hi
  simp only [maxValue]
  omega

theorem updateValidatorListBalanceChunk_eq (hlen : l.validators.length < 2 ^ 64)
    (hi : i < Chunks.count maxValidatorsToUpdate l.validators) :
    updateValidatorListBalanceChunk rt stakeHistoryId programId stakePoolAddress
      (findWithdrawAuthorityProgramAddress rt programId stakePoolAddress).1 stakePool.validatorList
      stakePool.reserveStake l (Chunks.chunk maxValidatorsToUpdate i l.validators).length
      (min (i * maxValidatorsToUpdate) (maxValue 64)) noMerge =
    if i * maxValidatorsToUpdate < 2 ^ 32 then
      some (.ok (chunkInstruction rt stakeHistoryId programId stakePoolAddress stakePool l noMerge i))
    else none := by
  rw [start_eq hlen hi, updateValidatorListBalanceChunk, slice_chunk hlen hi]
  dsimp only
  by_cases h : i * maxValidatorsToUpdate < 2 ^ 32
  · rw [tryFrom_of_lt h, if_pos h]
    rfl
  · rw [tryFrom, if_neg h, if_neg h]
    rfl

/-- A chunk has an entry that is not up to date. -/
def staleChunk (l : ValidatorList Key) (currentEpoch i : Nat) : Bool :=
  (Chunks.chunk maxValidatorsToUpdate i l.validators).any fun v => v.lastUpdateEpoch < currentEpoch

theorem updateStaleValidatorListBalanceChunk_eq (hlen : l.validators.length < 2 ^ 64)
    (hi : i < Chunks.count maxValidatorsToUpdate l.validators) :
    updateStaleValidatorListBalanceChunk rt stakeHistoryId programId stakePoolAddress
      (findWithdrawAuthorityProgramAddress rt programId stakePoolAddress).1 stakePool.validatorList
      stakePool.reserveStake l (Chunks.chunk maxValidatorsToUpdate i l.validators).length
      (min (i * maxValidatorsToUpdate) (maxValue 64)) noMerge currentEpoch =
    if staleChunk l currentEpoch i then
      if i * maxValidatorsToUpdate < 2 ^ 32 then
        some (.ok (some (chunkInstruction rt stakeHistoryId programId stakePoolAddress stakePool l noMerge i)))
      else none
    else some (.ok none) := by
  have hall : ((Chunks.chunk maxValidatorsToUpdate i l.validators).all fun info =>
      currentEpoch ≤ info.lastUpdateEpoch) = !staleChunk l currentEpoch i := by
    rw [staleChunk, List.not_any_eq_all_not]
    refine congrArg (List.all _) (funext fun v => ?_)
    simp only [← decide_not, Nat.not_lt]
  rw [updateStaleValidatorListBalanceChunk, updateValidatorListBalanceChunk_eq hlen hi, start_eq hlen hi,
    slice_chunk hlen hi]
  dsimp only
  rw [hall]
  cases staleChunk l currentEpoch i with
  | true =>
    by_cases h : i * maxValidatorsToUpdate < 2 ^ 32
    · simp only [if_pos h]
      rfl
    · simp only [if_neg h]
      rfl
  | false => rfl

theorem updateStakePool_eq_some (hlen : l.validators.length < 2 ^ 64)
    (h : updateStakePool rt stakeHistoryId programId stakePool l stakePoolAddress noMerge =
      some (instrs, finals)) :
    instrs = (List.range (Chunks.count maxValidatorsToUpdate l.validators)).map
      (chunkInstruction rt stakeHistoryId programId stakePoolAddress stakePool l noMerge) := by
  simp only [updateStakePool, Option.bind_eq_bind, Option.bind_eq_some_iff, Option.pure_def, Option.some.injEq,
    Prod.mk.injEq] at h
  obtain ⟨r, hr, rfl, -⟩ := h
  have hf := Chunks.mapM_eq_some hr
  rw [Chunks.enumerate, List.forall₂_map_left_iff] at hf
  refine Chunks.map_of_forall₂ hf fun i hi ins hins => ?_
  rw [updateValidatorListBalanceChunk_eq hlen (List.mem_range.1 hi)] at hins
  split at hins
  · cases hins
    rfl
  · cases hins

theorem updateStaleStakePool_eq_some (hlen : l.validators.length < 2 ^ 64)
    (h : updateStaleStakePool rt stakeHistoryId programId stakePool l stakePoolAddress noMerge currentEpoch =
      some (instrs, finals)) :
    instrs = ((List.range (Chunks.count maxValidatorsToUpdate l.validators)).filter
      (staleChunk l currentEpoch)).map
      (chunkInstruction rt stakeHistoryId programId stakePoolAddress stakePool l noMerge) := by
  simp only [updateStaleStakePool, Option.bind_eq_bind, Option.bind_eq_some_iff, Option.pure_def,
    Option.some.injEq, Prod.mk.injEq] at h
  obtain ⟨r, hr, rfl, -⟩ := h
  have hf := Chunks.mapM_eq_some hr
  rw [Chunks.enumerate, List.forall₂_map_left_iff] at hf
  refine Chunks.filterMap_of_forall₂ hf fun i hi ins hins => ?_
  rw [updateStaleValidatorListBalanceChunk_eq hlen (List.mem_range.1 hi)] at hins
  cases hs : staleChunk l currentEpoch i with
  | true =>
    rw [hs, if_pos rfl] at hins
    split at hins
    · cases hins
      rfl
    · cases hins
  | false =>
    rw [hs, if_neg Bool.false_ne_true] at hins
    cases hins
    rfl

theorem updateStakePool_finals
    (h : updateStakePool rt stakeHistoryId programId stakePool l stakePoolAddress noMerge = some (instrs, finals)) :
    finals = finalInstructions rt programId stakePool stakePoolAddress := by
  simp only [updateStakePool, Option.bind_eq_bind, Option.bind_eq_some_iff, Option.pure_def, Option.some.injEq,
    Prod.mk.injEq] at h
  obtain ⟨_, -, -, rfl⟩ := h
  rfl

theorem updateStaleStakePool_finals
    (h : updateStaleStakePool rt stakeHistoryId programId stakePool l stakePoolAddress noMerge currentEpoch =
      some (instrs, finals)) : finals = finalInstructions rt programId stakePool stakePoolAddress := by
  simp only [updateStaleStakePool, Option.bind_eq_bind, Option.bind_eq_some_iff, Option.pure_def,
    Option.some.injEq, Prod.mk.injEq] at h
  obtain ⟨_, -, -, rfl⟩ := h
  rfl

theorem updateStakePool_isSome (hlen : l.validators.length ≤ 2 ^ 32) :
    (updateStakePool rt stakeHistoryId programId stakePool l stakePoolAddress noMerge).isSome ∧
      (updateStaleStakePool rt stakeHistoryId programId stakePool l stakePoolAddress noMerge
        currentEpoch).isSome := by
  have hlt : ∀ i < Chunks.count maxValidatorsToUpdate l.validators, i * maxValidatorsToUpdate < 2 ^ 32 :=
    fun i hi => by
      have := Chunks.mul_lt_length hi
      omega
  constructor
  · refine Chunks.bind_pure_isSome (Chunks.mapM_isSome fun x hx => ?_)
    obtain ⟨i, hi, rfl⟩ := List.mem_map.1 hx
    rw [List.mem_range] at hi
    dsimp only
    rw [updateValidatorListBalanceChunk_eq (by omega) hi, if_pos (hlt i hi)]
    rfl
  · refine Chunks.bind_pure_isSome (Chunks.mapM_isSome fun x hx => ?_)
    obtain ⟨i, hi, rfl⟩ := List.mem_map.1 hx
    rw [List.mem_range] at hi
    dsimp only
    rw [updateStaleValidatorListBalanceChunk_eq (by omega) hi]
    cases staleChunk l currentEpoch i with
    | true =>
      rw [if_pos rfl, if_pos (hlt i hi)]
      rfl
    | false => rfl

end
end SplStakePool
