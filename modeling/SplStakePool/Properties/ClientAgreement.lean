import SplStakePool.Client.JsUpdate
import SplStakePool.Properties.UpdateCoverage

/-!
# When the two clients build the same update

Both clients cut the list into the same chunks and derive the same transient stake accounts. The JavaScript
client derives every validator stake account without a seed, so that it names the account of an entry exactly
when the entry has none; the program skips the others without an error.

The list is decoded from its bytes first, where the layout of the client puts two words of the entry into one number.
Nothing is computed with that number, which is why the seeds are lost without the update failing.
-/

namespace SplStakePool.Js
open Borsh

variable {Key : Type} {keyBytes : Key → List UInt8} {newPublicKey : List UInt8 → Key}

/-- What the client makes of an entry. The numbers wrap as those of the stored words do. -/
def ValidatorStakeInfo.of (v : SplStakePool.ValidatorStakeInfo Key) : ValidatorStakeInfo Key where
  activeStakeLamports := v.activeStakeLamports % 2 ^ 64
  transientStakeLamports := v.transientStakeLamports % 2 ^ 64
  lastUpdateEpoch := v.lastUpdateEpoch % 2 ^ 64
  transientSeedSuffixStart := v.transientSeedSuffix.toNat
  transientSeedSuffixEnd := 2 ^ 32 * v.validatorSeedSuffix.toNat
  status := v.status.byte.toNat
  voteAccountAddress := v.voteAccountAddress

theorem reads_uint_mod (count n : Nat) : Reads (uint count) (uintBytes count n) (n % 256 ^ count) := by
  rw [uintBytes, ← Buffer.toLeBytes_mod]
  exact reads_uint (Nat.mod_lt n (Nat.pow_pos (by decide)))

theorem reads_seedSuffixEnd (seed : UInt32) :
    Reads (uint 8) (uintBytes 4 0 ++ uintBytes 4 seed.toNat) (2 ^ 32 * seed.toNat) := by
  have hlt := seed.toNat_lt
  have hbytes := Buffer.toLeBytes_add 4 4 (2 ^ 32 * seed.toNat)
  rw [← Buffer.toLeBytes_mod 4 (2 ^ 32 * seed.toNat), show 2 ^ 32 * seed.toNat % 256 ^ 4 = 0 by omega,
    show 2 ^ 32 * seed.toNat / 256 ^ 4 = seed.toNat by omega] at hbytes
  rw [uintBytes, uintBytes, ← hbytes]
  exact reads_uint (by omega)

theorem reads_entry {v : SplStakePool.ValidatorStakeInfo Key} (hlen : (keyBytes v.voteAccountAddress).length = 32)
    (hkey : newPublicKey (keyBytes v.voteAccountAddress) = v.voteAccountAddress) :
    Reads (validatorStakeInfoLayout newPublicKey) (v.bytes keyBytes) (.of v) := by
  have hfields : v.bytes keyBytes = List.flatten [uintBytes 8 v.activeStakeLamports,
      uintBytes 8 v.transientStakeLamports, uintBytes 8 v.lastUpdateEpoch, uintBytes 8 v.transientSeedSuffix.toNat,
      uintBytes 4 0 ++ uintBytes 4 v.validatorSeedSuffix.toNat, uintBytes 1 v.status.byte.toNat,
      keyBytes v.voteAccountAddress] := by
    have hstatus : uintBytes 1 v.status.byte.toNat = [v.status.byte] := by
      rw [uintBytes, Buffer.toLeBytes, Buffer.toLeBytes, UInt8.ofNat_toNat]
    rw [hstatus]
    simp only [ValidatorStakeInfo.bytes, uintBytes, List.flatten_cons, List.flatten_nil, List.append_nil,
      List.append_assoc]
  have hpk := (reads_takeBytes hlen).map newPublicKey
  rw [hkey] at hpk
  rw [hfields]
  exact .cons (reads_uint_mod 8 _) <| .cons (reads_uint_mod 8 _) <| .cons (reads_uint_mod 8 _) <|
    .cons (reads_uint v.transientSeedSuffix.toNat_lt) <| .cons (reads_seedSuffixEnd _) <|
    .cons (reads_uint v.status.byte.toNat_lt) <| .cons hpk <| .done _

/-- The keys of a list are stored in 32 bytes, from which the client makes them again. -/
def Decodable (keyBytes : Key → List UInt8) (newPublicKey : List UInt8 → Key) (l : SplStakePool.ValidatorList Key) :
    Prop :=
  ∀ v ∈ l.validators, (keyBytes v.voteAccountAddress).length = 32 ∧
    newPublicKey (keyBytes v.voteAccountAddress) = v.voteAccountAddress

theorem decode_list {l : SplStakePool.ValidatorList Key} (hlen : l.validators.length < 2 ^ 32)
    (hkeys : Decodable keyBytes newPublicKey l) (rest : List UInt8) :
    tryFromSliceUnchecked (validatorListLayout newPublicKey) (l.serialize keyBytes ++ rest) =
      some ⟨l.header.accountType.toU8.toNat, l.header.maxValidators % 2 ^ 32, l.validators.map .of⟩ := by
  have hfields : l.serialize keyBytes = List.flatten [uintBytes 1 l.header.accountType.toU8.toNat,
      uintBytes 4 l.header.maxValidators, List.flatten [uintBytes 4 l.validators.length,
        (l.validators.map fun v => v.bytes keyBytes).flatten]] := by
    have htype : uintBytes 1 l.header.accountType.toU8.toNat = [l.header.accountType.toU8] := by
      rw [uintBytes, Buffer.toLeBytes, Buffer.toLeBytes, UInt8.ofNat_toNat]
    rw [htype]
    simp only [ValidatorList.serialize, ValidatorList.elements, ValidatorListHeader.bytes, BigVec.vecSizeBytes,
      uintBytes, List.flatten_cons, List.flatten_nil, List.append_nil, List.cons_append, List.nil_append]
  have hvec : Reads (vec (validatorStakeInfoLayout newPublicKey)) (List.flatten [uintBytes 4 l.validators.length,
      (l.validators.map fun v => v.bytes keyBytes).flatten]) (l.validators.map .of) := by
    rw [List.flatten_cons, List.flatten_cons, List.flatten_nil, List.append_nil]
    exact .bind (reads_uint hlen) (reads_repeated fun v hv => reads_entry (hkeys v hv).1 (hkeys v hv).2)
  have hlist : Reads (validatorListLayout newPublicKey) (l.serialize keyBytes)
      ⟨l.header.accountType.toU8.toNat, l.header.maxValidators % 2 ^ 32, l.validators.map .of⟩ := by
    rw [hfields]
    exact .cons (reads_uint (UInt8.toNat_lt _)) <| .cons (reads_uint_mod 4 _) <| .cons hvec <| .done _
  exact hlist.tryFromSliceUnchecked rest

section
variable {α : Type} {array : List α} {size : Nat}

/-- The loop, from the start of a chunk on. -/
theorem arrayChunkLoop_eq (hsize : 0 < size) (turns k : Nat) (h : array.length ≤ turns + k * size) :
    arrayChunkLoop array size turns (k * size) =
      (List.range' k (Chunks.count size array - k)).map fun i => Chunks.chunk size i array := by
  have hcount : ∀ i, i < Chunks.count size array ↔ i * size < array.length := fun i => by
    refine ⟨Chunks.mul_lt_length, fun hi => ?_⟩
    exact (Nat.le_div_iff_mul_le hsize).2 (by rw [Nat.succ_mul]; omega)
  induction turns generalizing k with
  | zero =>
    have : ¬ k < Chunks.count size array := fun hk => by
      have := (hcount k).1 hk
      omega
    rw [show Chunks.count size array - k = 0 by omega]
    rfl
  | succ turns ih =>
    rw [arrayChunkLoop]
    by_cases hk : k * size < array.length
    · have hlt := (hcount k).2 hk
      rw [if_pos hk, show Chunks.count size array - k = Chunks.count size array - (k + 1) + 1 by omega,
        List.range'_succ, List.map_cons, ← Nat.succ_mul, ih (k + 1) (by rw [Nat.succ_mul]; omega)]
      rfl
    · have := (hcount k).not.2 hk
      rw [if_neg hk, show Chunks.count size array - k = 0 by omega]
      rfl

theorem arrayChunk_eq (hsize : 0 < size) :
    arrayChunk array size = (List.range (Chunks.count size array)).map fun i => Chunks.chunk size i array := by
  have : array.length ≤ array.length + 0 * size := by omega
  have := arrayChunkLoop_eq hsize array.length 0 this
  rwa [Nat.zero_mul, Nat.sub_zero, ← List.range_eq_range'] at this

end

/-- The start index of an update of the list, and the stake accounts that it names. -/
def updates (ins : Instruction Key) : Option Nat × List Key :=
  (match ins.data with
    | .updateValidatorListBalance startIndex _ => some startIndex
    | _ => none,
   (ins.accounts.drop 7).map (·.key))

section
variable {rt : Runtime Key} {stakeHistoryId programId stakePoolAddress : Key} {stakePool : StakePool Key}
  {noMerge : Bool} {l : SplStakePool.ValidatorList Key}

/-- The addresses that the program expects for an entry. -/
def derivedPair (rt : Runtime Key) (programId stakePoolAddress : Key) (v : SplStakePool.ValidatorStakeInfo Key) :
    List Key :=
  [(SplStakePool.findStakeProgramAddress rt programId v.voteAccountAddress stakePoolAddress
      (nonZeroU32 v.validatorSeedSuffix)).1,
    (SplStakePool.findTransientStakeProgramAddress rt programId v.voteAccountAddress stakePoolAddress
      v.transientSeedSuffix).1]

theorem updates_chunkInstruction (i : Nat) :
    updates (chunkInstruction rt stakeHistoryId programId stakePoolAddress stakePool l noMerge i) =
      (some (i * maxValidatorsToUpdate), (Chunks.chunk maxValidatorsToUpdate i l.validators).flatMap
        (derivedPair rt programId stakePoolAddress)) := by
  simp only [updates, chunkInstruction, List.cons_append, List.nil_append, List.drop_succ_cons, List.drop_zero,
    List.map_flatMap]
  rfl

/-- The loop builds an update for each chunk. -/
theorem map_updateListInstructions {l' : List (ValidatorStakeInfo Key)} (n k : Nat) :
    (updateListInstructions rt stakeHistoryId programId stakePool stakePoolAddress noMerge
        (k * maxValidatorsToUpdate)
        ((List.range' k n).map fun i => Chunks.chunk maxValidatorsToUpdate i l')).map updates =
      (List.range' k n).map fun i => (some (i * maxValidatorsToUpdate),
        (Chunks.chunk maxValidatorsToUpdate i l').flatMap
          (validatorAndTransientStakePair rt programId stakePoolAddress)) := by
  induction n generalizing k with
  | zero => rfl
  | succ n ih =>
    rw [List.range'_succ, List.map_cons, List.map_cons, updateListInstructions, List.map_cons, ← Nat.succ_mul,
      ih (k + 1)]
    simp only [updates, updateValidatorListBalance, List.cons_append, List.nil_append, List.drop_succ_cons,
      List.drop_zero, List.map_map, AccountInfo.writable, Function.comp_def, List.map_id']

/-- The pair of an entry is the one that the program expects exactly when there is no seed. -/
theorem pair_eq_iff (hl : rt.Lawful) (v : SplStakePool.ValidatorStakeInfo Key) :
    validatorAndTransientStakePair rt programId stakePoolAddress (.of v) =
      derivedPair rt programId stakePoolAddress v ↔ v.validatorSeedSuffix = 0 := by
  constructor
  · intro h
    obtain ⟨⟨b, b', hp⟩, -⟩ := hl.find_inj (List.cons.inj h).1
    by_contra hne
    simp [preimage, Seed.symbols, nonZeroU32, hne, ValidatorStakeInfo.of, Buffer.toLeBytes] at hp
  · intro h
    rw [validatorAndTransientStakePair, derivedPair, h]
    rfl

theorem flatMap_pair_inj {α β : Type} {f g : α → List β} (hf : ∀ a, (f a).length = 2) (hg : ∀ a, (g a).length = 2)
    {l : List α} : l.flatMap f = l.flatMap g ↔ ∀ a ∈ l, f a = g a := by
  induction l with
  | nil => simp
  | cons a l ih =>
    rw [List.flatMap_cons, List.flatMap_cons, List.forall_mem_cons, ← ih]
    constructor
    · intro h
      exact List.append_inj h ((hf a).trans (hg a).symm)
    · rintro ⟨h₁, h₂⟩
      rw [h₁, h₂]

/-- For a stored list of any length, both clients build an update, and the start indices and the stake
accounts are the same exactly when no entry has a validator seed. -/
theorem update_generators_agree_iff (hl : rt.Lawful) (hlen : l.validators.length < 2 ^ 32)
    (hkeys : Decodable keyBytes newPublicKey l) (rest : List UInt8) :
    ∃ instrs finals js,
      SplStakePool.updateStakePool rt stakeHistoryId programId stakePool l stakePoolAddress noMerge =
        some (instrs, finals) ∧
      updateStakePool rt newPublicKey stakeHistoryId programId stakePool (l.serialize keyBytes ++ rest)
        stakePoolAddress noMerge = some js ∧
      (js.map updates = instrs.map updates ↔ ∀ v ∈ l.validators, v.validatorSeedSuffix = 0) := by
  obtain ⟨hsome, -⟩ : (SplStakePool.updateStakePool rt stakeHistoryId programId stakePool l stakePoolAddress
      noMerge).isSome ∧ (updateStaleStakePool rt stakeHistoryId programId stakePool l stakePoolAddress
      noMerge 0).isSome := updateStakePool_isSome hlen.le
  obtain ⟨⟨instrs, finals⟩, hrust⟩ := Option.isSome_iff_exists.1 hsome
  have hinstrs := updateStakePool_eq_some (hlen.trans (by decide)) hrust
  have hjs : updateStakePool rt newPublicKey stakeHistoryId programId stakePool (l.serialize keyBytes ++ rest)
      stakePoolAddress noMerge = some (updateListInstructions rt stakeHistoryId programId stakePool
        stakePoolAddress noMerge 0 (arrayChunk (l.validators.map .of) maxValidatorsToUpdate)) := by
    rw [updateStakePool, decode_list hlen hkeys rest]
    rfl
  refine ⟨instrs, finals, _, hrust, hjs, ?_⟩
  have hloop : (updateListInstructions rt stakeHistoryId programId stakePool stakePoolAddress noMerge
      (0 * maxValidatorsToUpdate) ((List.range' 0 (Chunks.count maxValidatorsToUpdate l.validators)).map
        fun i => Chunks.chunk maxValidatorsToUpdate i (l.validators.map .of))).map updates = _ :=
    map_updateListInstructions _ _
  rw [Nat.zero_mul, ← List.range_eq_range'] at hloop
  rw [arrayChunk_eq (by decide), Chunks.count_map, hloop, hinstrs, List.map_map, List.map_inj_left]
  simp only [Function.comp_apply, updates_chunkInstruction, Chunks.chunk_map, List.flatMap_map, Prod.mk.injEq,
    true_and, List.mem_range]
  have hsize : 0 < maxValidatorsToUpdate := by decide
  constructor
  · intro h v hv
    obtain ⟨i, hi, hmem⟩ := (Chunks.mem_iff hsize).1 hv
    exact (pair_eq_iff hl v).1 ((flatMap_pair_inj (fun _ => rfl) fun _ => rfl).1 (h i hi) v hmem)
  · intro h i hi
    refine (flatMap_pair_inj (fun _ => rfl) fun _ => rfl).2 fun v hv => (pair_eq_iff hl v).2 ?_
    exact h v ((Chunks.mem_iff hsize).2 ⟨i, hi, hv⟩)

end

section
open Reference

/-- A wallet in 32 bytes. -/
def walletBytes (k : Reference.Key) : List UInt8 := Buffer.toLeBytes 32 (k.getD 1 0)

def walletOfBytes (bytes : List UInt8) : Reference.Key := wallet (Buffer.fromLeBytes bytes)

/-- A list with a validator without a seed and one with a seed. -/
def mixed : SplStakePool.ValidatorList Reference.Key where
  header := ⟨.validatorList, 10⟩
  validators := [⟨1000, 0, 10, 3, 0, StakeStatus.active.pod, wallet 20⟩,
    ⟨1000, 0, 10, 4, 1, StakeStatus.active.pod, wallet 21⟩]

theorem update_generators_agree_iff_mixed :
    ∃ instrs finals js,
      SplStakePool.updateStakePool runtime (wallet 9) runtime.programId joined.stakePool mixed
        runtime.stakePoolAddress false = some (instrs, finals) ∧
      updateStakePool runtime walletOfBytes (wallet 9) runtime.programId joined.stakePool
        (mixed.serialize walletBytes ++ [0]) runtime.stakePoolAddress false = some js ∧
      (js.map updates = instrs.map updates ↔ ∀ v ∈ mixed.validators, v.validatorSeedSuffix = 0) :=
  update_generators_agree_iff lawful (by decide) (by unfold Decodable; decide) [0]

/-- The clients name different accounts for that list. -/
theorem update_generators_differ :
    (updateStakePool runtime walletOfBytes (wallet 9) runtime.programId joined.stakePool
        (mixed.serialize walletBytes) runtime.stakePoolAddress false).map (·.map updates) ≠
      (SplStakePool.updateStakePool runtime (wallet 9) runtime.programId joined.stakePool mixed
        runtime.stakePoolAddress false).map fun r => r.1.map updates := by
  decide +kernel

end

end SplStakePool.Js
