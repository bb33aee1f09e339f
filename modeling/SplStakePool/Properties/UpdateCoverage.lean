import Mathlib.Data.List.Flatten
import SplStakePool.Client.Update
import SplStakePool.Invariant.Core
import SplStakePool.Runtime.Session
import SplStakePool.Spec.Errors
import SplStakePool.Spec.UpdateList

/-!
# The instructions of an update cover the list

The builders cut the list into chunks, and give the accounts of each entry at its place. Executed in any
order, the instructions refresh every entry that they are for, and leave the others as they are.

An instruction is for the indices of its chunk, and the chunks together are the range of the list, each index once. The
list changes while the instructions are executed, but not the vote accounts and the seeds from which the accounts
were derived (`Aligned`), so that each instruction still gives its entries their own accounts.
-/

namespace SplStakePool
open Exec Machine UpdateValidatorListBalanceAccounts

variable {Key : Type} [DecidableEq Key] {rt : Runtime Key} {stakeHistoryId : Key}
  {w w' : World Key} {stakePool : StakePool Key} {l : ValidatorList Key} {noMerge : Bool} {i k : Nat}

omit [DecidableEq Key] in
theorem pairs_entryAccounts (vs : List (ValidatorStakeInfo Key)) :
    pairs (vs.flatMap (entryAccounts rt rt.programId rt.stakePoolAddress)) =
      vs.map fun v => (.writable (rt.validatorStake v), .writable (rt.transientStake v)) := by
  induction vs with
  | nil => rfl
  | cons v vs ih =>
    rw [List.flatMap_cons, List.map_cons, ← ih]
    rfl

omit [DecidableEq Key] in
theorem getElem?_chunk {v : ValidatorStakeInfo Key}
    (hk : k ∈ List.range' (i * maxValidatorsToUpdate)
      (min maxValidatorsToUpdate (l.validators.length - i * maxValidatorsToUpdate)))
    (hv : l.validators[k]? = some v) :
    (Chunks.chunk maxValidatorsToUpdate i l.validators)[k - i * maxValidatorsToUpdate]? = some v := by
  rw [List.mem_range'_1] at hk
  rw [Chunks.chunk, List.getElem?_take_of_lt (by omega), List.getElem?_drop, ← hv]
  congr 1
  omega

/-- The accounts that an instruction gives for an index. -/
def Instruction.pair (ins : Instruction Key) (start k : Nat) : Option (AccountInfo Key × AccountInfo Key) :=
  (pairs (ins.accounts.drop 7))[k - start]?

/-- An instruction is for entries of the list, and gives their stake accounts at their places. -/
def Instruction.Faithful (rt : Runtime Key) (l : ValidatorList Key) (noMerge : Bool) (ins : Instruction Key) :
    Prop :=
  ins.programId = rt.programId ∧ ∃ start, ins.data = .updateValidatorListBalance start noMerge ∧
    ∀ k ∈ ins.indices, ∃ v, l.validators[k]? = some v ∧
      ins.pair start k = some (.writable (rt.validatorStake v), .writable (rt.transientStake v))

omit [DecidableEq Key] in
theorem faithful_chunkInstruction :
    (chunkInstruction rt stakeHistoryId rt.programId rt.stakePoolAddress stakePool l noMerge i).Faithful rt l
      noMerge := by
  refine ⟨rfl, _, rfl, fun k hk => ?_⟩
  rw [indices_chunkInstruction] at hk
  have hlt : k < l.validators.length := by
    rw [List.mem_range'_1] at hk
    omega
  refine ⟨_, List.getElem?_eq_getElem hlt, ?_⟩
  show (pairs ((Chunks.chunk maxValidatorsToUpdate i l.validators).flatMap
    (entryAccounts rt rt.programId rt.stakePoolAddress)))[k - i * maxValidatorsToUpdate]? = _
  rw [pairs_entryAccounts, List.getElem?_map, getElem?_chunk hk (List.getElem?_eq_getElem hlt)]
  rfl

variable [Inhabited Key]

def Instruction.execute (rt : Runtime Key) (w : World Key) (ins : Instruction Key) :
    Except ProgramError (World Key) := process rt w ins.accounts ins.data

/-- Executes instructions one after the other. -/
def executeAll (rt : Runtime Key) : World Key → List (Instruction Key) → Except ProgramError (World Key)
  | w, [] => .ok w
  | w, ins :: instrs => do executeAll rt (← ins.execute rt w) instrs

theorem executeAll_append (instrs instrs' : List (Instruction Key)) (w : World Key) :
    executeAll rt w (instrs ++ instrs') = executeAll rt w instrs >>= fun w' => executeAll rt w' instrs' := by
  induction instrs generalizing w with
  | nil => rfl
  | cons ins instrs ih =>
    rw [List.cons_append, executeAll, executeAll, bind_assoc]
    exact bind_congr fun w' => ih w'

/-- The entries at the given indices were refreshed, the others are as before. -/
structure Progress (ks : List Nat) (w w' : World Key) : Prop where
  sysvars : w'.sysvars = w.sysvars
  length : w'.validatorList.validators.length = w.validatorList.validators.length
  entry : ∀ k v, w.validatorList.validators[k]? = some v → ∃ v', w'.validatorList.validators[k]? = some v' ∧
    SameAccounts v v' ∧ (k ∈ ks → v'.lastUpdateEpoch = w.sysvars.epoch) ∧ (k ∉ ks → v' = v)

omit [Inhabited Key] in
theorem parse_rest {x₁ x₂ x₃ x₄ x₅ x₆ x₇ : AccountInfo Key} {rest rest' : List (AccountInfo Key)}
    {a : UpdateValidatorListBalanceAccounts Key}
    (h : (parse rt).run (x₁ :: x₂ :: x₃ :: x₄ :: x₅ :: x₆ :: x₇ :: rest) = .ok (a, rest')) :
    a.validatorStakeAccounts = rest := by
  simp only [StateT.run, parse, nextAccountInfo_bind, nextSysvar_bind, List.cons.injEq] at h
  obtain ⟨_, _, ⟨-, rfl⟩, _, _, ⟨-, rfl⟩, _, _, ⟨-, rfl⟩, _, _, ⟨-, rfl⟩, _, _, ⟨-, rfl⟩, -, _, _, ⟨-, rfl⟩,
    _, _, ⟨-, rfl⟩, h⟩ := h
  cases h
  rfl

/-- The entries of a world have the stake accounts of those of a list. -/
structure Aligned (l : ValidatorList Key) (w : World Key) : Prop where
  length : w.validatorList.validators.length = l.validators.length
  same : ∀ (k : Nat) u v, l.validators[k]? = some u → w.validatorList.validators[k]? = some v → SameAccounts u v

omit [DecidableEq Key] [Inhabited Key] in
theorem Aligned.refl (w : World Key) : Aligned w.validatorList w where
  length := rfl
  same k u v hu hv := by
    obtain rfl : u = v := Option.some.inj (hu.symm.trans hv)
    exact .refl _

omit [DecidableEq Key] [Inhabited Key] in
theorem Aligned.progress {ks : List Nat} (h : Aligned l w) (hp : Progress ks w w') : Aligned l w' where
  length := hp.length.trans h.length
  same k u v hu hv := by
    have hlt : k < w.validatorList.validators.length := by
      rw [← hp.length]
      exact (List.getElem?_eq_some_iff.1 hv).1
    obtain ⟨v', hv', hs, -⟩ := hp.entry k _ (List.getElem?_eq_getElem hlt)
    obtain rfl : v = v' := Option.some.inj (hv.symm.trans hv')
    exact (h.same k u _ hu (List.getElem?_eq_getElem hlt)).trans hs

omit [Inhabited Key] in
theorem UpdateValidatorListBalanceAccounts.Ok.progress {a : UpdateValidatorListBalanceAccounts Key} {start : Nat}
    {pre slice post slice' : List (ValidatorStakeInfo Key)} {ks : List Nat}
    (h : a.Ok rt w w' start noMerge pre slice post slice')
    (hn : ∀ (k : Nat) v, w.validatorList.validators[k]? = some v → (Names rt a start k v ↔ k ∈ ks)) :
    Progress ks w w' := by
  have hslice := updateEntries_length h.entries
  refine ⟨by rw [h.result], ?_, fun k v hv => ?_⟩
  · rw [congrArg World.validatorList h.result, h.list]
    simp only [List.length_append]
    omega
  obtain ⟨v', hv', hsame, hcase⟩ := h.get hv
  refine ⟨v', hv', hsame, fun hk => ?_, fun hk => ?_⟩
  · exact (hcase.resolve_right fun hnot => hnot.1 ((hn k v hv).2 hk)).2
  · exact (hcase.resolve_left fun hnames => hk ((hn k v hv).1 hnames.1)).2

/-- What a chunk's instruction does to a list whose entries have the stake accounts of those that it was
built from. -/
theorem chunkInstruction_progress (hal : Aligned l w)
    (h : (chunkInstruction rt stakeHistoryId rt.programId rt.stakePoolAddress stakePool l noMerge i).execute rt w =
      .ok w') :
    Progress (List.range' (i * maxValidatorsToUpdate)
      (min maxValidatorsToUpdate (l.validators.length - i * maxValidatorsToUpdate))) w w' := by
  obtain ⟨a, rest, hp, pre, slice, post, slice', hok⟩ := processUpdateValidatorListBalance_ok h
  have hrest : a.validatorStakeAccounts = (Chunks.chunk maxValidatorsToUpdate i l.validators).flatMap
      (entryAccounts rt rt.programId rt.stakePoolAddress) := parse_rest hp
  refine hok.progress fun k v hv => ⟨?_, fun hk => ?_⟩
  · -- there are no accounts for others
    rintro ⟨hle, info, hinfo, -⟩
    refine List.mem_range'_1.2 ⟨hle, ?_⟩
    rw [hrest, pairs_entryAccounts] at hinfo
    have := (List.getElem?_eq_some_iff.1 hinfo).1
    rw [List.length_map, Chunks.length_chunk] at this
    omega
  · -- the accounts at its place are its own
    have hlt : k < l.validators.length := by
      rw [← hal.length]
      exact (List.getElem?_eq_some_iff.1 hv).1
    have hv₀ := List.getElem?_eq_getElem hlt
    have hs := hal.same k _ v hv₀ hv
    refine ⟨(List.mem_range'_1.1 hk).1, (.writable (rt.validatorStake l.validators[k]),
      .writable (rt.transientStake l.validators[k])), ?_, (rt.validatorStake_congr hs.vote hs.seed).symm,
      (rt.transientStake_congr hs.vote hs.transientSeed).symm⟩
    rw [hrest, pairs_entryAccounts, List.getElem?_map, getElem?_chunk hk hv₀]
    rfl

omit [DecidableEq Key] [Inhabited Key] in
theorem Progress.refl (w : World Key) : Progress [] w w :=
  ⟨rfl, rfl, fun _ v hv => ⟨v, hv, .refl v, fun hk => absurd hk List.not_mem_nil, fun _ => rfl⟩⟩

omit [DecidableEq Key] [Inhabited Key] in
theorem Progress.trans {w₁ : World Key} {ks ks' : List Nat} (h : Progress ks w w₁) (h' : Progress ks' w₁ w') :
    Progress (ks ++ ks') w w' := by
  refine ⟨h'.sysvars.trans h.sysvars, h'.length.trans h.length, fun k v hv => ?_⟩
  obtain ⟨v₁, hv₁, hs₁, hin₁, hout₁⟩ := h.entry k v hv
  obtain ⟨v₂, hv₂, hs₂, hin₂, hout₂⟩ := h'.entry k v₁ hv₁
  rw [h.sysvars] at hin₂
  rw [List.mem_append]
  refine ⟨v₂, hv₂, hs₁.trans hs₂, fun hk => ?_, fun hk => ?_⟩
  · by_cases hk₂ : k ∈ ks'
    · exact hin₂ hk₂
    · rw [hout₂ hk₂]
      exact hin₁ (hk.resolve_right hk₂)
  · rw [hout₂ fun h => hk (.inr h), hout₁ fun h => hk (.inl h)]

theorem executeAll_progress {instrs : List (Instruction Key)}
    (hi : ∀ ins ∈ instrs, ∃ i, ins =
      chunkInstruction rt stakeHistoryId rt.programId rt.stakePoolAddress stakePool l noMerge i)
    (hal : Aligned l w) (h : executeAll rt w instrs = .ok w') :
    Progress (instrs.flatMap Instruction.indices) w w' := by
  induction instrs generalizing w with
  | nil =>
    cases h
    exact .refl _
  | cons ins instrs ih =>
    simp only [executeAll, bind_eq_ok] at h
    obtain ⟨w₁, h₁, h⟩ := h
    obtain ⟨i, rfl⟩ := hi ins (by simp)
    have hp := chunkInstruction_progress hal h₁
    have hq := ih (fun ins hins => hi ins (by simp [hins])) (hal.progress hp) h
    rw [List.flatMap_cons, indices_chunkInstruction]
    exact hp.trans hq

omit [DecidableEq Key] [Inhabited Key] in
theorem sumStakeLamports_avoids {epoch n : Nat} {vs : List (ValidatorStakeInfo Key)}
    (h : ∀ v ∈ vs, epoch ≤ v.lastUpdateEpoch) :
    Avoids (.custom .stakeListOutOfDate) (sumStakeLamports epoch n vs) := by
  induction vs generalizing n with
  | nil => exact .ok
  | cons v vs ih =>
    rw [sumStakeLamports, ensure_of (h v (by simp)), ok_bind]
    exact .bind (.orErr (by decide)) fun _ _ => .bind (.orErr (by decide)) fun _ _ =>
      ih fun u hu => h u (by simp [hu])

omit [Inhabited Key] in
theorem epochFeeToMint_avoids {p : StakePool Key} {accounts : Accounts Key} {info : AccountInfo Key}
    {reward : Nat} : Avoids (.custom .stakeListOutOfDate) (p.epochFeeToMint rt accounts info reward) := by
  unfold StakePool.epochFeeToMint
  split
  · exact .orErr (by decide)
  · exact .ok

/-- Every entry is up to date, so that no update of the pool finds the list out of date. -/
structure UpToDate (rt : Runtime Key) (w : World Key) : Prop where
  entries : ∀ v ∈ w.validatorList.validators, w.sysvars.epoch ≤ v.lastUpdateEpoch
  /-- Only the token program could return this error. -/
  avoids : (∀ mint dst auth n,
      Avoids (.custom .stakeListOutOfDate) (tokenMintTo rt w.accounts mint dst auth n)) →
    ∀ accounts, Avoids (.custom .stakeListOutOfDate) (process rt w accounts .updateStakePoolBalance)

theorem UpToDate.of_entries (h : ∀ v ∈ w.validatorList.validators, w.sysvars.epoch ≤ v.lastUpdateEpoch) :
    UpToDate rt w := by
  have he : ProgramError.custom .stakeListOutOfDate ∉ checkErrors := by decide
  refine ⟨h, fun hm accounts => .bind ?_ fun _ _ => UpdateStakePoolBalanceAccounts.process_avoids he ?_
    (fun _ _ => ⟨sumStakeLamports_avoids h, fun _ _ => epochFeeToMint_avoids⟩) hm⟩
  · have he : (ProgramError.notEnoughAccountKeys) ≠ .custom .stakeListOutOfDate := by decide
    exact nextAccountInfo_avoids he fun _ _ => nextAccountInfo_avoids he fun _ _ => nextAccountInfo_avoids he
      fun _ _ => nextAccountInfo_avoids he fun _ _ => nextAccountInfo_avoids he fun _ _ =>
      nextAccountInfo_avoids he fun _ _ => nextAccountInfo_avoids he fun _ _ => .ok
  · refine .bind (orErr_avoids he (by decide)) fun s _ => ?_
    cases s with
    | initialized m => exact .orErr (by decide)
    | _ => exact error_avoids he (by decide)

variable (rt stakeHistoryId stakePool l noMerge) in
omit [DecidableEq Key] [Inhabited Key] in
theorem indices_all : ((List.range (Chunks.count maxValidatorsToUpdate l.validators)).map
    (chunkInstruction rt stakeHistoryId rt.programId rt.stakePoolAddress stakePool l noMerge)).flatMap
      Instruction.indices = List.range l.validators.length := by
  rw [List.flatMap_map]
  simp only [indices_chunkInstruction]
  rw [Chunks.flatMap_ranges, Nat.min_eq_right (Chunks.le_count_mul (by decide) _)]

omit [DecidableEq Key] [Inhabited Key] in
/-- The chunks with a stale entry are for every stale entry. -/
theorem indices_stale {epoch : Nat} {v : ValidatorStakeInfo Key} (hv : l.validators[k]? = some v)
    (hs : v.lastUpdateEpoch < epoch) :
    k ∈ (((List.range (Chunks.count maxValidatorsToUpdate l.validators)).filter (staleChunk l epoch)).map
      (chunkInstruction rt stakeHistoryId rt.programId rt.stakePoolAddress stakePool l noMerge)).flatMap
        Instruction.indices := by
  have hlt : k ∈ List.range l.validators.length := List.mem_range.2 (List.getElem?_eq_some_iff.1 hv).1
  rw [← indices_all rt stakeHistoryId stakePool l noMerge, List.flatMap_map] at hlt
  obtain ⟨i, hi, hk⟩ := List.mem_flatMap.1 hlt
  rw [List.flatMap_map]
  refine List.mem_flatMap.2 ⟨i, List.mem_filter.2 ⟨hi, ?_⟩, hk⟩
  rw [indices_chunkInstruction] at hk
  exact List.any_eq_true.2 ⟨v, List.mem_of_getElem? (getElem?_chunk hk hv), by simpa using hs⟩

omit [DecidableEq Key] [Inhabited Key] in
theorem indices_sublist {p : Nat → Bool} :
    ((((List.range (Chunks.count maxValidatorsToUpdate l.validators)).filter p).map
      (chunkInstruction rt stakeHistoryId rt.programId rt.stakePoolAddress stakePool l noMerge)).flatMap
        Instruction.indices).Sublist (List.range l.validators.length) := by
  rw [← indices_all rt stakeHistoryId stakePool l noMerge]
  exact (List.filter_sublist.map _).flatMap _

/-- The instructions of some chunks, among them those of every stale entry, in any order. -/
theorem executeAll_upToDate {is : List Nat} {order : List (Instruction Key)}
    (ho : order.Perm (is.map
      (chunkInstruction rt stakeHistoryId rt.programId rt.stakePoolAddress stakePool w.validatorList noMerge)))
    (hs : ∀ (k : Nat) v, w.validatorList.validators[k]? = some v → v.lastUpdateEpoch < w.sysvars.epoch →
      k ∈ (is.map (chunkInstruction rt stakeHistoryId rt.programId rt.stakePoolAddress stakePool
        w.validatorList noMerge)).flatMap Instruction.indices)
    (h : executeAll rt w order = .ok w') : UpToDate rt w' := by
  have hp := executeAll_progress (fun ins hins => by
    obtain ⟨i, -, rfl⟩ := List.mem_map.1 (ho.mem_iff.1 hins)
    exact ⟨i, rfl⟩) (Aligned.refl w) h
  refine .of_entries fun v' hv' => ?_
  obtain ⟨k, hk⟩ := List.getElem?_of_mem hv'
  have hlt : k < w.validatorList.validators.length := by
    rw [← hp.length]
    exact (List.getElem?_eq_some_iff.1 hk).1
  obtain ⟨u, hu, -, hin, hout⟩ := hp.entry k _ (List.getElem?_eq_getElem hlt)
  obtain rfl : v' = u := Option.some.inj (hk.symm.trans hu)
  rw [hp.sysvars]
  by_cases hc : k ∈ order.flatMap Instruction.indices
  · exact (hin hc).ge
  · rw [hout hc]
    by_contra hlt'
    refine hc ?_
    rw [(ho.flatMap_right _).mem_iff]
    exact hs k _ (List.getElem?_eq_getElem hlt) (Nat.lt_of_not_le hlt')

/-- The instructions of an update partition the list, those of an update of what is stale are for every
stale entry once, and all give each entry its own stake accounts. In any order they leave every entry up to
date. The builders do not fail on a list whose indices fit into 32 bits. -/
theorem update_instructions_cover (stakeHistoryId : Key) (noMerge : Bool)
    (hlen : w.validatorList.validators.length < 2 ^ 64) :
    (w.validatorList.validators.length ≤ 2 ^ 32 → ∀ epoch,
      (updateStakePool rt stakeHistoryId rt.programId w.stakePool w.validatorList rt.stakePoolAddress
        noMerge).isSome ∧
      (updateStaleStakePool rt stakeHistoryId rt.programId w.stakePool w.validatorList rt.stakePoolAddress
        noMerge epoch).isSome) ∧
    (∀ instrs finals, updateStakePool rt stakeHistoryId rt.programId w.stakePool w.validatorList
        rt.stakePoolAddress noMerge = some (instrs, finals) →
      instrs.flatMap Instruction.indices = List.range w.validatorList.validators.length ∧
      (∀ ins ∈ instrs, ins.Faithful rt w.validatorList noMerge) ∧
      ∀ order w', order.Perm instrs → executeAll rt w order = .ok w' → UpToDate rt w') ∧
    (∀ epoch instrs finals, updateStaleStakePool rt stakeHistoryId rt.programId w.stakePool w.validatorList
        rt.stakePoolAddress noMerge epoch = some (instrs, finals) →
      (instrs.flatMap Instruction.indices).Sublist (List.range w.validatorList.validators.length) ∧
      (∀ (k : Nat) v, w.validatorList.validators[k]? = some v → v.lastUpdateEpoch < epoch →
        k ∈ instrs.flatMap Instruction.indices) ∧
      (∀ ins ∈ instrs, ins.Faithful rt w.validatorList noMerge) ∧
      ∀ order w', w.sysvars.epoch = epoch → order.Perm instrs → executeAll rt w order = .ok w' →
        UpToDate rt w') := by
  refine ⟨fun h _ => updateStakePool_isSome h, fun instrs finals h => ?_, fun epoch instrs finals h => ?_⟩
  · obtain rfl := updateStakePool_eq_some hlen h
    refine ⟨indices_all _ _ _ _ _, fun ins hins => ?_, fun order w' ho hx =>
      executeAll_upToDate ho (fun k v hv _ => ?_) hx⟩
    · obtain ⟨i, -, rfl⟩ := List.mem_map.1 hins
      exact faithful_chunkInstruction
    · rw [indices_all]
      exact List.mem_range.2 (List.getElem?_eq_some_iff.1 hv).1
  · obtain rfl := updateStaleStakePool_eq_some hlen h
    refine ⟨indices_sublist, fun k v hv hs => indices_stale hv hs, fun ins hins => ?_,
      fun order w' he ho hx => executeAll_upToDate ho (fun k v hv hs => ?_) hx⟩
    · obtain ⟨i, -, rfl⟩ := List.mem_map.1 hins
      exact faithful_chunkInstruction
    · exact indices_stale hv (he ▸ hs)

section
open Reference

/-- A pool with a validator, in the next epoch. -/
def stale : World Reference.Key := after joined [.advanceEpoch 11 false (fun _ => none)]

theorem update_instructions_cover_stale : ∃ instrs finals w',
    updateStaleStakePool runtime (wallet 9) runtime.programId stale.stakePool stale.validatorList
      runtime.stakePoolAddress false 11 = some (instrs, finals) ∧
    executeAll runtime stale instrs = .ok w' ∧ UpToDate runtime w' := by
  have hlen : stale.validatorList.validators.length < 2 ^ 64 := by decide +kernel
  have hx : ((updateStaleStakePool runtime (wallet 9) runtime.programId stale.stakePool stale.validatorList
      runtime.stakePoolAddress false 11).bind fun r => (executeAll runtime stale r.1).toOption).isSome := by
    decide +kernel
  obtain ⟨hsome, -, h⟩ : _ ∧ _ ∧ _ := update_instructions_cover (wallet 9) false hlen
  obtain ⟨⟨instrs, finals⟩, hu⟩ := Option.isSome_iff_exists.1 (hsome (by decide +kernel) 11).2
  rw [hu] at hx
  obtain ⟨w', hw⟩ := Option.isSome_iff_exists.1 hx
  have hw := toOption_eq_some.1 hw
  exact ⟨instrs, finals, w', hu, hw, (h 11 instrs finals hu).2.2.2 instrs w' (by decide +kernel) (.refl _) hw⟩

end

end SplStakePool
