import SplStakePool.Invariant.Cpi

/-!
# What an `UpdateValidatorListBalance` has done

An update is a loop over a slice of the list, zipped with pairs of accounts. `Ok.get` says what becomes of the entry at
a place: it is refreshed if its own accounts are there, kept if others are, and kept if the place is outside of the
slice. So the loop is only looked at once; what a refresh does is a matter of one entry and its accounts.
-/

namespace SplStakePool
open Exec Machine

variable {Key : Type} [DecidableEq Key] {rt : Runtime Key} {w w' : World Key}
  {accounts : List (AccountInfo Key)}

/-- Two states of an entry, which has the same stake accounts in both. -/
structure SameAccounts (v v' : ValidatorStakeInfo Key) : Prop where
  vote : v'.voteAccountAddress = v.voteAccountAddress
  seed : v'.validatorSeedSuffix = v.validatorSeedSuffix
  transientSeed : v'.transientSeedSuffix = v.transientSeedSuffix

omit [DecidableEq Key] in
theorem SameAccounts.refl (v : ValidatorStakeInfo Key) : SameAccounts v v := ⟨rfl, rfl, rfl⟩

omit [DecidableEq Key] in
theorem SameAccounts.trans {u v v' : ValidatorStakeInfo Key} (h : SameAccounts u v) (h' : SameAccounts v v') :
    SameAccounts u v' :=
  ⟨h'.vote.trans h.vote, h'.seed.trans h.seed, h'.transientSeed.trans h.transientSeed⟩

namespace UpdateValidatorListBalanceAccounts
variable {a : UpdateValidatorListBalanceAccounts Key} {noMerge : Bool}

/-- A successful update of a slice between two parts of the list that stay. -/
structure Ok (rt : Runtime Key) (w w' : World Key) (a : UpdateValidatorListBalanceAccounts Key)
    (start : Nat) (noMerge : Bool) (pre slice post slice' : List (ValidatorStakeInfo Key)) : Prop where
  poolKey : a.stakePoolInfo.key = rt.stakePoolAddress
  authority : w.stakePool.checkAuthorityWithdraw rt a.withdrawAuthorityInfo.key rt.programId
    a.stakePoolInfo.key = .ok ()
  reserveKey : a.reserveStakeInfo.key = w.stakePool.reserveStake
  rewards : w.sysvars.epochRewardsActive = false
  start_eq : pre.length = start
  length : slice.length = a.validatorStakeAccounts.length / 2
  list : w.validatorList.validators = pre ++ slice ++ post
  entries : a.updateEntries rt w noMerge w.accounts slice (pairs a.validatorStakeAccounts) =
    .ok (w'.accounts, slice')
  result : w' = { w with
    validatorList := { w.validatorList with validators := pre ++ slice' ++ post }
    accounts := w'.accounts }

theorem updateEntries_length {acc acc' : Accounts Key} {vs vs' : List (ValidatorStakeInfo Key)}
    {infos : List (AccountInfo Key × AccountInfo Key)}
    (h : a.updateEntries rt w noMerge acc vs infos = .ok (acc', vs')) : vs'.length = vs.length := by
  induction vs generalizing acc infos vs' with
  | nil => cases h; rfl
  | cons v vs ih =>
    cases infos with
    | nil => cases h; rfl
    | cons info infos =>
      simp only [updateEntries, bind_eq_ok, pure_eq_ok, Prod.mk.injEq] at h
      obtain ⟨⟨acc₁, v'⟩, -, ⟨acc₂, vs''⟩, h, rfl, rfl⟩ := h
      rw [List.length_cons, List.length_cons, ih h]

theorem updateEntries_world (l : ValidatorList Key) (acc₀ acc : Accounts Key) (vs : List (ValidatorStakeInfo Key))
    (infos : List (AccountInfo Key × AccountInfo Key)) :
    a.updateEntries rt { w with validatorList := l, accounts := acc₀ } noMerge acc vs infos =
      a.updateEntries rt w noMerge acc vs infos := by
  have hentry : ∀ acc v va ta, a.updateEntry rt { w with validatorList := l, accounts := acc₀ } noMerge acc v va ta =
      a.updateEntry rt w noMerge acc v va ta := fun _ _ _ _ => rfl
  induction vs generalizing acc infos with
  | nil => rfl
  | cons v vs ih =>
    cases infos with
    | nil => rfl
    | cons info infos => simp only [updateEntries, hentry, ih]

/-- Two accounts that are the stake accounts of an entry. -/
def Own (rt : Runtime Key) (v : ValidatorStakeInfo Key) (info : AccountInfo Key × AccountInfo Key) : Prop :=
  info.1.key = rt.validatorStake v ∧ info.2.key = rt.transientStake v

/-- The accounts given for the entry at a place of the list are its own. -/
def Names (rt : Runtime Key) (a : UpdateValidatorListBalanceAccounts Key) (start k : Nat)
    (v : ValidatorStakeInfo Key) : Prop :=
  start ≤ k ∧ ∃ info ∈ (pairs a.validatorStakeAccounts)[k - start]?, Own rt v info

theorem updateEntry_skip (hpool : a.stakePoolInfo.key = rt.stakePoolAddress) {acc : Accounts Key}
    {v : ValidatorStakeInfo Key} {va ta : AccountInfo Key} (ho : ¬ Own rt v (va, ta)) :
    a.updateEntry rt w noMerge acc v va ta = .ok (acc, v) := by
  have hvk : (findStakeProgramAddress rt rt.programId v.voteAccountAddress a.stakePoolInfo.key
      (nonZeroU32 v.validatorSeedSuffix)).1 = rt.validatorStake v := by rw [hpool]; rfl
  have htk : (findTransientStakeProgramAddress rt rt.programId v.voteAccountAddress a.stakePoolInfo.key
      v.transientSeedSuffix).1 = rt.transientStake v := by rw [hpool]; rfl
  simp only [updateEntry, hvk, htk]
  split
  · rfl
  rename_i hva
  rw [not_not] at hva
  split
  · rfl
  rename_i hta
  rw [not_not] at hta
  exact absurd ⟨hva.symm, hta.symm⟩ ho

/-- An entry with its own accounts: what is transient is handled first. -/
theorem updateEntry_of_own (hpool : a.stakePoolInfo.key = rt.stakePoolAddress) {acc : Accounts Key}
    {v : ValidatorStakeInfo Key} {va ta : AccountInfo Key} (ho : Own rt v (va, ta)) :
    a.updateEntry rt w noMerge acc v va ta = do
      let (acc₁, status, t) ← a.updateTransient rt w noMerge acc v va ta
      let (acc₂, status', n) ← a.updateValidator rt w noMerge acc₁ status t va
      return (acc₂, { v with
        status := status'
        lastUpdateEpoch := w.sysvars.epoch
        activeStakeLamports := n
        transientStakeLamports := t }) := by
  have hvk : (findStakeProgramAddress rt rt.programId v.voteAccountAddress a.stakePoolInfo.key
      (nonZeroU32 v.validatorSeedSuffix)).1 = va.key := by rw [hpool]; exact ho.1.symm
  have htk : (findTransientStakeProgramAddress rt rt.programId v.voteAccountAddress a.stakePoolInfo.key
      v.transientSeedSuffix).1 = ta.key := by rw [hpool]; exact ho.2.symm
  simp only [updateEntry, hvk, htk, ne_eq, not_true_eq_false, if_false]

theorem updateEntry_own {acc acc' : Accounts Key} (hpool : a.stakePoolInfo.key = rt.stakePoolAddress)
    {v v' : ValidatorStakeInfo Key} {va ta : AccountInfo Key} (ho : Own rt v (va, ta))
    (h : a.updateEntry rt w noMerge acc v va ta = .ok (acc', v')) :
    SameAccounts v v' ∧ v'.lastUpdateEpoch = w.sysvars.epoch := by
  rw [updateEntry_of_own hpool ho] at h
  simp only [bind_eq_ok, pure_eq_ok, Prod.mk.injEq] at h
  obtain ⟨_, -, _, -, -, rfl⟩ := h
  exact ⟨⟨rfl, rfl, rfl⟩, rfl⟩

/-- What becomes of the entry at a place: it is refreshed if its own accounts are there, and kept if not. -/
theorem updateEntries_get (hpool : a.stakePoolInfo.key = rt.stakePoolAddress) {acc acc' : Accounts Key}
    {vs vs' : List (ValidatorStakeInfo Key)} {infos : List (AccountInfo Key × AccountInfo Key)}
    (h : a.updateEntries rt w noMerge acc vs infos = .ok (acc', vs')) {j : Nat} {v : ValidatorStakeInfo Key}
    (hv : vs[j]? = some v) : ∃ v', vs'[j]? = some v' ∧ SameAccounts v v' ∧
      ((∃ info ∈ infos[j]?, Own rt v info) ∧ v'.lastUpdateEpoch = w.sysvars.epoch ∨
        ¬ (∃ info ∈ infos[j]?, Own rt v info) ∧ v' = v) := by
  induction vs generalizing acc infos vs' j with
  | nil => cases hv
  | cons u vs ih =>
    cases infos with
    | nil =>
      cases h
      exact ⟨v, hv, .refl v, .inr ⟨by simp, rfl⟩⟩
    | cons info infos =>
      simp only [updateEntries, bind_eq_ok, pure_eq_ok, Prod.mk.injEq] at h
      obtain ⟨⟨acc₁, u'⟩, hu, ⟨acc₂, vs''⟩, h, rfl, rfl⟩ := h
      cases j with
      | succ j => exact ih h hv
      | zero =>
        cases hv
        refine ⟨u', rfl, ?_⟩
        by_cases ho : Own rt v info
        · obtain ⟨hsame, hepoch⟩ := updateEntry_own hpool ho hu
          exact ⟨hsame, .inl ⟨⟨info, rfl, ho⟩, hepoch⟩⟩
        · rw [updateEntry_skip hpool ho] at hu
          cases hu
          exact ⟨.refl _, .inr ⟨by simpa using ho, rfl⟩⟩

theorem updateEntries_votes {acc acc' : Accounts Key} {vs vs' : List (ValidatorStakeInfo Key)}
    {infos : List (AccountInfo Key × AccountInfo Key)}
    (h : a.updateEntries rt w noMerge acc vs infos = .ok (acc', vs')) :
    vs'.map (·.voteAccountAddress) = vs.map (·.voteAccountAddress) := by
  induction vs generalizing acc infos vs' with
  | nil => cases h; rfl
  | cons v vs ih =>
    cases infos with
    | nil => cases h; rfl
    | cons info infos =>
      simp only [updateEntries, bind_eq_ok, pure_eq_ok, Prod.mk.injEq] at h
      obtain ⟨⟨acc₁, v'⟩, hv, ⟨acc₂, vs''⟩, h, rfl, rfl⟩ := h
      have hvote : v'.voteAccountAddress = v.voteAccountAddress := by
        simp only [updateEntry] at hv
        split at hv
        · cases hv; rfl
        split at hv
        · cases hv; rfl
        simp only [bind_eq_ok, pure_eq_ok, Prod.mk.injEq] at hv
        obtain ⟨_, -, _, -, -, rfl⟩ := hv
        rfl
      rw [List.map_cons, List.map_cons, ih h, hvote]

theorem length_pairs {α : Type} : ∀ l : List α, (pairs l).length = l.length / 2
  | [] | [_] => by simp [pairs]
  | _ :: _ :: l => by
    simp only [pairs, List.length_cons, length_pairs l]
    omega

theorem Ok.get {start : Nat} {pre slice post slice' : List (ValidatorStakeInfo Key)}
    (h : a.Ok rt w w' start noMerge pre slice post slice') {k : Nat} {v : ValidatorStakeInfo Key}
    (hv : w.validatorList.validators[k]? = some v) : ∃ v', w'.validatorList.validators[k]? = some v' ∧
      SameAccounts v v' ∧
      (Names rt a start k v ∧ v'.lastUpdateEpoch = w.sysvars.epoch ∨ ¬ Names rt a start k v ∧ v' = v) := by
  have hlen := updateEntries_length h.entries
  have hstart := h.start_eq
  rw [congrArg World.validatorList h.result]
  rw [h.list] at hv
  dsimp only
  by_cases hk : k < start
  · -- before the slice
    rw [List.append_assoc, List.getElem?_append_left (by omega)] at hv ⊢
    exact ⟨v, hv, .refl v, .inr ⟨fun hn => absurd hn.1 (by omega), rfl⟩⟩
  by_cases hk' : k < start + slice.length
  · rw [List.append_assoc, List.getElem?_append_right (by omega), List.getElem?_append_left (by omega),
      hstart] at hv ⊢
    obtain ⟨v', hv', hsame, hcase⟩ := updateEntries_get h.poolKey h.entries hv
    refine ⟨v', hv', hsame, ?_⟩
    rcases hcase with ⟨hn, he⟩ | ⟨hn, he⟩
    · exact .inl ⟨⟨by omega, hn⟩, he⟩
    · exact .inr ⟨fun hn' => hn hn'.2, he⟩
  · -- behind it
    rw [List.getElem?_append_right (by simp; omega)] at hv ⊢
    rw [List.length_append] at hv ⊢
    refine ⟨v, by rwa [hlen], .refl v, .inr ⟨?_, rfl⟩⟩
    rintro ⟨-, info, hi, -⟩
    have := (List.getElem?_eq_some_iff.1 hi).1
    rw [length_pairs, ← h.length] at this
    omega

/-- The checks before the loop. They do not look at the entries or at the accounts. -/
structure Admits (rt : Runtime Key) (p : StakePool Key) (sys : Sysvars) (header : ValidatorListHeader)
    (a : UpdateValidatorListBalanceAccounts Key) : Prop where
  poolKey : a.stakePoolInfo.key = rt.stakePoolAddress
  valid : p.isValid
  list : p.checkValidatorList a.validatorListInfo = .ok ()
  authority : p.checkAuthorityWithdraw rt a.withdrawAuthorityInfo.key rt.programId a.stakePoolInfo.key = .ok ()
  reserveKey : a.reserveStakeInfo.key = p.reserveStake
  stakeProgram : checkStakeProgram rt a.stakeProgramInfo.key = .ok ()
  rewards : sys.epochRewardsActive = false
  even : a.validatorStakeAccounts.length % 2 = 0
  listKey : a.validatorListInfo.key = rt.validatorListAddress
  header : header.isValid

/-- An update is its loop on a slice, if the checks pass. -/
theorem process_eq_ok {start : Nat} : a.process rt w start noMerge = .ok w' ↔
    Admits rt w.stakePool w.sysvars w.validatorList.header a ∧ ∃ slice acc slice',
      BigVec.deserializeSlice w.validatorList.validators start (a.validatorStakeAccounts.length / 2) =
        .ok slice ∧
      a.updateEntries rt w noMerge w.accounts slice (pairs a.validatorStakeAccounts) = .ok (acc, slice') ∧
      w' = { w with
        validatorList := { w.validatorList with
          validators := BigVec.writeSlice w.validatorList.validators start slice' }
        accounts := acc } := by
  simp only [process, bind_eq_ok, ensure_eq_ok, exists_unit, pure_eq_ok, World.validStakePool_eq_ok,
    World.readValidatorList_eq_ok, StakePool.checkReserveStake, Bool.not_eq_true, checkAccountOwner]
  constructor
  · rintro ⟨p, ⟨hk, hv, rfl⟩, hlist, hauth, hrk, hprog, hrew, heven, -, l, ⟨hlk, rfl⟩, slice, hs, hh,
      ⟨acc, slice'⟩, hu, rfl⟩
    exact ⟨⟨hk, hv, hlist, hauth, hrk, hprog, hrew, heven, hlk, hh⟩, slice, acc, slice', hs, hu, rfl⟩
  · rintro ⟨h, slice, acc, slice', hs, hu, rfl⟩
    exact ⟨w.stakePool, ⟨h.poolKey, h.valid, rfl⟩, h.list, h.authority, h.reserveKey, h.stakeProgram, h.rewards,
      h.even, by simp [ownerOf, h.listKey], w.validatorList, ⟨h.listKey, rfl⟩, slice, hs, h.header,
      ⟨acc, slice'⟩, hu, rfl⟩

theorem process_ok {start : Nat} (h : a.process rt w start noMerge = .ok w') :
    ∃ pre slice post slice', a.Ok rt w w' start noMerge pre slice post slice' := by
  obtain ⟨hadm, slice, acc, slice', hs, hu, rfl⟩ := process_eq_ok.1 h
  have hlen := (BigVec.length_of_deserialize hs).1
  obtain ⟨pre, post, hpre, hl, hw⟩ := BigVec.writeSlice_of_deserialize hs (updateEntries_length hu)
  exact ⟨pre, slice, post, slice', hadm.poolKey, hadm.authority, hadm.reserveKey, hadm.rewards, hpre, hlen, hl,
    hu, by rw [hw]⟩

end UpdateValidatorListBalanceAccounts

theorem processUpdateValidatorListBalance_ok {start : Nat} {noMerge : Bool}
    (h : processUpdateValidatorListBalance rt w accounts start noMerge = .ok w') :
    ∃ a rest, (UpdateValidatorListBalanceAccounts.parse rt).run accounts = .ok (a, rest) ∧
      ∃ pre slice post slice', a.Ok rt w w' start noMerge pre slice post slice' := by
  simp only [processUpdateValidatorListBalance, bind_eq_ok] at h
  obtain ⟨⟨a, rest⟩, hp, h⟩ := h
  exact ⟨a, rest, hp, a.process_ok h⟩

end SplStakePool
