import SplStakePool.Layout.Cleanup
import SplStakePool.Properties.ListViews
import SplStakePool.Properties.Persistence
import SplStakePool.Spec.UpdatePool

/-!
# Cleanup is a filter and a repair

What `CleanupRemovedValidatorEntries` does to the bytes of the list and of the pool, for any bytes on which
it succeeds: entries that are removed are taken out of the list, and preferred validators are kept when they
are active entries of it. Bytes on which it succeeds are those of a list (`exists_list`); from there the
operations of `BigVec` are those on its entries.

The tests that the instruction makes are on the bytes of an entry, and have to be shown to be those on the entry. That
the list is shorter afterwards and its account is not is what the bytes behind it are about.
-/

namespace SplStakePool
open Borsh BigVec Exec

/-! ## The list in its account -/

theorem AccountType.deserialize_eq_some {data rest : List UInt8} {t : AccountType}
    (h : AccountType.deserialize data = some (t, rest)) : data = t.toU8 :: rest := by
  obtain ⟨tag, mid, hu, ht⟩ := bind_eq_some.1 h
  cases data with
  | nil => cases hu
  | cons b data =>
    cases hu
    split at ht
    · rename_i h0
      cases ht
      rw [h0]
      rfl
    split at ht
    · rename_i h1
      cases ht
      rw [h1]
      rfl
    split at ht
    · rename_i h2
      cases ht
      rw [h2]
      rfl
    · cases ht

theorem ValidatorListHeader.deserializeVec_eq_some {data vec : List UInt8} {header : ValidatorListHeader}
    (h : deserializeVec data = some (header, vec)) :
    data = header.bytes ++ vec ∧ header.maxValidators < 2 ^ 32 := by
  obtain ⟨x, hx, h⟩ := Option.bind_eq_some_iff.1 h
  obtain ⟨⟨_, rest⟩, hd, rfl⟩ := Option.map_eq_some_iff.1 hx
  obtain ⟨t, mid, ht, hd⟩ := bind_eq_some.1 hd
  obtain ⟨n, mid', hn, hd⟩ := bind_eq_some.1 hd
  cases hd
  cases h
  obtain rfl := AccountType.deserialize_eq_some ht
  obtain ⟨rfl, hlt⟩ := uint_eq_some hn
  exact ⟨rfl, hlt⟩

theorem exists_entries {elems : List (List UInt8)} (h : ∀ e ∈ elems, e.length = ValidatorStakeInfo.size) :
    ∃ vs : List PodValidatorStakeInfo, vs.map (·.serialize) = elems := by
  induction elems with
  | nil => exact ⟨[], rfl⟩
  | cons e elems ih =>
    obtain ⟨v, hv⟩ := PodValidatorStakeInfo.exists_serialize (h e (by simp))
    obtain ⟨vs, hvs⟩ := ih fun x hx => h x (by simp [hx])
    exact ⟨v :: vs, by rw [List.map_cons, hv, hvs]⟩

/-- A header with a vector of entries behind it are a list. -/
theorem exists_list {data vec tail : List UInt8} {elems : List (List UInt8)} {header : ValidatorListHeader}
    (h : ValidatorListHeader.deserializeVec data = some (header, vec))
    (ht : Raw.Holds ValidatorStakeInfo.size elems tail vec) :
    ∃ l : PodValidatorList, l.header = header ∧ vec = l.vec tail ∧ data = l.serialize ++ tail := by
  obtain ⟨hdata, hlt⟩ := ValidatorListHeader.deserializeVec_eq_some h
  obtain ⟨vs, rfl⟩ := exists_entries ht.sizes
  have hcount := ht.count
  rw [List.length_map] at hcount
  have hvec : vec = PodValidatorList.vec ⟨header, vs, hlt, hcount⟩ tail := ht.layout
  refine ⟨⟨header, vs, hlt, hcount⟩, rfl, hvec, ?_⟩
  rw [PodValidatorList.serialize_split, ← hvec, hdata]

namespace PodValidatorList

/-- The list as the program works with it. -/
def list (l : PodValidatorList) : ValidatorList Pubkey where
  header := l.header
  validators := l.validators.map (·.info)

/-- The list without the entries that are removed. -/
def cleaned (l : PodValidatorList) : PodValidatorList where
  header := l.header
  validators := l.validators.filter fun v => !v.info.isRemoved
  maxValidators_lt := l.maxValidators_lt
  length_lt := (List.length_filter_le _ _).trans_lt l.length_lt

/-- The lamports that the entries record. -/
def recordedStake (l : PodValidatorList) : Nat :=
  (l.validators.map fun v => v.activeStakeLamports.toNat + v.transientStakeLamports.toNat).sum

/-- The entry that the list has for a vote account is active. -/
def HasActive (l : PodValidatorList) (vote : Pubkey) : Prop :=
  ∃ v, l.find vote = some v ∧ v.status = StakeStatus.active.pod

theorem length_serialize (l : PodValidatorList) :
    l.serialize.length = ValidatorListHeader.len + vecSizeBytes + l.validators.length * ValidatorStakeInfo.size := by
  have h := congrArg List.length (l.serialize_split [])
  rw [List.append_nil, List.length_append, (l.holds []).length, ValidatorListHeader.length_bytes, elements,
    List.length_map] at h
  rw [h, List.length_nil]
  omega

/-- Entries that are removed record nothing. -/
theorem recordedStake_cleaned (l : PodValidatorList) : l.cleaned.recordedStake = l.recordedStake := by
  show ((l.validators.filter _).map _).sum = (l.validators.map _).sum
  induction l.validators with
  | nil => rfl
  | cons v vs ih =>
    by_cases h : v.info.isRemoved
    · have hz : v.activeStakeLamports.toNat = 0 ∧ v.transientStakeLamports.toNat = 0 := by
        have := of_decide_eq_true h
        exact this.2
      rw [List.filter_cons_of_neg (by simp [h]), ih, List.map_cons, List.sum_cons, hz.1, hz.2, Nat.zero_add]
    · rw [List.filter_cons_of_pos (by simp [h]), List.map_cons, List.map_cons, List.sum_cons, List.sum_cons, ih]

theorem HasActive.cleaned {l : PodValidatorList} {vote : Pubkey} (h : l.HasActive vote) :
    l.cleaned.HasActive vote := by
  obtain ⟨v, hv, hs⟩ := h
  refine ⟨v, ?_, hs⟩
  have hkeep : (!v.info.isRemoved) = true := by
    have hbyte : v.info.status.byte = 0 := by
      show v.status.byte = 0
      rw [hs]
      rfl
    simp [ValidatorStakeInfo.isRemoved, hbyte, StakeStatus.fromU8]
  obtain ⟨hp, pre, post, heq, hpre, -⟩ := find?_split hv
  show ((l.validators.filter fun v => !v.info.isRemoved).find? _) = some v
  have hcut : ((v :: post).filter fun v => !v.info.isRemoved) = v :: post.filter fun v => !v.info.isRemoved :=
    List.filter_cons_of_pos hkeep
  rw [heq, List.filter_append, hcut, List.find?_append]
  have hnone : (pre.filter fun v => !v.info.isRemoved).find? (·.voteAccountAddress = vote) = none :=
    List.find?_eq_none.2 fun x hx => hpre x (List.mem_filter.1 hx).1
  rw [hnone, Option.none_or]
  exact List.find?_cons_of_pos hp

end PodValidatorList

/-! ## The preferred validators -/

theorem PodStakeStatus.status_eq_active {s : PodStakeStatus} :
    s.status = .ok .active ↔ s = StakeStatus.active.pod := by
  rw [status, orErr_eq_ok]
  constructor
  · intro h
    unfold StakeStatus.fromU8 at h
    split at h
    · rename_i h0
      cases s
      exact congrArg PodStakeStatus.mk h0
    · split_ifs at h <;> cases h
  · rintro rfl
    rfl

namespace CleanupBytes
variable {l : PodValidatorList} {rest : List UInt8}

theorem keepPreferred_eq (l : PodValidatorList) (rest : List UInt8) (preferred : Option Pubkey) :
    ∃ kept, keepPreferred (l.vec rest) preferred = some kept ∧
      ∀ k, kept = some k ↔ preferred = some k ∧ l.HasActive k := by
  cases preferred with
  | none =>
    refine ⟨none, rfl, fun k => ⟨fun hk => ?_, fun hk => hk.1⟩⟩
    cases hk
  | some vote =>
    have hfind : Raw.find ValidatorStakeInfo.size (ValidatorStakeInfo.memcmpPubkeyBytes vote.bytes) (l.vec rest) =
        some ((l.find vote).map (·.serialize)) := l.find_bytes fun v _ => v.memcmpPubkeyBytes_eq vote
    rw [keepPreferred, hfind, Option.bind_eq_bind, Option.bind_some]
    cases hv : l.find vote with
    | none =>
      refine ⟨none, rfl, fun k => ⟨fun hk => (by cases hk), fun ⟨hk, v, hv', _⟩ => ?_⟩⟩
      cases hk
      rw [hv] at hv'
      cases hv'
    | some v =>
      simp only [Option.map_some, v.fromBytes_serialize, Option.bind_eq_bind, Option.bind_some]
      have hactive : ∀ k, some vote = some k ∧ l.HasActive k → v.status = StakeStatus.active.pod := by
        rintro k ⟨hk, v', hv', hs⟩
        cases hk
        rw [hv] at hv'
        cases hv'
        exact hs
      split
      · rename_i hs
        refine ⟨some vote, rfl, fun k => ⟨fun hk => ⟨hk, v, ?_, PodStakeStatus.status_eq_active.1 hs⟩, fun hk => hk.1⟩⟩
        cases hk
        exact hv
      · rename_i hs
        refine ⟨none, rfl, fun k => ⟨fun hk => (by cases hk), fun hk => ?_⟩⟩
        exact absurd (PodStakeStatus.status_eq_active.2 (hactive k hk)) hs

variable {programId : Pubkey} {stakePoolInfo validatorListInfo : ProgramAccountInfo} {s s' : StoredStakePool}
  {header : ValidatorListHeader} {vec poolData listData : List UInt8}

theorem check_eq_ok : check programId stakePoolInfo validatorListInfo = .ok (s, header, vec) ↔
    programId = stakePoolInfo.owner ∧ StoredStakePool.read stakePoolInfo.data = some s ∧ s.pool.isValid ∧
      validatorListInfo.key = s.pool.validatorList ∧ programId = validatorListInfo.owner ∧
      ValidatorListHeader.deserializeVec validatorListInfo.data = some (header, vec) ∧ header.isValid := by
  simp only [check, bind_eq_ok, exists_unit, ensure_eq_ok, orErr_eq_ok, pure_eq_ok]
  constructor
  · rintro ⟨ho, s, hs, hv, hk, ho', ⟨header, vec⟩, hd, hh, heq⟩
    cases heq
    exact ⟨ho, hs, hv, hk, ho', hd, hh⟩
  · rintro ⟨ho, hs, hv, hk, ho', hd, hh⟩
    exact ⟨ho, s, hs, hv, hk, ho', (header, vec), hd, hh, rfl⟩

/-- The pool that is left: where its account can be written, the preferred validators that are active are kept. -/
def Repaired (writable : Bool) (l : PodValidatorList) (s s' : StoredStakePool) : Prop :=
  if writable then
    ∃ preferredDeposit preferredWithdraw, s' = s.withPreferred preferredDeposit preferredWithdraw ∧
      (∀ k, preferredDeposit = some k ↔
        s.pool.preferredDepositValidatorVoteAddress = some k ∧ l.HasActive k) ∧
      ∀ k, preferredWithdraw = some k ↔
        s.pool.preferredWithdrawValidatorVoteAddress = some k ∧ l.HasActive k
  else s' = s

theorem repair_ok (hs : StoredStakePool.read stakePoolInfo.data = some s)
    (h : repair stakePoolInfo s (l.vec rest) = some (.ok poolData)) :
    ∃ s', StoredStakePool.read poolData = some s' ∧ Repaired stakePoolInfo.isWritable l s s' ∧
      (stakePoolInfo.isWritable → ∃ behind, poolData = s'.serialize ++ behind) ∧
      (¬ stakePoolInfo.isWritable → poolData = stakePoolInfo.data) := by
  unfold repair at h
  split at h <;> rename_i hw
  · obtain ⟨deposit, hd, h⟩ := Option.bind_eq_some_iff.1 h
    obtain ⟨withdraw, hwd, h⟩ := Option.bind_eq_some_iff.1 h
    have hwrite := orErr_eq_ok.1 (Option.some.inj h)
    obtain ⟨d, hd', hdeposit⟩ := keepPreferred_eq l rest s.pool.preferredDepositValidatorVoteAddress
    rw [hd] at hd'
    cases hd'
    obtain ⟨d, hd', hwithdraw⟩ := keepPreferred_eq l rest s.pool.preferredWithdrawValidatorVoteAddress
    rw [hwd] at hd'
    cases hd'
    have hdata : poolData = (s.withPreferred deposit withdraw).serialize ++
        stakePoolInfo.data.drop (s.withPreferred deposit withdraw).serialize.length := by
      unfold toWriter Buffer.write at hwrite
      split at hwrite
      · cases hwrite
        rw [List.take_zero, List.nil_append, Nat.zero_add]
      · cases hwrite
    refine ⟨s.withPreferred deposit withdraw, ?_, ?_, fun _ => ⟨_, hdata⟩, fun hn => absurd hw hn⟩
    · rw [hdata, StoredStakePool.read_serialize]
    · rw [Repaired, if_pos hw]
      exact ⟨deposit, withdraw, rfl, hdeposit, hwithdraw⟩
  · cases h
    refine ⟨s, hs, ?_, fun hy => absurd hy hw, fun _ => rfl⟩
    rw [Repaired, if_neg hw]

/-- A pool that was repaired is left as it is. -/
theorem repair_again (hr : Repaired stakePoolInfo.isWritable l s s')
    (hdata : stakePoolInfo.isWritable → ∃ behind, poolData = s'.serialize ++ behind) :
    repair { stakePoolInfo with data := poolData } s' (l.vec rest) = some (.ok poolData) := by
  unfold repair
  split <;> rename_i hw
  · rw [Repaired, if_pos hw] at hr
    obtain ⟨deposit, withdraw, rfl, hdeposit, hwithdraw⟩ := hr
    obtain ⟨d, hd, hd'⟩ := keepPreferred_eq l rest deposit
    have hsame : d = deposit := Option.ext fun k => (hd' k).trans
      ⟨fun hk => hk.1, fun hk => ⟨hk, ((hdeposit k).1 hk).2⟩⟩
    obtain ⟨d', hwd, hwd'⟩ := keepPreferred_eq l rest withdraw
    have hsame' : d' = withdraw := Option.ext fun k => (hwd' k).trans
      ⟨fun hk => hk.1, fun hk => ⟨hk, ((hwithdraw k).1 hk).2⟩⟩
    rw [hsame] at hd
    rw [hsame'] at hwd
    have hwrite : toWriter poolData (s.withPreferred deposit withdraw).serialize = some poolData := by
      obtain ⟨behind, hb⟩ := hdata hw
      rw [hb, toWriter]
      exact Buffer.write_front rfl
    show (keepPreferred (l.vec rest) deposit >>= _) = _
    rw [hd, Option.bind_eq_bind, Option.bind_some]
    show (keepPreferred (l.vec rest) withdraw >>= _) = _
    rw [hwd, Option.bind_eq_bind, Option.bind_some]
    show some (orErr (toWriter poolData (s.withPreferred deposit withdraw).serialize) _) = _
    rw [hwrite]
    rfl
  · rfl

/-- Compacting the list in place takes the removed entries out. -/
theorem retain_eq (l : PodValidatorList) (rest : List UInt8) : ∃ gap,
    Raw.retain ValidatorStakeInfo.size (fun x => !ValidatorStakeInfo.isRemovedBytes x) (l.vec rest) =
      some (.ok (), l.cleaned.vec (gap ++ rest)) ∧
    gap.length + l.cleaned.validators.length * ValidatorStakeInfo.size =
      l.validators.length * ValidatorStakeInfo.size := by
  have hfilter : l.elements.filter (fun x => !ValidatorStakeInfo.isRemovedBytes x) = l.cleaned.elements := by
    rw [PodValidatorList.elements, List.filter_map]
    refine congrArg _ (List.filter_congr fun v _ => ?_)
    rw [Function.comp_apply, v.isRemovedBytes_eq]
  obtain ⟨data', gap, hr, ht, hgap⟩ := (l.holds rest).retain (p := fun x => !ValidatorStakeInfo.isRemovedBytes x) (by decide)
  rw [hfilter] at ht hgap
  rw [PodValidatorList.elements, PodValidatorList.elements, List.length_map, List.length_map] at hgap
  refine ⟨gap, ?_, hgap⟩
  rw [hr, ht.layout]
  rfl

/-- Cleanup succeeds on a pool and a list that the program stored. -/
theorem process_stored {programId : Pubkey} {stakePoolInfo validatorListInfo : ProgramAccountInfo}
    {s : StoredStakePool} {behind : List UInt8} (hpool : stakePoolInfo.data = s.serialize ++ behind)
    (hroom : StoredStakePool.packedLen ≤ stakePoolInfo.data.length) (howner : programId = stakePoolInfo.owner)
    (hvalid : s.pool.isValid) (hkey : validatorListInfo.key = s.pool.validatorList)
    (howner' : programId = validatorListInfo.owner) (hlist : validatorListInfo.data = l.serialize ++ rest)
    (hheader : l.header.isValid) :
    ∃ poolData listData, process programId stakePoolInfo validatorListInfo = some (.ok (poolData, listData)) := by
  have hread : StoredStakePool.read stakePoolInfo.data = some s := by rw [hpool, s.read_serialize]
  have hcheck : check programId stakePoolInfo validatorListInfo = .ok (s, l.header, l.vec rest) :=
    check_eq_ok.2 ⟨howner, hread, hvalid, hkey, howner', by rw [hlist, l.deserializeVec_eq], hheader⟩
  obtain ⟨gap, hretain, -⟩ := retain_eq l rest
  obtain ⟨poolData, hrepair⟩ : ∃ poolData,
      repair stakePoolInfo s (l.cleaned.vec (gap ++ rest)) = some (.ok poolData) := by
    unfold repair
    split
    · obtain ⟨deposit, hd, -⟩ := keepPreferred_eq l.cleaned (gap ++ rest) s.pool.preferredDepositValidatorVoteAddress
      obtain ⟨withdraw, hw, -⟩ :=
        keepPreferred_eq l.cleaned (gap ++ rest) s.pool.preferredWithdrawValidatorVoteAddress
      have hle := (StoredStakePool.length_serialize_le (s.withPreferred deposit withdraw)).trans hroom
      obtain ⟨poolData, hwrite⟩ : ∃ poolData,
          toWriter stakePoolInfo.data (s.withPreferred deposit withdraw).serialize = some poolData := by
        unfold toWriter Buffer.write
        rw [if_pos (by omega)]
        exact ⟨_, rfl⟩
      refine ⟨poolData, ?_⟩
      simp only [hd, hw, hwrite, Option.bind_eq_bind, Option.bind_some]
      rfl
    · exact ⟨_, rfl⟩
  unfold process
  rw [hcheck]
  simp only [hretain, hrepair, Option.bind_eq_bind, Option.bind_some]
  exact ⟨_, _, rfl⟩

theorem keepPreferred_list {preferred kept : Option Pubkey}
    (h : ∀ k, kept = some k ↔ preferred = some k ∧ l.HasActive k) : l.list.keepPreferred preferred = kept := by
  refine Option.ext fun k => Iff.trans ?_ (h k).symm
  have hfind : l.list.find k = (l.find k).map (·.info) := by
    rw [PodValidatorList.list, ValidatorList.find, List.find?_map]
    rfl
  rw [ValidatorList.keepPreferred, Option.filter_eq_some_iff, hfind]
  refine and_congr_right fun _ => ?_
  cases hv : l.find k with
  | none =>
    simp only [Option.map_none, Bool.false_eq_true, false_iff]
    rintro ⟨v, hv', -⟩
    rw [hv] at hv'
    cases hv'
  | some v =>
    simp only [Option.map_some, decide_eq_true_eq]
    constructor
    · intro hs
      exact ⟨v, hv, PodStakeStatus.status_eq_active.1 (orErr_eq_ok.2 hs)⟩
    · rintro ⟨v', hv', hs⟩
      rw [hv] at hv'
      cases hv'
      exact orErr_eq_ok.1 (PodStakeStatus.status_eq_active.2 hs)

theorem list_cleaned (l : PodValidatorList) :
    l.cleaned.list = { l.list with validators := l.list.validators.filter fun v => ¬ v.isRemoved } := by
  simp only [PodValidatorList.list, PodValidatorList.cleaned, List.filter_map, ValidatorList.mk.injEq, true_and]
  refine congrArg _ (List.filter_congr fun v _ => ?_)
  simp

/-- The instruction on the decoded accounts does the same. -/
theorem process_refines {rt : Runtime Pubkey} {w w' : World Pubkey} {accounts : List (AccountInfo Pubkey)}
    (h : processCleanupRemovedValidatorEntries rt w accounts = .ok w') (hpool : w.stakePool = s.pool)
    (hlist : w.validatorList = l.list) : w'.validatorList = l.cleaned.list ∧
      ∃ a rest, CleanupRemovedValidatorEntriesAccounts.parse accounts = .ok (a, rest) ∧
        ∀ s', Repaired a.stakePoolInfo.isWritable l.cleaned s s' → w'.stakePool = s'.pool := by
  obtain ⟨a, rest, l', hp, hl', rfl⟩ := processCleanupRemovedValidatorEntries_ok h
  rw [hlist, ← list_cleaned] at hl'
  refine ⟨hl', a, rest, hp, fun s' hs' => ?_⟩
  dsimp only
  rw [hl', hpool]
  unfold Repaired at hs'
  split at hs' <;> rename_i hw
  · obtain ⟨deposit, withdraw, rfl, hd, hwd⟩ := hs'
    rw [if_pos hw, keepPreferred_list hd, keepPreferred_list hwd]
    rfl
  · rw [if_neg hw, hs']

/-- What a successful cleanup leaves. The list is the old one without its removed entries: it has the same header
and records the same stake, and what was behind the old list is still there, behind the bytes that the entries
took. Where the pool can be written, a preferred validator is kept exactly when it is an active entry of the list,
and nothing else changes. A second cleanup changes nothing. -/
theorem cleanup_filters_and_repairs {programId : Pubkey} {stakePoolInfo validatorListInfo : ProgramAccountInfo}
    {poolData listData : List UInt8}
    (h : process programId stakePoolInfo validatorListInfo = some (.ok (poolData, listData))) :
    ∃ (s s' : StoredStakePool) (l l' : PodValidatorList) (gap rest : List UInt8),
      StoredStakePool.read stakePoolInfo.data = some s ∧ validatorListInfo.data = l.serialize ++ rest ∧
      listData = l'.serialize ++ gap ++ rest ∧ l'.serialize.length + gap.length = l.serialize.length ∧
      l'.header = l.header ∧ l'.validators = l.validators.filter (fun v => !v.info.isRemoved) ∧
      l'.recordedStake = l.recordedStake ∧
      StoredStakePool.read poolData = some s' ∧ Repaired stakePoolInfo.isWritable l' s s' ∧
      (∀ k, l.HasActive k → l'.HasActive k) ∧
      (¬ stakePoolInfo.isWritable → poolData = stakePoolInfo.data) ∧
      process programId { stakePoolInfo with data := poolData } { validatorListInfo with data := listData } =
        some (.ok (poolData, listData)) := by
  unfold process at h
  split at h
  · cases h
  rename_i s header vec hc
  obtain ⟨⟨r, vec'⟩, hr, h⟩ := Option.bind_eq_some_iff.1 h
  obtain ⟨ho, hs, hv, hk, ho', hd, hh⟩ := check_eq_ok.1 hc
  obtain ⟨-, elems, tail, ht⟩ := Raw.holds_of_retain hr
  obtain ⟨l, rfl, rfl, hdata⟩ := exists_list hd ht
  obtain ⟨gap, hretain, hgap⟩ := retain_eq l tail
  rw [hretain] at hr
  cases hr
  obtain ⟨r, hrepair, h⟩ := Option.bind_eq_some_iff.1 h
  cases r with
  | error e => cases h
  | ok poolBytes =>
    cases h
    obtain ⟨s', hs', hrep, hwritten, hkept⟩ := repair_ok hs hrepair
    have hlist : validatorListInfo.data.take l.header.bytes.length ++ l.cleaned.vec (gap ++ tail) =
        l.cleaned.serialize ++ (gap ++ tail) := by
      rw [hdata, PodValidatorList.serialize_split, PodValidatorList.serialize_split, List.take_left]
      rfl
    have hfields : s'.pool.accountType = s.pool.accountType ∧ s'.pool.validatorList = s.pool.validatorList := by
      unfold Repaired at hrep
      split at hrep
      · obtain ⟨d, w, rfl, -, -⟩ := hrep
        exact ⟨rfl, rfl⟩
      · rw [hrep]
        exact ⟨rfl, rfl⟩
    refine ⟨s, s', l, l.cleaned, gap, tail, hs, hdata, ?_, ?_, rfl, rfl, l.recordedStake_cleaned, hs', hrep,
      fun k hk => hk.cleaned, hkept, ?_⟩
    · rw [hlist, List.append_assoc]
    · rw [PodValidatorList.length_serialize, PodValidatorList.length_serialize]
      omega
    -- the second run checks the same, removes nothing and repairs nothing
    have hcheck : check programId { stakePoolInfo with data := poolData }
        { validatorListInfo with data := l.cleaned.serialize ++ (gap ++ tail) } =
          .ok (s', l.header, l.cleaned.vec (gap ++ tail)) := by
      refine check_eq_ok.2 ⟨ho, hs', ?_, by rw [hfields.2]; exact hk, ho',
        l.cleaned.deserializeVec_eq (gap ++ tail), hh⟩
      rw [StakePool.isValid, hfields.1]
      exact hv
    have hretain' : Raw.retain ValidatorStakeInfo.size (fun x => !ValidatorStakeInfo.isRemovedBytes x)
        (l.cleaned.vec (gap ++ tail)) = some (.ok (), l.cleaned.vec (gap ++ tail)) := by
      refine (l.cleaned.holds _).retain_of_forall (by decide) fun e he => ?_
      obtain ⟨v, hv, rfl⟩ := List.mem_map.1 he
      rw [v.isRemovedBytes_eq]
      exact (List.mem_filter.1 hv).2
    have hrepair' : repair { stakePoolInfo with data := poolData } s' (l.cleaned.vec (gap ++ tail)) =
        some (.ok poolData) := repair_again hrep hwritten
    have htake : (l.cleaned.serialize ++ (gap ++ tail)).take l.header.bytes.length ++ l.cleaned.vec (gap ++ tail) =
        l.cleaned.serialize ++ (gap ++ tail) := by
      rw [PodValidatorList.serialize_split]
      exact congrArg (· ++ _) List.take_left
    rw [hlist]
    unfold process
    rw [hcheck]
    simp only [hretain', hrepair', htake, Option.bind_eq_bind, Option.bind_some]
    rfl

/-- A list with an entry that is removed, and the preferred validator behind it. -/
def sampleList : PodValidatorList where
  header := ⟨.validatorList, 2⟩
  validators := [⟨0, 0, 4, 1, 0, 0, StakeStatus.readyForRemoval.pod, ⟨List.replicate 32 9, List.length_replicate⟩⟩,
    ⟨5, 0, 4, 1, 0, 0, StakeStatus.active.pod, StoredStakePool.sampleKey⟩]
  maxValidators_lt := by decide
  length_lt := by decide

def samplePoolInfo : ProgramAccountInfo where
  key := ⟨List.replicate 32 1, List.length_replicate⟩
  owner := StoredStakePool.sampleKey
  isWritable := true
  data := StoredStakePool.longest.serialize ++ List.replicate 10 0

def sampleListInfo : ProgramAccountInfo where
  key := StoredStakePool.sampleKey
  owner := StoredStakePool.sampleKey
  isWritable := true
  data := sampleList.serialize ++ [8]

theorem cleanup_filters_and_repairs_sample : ∃ poolData listData,
    process StoredStakePool.sampleKey samplePoolInfo sampleListInfo = some (.ok (poolData, listData)) ∧
    ∃ (s s' : StoredStakePool) (l l' : PodValidatorList) (gap rest : List UInt8),
      StoredStakePool.read samplePoolInfo.data = some s ∧ sampleListInfo.data = l.serialize ++ rest ∧
      listData = l'.serialize ++ gap ++ rest ∧ StoredStakePool.read poolData = some s' ∧ Repaired true l' s s' := by
  have hroom : StoredStakePool.packedLen ≤ samplePoolInfo.data.length := by
    rw [samplePoolInfo, List.length_append, StoredStakePool.length_serialize_longest]
    omega
  obtain ⟨poolData, listData, h⟩ := @process_stored sampleList [8] StoredStakePool.sampleKey samplePoolInfo
    sampleListInfo StoredStakePool.longest (List.replicate 10 0) rfl hroom rfl rfl rfl rfl rfl rfl
  obtain ⟨s, s', l, l', gap, rest, hs, hl, hl', -, -, -, -, hs', hr, -⟩ := cleanup_filters_and_repairs h
  exact ⟨poolData, listData, h, s, s', l, l', gap, rest, hs, hl, hl', hs', hr⟩

end CleanupBytes

end SplStakePool
