import Mathlib.Algebra.Order.BigOperators.Group.List
import SplStakePool.Invariant.Mint
import SplStakePool.Properties.Arithmetic
import SplStakePool.Properties.ChunkOrder
import SplStakePool.Properties.EntryAccounting
import SplStakePool.Properties.ListWellFormed
import SplStakePool.Properties.OrphanedStake

/-!
# An update is always possible

While no epoch rewards are paid, updates of the list that merge nothing and are given the derived accounts
succeed, whatever the stake accounts are, and so does the update of the pool after them. Without merging, the only
calls are withdrawals of what is beyond a delegation and merges of initialized accounts into the reserve. What
clients build is of this form.

The handler is run forwards. Each entry is skipped or refreshed (`updateEntry_accepts`), whatever state its accounts
are in, and leaves all that the next one needs (`Updatable`): the reserve is initialized and can be paid into, and the
lamports of the pool together stay what they were, so that no sum overflows. The update of the pool then finds
every entry up to date, and computes a fee that it can mint or does not take.
-/

namespace SplStakePool
open Exec Machine

variable {Key : Type} [DecidableEq Key] [Inhabited Key] {rt : Runtime Key} {w w' : World Key} {acc acc' : Accounts Key}

/-! ## Entries -/

namespace UpdateValidatorListBalanceAccounts
variable {a : UpdateValidatorListBalanceAccounts Key} {v : ValidatorStakeInfo Key} {va ta : AccountInfo Key}
  {status : PodStakeStatus} {t : Nat} {m : Meta Key}

omit [DecidableEq Key] [Inhabited Key] in
theorem transientAction_noMerge (usable : Meta Key → Bool) (epoch : Nat) (status : PodStakeStatus)
    (ts vs : Option (StakeStateV2 Key)) :
    transientAction usable epoch true status ts vs = .ignore ∨
      transientAction usable epoch true status ts vs = .count := by
  unfold transientAction
  repeat' split
  all_goals simp at *

omit [Inhabited Key] in
theorem updateTransient_noMerge (rt : Runtime Key) (w : World Key) (a : UpdateValidatorListBalanceAccounts Key)
    (acc : Accounts Key) (v : ValidatorStakeInfo Key) (va ta : AccountInfo Key) :
    ∃ t, a.updateTransient rt w true acc v va ta = .ok (acc, v.status, t) := by
  rw [updateTransient]
  split
  · rcases transientAction_noMerge (usable w a) w.sysvars.epoch v.status (acc ta.key).stakeState?
      (acc va.key).stakeState? with h | h
    · exact ⟨0, by rw [h]; rfl⟩
    · exact ⟨_, by rw [h]; rfl⟩
  · exact ⟨0, rfl⟩

theorem withdrawAdditional_accepts (hl : rt.Lawful) (hx : Ctx rt w a) (hrew : w.sysvars.epochRewardsActive = false)
    {s : Stake Key} (hd : (acc va.key).data = .stakeState (.stake m s))
    (ho : (acc va.key).owner = rt.stakeProgramId) (hu : usable w a m) :
    ∃ acc', a.withdrawAdditional rt w acc m s va = .ok acc' := by
  obtain ⟨hauth, hlockup⟩ := (usable_iff hx).1 hu
  simp only [withdrawAdditional]
  split
  · rename_i hpos
    have hle : saturatingSub (saturatingSub (acc va.key).lamports s.delegation.stake) m.rentExemptReserve +
        s.delegation.stake + m.rentExemptReserve ≤ (acc va.key).lamports := by
      simp only [saturatingSub] at hpos ⊢
      omega
    obtain ⟨src, hsrc⟩ := hl.withdraw_excess w.sysvars a.withdrawAuthorityInfo.key _ _ m s hrew ho hd
      (by rw [hauth, hx.authority]) (by rw [hlockup]; rfl) (by rw [hlockup]; rfl) hle
    exact ⟨_, by rw [stakeWithdraw, hsrc]; rfl⟩
  · exact ⟨_, rfl⟩

theorem stakeMerge_accepts (hl : rt.Lawful) (hx : Ctx rt w a) (hrew : w.sysvars.epochRewardsActive = false)
    (hr : Reserve rt (acc w.stakePool.reserveStake)) (hne : w.stakePool.reserveStake ≠ va.key)
    (hd : (acc va.key).data = .stakeState (.initialized m)) (ho : (acc va.key).owner = rt.stakeProgramId)
    (hu : usable w a m) :
    ∃ acc', stakeMerge rt w.sysvars acc va a.withdrawAuthorityInfo a.reserveStakeInfo = .ok acc' := by
  obtain ⟨hauth, hlockup⟩ := (usable_iff hx).1 hu
  obtain ⟨mr, hmr, hp, -⟩ := hr.state
  obtain ⟨⟨dst, src⟩, h⟩ := hl.merge_initialized w.sysvars a.withdrawAuthorityInfo.key w.stakePool.reserveStake _
    va.key _ mr m hrew hne hr.owner ho hmr hd (hp.authorized.trans hauth.symm) (hp.lockup.trans hlockup.symm)
    (by rw [hp.authorized, hx.authority])
  exact ⟨_, by rw [stakeMerge, hx.reserveKey, h]; rfl⟩

omit [Inhabited Key] in
theorem updateDelegated_noMerge (rt : Runtime Key) (w : World Key) (a : UpdateValidatorListBalanceAccounts Key)
    (acc : Accounts Key) (st : StakeStatus) (s : Stake Key) (va : AccountInfo Key) :
    ∃ n, a.updateDelegated rt w true acc st.pod s va = .ok (acc, st.pod, n) := by
  simp only [updateDelegated, StakeStatus.status_pod, ok_bind]
  cases st <;> exact ⟨_, rfl⟩

theorem updateValidator_accepts (hl : rt.Lawful) (hx : Ctx rt w a) (hrew : w.sysvars.epochRewardsActive = false)
    (hr : Reserve rt (acc w.stakePool.reserveStake)) (hne : w.stakePool.reserveStake ≠ va.key)
    (hpda : PdaOk rt (acc va.key)) (st : StakeStatus) (t : Nat) :
    ∃ r, a.updateValidator rt w true acc st.pod t va = .ok r := by
  rw [updateValidator]
  cases hs : (acc va.key).stakeState? with
  | none => exact ⟨_, rfl⟩
  | some s =>
    have hd := Account.stakeState?_eq_some.1 hs
    cases s with
    | uninitialized => exact ⟨_, rfl⟩
    | rewardsPool => exact ⟨_, rfl⟩
    | initialized m =>
      by_cases hu : usable w a m
      · obtain ⟨acc', h⟩ := stakeMerge_accepts hl hx hrew hr hne hd (hpda.owner hd) hu
        exact ⟨_, by simp only [hu, if_true, h, ok_bind]; rfl⟩
      · exact ⟨_, by simp only [hu]; rfl⟩
    | stake m s =>
      by_cases hu : usable w a m
      · obtain ⟨acc', h⟩ := withdrawAdditional_accepts hl hx hrew hd (hpda.owner hd) hu
        obtain ⟨n, hn⟩ := updateDelegated_noMerge rt w a acc' st s va
        exact ⟨_, by simp only [hu, if_true, h, ok_bind]; exact hn⟩
      · exact ⟨_, by simp only [hu]; rfl⟩

theorem updateEntry_accepts (va ta : AccountInfo Key) (hl : rt.Lawful) (hx : Ctx rt w a)
    (hrew : w.sysvars.epochRewardsActive = false) (hpool : a.stakePoolInfo.key = rt.stakePoolAddress)
    (hv : EntryOk rt acc v) (hr : Reserve rt (acc w.stakePool.reserveStake)) (hn : ¬ rt.StakePda w.stakePool.reserveStake)
    (hpda : PdaOk rt (acc (rt.validatorStake v))) :
    ∃ r, a.updateEntry rt w true acc v va ta = .ok r := by
  by_cases ho : Own rt v (va, ta)
  swap
  · exact ⟨_, updateEntry_skip hpool ho⟩
  have hva : va.key = rt.validatorStake v := ho.1
  have hrv : w.stakePool.reserveStake ≠ va.key := fun he => hn (he ▸ hva ▸ .validator v)
  obtain ⟨t, ht⟩ := updateTransient_noMerge rt w a acc v va ta
  obtain ⟨st, hst, -⟩ := hv.status
  rw [hst] at ht
  obtain ⟨⟨acc', status, n⟩, h⟩ := updateValidator_accepts hl hx hrew hr hrv (hva ▸ hpda) st t
  exact ⟨_, by simp only [updateEntry_of_own hpool ho, ht, h, ok_bind]; rfl⟩

theorem updateEntries_accepts (hl : rt.Lawful) (hx : Ctx rt w a) (hrew : w.sysvars.epochRewardsActive = false)
    (hpool : a.stakePoolInfo.key = rt.stakePoolAddress) {pre post vs : List (ValidatorStakeInfo Key)}
    (infos : List (AccountInfo Key × AccountInfo Key))
    (hc : Core rt w.stakePool.reserveStake (pre ++ vs ++ post) acc) :
    ∃ r, a.updateEntries rt w true acc vs infos = .ok r := by
  induction vs generalizing pre acc infos with
  | nil => exact ⟨_, rfl⟩
  | cons v vs ih =>
    cases infos with
    | nil => exact ⟨_, rfl⟩
    | cons info infos =>
      have hlist : ∀ u, pre ++ u :: vs ++ post = pre ++ [u] ++ vs ++ post := by simp
      rw [List.append_assoc, List.cons_append] at hc
      have hpda := hc.pdas _ (.validator v)
      obtain ⟨⟨acc₁, v'⟩, h⟩ := updateEntry_accepts info.1 info.2 hl hx hrew hpool hc.mem hc.reserve_ok
        hc.reserve_pda hpda
      -- the entries that follow are as before
      have hc' : Core rt w.stakePool.reserveStake (pre ++ v' :: (vs ++ post)) acc₁ := by
        rcases updateEntry_spec hl hx hpool h hc.mem hc.reserve_ok hc.reserve_pda hpda with
          ⟨-, rfl, rfl⟩ | ⟨-, -, hr⟩
        · exact hc
        · exact hc.entry hl hr.toEntryStep
      rw [← List.cons_append, ← List.append_assoc, hlist] at hc'
      obtain ⟨⟨acc₂, vs'⟩, h'⟩ := ih infos hc'
      exact ⟨_, by simp only [updateEntries, h, h', ok_bind]; rfl⟩

end UpdateValidatorListBalanceAccounts

/-- The stake accounts of entries, in order. -/
def Runtime.stakePairs (rt : Runtime Key) (vs : List (ValidatorStakeInfo Key)) : List (Key × Key) :=
  vs.map fun v => (rt.validatorStake v, rt.transientStake v)

section
omit [DecidableEq Key] [Inhabited Key]

@[simp] theorem length_stakePairs (vs : List (ValidatorStakeInfo Key)) : (rt.stakePairs vs).length = vs.length :=
  List.length_map _

theorem Progress.stakePairs {ks : List Nat} (h : Progress ks w w') :
    rt.stakePairs w'.validatorList.validators = rt.stakePairs w.validatorList.validators := by
  refine List.ext_getElem (by simp [h.length]) fun k h₁ h₂ => ?_
  rw [length_stakePairs] at h₁ h₂
  obtain ⟨v', hv', hs, -⟩ := h.entry k _ (List.getElem?_eq_getElem h₂)
  rw [List.getElem?_eq_getElem h₁, Option.some.injEq] at hv'
  simp only [Runtime.stakePairs, List.getElem_map, hv', rt.validatorStake_congr hs.vote hs.seed,
    rt.transientStake_congr hs.vote hs.transientSeed]

theorem listLamports_eq (acc : Accounts Key) (vs : List (ValidatorStakeInfo Key)) :
    rt.listLamports acc vs = ((rt.stakePairs vs).map fun k => (acc k.1).lamports + (acc k.2).lamports).sum := by
  rw [Runtime.stakePairs, List.map_map]
  rfl

theorem pairs_of_keys {infos : List (AccountInfo Key)} {ks : List (Key × Key)}
    (h : infos.map (·.key) = ks.flatMap fun k => [k.1, k.2]) :
    (pairs infos).map (fun x => (x.1.key, x.2.key)) = ks := by
  induction ks generalizing infos with
  | nil =>
    rw [List.flatMap_nil, List.map_eq_nil_iff] at h
    rw [h]
    rfl
  | cons k ks ih =>
    rw [List.flatMap_cons, List.cons_append, List.singleton_append, List.map_eq_cons_iff] at h
    obtain ⟨va, rest, rfl, hva, h⟩ := h
    rw [List.map_eq_cons_iff] at h
    obtain ⟨ta, rest, rfl, hta, h⟩ := h
    rw [pairs, List.map_cons, ih h, hva, hta]

theorem length_of_keys {infos : List (AccountInfo Key)} {ks : List (Key × Key)}
    (h : infos.map (·.key) = ks.flatMap fun k => [k.1, k.2]) : infos.length = ks.length * 2 := by
  have := congrArg List.length h
  simpa [List.length_flatMap] using this

end

omit [DecidableEq Key] in
theorem recordedLamports_le {vs : List (ValidatorStakeInfo Key)} (h : ∀ v ∈ vs, EntryOk rt acc v) :
    recordedLamports vs ≤ rt.listLamports acc vs :=
  List.sum_le_sum fun v hv => Nat.add_le_add (h v hv).active_le (h v hv).transient_le

/-! ## Instructions -/

/-- An update of `n` entries from an index of the list on that merges nothing, with the accounts of the pool and the
derived stake accounts of the entries. -/
structure Instruction.UpdatesPart (rt : Runtime Key) (w : World Key) (ins : Instruction Key) (start n : Nat) :
    Prop where
  data : ins.data = .updateValidatorListBalance start true
  within : start + n ≤ w.validatorList.validators.length
  keys : ∃ stakeHistory, ins.accounts.map (·.key) =
    [rt.stakePoolAddress, rt.withdrawAuthority, rt.validatorListAddress, w.stakePool.reserveStake, rt.clockId,
      stakeHistory, rt.stakeProgramId] ++
    (((rt.stakePairs w.validatorList.validators).drop start).take n).flatMap fun k => [k.1, k.2]

/-- An update of the pool with its accounts. -/
structure Instruction.UpdatesPool (rt : Runtime Key) (w : World Key) (ins : Instruction Key) : Prop where
  data : ins.data = .updateStakePoolBalance
  keys : ins.accounts.map (·.key) =
    [rt.stakePoolAddress, rt.withdrawAuthority, rt.validatorListAddress, w.stakePool.reserveStake,
      w.stakePool.managerFeeAccount, w.stakePool.poolMint, w.stakePool.tokenProgramId]

section
omit [DecidableEq Key] [Inhabited Key]

theorem Instruction.UpdatesPart.indices {ins : Instruction Key} {start n : Nat} (h : ins.UpdatesPart rt w start n) :
    ins.indices = List.range' start n := by
  have hle := h.within
  obtain ⟨_, hkeys⟩ := h.keys
  have hlen := congrArg List.length hkeys
  simp only [List.length_map, List.length_append, List.length_cons, List.length_nil, List.length_flatMap,
    List.map_const', List.sum_replicate, List.length_take, List.length_drop, length_stakePairs, smul_eq_mul] at hlen
  rw [Instruction.indices, h.data]
  dsimp only
  congr 1
  omega

theorem Instruction.UpdatesPart.congr {ins : Instruction Key} {start n : Nat} (h : ins.UpdatesPart rt w start n)
    (hpool : w'.stakePool = w.stakePool)
    (hlen : w'.validatorList.validators.length = w.validatorList.validators.length)
    (hpairs : rt.stakePairs w'.validatorList.validators = rt.stakePairs w.validatorList.validators) :
    ins.UpdatesPart rt w' start n :=
  ⟨h.data, by rw [hlen]; exact h.within, by rw [hpool, hpairs]; exact h.keys⟩

end

omit [Inhabited Key] in
theorem UpdateValidatorListBalanceAccounts.parse_of_keys {accounts : List (AccountInfo Key)}
    {k₁ k₂ k₃ k₄ k₆ k₇ : Key} {ks : List Key}
    (h : accounts.map (·.key) = [k₁, k₂, k₃, k₄, rt.clockId, k₆, k₇] ++ ks) :
    ∃ a rest, (parse rt).run accounts = .ok (a, rest) ∧ a.stakePoolInfo.key = k₁ ∧
      a.withdrawAuthorityInfo.key = k₂ ∧ a.validatorListInfo.key = k₃ ∧ a.reserveStakeInfo.key = k₄ ∧
      a.stakeProgramInfo.key = k₇ ∧ a.validatorStakeAccounts.map (·.key) = ks := by
  simp only [List.cons_append, List.nil_append, List.map_eq_cons_iff] at h
  obtain ⟨x₁, _, rfl, h₁, x₂, _, rfl, h₂, x₃, _, rfl, h₃, x₄, _, rfl, h₄, x₅, _, rfl, h₅, x₆, _, rfl, -, x₇, rest, rfl,
    h₇, h⟩ := h
  refine ⟨⟨x₁, x₂, x₃, x₄, x₇, rest⟩, rest, ?_, h₁, h₂, h₃, h₄, h₇, h⟩
  simp only [StateT.run, parse, nextAccountInfo_bind, nextSysvar_bind]
  exact ⟨_, _, rfl, _, _, rfl, _, _, rfl, _, _, rfl, _, _, rfl, h₅, _, _, rfl, _, _, rfl, rfl⟩

omit [DecidableEq Key] [Inhabited Key] in
theorem UpdateStakePoolBalanceAccounts.parse_of_keys {accounts : List (AccountInfo Key)} {k₁ k₂ k₃ k₄ k₅ k₆ k₇ : Key}
    (h : accounts.map (·.key) = [k₁, k₂, k₃, k₄, k₅, k₆, k₇]) :
    ∃ a rest, parse accounts = .ok (a, rest) ∧ a.stakePoolInfo.key = k₁ ∧ a.withdrawInfo.key = k₂ ∧
      a.validatorListInfo.key = k₃ ∧ a.reserveStakeInfo.key = k₄ ∧ a.managerFeeInfo.key = k₅ ∧
      a.poolMintInfo.key = k₆ ∧ a.tokenProgramInfo.key = k₇ := by
  simp only [List.map_eq_cons_iff] at h
  obtain ⟨x₁, _, rfl, h₁, x₂, _, rfl, h₂, x₃, _, rfl, h₃, x₄, _, rfl, h₄, x₅, _, rfl, h₅, x₆, _, rfl, h₆, x₇, _, rfl,
    h₇, -⟩ := h
  exact ⟨⟨x₁, x₂, x₃, x₄, x₅, x₆, x₇⟩, _, rfl, h₁, h₂, h₃, h₄, h₅, h₆, h₇⟩

/-- What updates need of the pool. -/
structure Updatable (rt : Runtime Key) (w : World Key) : Prop where
  inv : Inv rt w
  backing : Backing w
  mintable : w.Mintable rt
  header : w.validatorList.header.isValid
  epoch_le : w.stakePool.lastUpdateEpoch ≤ w.sysvars.epoch
  rewards : w.sysvars.epochRewardsActive = false
  lamports_lt : (w.accounts w.stakePool.reserveStake).lamports +
    rt.listLamports w.accounts w.validatorList.validators < 2 ^ 63

omit [DecidableEq Key] [Inhabited Key] in
theorem UpdateValidatorListBalanceAccounts.names_iff {a : UpdateValidatorListBalanceAccounts Key} {start n k : Nat}
    {v : ValidatorStakeInfo Key}
    (h : (pairs a.validatorStakeAccounts).map (fun x => (x.1.key, x.2.key)) =
      ((rt.stakePairs w.validatorList.validators).drop start).take n)
    (hv : w.validatorList.validators[k]? = some v) : Names rt a start k v ↔ k ∈ List.range' start n := by
  have hk : (rt.stakePairs w.validatorList.validators)[k]? = some (rt.validatorStake v, rt.transientStake v) := by
    rw [Runtime.stakePairs, List.getElem?_map, hv, Option.map_some]
  have hget : start ≤ k → k < start + n →
      (pairs a.validatorStakeAccounts)[k - start]?.map (fun x => (x.1.key, x.2.key)) =
        some (rt.validatorStake v, rt.transientStake v) := fun h₁ h₂ => by
    rw [← List.getElem?_map, h, List.getElem?_take_of_lt (by omega), List.getElem?_drop, ← hk]
    congr 1
    omega
  rw [List.mem_range'_1]
  constructor
  · rintro ⟨hle, info, hinfo, -⟩
    have hlt := (List.getElem?_eq_some_iff.1 hinfo).1
    have hlen := congrArg List.length h
    rw [List.length_map, List.length_take] at hlen
    omega
  · rintro ⟨h₁, h₂⟩
    obtain ⟨info, hinfo, he⟩ := Option.map_eq_some_iff.1 (hget h₁ h₂)
    rw [Prod.mk.injEq] at he
    exact ⟨h₁, info, hinfo, he.1, he.2⟩

/-- Updates of the list keep what updates need: they neither lose nor gain lamports. -/
theorem Updatable.updateList (hl : rt.Lawful) (hw : Updatable rt w) {accounts rest : List (AccountInfo Key)}
    {a : UpdateValidatorListBalanceAccounts Key} {start : Nat} {noMerge : Bool}
    {pre slice post slice' : List (ValidatorStakeInfo Key)} {ks : List Nat}
    (hparse : (UpdateValidatorListBalanceAccounts.parse rt).run accounts = .ok (a, rest))
    (h : a.Ok rt w w' start noMerge pre slice post slice') (hprogress : Progress ks w w') : Updatable rt w' := by
  have hi := hw.inv
  have he : Executed rt w w' accounts (.updateValidatorListBalance start noMerge) none := .updateList rfl hparse h
  have hpool : w'.stakePool = w.stakePool := by rw [h.result]
  have heffect : Effect rt none w w' := .refresh (h.refreshes hl hi.pool hi.core) h.result
  refine ⟨heffect.inv hl hi he.statics, he.backing hl hi hw.backing, he.mintable hl hw.mintable, ?_, ?_, ?_, ?_⟩
  · rw [he.statics.header]
    exact hw.header
  · rw [hpool, hprogress.sysvars]
    exact hw.epoch_le
  · rw [hprogress.sysvars]
    exact hw.rewards
  · have hbalance := (h.rebooked hl (.of_inv hi)).1.balance
    have hlt := hw.lamports_lt
    rw [listLamports_eq] at hbalance
    rw [hpool, listLamports_eq, hprogress.stakePairs]
    omega

/-- An update of a part of the list succeeds, refreshes the part, and can be followed by others. -/
theorem Instruction.UpdatesPart.accepts (hl : rt.Lawful) (hw : Updatable rt w) {ins : Instruction Key} {start n : Nat}
    (h : ins.UpdatesPart rt w start n) : ∃ w', ins.execute rt w = .ok w' ∧ Updatable rt w' ∧
      w'.stakePool = w.stakePool ∧ Progress (List.range' start n) w w' := by
  have hi := hw.inv
  obtain ⟨_, hkeys⟩ := h.keys
  obtain ⟨a, rest, hparse, hpool, hauth, hlist, hreserve, hprogram, hks⟩ :=
    UpdateValidatorListBalanceAccounts.parse_of_keys hkeys
  have hlen : a.validatorStakeAccounts.length = n * 2 := by
    have := h.within
    rw [length_of_keys hks, List.length_take, List.length_drop, length_stakePairs]
    omega
  -- the checks
  have hadmits : UpdateValidatorListBalanceAccounts.Admits rt w.stakePool w.sysvars w.validatorList.header a := by
    refine ⟨hpool, hi.pool.valid, ensure_eq_ok.2 (hlist.trans hi.pool.list.symm), ?_, hreserve, ensure_eq_ok.2 hprogram,
      hw.rewards, by omega, hlist, hw.header⟩
    rw [hpool]
    exact (StakePool.checkAuthorityWithdraw_eq_ok hl hi.pool.bump).2 hauth
  have hslice : BigVec.deserializeSlice w.validatorList.validators start (a.validatorStakeAccounts.length / 2) =
      .ok ((w.validatorList.validators.drop start).take n) := by
    rw [BigVec.deserializeSlice_eq_ok, hlen, Nat.mul_div_cancel n (by omega)]
    exact ⟨h.within, rfl⟩
  -- the loop
  obtain ⟨pre, post, -, hvs, -⟩ := BigVec.writeSlice_of_deserialize hslice rfl
  have hc := hi.core
  rw [hvs] at hc
  obtain ⟨⟨acc, slice⟩, hu⟩ := UpdateValidatorListBalanceAccounts.updateEntries_accepts hl
    ⟨hauth, hi.pool.lockup, hreserve⟩ hw.rewards hpool (pairs a.validatorStakeAccounts) hc
  have hprocess := UpdateValidatorListBalanceAccounts.process_eq_ok.2 ⟨hadmits, _, acc, slice, hslice, hu, rfl⟩
  obtain ⟨_, _, _, _, hok⟩ := UpdateValidatorListBalanceAccounts.process_ok hprocess
  have hprogress := hok.progress fun k v hv => UpdateValidatorListBalanceAccounts.names_iff (pairs_of_keys hks) hv
  have hexecute : ins.execute rt w = a.process rt w start true := by
    rw [Instruction.execute, h.data]
    simp only [process, processUpdateValidatorListBalance, hparse, ok_bind]
  exact ⟨_, hexecute.trans hprocess, hw.updateList hl hparse hok hprogress, rfl, hprogress⟩

theorem executeAll_accepts (hl : rt.Lawful) (hw : Updatable rt w) {instrs : List (Instruction Key)}
    (h : ∀ ins ∈ instrs, ∃ start n, ins.UpdatesPart rt w start n) :
    ∃ w', executeAll rt w instrs = .ok w' ∧ Updatable rt w' ∧ w'.stakePool = w.stakePool ∧
      Progress (instrs.flatMap Instruction.indices) w w' := by
  induction instrs generalizing w with
  | nil => exact ⟨w, rfl, hw, rfl, .refl w⟩
  | cons ins instrs ih =>
    obtain ⟨start, n, hins⟩ := h ins List.mem_cons_self
    obtain ⟨w₁, h₁, hw₁, hpool₁, hp₁⟩ := hins.accepts hl hw
    obtain ⟨w₂, h₂, hw₂, hpool₂, hp₂⟩ := ih hw₁ fun ins' hins' => by
      obtain ⟨start', n', h'⟩ := h ins' (List.mem_cons_of_mem _ hins')
      exact ⟨start', n', h'.congr hpool₁ hp₁.length hp₁.stakePairs⟩
    refine ⟨w₂, by rw [executeAll, h₁]; exact h₂, hw₂, hpool₂.trans hpool₁, ?_⟩
    rw [List.flatMap_cons, hins.indices]
    exact hp₁.trans hp₂

/-! ## The update of the pool -/

omit [Inhabited Key] in
theorem StakePool.checkManagerFeeInfo_token {p : StakePool Key} {info : AccountInfo Key}
    (h : p.checkManagerFeeInfo rt acc info = .ok ()) :
    ∃ t, (acc info.key).data = .token t ∧ t.mint = p.poolMint ∧ t.state = .initialized := by
  simp only [checkManagerFeeInfo, bind_eq_ok, unpackToken_eq_ok, ensure_eq_ok, exists_unit] at h
  obtain ⟨t, ⟨ht, -⟩, ⟨-, hs, hm⟩, -⟩ := h
  exact ⟨t, ht, hm, hs⟩

/-- The fee on a reward is computed, and minted if there is one, whatever the fee account is. -/
theorem Updatable.mintsFee (hl : rt.Lawful) (hw : Updatable rt w) {mintInfo auth : AccountInfo Key}
    (fee : AccountInfo Key) {reward : Nat}
    (hmint : mintInfo.key = w.stakePool.poolMint) (hauth : auth.key = rt.withdrawAuthority)
    (hlt : w.stakePool.totalLamports + reward < 2 ^ 63) :
    ∃ n acc' m, w.stakePool.epochFeeToMint rt w.accounts fee reward = .ok n ∧
      (if n > 0 then tokenMintTo rt w.accounts mintInfo fee auth n else pure w.accounts) = .ok acc' ∧
      (acc' mintInfo.key).data = .mint m := by
  obtain ⟨m, hm, hma⟩ := hw.mintable.mint
  rw [← hmint] at hm
  have hfeeOk := hw.backing.fees.active .epoch
  obtain ⟨n, hn⟩ : ∃ n, w.stakePool.epochFeeToMint rt w.accounts fee reward = .ok n := by
    rw [StakePool.epochFeeToMint]
    split
    · obtain ⟨n, hn⟩ := StakePool.calcEpochFeeAmount_eq_some hw.backing.backed hfeeOk hlt
      exact ⟨n, by rw [hn]; rfl⟩
    · exact ⟨0, rfl⟩
  by_cases h0 : 0 < n
  swap
  · exact ⟨n, w.accounts, m, hn, if_neg h0, hm⟩
  -- the fee account is valid, and the supply stays below the total
  have hcheck : w.stakePool.checkManagerFeeInfo rt w.accounts fee = .ok () := by
    rw [StakePool.epochFeeToMint] at hn
    split at hn
    · assumption
    · cases hn
      exact absurd h0 (Nat.lt_irrefl 0)
  obtain ⟨t, ht, htm, hts⟩ := StakePool.checkManagerFeeInfo_token hcheck
  obtain ⟨s, hs, hle⟩ := hw.backing.supply
  rw [World.supply?, ← hmint, Account.supply?_of_mint hm, Option.some.injEq] at hs
  have hbacked : m.supply + n ≤ w.stakePool.totalLamports + reward :=
    backed_balanced hw.backing.backed (hs.le.trans hle) hfeeOk hn
  obtain ⟨r, hr⟩ := hl.mintTo_accepts mintInfo.key auth.key n (w.accounts mintInfo.key) (w.accounts fee.key) m t hm ht
    (htm.trans hmint.symm) hts (by rw [hma, hauth]) (by omega)
  have hto : tokenMintTo rt w.accounts mintInfo fee auth n = .ok
      (Function.update (Function.update w.accounts mintInfo.key r.1) fee.key r.2) := by
    rw [tokenMintTo, hr]
    rfl
  have hkeep := tokenMintTo_authorities hl hto mintInfo.key
  rw [Account.mintAuthority?_of_mint hm, hma] at hkeep
  obtain ⟨m', hm', -⟩ := Option.bind_eq_some_iff.1 hkeep
  exact ⟨n, _, m', hn, (if_pos h0).trans hto, Account.mint?_eq_some.1 hm'⟩

omit [DecidableEq Key] in
theorem Reserve.available {a : Account Key} (h : Reserve rt a) : ∃ m, a.data = .stakeState (.initialized m) ∧
    minimumReserveLamports m ≤ a.lamports ∧
      reserveLamportsAvailable a = .ok (a.lamports - minimumReserveLamports m) := by
  obtain ⟨m, hm, -, hrent⟩ := h.state
  have hle := (minimumReserveLamports_le m).trans hrent
  refine ⟨m, hm, hle, ?_⟩
  rw [reserveLamportsAvailable, readStakeState_eq_ok.2 hm, ok_bind]
  dsimp only
  rw [checkedSub_of_le hle]
  rfl

/-- The update of the pool succeeds when all entries are up to date. -/
theorem Instruction.UpdatesPool.accepts (hl : rt.Lawful) (hw : Updatable rt w)
    (hup : ∀ v ∈ w.validatorList.validators, w.sysvars.epoch ≤ v.lastUpdateEpoch) {ins : Instruction Key}
    (h : ins.UpdatesPool rt w) :
    ∃ w', ins.execute rt w = .ok w' ∧ w'.stakePool.lastUpdateEpoch = w.sysvars.epoch := by
  have hi := hw.inv
  have hlt := hw.lamports_lt
  obtain ⟨a, rest, hparse, hpool, hauth, hlist, hreserve, hfee, hmint, hprogram⟩ :=
    UpdateStakePoolBalanceAccounts.parse_of_keys h.keys
  obtain ⟨m, hm, hmin, havailable⟩ := hi.core.reserve_ok.available
  have hsolvent := hi.solvent m hm
  have hrecorded := recordedLamports_le hi.core.entries
  obtain ⟨total, htotal⟩ : ∃ total, total = (w.accounts w.stakePool.reserveStake).lamports -
    minimumReserveLamports m + recordedLamports w.validatorList.validators := ⟨_, rfl⟩
  have hsum := sumStakeLamports_eq_ok.2 ⟨hup, htotal, .inr (by omega)⟩
  have hreward : w.stakePool.totalLamports + saturatingSub total w.stakePool.totalLamports < 2 ^ 63 := by
    simp only [saturatingSub]
    omega
  obtain ⟨n, acc, mint, hn, hto, hread⟩ := hw.mintsFee hl a.managerFeeInfo hmint hauth hreward
  obtain ⟨decimals, hdecimals⟩ : ∃ d, w.stakePool.checkMint w.accounts a.poolMintInfo = .ok d := by
    obtain ⟨mint, hm, -⟩ := hw.mintable.mint
    rw [← hmint] at hm
    rw [StakePool.checkMint, ensure_of hmint, ok_bind, unpackMint_eq_ok.2 hm]
    exact ⟨_, rfl⟩
  have hp : w.validStakePool rt a.stakePoolInfo = .ok w.stakePool :=
    World.validStakePool_eq_ok.2 ⟨hpool, hi.pool.valid, rfl⟩
  have hv : w.validValidatorList rt a.validatorListInfo = .ok w.validatorList :=
    World.validValidatorList_eq_ok.2 ⟨hlist, hw.header, rfl⟩
  have hwithdraw : w.stakePool.checkAuthorityWithdraw rt a.withdrawInfo.key rt.programId a.stakePoolInfo.key =
      .ok () := by
    rw [hpool]
    exact (StakePool.checkAuthorityWithdraw_eq_ok hl hi.pool.bump).2 hauth
  have hprocess : a.process rt w = .ok { w with
      stakePool := { w.stakePool.updateEpoch w.sysvars.epoch with
        totalLamports := total
        poolTokenSupply := mint.supply }
      accounts := acc } := by
    rw [UpdateStakePoolBalanceAccounts.process, hp, ok_bind, hdecimals, ok_bind, hwithdraw, ok_bind,
      StakePool.checkReserveStake, ensure_of hreserve, ok_bind, ensure_of hfee.symm, ok_bind,
      StakePool.checkValidatorList, ensure_of (hlist.trans hi.pool.list.symm), ok_bind, ensure_of hprogram.symm,
      ok_bind, hv, ok_bind, hreserve, havailable, ok_bind, BigVec.deserializeSlice_all, ok_bind, hsum, ok_bind]
    dsimp only
    rw [hn, ok_bind, hto, ok_bind, unpackMint_eq_ok.2 hread]
    rfl
  have hexecute : ins.execute rt w = a.process rt w := by
    rw [Instruction.execute, h.data]
    simp only [process, processUpdateStakePoolBalance, hparse, ok_bind]
  refine ⟨_, hexecute.trans hprocess, ?_⟩
  have hle := hw.epoch_le
  dsimp only
  rw [StakePool.lastUpdateEpoch_updateEpoch]
  split <;> omega

theorem Updatable.of_reachable (hl : rt.Lawful) (hr : (poolSystem rt).Reachable w)
    (hrewards : w.sysvars.epochRewardsActive = false)
    (hlt : (w.accounts w.stakePool.reserveStake).lamports +
      rt.listLamports w.accounts w.validatorList.validators < 2 ^ 63) : Updatable rt w where
  inv := .of_reach hl hr
  backing := .of_reach hl hr
  mintable := .of_reach hl hr
  header := by
    rw [ValidatorListHeader.isValid, (Roomy.of_reach hl hr).type]
    rfl
  epoch_le := hr.invariant (I := fun w => w.stakePool.lastUpdateEpoch ≤ w.sysvars.epoch)
    (fun _ h => (h.dated hl).pool) fun _ _ _ ht hle _ hs => (hs.lastUpdateEpoch hl (.of_reach hl ht) hle).2
  rewards := hrewards
  lamports_lt := hlt

/-- Updates of parts of the list, among them those of every stale entry, and then of the pool. -/
theorem Updatable.succeeds (hl : rt.Lawful) (hw : Updatable rt w) {instrs : List (Instruction Key)}
    {last : Instruction Key} (hparts : ∀ ins ∈ instrs, ∃ start n, ins.UpdatesPart rt w start n)
    (hcover : ∀ (k : Nat) v, w.validatorList.validators[k]? = some v → v.lastUpdateEpoch < w.sysvars.epoch →
      k ∈ instrs.flatMap Instruction.indices)
    (hlast : last.UpdatesPool rt w) :
    ∃ w', executeAll rt w (instrs ++ [last]) = .ok w' ∧ w'.stakePool.lastUpdateEpoch = w.sysvars.epoch := by
  obtain ⟨w₁, h₁, hw₁, hpool, hprogress⟩ := executeAll_accepts hl hw hparts
  have hup : ∀ v ∈ w₁.validatorList.validators, w₁.sysvars.epoch ≤ v.lastUpdateEpoch := by
    intro v' hv'
    obtain ⟨k, hk⟩ := List.getElem?_of_mem hv'
    have hlen := (List.getElem?_eq_some_iff.1 hk).1
    rw [hprogress.length] at hlen
    obtain ⟨v, hv⟩ : ∃ v, w.validatorList.validators[k]? = some v := ⟨_, List.getElem?_eq_getElem hlen⟩
    obtain ⟨u, hu, -, hin, hout⟩ := hprogress.entry k v hv
    obtain rfl := Option.some.inj (hk.symm.trans hu)
    rw [hprogress.sysvars]
    by_cases hmem : k ∈ instrs.flatMap Instruction.indices
    · exact (hin hmem).ge
    · rw [hout hmem]
      exact Nat.not_lt.1 fun hstale => hmem (hcover k v hv hstale)
  have hlast₁ : last.UpdatesPool rt w₁ := ⟨hlast.data, by rw [hpool]; exact hlast.keys⟩
  obtain ⟨w₂, h₂, hepoch⟩ := hlast₁.accepts hl hw₁ hup
  refine ⟨w₂, ?_, by rw [hepoch, hprogress.sysvars]⟩
  rw [executeAll_append, h₁, ok_bind, executeAll, h₂]
  rfl

/-- While no epoch rewards are paid, updates of parts of the list that cover it and merge nothing succeed in any order,
whatever the stake accounts and the manager fee account are, and the update of the pool after them does. -/
theorem update_always_succeeds (hl : rt.Lawful) (hr : (poolSystem rt).Reachable w)
    (hrewards : w.sysvars.epochRewardsActive = false)
    (hlt : (w.accounts w.stakePool.reserveStake).lamports +
      rt.listLamports w.accounts w.validatorList.validators < 2 ^ 63)
    {instrs : List (Instruction Key)} {last : Instruction Key}
    (hparts : ∀ ins ∈ instrs, ∃ start n, ins.UpdatesPart rt w start n)
    (hcover : ∀ k < w.validatorList.validators.length, k ∈ instrs.flatMap Instruction.indices)
    (hlast : last.UpdatesPool rt w) :
    ∃ w', executeAll rt w (instrs ++ [last]) = .ok w' ∧ w'.stakePool.lastUpdateEpoch = w.sysvars.epoch :=
  (Updatable.of_reachable hl hr hrewards hlt).succeeds hl hparts
    (fun k _ hv _ => hcover k (List.getElem?_eq_some_iff.1 hv).1) hlast

section
open Reference

/-- A pool with an epoch fee and two validators in the next epoch: the stake account of the first holds more than is
delegated, that of the second was destaked, and the reserve was given lamports. -/
def shaken : World Reference.Key :=
  after (opened ⟨10, 1⟩ noFee noFee) [depositSol 100000000 0, addValidator vote, addValidator vote',
    .donate (Reference.validatorStake vote) 1000, .forceDestake (Reference.validatorStake vote'), .donate reserve 5000,
    .advanceEpoch 11 false (fun _ => none)]

/-- The update of one entry, without merging. -/
def countOne (vote : Reference.Key) (startIndex : Nat) : Instruction Reference.Key :=
  { updateOne vote startIndex with data := .updateValidatorListBalance startIndex true }

/-- The update of the pool. -/
def balance : Instruction Reference.Key :=
  updateStakePoolBalance runtime.programId runtime.stakePoolAddress runtime.withdrawAuthority
    runtime.validatorListAddress reserve managerFeeAccount poolMint shaken.stakePool.tokenProgramId

theorem update_always_succeeds_shaken : ∃ w',
    executeAll runtime shaken [countOne vote' 1, countOne vote 0, balance] = .ok w' ∧
      w'.stakePool.lastUpdateEpoch = 11 := by
  have hr : (poolSystem runtime).Reachable shaken :=
    reachable_after (initialized_opened (by decide +kernel)) (by decide +kernel)
  have hlen : shaken.validatorList.validators.length = 2 := by decide +kernel
  have hparts : ∀ ins ∈ [countOne vote' 1, countOne vote 0], ∃ start n, ins.UpdatesPart runtime shaken start n := by
    intro ins hins
    rcases List.mem_pair.1 hins with rfl | rfl
    · exact ⟨1, 1, rfl, by omega, Reference.unused.key, by decide +kernel⟩
    · exact ⟨0, 1, rfl, by omega, Reference.unused.key, by decide +kernel⟩
  have hcover : ∀ k < shaken.validatorList.validators.length,
      k ∈ [countOne vote' 1, countOne vote 0].flatMap Instruction.indices := by
    rw [hlen]
    decide
  have hlast : balance.UpdatesPool runtime shaken := ⟨rfl, by decide +kernel⟩
  exact update_always_succeeds lawful hr (by decide +kernel) (by decide +kernel) hparts hcover hlast

end

/-! ## The instructions of a client -/

section
variable {stakeHistoryId : Key} {instrs finals order : List (Instruction Key)}

omit [DecidableEq Key] [Inhabited Key] in
theorem keys_entryAccounts (vs : List (ValidatorStakeInfo Key)) :
    (vs.flatMap (entryAccounts rt rt.programId rt.stakePoolAddress)).map (·.key) =
      (rt.stakePairs vs).flatMap fun k => [k.1, k.2] := by
  rw [Runtime.stakePairs, List.map_flatMap, List.flatMap_map]
  rfl

omit [DecidableEq Key] in
theorem updatesPart_chunkInstruction (hp : PoolOk rt w.stakePool) {i : Nat}
    (hi : i < Chunks.count maxValidatorsToUpdate w.validatorList.validators) :
    (chunkInstruction rt stakeHistoryId rt.programId rt.stakePoolAddress w.stakePool w.validatorList true
      i).UpdatesPart rt w (i * maxValidatorsToUpdate)
      (min maxValidatorsToUpdate (w.validatorList.validators.length - i * maxValidatorsToUpdate)) where
  data := rfl
  within := by
    have := Chunks.mul_lt_length hi
    omega
  keys := by
    refine ⟨stakeHistoryId, ?_⟩
    have hlen : w.validatorList.validators.length = (rt.stakePairs w.validatorList.validators).length :=
      (length_stakePairs _).symm
    rw [chunkInstruction, List.map_append, keys_entryAccounts, Chunks.chunk, hlen, ← List.length_drop,
      ← List.take_eq_take_min, hp.list, Runtime.stakePairs, List.map_take, List.map_drop]
    rfl

omit [DecidableEq Key] in
theorem updatesPool_updateStakePoolBalance (hp : PoolOk rt w.stakePool) :
    (updateStakePoolBalance rt.programId rt.stakePoolAddress
      (findWithdrawAuthorityProgramAddress rt rt.programId rt.stakePoolAddress).1 w.stakePool.validatorList
      w.stakePool.reserveStake w.stakePool.managerFeeAccount w.stakePool.poolMint
      w.stakePool.tokenProgramId).UpdatesPool rt w where
  data := rfl
  keys := by
    rw [hp.list]
    rfl

theorem executeAll_statics (hl : rt.Lawful) (hv : w.stakePool.isValid) {instrs : List (Instruction Key)}
    (h : executeAll rt w instrs = .ok w') : Statics w w' := by
  induction instrs generalizing w with
  | nil =>
    cases h
    exact .refl _
  | cons ins instrs ih =>
    simp only [executeAll, bind_eq_ok] at h
    obtain ⟨w₁, h₁, h⟩ := h
    have hs := (process_executed (not_isInitialize hl hv h₁) h₁).statics
    have hv₁ : w₁.stakePool.isValid := by
      rw [StakePool.isValid, hs.accountType]
      exact hv
    exact hs.trans (ih hv₁ h)

theorem cleanupRemovedValidatorEntries_accepts (hp : w.stakePool.isValid)
    (hlist : w.stakePool.validatorList = rt.validatorListAddress) (hheader : w.validatorList.header.isValid) :
    ∃ w', executeAll rt w
      [cleanupRemovedValidatorEntries rt.programId rt.stakePoolAddress rt.validatorListAddress] = .ok w' ∧
      w'.stakePool.lastUpdateEpoch = w.stakePool.lastUpdateEpoch := by
  obtain ⟨a, ha⟩ : ∃ a : CleanupRemovedValidatorEntriesAccounts Key,
      a = ⟨.writable rt.stakePoolAddress, .writable rt.validatorListAddress⟩ := ⟨_, rfl⟩
  have hpool : w.validStakePool rt a.stakePoolInfo = .ok w.stakePool :=
    World.validStakePool_eq_ok.2 ⟨by rw [ha]; rfl, hp, rfl⟩
  have hl : w.validValidatorList rt a.validatorListInfo = .ok w.validatorList :=
    World.validValidatorList_eq_ok.2 ⟨by rw [ha]; rfl, hheader, rfl⟩
  have hkey : a.validatorListInfo.key = w.stakePool.validatorList := by
    rw [ha, hlist]
    rfl
  have hprocess : ∃ w', a.process rt w = .ok w' ∧
      w'.stakePool.lastUpdateEpoch = w.stakePool.lastUpdateEpoch := by
    rw [CleanupRemovedValidatorEntriesAccounts.process, hpool, ok_bind, StakePool.checkValidatorList,
      ensure_of hkey, ok_bind, hl, ok_bind]
    dsimp only
    split <;> exact ⟨_, rfl, rfl⟩
  obtain ⟨w', hprocess, hepoch⟩ := hprocess
  have hexecute : (cleanupRemovedValidatorEntries rt.programId rt.stakePoolAddress
      rt.validatorListAddress).execute rt w = a.process rt w := by
    rw [ha]
    rfl
  refine ⟨w', ?_, hepoch⟩
  rw [executeAll, hexecute, hprocess]
  rfl

theorem Updatable.chunks_succeed (hl : rt.Lawful) (hw : Updatable rt w) {is : List Nat}
    (his : ∀ i ∈ is, i < Chunks.count maxValidatorsToUpdate w.validatorList.validators)
    (ho : order.Perm (is.map
      (chunkInstruction rt stakeHistoryId rt.programId rt.stakePoolAddress w.stakePool w.validatorList true)))
    (hs : ∀ (k : Nat) v, w.validatorList.validators[k]? = some v → v.lastUpdateEpoch < w.sysvars.epoch →
      k ∈ (is.map (chunkInstruction rt stakeHistoryId rt.programId rt.stakePoolAddress w.stakePool
        w.validatorList true)).flatMap Instruction.indices) :
    ∃ w', executeAll rt w (order ++ finalInstructions rt rt.programId w.stakePool rt.stakePoolAddress) = .ok w' ∧
      w'.stakePool.lastUpdateEpoch = w.sysvars.epoch := by
  have hp := hw.inv.pool
  have hparts : ∀ ins ∈ order, ∃ start n, ins.UpdatesPart rt w start n := by
    intro ins hins
    obtain ⟨i, hi, rfl⟩ := List.mem_map.1 (ho.mem_iff.1 hins)
    exact ⟨_, _, updatesPart_chunkInstruction hp (his i hi)⟩
  have hcover : ∀ (k : Nat) v, w.validatorList.validators[k]? = some v → v.lastUpdateEpoch < w.sysvars.epoch →
      k ∈ order.flatMap Instruction.indices := by
    intro k v hv hlt
    rw [(ho.flatMap_right _).mem_iff]
    exact hs k v hv hlt
  obtain ⟨w₁, h₁, hepoch₁⟩ := hw.succeeds hl hparts hcover (updatesPool_updateStakePoolBalance hp)
  have hstatics := executeAll_statics hl hp.valid h₁
  have hvalid : w₁.stakePool.isValid := by
    rw [StakePool.isValid, hstatics.accountType]
    exact hp.valid
  have hheader : w₁.validatorList.header.isValid := by
    rw [hstatics.header]
    exact hw.header
  obtain ⟨w₂, h₂, hepoch₂⟩ := cleanupRemovedValidatorEntries_accepts hvalid (hstatics.list.trans hp.list) hheader
  refine ⟨w₂, ?_, hepoch₂.trans hepoch₁⟩
  rw [finalInstructions, List.append_cons, executeAll_append, h₁, ok_bind, hp.list]
  exact h₂

/-- While no epoch rewards are paid, what `update_stake_pool` and `update_stale_stake_pool` build to update a pool
without merging succeeds, in any order of the instructions for the list. -/
theorem client_updates_succeed (hl : rt.Lawful) (hr : (poolSystem rt).Reachable w)
    (hrewards : w.sysvars.epochRewardsActive = false)
    (hlt : (w.accounts w.stakePool.reserveStake).lamports +
      rt.listLamports w.accounts w.validatorList.validators < 2 ^ 63)
    (h : updateStakePool rt stakeHistoryId rt.programId w.stakePool w.validatorList rt.stakePoolAddress true =
        some (instrs, finals) ∨
      updateStaleStakePool rt stakeHistoryId rt.programId w.stakePool w.validatorList rt.stakePoolAddress true
        w.sysvars.epoch = some (instrs, finals))
    (ho : order.Perm instrs) :
    ∃ w', executeAll rt w (order ++ finals) = .ok w' ∧ w'.stakePool.lastUpdateEpoch = w.sysvars.epoch := by
  have hw : Updatable rt w := .of_reachable hl hr hrewards hlt
  have hlen : w.validatorList.validators.length < 2 ^ 64 := by
    have hroomy := Roomy.of_reach hl hr
    have := hroomy.length_le
    have := hroomy.max_le
    simp only [maxValidatorsInPool] at this
    omega
  rcases h with h | h
  · obtain rfl := updateStakePool_finals h
    obtain rfl := updateStakePool_eq_some hlen h
    refine hw.chunks_succeed hl (fun i hi => List.mem_range.1 hi) ho fun k v hv _ => ?_
    rw [indices_all]
    exact List.mem_range.2 (List.getElem?_eq_some_iff.1 hv).1
  · obtain rfl := updateStaleStakePool_finals h
    obtain rfl := updateStaleStakePool_eq_some hlen h
    exact hw.chunks_succeed hl (fun i hi => List.mem_range.1 (List.mem_of_mem_filter hi)) ho
      fun k v hv hs => indices_stale hv hs

end

end SplStakePool
