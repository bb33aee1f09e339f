import SplStakePool.Effect.Accounting
import SplStakePool.Effect.Locality
import SplStakePool.Invariant.Run
import SplStakePool.Runtime.Session

/-!
# The accounting of an update

An update of the list moves lamports between the reserve and the stake accounts of the entries only, and what
each entry that it names records afterwards is what is left in its two accounts. This needs no more of the
state than that the entries are of different validators and that the reserve is not one of their accounts.

The loop is an induction over the slice: the step of an entry is framed by the accounts of that entry and the reserve,
and the rest of the loop by the accounts of the others, so that each entry is booked once and for all.
-/

namespace SplStakePool
open Exec UpdateValidatorListBalanceAccounts

variable {Key : Type} [DecidableEq Key] [Inhabited Key] {rt : Runtime Key} {w w' : World Key}
  {acc acc' acc₁ : Accounts Key} {a : UpdateValidatorListBalanceAccounts Key} {noMerge : Bool}
  {v v' : ValidatorStakeInfo Key}

/-- The lamports in the stake accounts of entries. -/
def Runtime.listLamports (rt : Runtime Key) (acc : Accounts Key) (vs : List (ValidatorStakeInfo Key)) : Nat :=
  (vs.map (rt.stakeLamports acc)).sum

section
omit [DecidableEq Key] [Inhabited Key]

theorem stakeAccounts_cons {vs : List (ValidatorStakeInfo Key)} {k : Key} :
    k ∈ stakeAccounts rt (v :: vs) ↔ (k = rt.validatorStake v ∨ k = rt.transientStake v) ∨
      k ∈ stakeAccounts rt vs := by
  simp only [stakeAccounts, Set.mem_ofPred_eq, List.mem_cons, exists_eq_or_imp]

theorem stakeLamports_congr (h : ∀ k, k = rt.validatorStake v ∨ k = rt.transientStake v → acc' k = acc k) :
    rt.stakeLamports acc' v = rt.stakeLamports acc v := by
  rw [Runtime.stakeLamports, h _ (.inl rfl), h _ (.inr rfl), Runtime.stakeLamports]

theorem listLamports_congr {vs : List (ValidatorStakeInfo Key)} (h : ∀ k ∈ stakeAccounts rt vs, acc' k = acc k) :
    rt.listLamports acc' vs = rt.listLamports acc vs := by
  rw [Runtime.listLamports, Runtime.listLamports,
    List.map_congr_left fun v hv => stakeLamports_congr fun k hk => h k ⟨v, hv, hk⟩]

theorem listLamports_cons {vs : List (ValidatorStakeInfo Key)} :
    rt.listLamports acc (v :: vs) = rt.stakeLamports acc v + rt.listLamports acc vs := List.sum_cons

theorem listLamports_append {vs us : List (ValidatorStakeInfo Key)} :
    rt.listLamports acc (vs ++ us) = rt.listLamports acc vs + rt.listLamports acc us := by
  rw [Runtime.listLamports, List.map_append, List.sum_append, Runtime.listLamports, Runtime.listLamports]

theorem not_mem_stakeAccounts_of_ne (hl : rt.Lawful) {vs : List (ValidatorStakeInfo Key)}
    (h : ∀ u ∈ vs, v.voteAccountAddress ≠ u.voteAccountAddress) {k : Key}
    (hk : k = rt.validatorStake v ∨ k = rt.transientStake v) : k ∉ stakeAccounts rt vs := by
  have hd : Disjoint (stakeAccounts rt [v]) (stakeAccounts rt vs) :=
    disjoint_stakeAccounts hl (by simpa using h)
  exact Set.disjoint_left.1 hd ⟨v, List.mem_singleton_self v, hk⟩

end

/-- What a loop over entries does to the accounts. -/
structure Rebooked (rt : Runtime Key) (reserve : Key) (vs : List (ValidatorStakeInfo Key))
    (acc acc' : Accounts Key) : Prop where
  balance : (acc' reserve).lamports + rt.listLamports acc' vs =
    (acc reserve).lamports + rt.listLamports acc vs
  frame : ∀ k, k ≠ reserve → k ∉ stakeAccounts rt vs → acc' k = acc k

omit [DecidableEq Key] [Inhabited Key] in
theorem Rebooked.refl {reserve : Key} {vs : List (ValidatorStakeInfo Key)} : Rebooked rt reserve vs acc acc :=
  ⟨rfl, fun _ _ _ => rfl⟩

section
variable {reserve : Key} {vs : List (ValidatorStakeInfo Key)} (hl : rt.Lawful) (hn : ¬ rt.StakePda reserve)
  (hv : ∀ u ∈ vs, v.voteAccountAddress ≠ u.voteAccountAddress)
include hl hn hv

omit [DecidableEq Key] [Inhabited Key] in
/-- The step of an entry does not touch the accounts of others. -/
theorem Frame.stakeAccounts (hf : Frame acc acc₁ [reserve, rt.validatorStake v, rt.transientStake v]) {k : Key}
    (hk : k ∈ stakeAccounts rt vs) : acc₁ k = acc k := by
  refine hf k ?_
  simp only [List.mem_cons, List.not_mem_nil, or_false, not_or]
  refine ⟨?_, ?_, ?_⟩
  · rintro rfl
    exact not_mem_stakeAccounts hn vs hk
  · rintro rfl
    exact not_mem_stakeAccounts_of_ne hl hv (.inl rfl) hk
  · rintro rfl
    exact not_mem_stakeAccounts_of_ne hl hv (.inr rfl) hk

omit [DecidableEq Key] [Inhabited Key] in
/-- Nor does the loop over the others touch those of the entry. -/
theorem Rebooked.own (h : Rebooked rt reserve vs acc₁ acc') {k : Key}
    (hk : k = rt.validatorStake v ∨ k = rt.transientStake v) : acc' k = acc₁ k := by
  refine h.frame k ?_ (not_mem_stakeAccounts_of_ne hl hv hk)
  rintro rfl
  exact not_mem_stakeAccounts hn [v] ⟨v, by simp, hk⟩

omit [DecidableEq Key] [Inhabited Key] in
theorem Rebooked.cons
    (hb : (acc₁ reserve).lamports + rt.stakeLamports acc₁ v = (acc reserve).lamports + rt.stakeLamports acc v)
    (hf : Frame acc acc₁ [reserve, rt.validatorStake v, rt.transientStake v])
    (h : Rebooked rt reserve vs acc₁ acc') : Rebooked rt reserve (v :: vs) acc acc' := by
  have hown : ∀ k, k = rt.validatorStake v ∨ k = rt.transientStake v → acc' k = acc₁ k :=
    fun k hk => h.own hl hn hv hk
  have hothers : rt.listLamports acc₁ vs = rt.listLamports acc vs :=
    listLamports_congr fun k hk => hf.stakeAccounts hl hn hv hk
  constructor
  · have hbal := h.balance
    rw [listLamports_cons, listLamports_cons, stakeLamports_congr hown]
    omega
  · intro k hkr hk
    rw [stakeAccounts_cons, not_or, not_or] at hk
    rw [h.frame k hkr hk.2]
    exact hf k (by simp [hkr, hk.1.1, hk.1.2])

end

/-- What a loop leaves at one place of the list: the entry is up to date with its accounts if these were given, and
they are not touched if not. -/
structure BookedAt (rt : Runtime Key) (usable : Meta Key → Bool) (epoch : Nat) (given : Prop) (acc acc' : Accounts Key)
    (v v' : ValidatorStakeInfo Key) : Prop where
  booked : given → EntryAccounts usable epoch (acc' (rt.validatorStake v)) (acc' (rt.transientStake v)) v v'
  kept : ¬ given → v' = v ∧ ∀ k, k = rt.validatorStake v ∨ k = rt.transientStake v → acc' k = acc k

/-- The loop over a list of entries of different validators. -/
theorem updateEntries_accounts (hl : rt.Lawful) (hpool : a.stakePoolInfo.key = rt.stakePoolAddress)
    (hn : ¬ rt.StakePda a.reserveStakeInfo.key) {vs vs' : List (ValidatorStakeInfo Key)}
    {infos : List (AccountInfo Key × AccountInfo Key)} (hvotes : (vs.map (·.voteAccountAddress)).Nodup)
    (h : a.updateEntries rt w noMerge acc vs infos = .ok (acc', vs')) :
    Rebooked rt a.reserveStakeInfo.key vs acc acc' ∧
      ∀ (j : Nat) (v : ValidatorStakeInfo Key), vs[j]? = some v → ∃ v', vs'[j]? = some v' ∧
        BookedAt rt (usable w a) w.sysvars.epoch (∃ info ∈ infos[j]?, Own rt v info) acc acc' v v' := by
  induction vs generalizing acc infos vs' with
  | nil =>
    cases h
    exact ⟨.refl, fun j v hv => by cases hv⟩
  | cons u vs ih =>
    cases infos with
    | nil =>
      cases h
      exact ⟨.refl, fun j v hv => ⟨v, hv, fun ho => by simp at ho, fun _ => ⟨rfl, fun _ _ => rfl⟩⟩⟩
    | cons info infos =>
      simp only [updateEntries, bind_eq_ok, pure_eq_ok, Prod.mk.injEq] at h
      obtain ⟨⟨acc₁, u'⟩, hu, ⟨acc₂, vs''⟩, h, rfl, rfl⟩ := h
      dsimp only at h ⊢
      rw [List.map_cons, List.nodup_cons] at hvotes
      have hne : ∀ x ∈ vs, u.voteAccountAddress ≠ x.voteAccountAddress :=
        fun x hx he => hvotes.1 (he ▸ List.mem_map_of_mem hx)
      obtain ⟨hrest, hget⟩ := ih hvotes.2 h
      dsimp only at hrest hget
      -- the accounts of the entry are not touched by the rest of the loop
      have hkeep : ∀ k, k = rt.validatorStake u ∨ k = rt.transientStake u → acc₂ k = acc₁ k :=
        fun k hk => hrest.own hl hn hne hk
      by_cases ho : Own rt u info
      · obtain ⟨hentry, hb, hf⟩ := updateEntry_accounts hl hpool hn ho hu
        refine ⟨.cons hl hn hne hb hf hrest, ?_⟩
        rintro (_ | j) v hv
        · cases hv
          refine ⟨u', rfl, fun _ => ?_, fun hc => absurd ⟨info, rfl, ho⟩ hc⟩
          rw [hkeep _ (.inl rfl), hkeep _ (.inr rfl)]
          exact hentry
        · -- nor are those of the others by this step
          obtain ⟨v', hv', hbook⟩ := hget j v hv
          refine ⟨v', hv', hbook.booked, fun hc => ⟨(hbook.kept hc).1, fun k hk => ?_⟩⟩
          rw [(hbook.kept hc).2 k hk]
          exact hf.stakeAccounts hl hn hne ⟨v, List.mem_of_getElem? hv, hk⟩
      · rw [updateEntry_skip hpool ho] at hu
        cases hu
        refine ⟨.cons hl hn hne rfl (fun _ _ => rfl) hrest, ?_⟩
        rintro (_ | j) v hv
        · cases hv
          exact ⟨u, rfl, fun hc => absurd hc (by simpa using ho), fun _ => ⟨rfl, hkeep⟩⟩
        · exact hget j v hv

/-- The entries are of different validators, and the reserve is not a stake account of any. -/
structure StakesDistinct (rt : Runtime Key) (w : World Key) : Prop where
  votes : (w.validatorList.validators.map (·.voteAccountAddress)).Nodup
  reserve : ¬ rt.StakePda w.stakePool.reserveStake

omit [DecidableEq Key] in
theorem StakesDistinct.of_inv (hi : Inv rt w) : StakesDistinct rt w := ⟨hi.core.votes, hi.core.reserve_pda⟩

theorem UpdateValidatorListBalanceAccounts.Ok.rebooked (hl : rt.Lawful) (hw : StakesDistinct rt w) {start : Nat}
    {pre slice post slice' : List (ValidatorStakeInfo Key)} (h : a.Ok rt w w' start noMerge pre slice post slice') :
    Rebooked rt w.stakePool.reserveStake w.validatorList.validators w.accounts w'.accounts ∧
      ∀ (k : Nat) (v : ValidatorStakeInfo Key), w.validatorList.validators[k]? = some v →
        ∃ v', w'.validatorList.validators[k]? = some v' ∧
          BookedAt rt (usable w a) w.sysvars.epoch (Names rt a start k v) w.accounts w'.accounts v v' := by
  have hvotes := hw.votes
  rw [h.list, List.map_append, List.map_append, List.append_assoc, List.nodup_append', List.nodup_append'] at hvotes
  obtain ⟨-, ⟨hslice, -, hd⟩, hd'⟩ := hvotes
  have hn : ¬ rt.StakePda a.reserveStakeInfo.key := h.reserveKey ▸ hw.reserve
  obtain ⟨hb, hget⟩ := updateEntries_accounts hl h.poolKey hn hslice h.entries
  rw [h.reserveKey] at hb
  have hlen := updateEntries_length h.entries
  -- the rest of the list is not touched
  have hkeep : ∀ us : List (ValidatorStakeInfo Key),
      (∀ v ∈ slice, ∀ u ∈ us, v.voteAccountAddress ≠ u.voteAccountAddress) →
      ∀ k ∈ stakeAccounts rt us, w'.accounts k = w.accounts k := by
    intro us hus k hk
    refine hb.frame k ?_ (Set.disjoint_right.1 (disjoint_stakeAccounts hl hus) hk)
    rintro rfl
    exact not_mem_stakeAccounts hw.reserve us hk
  have hpre := hkeep pre fun v hv u hu he => hd' (List.mem_map_of_mem hu)
    (List.mem_append_left _ (he ▸ List.mem_map_of_mem hv))
  have hpost := hkeep post fun v hv u hu he => hd (List.mem_map_of_mem hv) (he ▸ List.mem_map_of_mem hu)
  refine ⟨⟨?_, ?_⟩, ?_⟩
  · have hbal := hb.balance
    rw [h.list, listLamports_append, listLamports_append, listLamports_append, listLamports_append,
      listLamports_congr hpre, listLamports_congr hpost]
    omega
  · intro k hkr hk
    refine hb.frame k hkr fun hs => hk ?_
    obtain ⟨v, hv, hk⟩ := hs
    exact ⟨v, by rw [h.list]; simp [hv], hk⟩
  · intro k v hv
    have hstart := h.start_eq
    rw [congrArg World.validatorList h.result]
    dsimp only
    rw [h.list] at hv
    by_cases hk : k < start
    · -- before the slice
      rw [List.append_assoc, List.getElem?_append_left (by omega)] at hv ⊢
      refine ⟨v, hv, fun hc => absurd hc.1 (by omega), fun _ => ⟨rfl, fun j hj => ?_⟩⟩
      exact hpre j ⟨v, List.mem_of_getElem? hv, hj⟩
    by_cases hk' : k < start + slice.length
    · rw [List.append_assoc, List.getElem?_append_right (by omega), List.getElem?_append_left (by omega),
        hstart] at hv ⊢
      obtain ⟨v', hv', hbook⟩ := hget _ v hv
      exact ⟨v', hv', fun hc => hbook.booked hc.2, fun hc => hbook.kept fun ho => hc ⟨by omega, ho⟩⟩
    · -- behind it
      rw [List.getElem?_append_right (by simp; omega)] at hv ⊢
      rw [List.length_append] at hv ⊢
      refine ⟨v, by rwa [hlen], fun hc => ?_, fun _ => ⟨rfl, fun j hj => ?_⟩⟩
      · obtain ⟨-, info, hi, -⟩ := hc
        have := (List.getElem?_eq_some_iff.1 hi).1
        rw [length_pairs, ← h.length] at this
        omega
      · exact hpost j ⟨v, List.mem_of_getElem? hv, hj⟩

/-- What an update has done to an entry: its records are what was left in its two accounts, with the status before
and after it. -/
structure EntryBooked (rt : Runtime Key) (w w' : World Key) (a : UpdateValidatorListBalanceAccounts Key)
    (v v' : ValidatorStakeInfo Key) : Prop extends SameAccounts v v' where
  lastUpdateEpoch : v'.lastUpdateEpoch = w.sysvars.epoch
  active : v'.activeStakeLamports =
    if (w'.accounts (rt.validatorStake v)).isDelegated (usable w a) ∧ v.status.counts then
      (w'.accounts (rt.validatorStake v)).lamports else 0
  active_after : v'.activeStakeLamports =
    if (w'.accounts (rt.validatorStake v)).isDelegated (usable w a) ∧ v'.status.counts then
      (w'.accounts (rt.validatorStake v)).lamports else 0
  transient : v'.transientStakeLamports =
    if v.transientStakeLamports ≠ 0 ∧ (w'.accounts (rt.transientStake v)).isUsable (usable w a) then
      (w'.accounts (rt.transientStake v)).lamports else 0

omit [Inhabited Key] in
theorem EntryBooked.of_accounts (h : EntryAccounts (usable w a) w.sysvars.epoch (w'.accounts (rt.validatorStake v))
    (w'.accounts (rt.transientStake v)) v v') : EntryBooked rt w w' a v v' := by
  refine ⟨h.toSameAccounts, h.lastUpdateEpoch, h.active, ?_, h.transient⟩
  rw [h.active]
  by_cases hd : (w'.accounts (rt.validatorStake v)).isDelegated (usable w a)
  · rw [h.counts hd]
  · rw [if_neg fun hc => hd hc.1, if_neg fun hc => hd hc.1]

/-- An update of the list moves lamports between the reserve and the stake accounts of the entries. Each entry in
the range whose accounts are given records what it has left in these. The other entries do not change, and neither
do their accounts. -/
theorem update_list_accounting (hl : rt.Lawful) :
    (∀ w, (poolSystem rt).Reachable w → StakesDistinct rt w) ∧
    ∀ (w w' : World Key) (accounts : List (AccountInfo Key)) (start : Nat) (noMerge : Bool),
      StakesDistinct rt w → processUpdateValidatorListBalance rt w accounts start noMerge = .ok w' →
      ∃ a rest, (parse rt).run accounts = .ok (a, rest) ∧
        (w'.accounts w.stakePool.reserveStake).lamports + rt.listLamports w'.accounts w.validatorList.validators =
          (w.accounts w.stakePool.reserveStake).lamports + rt.listLamports w.accounts w.validatorList.validators ∧
        (∀ k, k ≠ w.stakePool.reserveStake → k ∉ stakeAccounts rt w.validatorList.validators →
          w'.accounts k = w.accounts k) ∧
        (∀ k v, w.validatorList.validators[k]? = some v →
          ∃ v', w'.validatorList.validators[k]? = some v' ∧
            (Names rt a start k v → EntryBooked rt w w' a v v') ∧
            (¬ Names rt a start k v → v' = v ∧
              ∀ j, j = rt.validatorStake v ∨ j = rt.transientStake v → w'.accounts j = w.accounts j)) ∧
        w'.validatorList.validators.length = w.validatorList.validators.length ∧
        w' = { w with
          validatorList := { w.validatorList with validators := w'.validatorList.validators }
          accounts := w'.accounts } := by
  refine ⟨fun w hr => .of_inv (Inv.of_reach hl hr), ?_⟩
  intro w w' accounts start noMerge hw h
  obtain ⟨a, rest, hparse, pre, slice, post, slice', hok⟩ := processUpdateValidatorListBalance_ok h
  obtain ⟨hb, hget⟩ := hok.rebooked hl hw
  refine ⟨a, rest, hparse, hb.balance, hb.frame, ?_, ?_, ?_⟩
  · intro k v hv
    obtain ⟨v', hv', hbook⟩ := hget k v hv
    exact ⟨v', hv', fun hn => .of_accounts (hbook.booked hn), hbook.kept⟩
  · have hlen := updateEntries_length hok.entries
    rw [congrArg World.validatorList hok.result, hok.list]
    simp only [List.length_append, hlen]
  · rw [congrArg World.validatorList hok.result]
    exact hok.result

section
open Reference

/-- A validator with a transient stake that is ready to be merged. -/
def ripe : World Reference.Key :=
  after (opened noFee noFee noFee) [depositSol 100000000 0, addValidator vote, increase vote 5000000 7,
    .advanceEpoch 11 false (fun _ => none)]

/-- The accounts of an update of that validator. -/
def ripeAccounts : List (AccountInfo Reference.Key) :=
  [poolInfo, authorityInfo, listInfo, reserveInfo, clock, Reference.unused, stakeInfo,
    Reference.writable (Reference.validatorStake vote), Reference.writable (Reference.transientStake vote 7)]

theorem update_list_accounting_ripe : ∃ w',
    processUpdateValidatorListBalance runtime ripe ripeAccounts 0 false = .ok w' ∧
      (w'.accounts reserve).lamports + runtime.listLamports w'.accounts ripe.validatorList.validators =
        (ripe.accounts reserve).lamports + runtime.listLamports ripe.accounts ripe.validatorList.validators := by
  have hr : (poolSystem runtime).Reachable ripe :=
    reachable_after (initialized_opened (by decide +kernel)) (by decide +kernel)
  have hx : (processUpdateValidatorListBalance runtime ripe ripeAccounts 0 false).toOption.isSome := by
    decide +kernel
  obtain ⟨w', hw⟩ := Option.isSome_iff_exists.1 hx
  have hw := toOption_eq_some.1 hw
  obtain ⟨_, _, -, hb, -⟩ := (update_list_accounting lawful).2 ripe w' ripeAccounts 0 false
    ((update_list_accounting lawful).1 ripe hr) hw
  exact ⟨w', hw, hb⟩

end

end SplStakePool
