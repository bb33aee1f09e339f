import SplStakePool.Invariant.Leaving
import SplStakePool.Invariant.Voter

/-!
# What the stake of the pool is delegated to

The stake accounts of an entry that belong to the pool are delegated to the vote account of the entry, if they are
delegated. A new transient stake takes over the delegation of the account that it is split from, or it is delegated to
the vote account that the list was searched for. `Step.delegates` says that every step keeps this.

Only the two handlers that rebalance make new delegated stake for an entry. After every other instruction each stake
that an entry has is one that it had before, with the voter unchanged (`Continues`), which follows from what is known
of the voters under calls.
-/

namespace SplStakePool
open Exec Machine Function System

variable {Key : Type} [DecidableEq Key] {rt : Runtime Key} {w w' : World Key} {sys : Sysvars}
  {accounts : List (AccountInfo Key)} {i : StakePoolInstruction Key} {out : Option Key} {acc acc' acc₁ : Accounts Key}
  {src dst auth vote : AccountInfo Key} {l : Label Key} {u v v' : ValidatorStakeInfo Key} {k : Key}

/-- The account is delegated to one vote account at most. -/
def Account.DelegatedOnlyTo (a : Account Key) (vote : Key) : Prop := ∀ k, a.DelegatedTo k → k = vote

omit [DecidableEq Key] in
theorem KeepsVoter.onlyTo {a b : Account Key} (h : KeepsVoter a b) (ha : a.DelegatedOnlyTo k) : b.DelegatedOnlyTo k :=
  fun j hj => ha j (h j hj)

omit [DecidableEq Key] in
theorem Account.DelegatedOnlyTo.of_stake {a : Account Key} {m : Meta Key} {s : Stake Key}
    (hd : a.data = .stakeState (.stake m s)) : a.DelegatedOnlyTo s.delegation.voterPubkey := by
  rintro j ⟨m', s', hd', rfl⟩
  rw [hd] at hd'
  cases hd'
  rfl

/-- What is split off is delegated as its source. -/
theorem stakeSplit_onlyTo {n : Nat} (hl : rt.Lawful) (h : stakeSplit rt sys acc src auth n dst = .ok acc')
    (hs : (acc src.key).DelegatedOnlyTo k) : (acc' dst.key).DelegatedOnlyTo k := by
  obtain ⟨-, -, -, -, -, s, t, u, hd, hsp, -, rfl⟩ := stakeSplit_ok hl h
  rintro j ⟨m, st, hj, rfl⟩
  rw [update_self] at hj
  cases hsp with
  | initialized => cases hj
  | stake m' st' left moved =>
    cases hj
    exact hs _ ⟨m', st', hd, rfl⟩

theorem stakeDelegate_onlyTo (hl : rt.Lawful) (h : stakeDelegate rt sys acc dst vote auth = .ok acc') :
    (acc' dst.key).DelegatedOnlyTo vote.key := by
  obtain ⟨-, -, m, st, -, -, -, hvote, -, -, rfl⟩ := stakeDelegate_ok hl h
  rw [update_self, ← hvote]
  exact .of_stake rfl

/-- The pool has the validator stake of an entry with this status. -/
def StakeStatus.hasValidatorStake : StakeStatus → Bool
  | .active | .deactivatingAll | .deactivatingValidator => true
  | .deactivatingTransient | .readyForRemoval => false

theorem StakeStatus.hasValidatorStake_of_down {s t : StakeStatus} (h : s.down t) (ht : t.hasValidatorStake) :
    s.hasValidatorStake := by
  cases s <;> cases t <;> simp_all [down, hasValidatorStake]

/-- The pool has the validator stake of an entry. -/
def ValidatorStakeInfo.HasValidatorStake (v : ValidatorStakeInfo Key) : Prop :=
  ∃ s : StakeStatus, v.status = s.pod ∧ s.hasValidatorStake

/-- The stake that the pool has of an entry is delegated to nothing but the vote account of the entry. -/
structure Delegates (rt : Runtime Key) (acc : Accounts Key) (v : ValidatorStakeInfo Key) : Prop where
  validator : v.HasValidatorStake → (acc (rt.validatorStake v)).DelegatedOnlyTo v.voteAccountAddress
  transient : 0 < v.transientStakeLamports → (acc (rt.transientStake v)).DelegatedOnlyTo v.voteAccountAddress

/-- The stake of all entries is delegated to their vote accounts. -/
def AllDelegates (rt : Runtime Key) (w : World Key) : Prop :=
  ∀ v ∈ w.validatorList.validators, Delegates rt w.accounts v

omit [DecidableEq Key] in
theorem Delegates.keep (h : Delegates rt acc v)
    (hv : v.HasValidatorStake → KeepsVoter (acc (rt.validatorStake v)) (acc' (rt.validatorStake v)))
    (ht : 0 < v.transientStakeLamports → KeepsVoter (acc (rt.transientStake v)) (acc' (rt.transientStake v))) :
    Delegates rt acc' v :=
  ⟨fun h0 => (hv h0).onlyTo (h.validator h0), fun h0 => (ht h0).onlyTo (h.transient h0)⟩

section
variable [Inhabited Key]

omit [DecidableEq Key] in
/-- A validator stake that the pool has is one that only the pool can use. -/
theorem Leaving.controlled (h : Leaving rt acc v) (hv : EntryOk rt acc v) (hs : v.HasValidatorStake) :
    Controlled rt (acc (rt.validatorStake v)) := by
  obtain ⟨s, hst, hleft⟩ := h
  obtain ⟨t, ht, hhas⟩ := hs
  obtain rfl := StakeStatus.pod_inj (hst.symm.trans ht)
  cases s with
  | active => exact hv.of_active hst
  | deactivatingAll => exact hleft.1
  | deactivatingValidator => exact hleft
  | deactivatingTransient | readyForRemoval => cases hhas

/-! ## Rebalancing -/

section
variable {a : IncreaseValidatorStakeAccounts Key} {lamports total : Nat} {seed : UInt64} {info : AccountInfo Key}

omit [Inhabited Key] in
theorem IncreaseValidatorStakeAccounts.Source.onlyTo (hl : rt.Lawful) (h : Source rt w a total acc₁ info)
    (hr : ∃ m, (w.accounts a.reserveStakeAccountInfo.key).data = .stakeState (.initialized m)) :
    (acc₁ info.key).DelegatedOnlyTo a.validatorVoteAccountInfo.key := by
  cases h with
  | reserve =>
    rintro j ⟨m, s, hd, -⟩
    obtain ⟨m', hd'⟩ := hr
    rw [hd'] at hd
    cases hd
  | ephemeral _ _ _ _ delegate => exact stakeDelegate_onlyTo hl delegate

omit [Inhabited Key] in
theorem IncreaseValidatorStakeAccounts.NewTransient.onlyTo (hl : rt.Lawful)
    (h : NewTransient rt w a total acc info acc')
    (hs : (acc info.key).DelegatedOnlyTo a.validatorVoteAccountInfo.key) :
    (acc' a.transientStakeAccountInfo.key).DelegatedOnlyTo a.validatorVoteAccountInfo.key := by
  obtain ⟨create, split, -, delegate⟩ := h
  have hsplit := stakeSplit_onlyTo hl split ((createStakeAccount_voter hl create).onlyTo hs)
  rcases delegate with ⟨-, rfl⟩ | ⟨-, hd⟩
  · exact hsplit
  · exact stakeDelegate_onlyTo hl hd

theorem IncreaseValidatorStakeAccounts.Ok.transientTo (hl : rt.Lawful)
    (h : a.Ok rt w w' lamports seed v acc₁ info) (hr : Reserve rt (w.accounts w.stakePool.reserveStake))
    (hv : Delegates rt w.accounts v) :
    (w'.accounts a.transientStakeAccountInfo.key).DelegatedOnlyTo v.voteAccountAddress := by
  obtain ⟨hvote, -⟩ := ValidatorList.find_split h.find
  have hkey := h.transientKey_eq
  rcases h.transient with ⟨h0, hseed, -, hm⟩ | ⟨-, hnew⟩
  · have hkey : a.transientStakeAccountInfo.key = rt.transientStake v := by rw [hkey, hseed]
    have h₁ : KeepsVoter (w.accounts a.transientStakeAccountInfo.key) (acc₁ a.transientStakeAccountInfo.key) := by
      cases h.source with
      | reserve => exact .refl _
      | ephemeral _ hke create split delegate =>
        have hne : a.transientStakeAccountInfo.key ≠ info.key := fun hk =>
          transientStake_ne_ephemeralStake hl _ _ (hkey.symm.trans (hk.trans (rt.ephemeralStake_eq h.poolKey hke)))
        exact ((createStakeAccount_voter hl create).trans (stakeSplit_voter hl split hne)).trans
          (stakeDelegate_voter hl delegate hne)
    exact (h₁.trans (stakeMerge_voter hl hm)).onlyTo (by rw [hkey]; exact hv.transient h0)
  · rw [hvote]
    obtain ⟨m, hd, -⟩ := hr.state
    exact hnew.onlyTo hl (h.source.onlyTo hl ⟨m, by rw [h.reserveKey]; exact hd⟩)

end

section
variable {a : DecreaseValidatorStakeAccounts Key} {lamports n : Nat} {seed : UInt64} {m : Meta Key} {s : Stake Key}
  {info : AccountInfo Key}

omit [Inhabited Key] in
theorem DecreaseValidatorStakeAccounts.Source.onlyTo (hl : rt.Lawful) (h : Source rt w a lamports acc₁ info n)
    (hv : (w.accounts a.validatorStakeAccountInfo.key).DelegatedOnlyTo k) : (acc₁ info.key).DelegatedOnlyTo k := by
  cases h with
  | validator => exact hv
  | ephemeral _ _ create fund split deactivate =>
    have h₁ := (fund.voter hl).onlyTo ((createStakeAccount_voter hl create).onlyTo hv)
    exact (stakeDeactivate_voter hl deactivate).onlyTo (stakeSplit_onlyTo hl split h₁)

omit [Inhabited Key] in
theorem DecreaseValidatorStakeAccounts.NewTransient.onlyTo (hl : rt.Lawful)
    (h : NewTransient rt w a acc info n acc') (hs : (acc info.key).DelegatedOnlyTo k) :
    (acc' a.transientStakeAccountInfo.key).DelegatedOnlyTo k := by
  obtain ⟨create, fund, split, -, deactivate⟩ := h
  have hsplit := stakeSplit_onlyTo hl split ((fund.voter hl).onlyTo ((createStakeAccount_voter hl create).onlyTo hs))
  rcases deactivate with ⟨-, hd⟩ | rfl
  · exact (stakeDeactivate_voter hl hd).onlyTo hsplit
  · exact hsplit

omit [Inhabited Key] in
theorem DecreaseValidatorStakeAccounts.Ok.transientTo (hl : rt.Lawful)
    (h : a.Ok rt w w' lamports seed m s v acc₁ info n) (hv : Delegates rt w.accounts v) :
    (w'.accounts a.transientStakeAccountInfo.key).DelegatedOnlyTo v.voteAccountAddress := by
  obtain ⟨hvote, -⟩ := ValidatorList.find_split h.find
  have hkey := rt.transientStake_eq (v := { v with transientSeedSuffix := seed }) hvote h.poolKey rfl h.transientKey
  rcases h.transient with ⟨h0, hseed, -, hm⟩ | ⟨-, hnew⟩
  · have hkey : a.transientStakeAccountInfo.key = rt.transientStake v := by rw [hkey, hseed]
    have h₁ : KeepsVoter (w.accounts a.transientStakeAccountInfo.key) (acc₁ a.transientStakeAccountInfo.key) := by
      cases h.source with
      | validator => exact .refl _
      | ephemeral _ hke create fund split deactivate =>
        have hne : a.transientStakeAccountInfo.key ≠ info.key := fun hk =>
          transientStake_ne_ephemeralStake hl _ _ (hkey.symm.trans (hk.trans (rt.ephemeralStake_eq h.poolKey hke)))
        exact (((createStakeAccount_voter hl create).trans (fund.voter hl)).trans
          (stakeSplit_voter hl split hne)).trans (stakeDeactivate_voter hl deactivate)
    exact (h₁.trans (stakeMerge_voter hl hm)).onlyTo (by rw [hkey]; exact hv.transient h0)
  · rw [hvote]
    exact hnew.onlyTo hl (h.source.onlyTo hl (.of_stake h.stakeState))

end

/-! ## Every step -/

omit [DecidableEq Key] [Inhabited Key] in
theorem StatusDown.hasValidatorStake (h : StatusDown v v') (hv : ∃ s, v.status = StakeStatus.pod s)
    (hs : v'.HasValidatorStake) : v.HasValidatorStake := by
  obtain ⟨s, hs₀⟩ := hv
  obtain ⟨t, ht, hhas⟩ := hs
  obtain ⟨t', ht', hdown⟩ := h s hs₀
  obtain rfl := StakeStatus.pod_inj (ht.symm.trans ht')
  exact ⟨s, hs₀, StakeStatus.hasValidatorStake_of_down hdown hhas⟩

omit [DecidableEq Key] in
theorem EntryEffect.delegates {pre post : List (ValidatorStakeInfo Key)}
    (h : EntryEffect rt out w w' pre v v' post) (hi : Inv rt w) (hleft : AllLeaving rt w) (hd : AllDelegates rt w)
    (hvalidator : ∀ u : ValidatorStakeInfo Key, Controlled rt (w.accounts (rt.validatorStake u)) →
      KeepsVoter (w.accounts (rt.validatorStake u)) (w'.accounts (rt.validatorStake u)))
    (hother : ∀ u : ValidatorStakeInfo Key, Controlled rt (w.accounts (rt.transientStake u)) →
      u.voteAccountAddress ≠ v.voteAccountAddress →
      KeepsVoter (w.accounts (rt.transientStake u)) (w'.accounts (rt.transientStake u)))
    (htransient : 0 < v'.transientStakeLamports →
      (w'.accounts (rt.transientStake v')).DelegatedOnlyTo v.voteAccountAddress) : AllDelegates rt w' := by
  have hc := hi.core
  have hmem : ∀ u ∈ pre ++ post, u ∈ w.validatorList.validators := fun u hu => by
    rw [h.list]
    simp only [List.mem_append, List.mem_cons] at hu ⊢
    tauto
  have hv : v ∈ w.validatorList.validators := by simp [h.list]
  have hne : ∀ u ∈ pre ++ post, u.voteAccountAddress ≠ v.voteAccountAddress := by
    rw [h.list] at hc
    exact fun u => hc.vote_ne
  have other : ∀ u ∈ pre ++ post, Delegates rt w'.accounts u := fun u hu =>
    (hd u (hmem u hu)).keep
      (fun h0 => hvalidator u ((hleft u (hmem u hu)).controlled (hc.entries u (hmem u hu)) h0))
      fun h0 => hother u ((hc.entries u (hmem u hu)).transient h0) (hne u hu)
  intro u hu
  rw [h.list'] at hu
  simp only [List.mem_append, List.mem_cons] at hu
  rcases hu with hu | rfl | hu
  · exact other u (List.mem_append_left _ hu)
  · obtain ⟨s, hs, -⟩ := (hc.entries v hv).status
    refine ⟨fun h0 => ?_, by rw [h.moved.vote]; exact htransient⟩
    have h0 := StatusDown.hasValidatorStake h.moved.down ⟨s, hs⟩ h0
    rw [rt.validatorStake_congr h.moved.vote h.moved.seed, h.moved.vote]
    exact (hvalidator v ((hleft v hv).controlled (hc.entries v hv) h0)).onlyTo ((hd v hv).validator h0)
  · exact other u (List.mem_append_right _ hu)

/-- The entry goes on as another one, with no stake that it has not had before. -/
structure Continues (rt : Runtime Key) (v v' : ValidatorStakeInfo Key) : Prop where
  vote : v'.voteAccountAddress = v.voteAccountAddress
  seed : v'.validatorSeedSuffix = v.validatorSeedSuffix
  validator : v'.HasValidatorStake → v.HasValidatorStake
  transient : 0 < v'.transientStakeLamports →
    0 < v.transientStakeLamports ∧ v'.transientSeedSuffix = v.transientSeedSuffix

omit [DecidableEq Key] [Inhabited Key] in
theorem Continues.refl (v : ValidatorStakeInfo Key) : Continues rt v v := ⟨rfl, rfl, id, fun h => ⟨h, rfl⟩⟩

omit [DecidableEq Key] in
/-- No account of the pool is delegated anew, and no entry has new stake. -/
theorem AllDelegates.continues (hi : Inv rt w) (hleft : AllLeaving rt w) (hd : AllDelegates rt w)
    (hkeep : ∀ k, rt.StakePda k → Controlled rt (w.accounts k) → KeepsVoter (w.accounts k) (w'.accounts k))
    (hentries : ∀ v' ∈ w'.validatorList.validators, ∃ v ∈ w.validatorList.validators, Continues rt v v') :
    AllDelegates rt w' := by
  intro v' hv'
  obtain ⟨v, hv, h⟩ := hentries v' hv'
  have he := hi.core.entries v hv
  refine ⟨fun h0 => ?_, fun h0 => ?_⟩
  · have h0 := h.validator h0
    rw [rt.validatorStake_congr h.vote h.seed, h.vote]
    exact (hkeep _ (.validator v) ((hleft v hv).controlled he h0)).onlyTo ((hd v hv).validator h0)
  · obtain ⟨h0, hseed⟩ := h.transient h0
    rw [rt.transientStake_congr h.vote hseed, h.vote]
    exact (hkeep _ (.transient v) (he.transient h0)).onlyTo ((hd v hv).transient h0)

omit [Inhabited Key] in
theorem ValidatorList.continues_set {l₀ l' : ValidatorList Key} (hset : l' = l₀.set u)
    (hf : l₀.find u.voteAccountAddress = some v) (hs : v.status = StakeStatus.active.pod)
    (hseed : u.validatorSeedSuffix = v.validatorSeedSuffix)
    (ht : 0 < u.transientStakeLamports →
      0 < v.transientStakeLamports ∧ u.transientSeedSuffix = v.transientSeedSuffix) :
    ∀ v' ∈ l'.validators, ∃ v ∈ l₀.validators, Continues rt v v' := by
  obtain ⟨hvote, pre, post, hlist, hwrite⟩ := ValidatorList.find_split hf
  intro v' hv'
  rw [hset, hwrite u rfl] at hv'
  simp only [List.mem_append, List.mem_cons] at hv'
  rcases hv' with hv' | rfl | hv'
  · exact ⟨v', by simp [hlist, hv'], .refl v'⟩
  · exact ⟨v, by simp [hlist], hvote.symm, hseed, fun _ => ⟨.active, hs, rfl⟩, ht⟩
  · exact ⟨v', by simp [hlist, hv'], .refl v'⟩

omit [Inhabited Key] in
theorem WithdrawStakeAccounts.Ok.continues {a : WithdrawStakeAccounts Key} {tokens : Nat} {minimum : Option Nat}
    {fee decimals n : Nat} {plan : WithdrawPlan Key} {acc₂ acc₃ : Accounts Key}
    (h : a.Ok rt w w' tokens minimum fee decimals n plan acc₁ acc₂ acc₃) :
    ∀ v' ∈ w'.validatorList.validators, ∃ v ∈ w.validatorList.validators, Continues rt v v' := by
  have hlist := h.list
  have entry : ∀ {v m d source}, plan.item = some (v, source) → FromEntry w a v m d →
      ∀ v' ∈ w'.validatorList.validators, ∃ v ∈ w.validatorList.validators, Continues rt v v' := by
    intro v m d source hitem he
    have hf := he.find
    rw [← (ValidatorList.find_split hf).1] at hf
    simp only [ValidatorList.withdraw, hitem, bind_eq_ok, pure_eq_ok] at hlist
    obtain ⟨u, hu, hset⟩ := hlist
    cases source <;>
      simp only [ValidatorStakeInfo.withdraw, bind_eq_ok, orErr_eq_ok, ensure_eq_ok, exists_unit, pure_eq_ok,
        checkedSub_eq_some] at hu
    · obtain ⟨_, -, rfl⟩ := hu
      exact ValidatorList.continues_set hset.symm hf he.status rfl fun h => ⟨h, rfl⟩
    · obtain ⟨_, ⟨-, rfl⟩, rfl⟩ := hu
      exact ValidatorList.continues_set hset.symm hf he.status rfl fun h => ⟨Nat.lt_of_lt_of_le h (Nat.sub_le _ _), rfl⟩
    · obtain ⟨_, -, -, rfl⟩ := hu
      exact ValidatorList.continues_set hset.symm hf he.status rfl fun h => ⟨h, rfl⟩
  cases h.planned with
  | reserve =>
    rw [← Except.ok.inj hlist]
    exact fun v hv => ⟨v, hv, .refl v⟩
  | active _ _ _ he => exact entry rfl he
  | transient _ _ _ he => exact entry rfl he
  | removal _ _ _ he => exact entry rfl he

theorem UpdateValidatorListBalanceAccounts.Ok.continues (hl : rt.Lawful)
    {a : UpdateValidatorListBalanceAccounts Key} {start : Nat} {noMerge : Bool}
    {pre slice post slice' : List (ValidatorStakeInfo Key)} (h : a.Ok rt w w' start noMerge pre slice post slice')
    (hi : Inv rt w) : ∀ v' ∈ w'.validatorList.validators, ∃ v ∈ w.validatorList.validators, Continues rt v v' := by
  intro v' hv'
  obtain ⟨k, hk⟩ := List.getElem?_of_mem hv'
  have hlen : w'.validatorList.validators.length = w.validatorList.validators.length := by
    have := updateEntries_length h.entries
    rw [congrArg World.validatorList h.result, h.list]
    simp only [List.length_append]
    omega
  have hlt := (List.getElem?_eq_some_iff.1 hk).1
  rw [hlen] at hlt
  have hv := List.getElem?_eq_getElem hlt
  have hmem := List.mem_of_getElem? hv
  refine ⟨_, hmem, ?_⟩
  obtain ⟨u, hu, ⟨-, rfl⟩ | ⟨-, info, acc₀, acc₁, hstep⟩⟩ := h.step hl hi.pool hi.core hv
  all_goals obtain rfl := Option.some.inj (hk.symm.trans hu)
  · exact .refl _
  obtain ⟨acc₂, status, t, status', n, -, -, hT, hV, rfl⟩ :=
    hstep.parts hl (h.ctx hl hi.pool) h.poolKey hi.core.reserve_pda
  refine ⟨rfl, rfl, fun h0 => ?_, fun h0 => ?_⟩
  · obtain ⟨s, hs, -⟩ := (hi.core.entries _ hmem).status
    refine StatusDown.hasValidatorStake (v := w.validatorList.validators[k]) (fun s hs => ?_) ⟨s, hs⟩ h0
    obtain ⟨s₁, hs₁, hd⟩ := hT.down s hs
    obtain ⟨s₂, hs₂, hd'⟩ := hV.down s₁ hs₁
    exact ⟨s₂, hs₂, StakeStatus.down_trans hd hd'⟩
  · refine ⟨?_, rfl⟩
    by_contra hz
    exact absurd (hT.idle (by omega)).2 (Nat.ne_of_gt h0)

theorem Executed.delegates (hl : rt.Lawful) (hs : NoPdaSigner rt accounts) (hi : Inv rt w) (hleft : AllLeaving rt w)
    (hd : AllDelegates rt w) (h : Executed rt w w' accounts i out) : AllDelegates rt w' := by
  have hc := hi.core
  have hvalidator : ∀ u : ValidatorStakeInfo Key, Controlled rt (w.accounts (rt.validatorStake u)) →
      KeepsVoter (w.accounts (rt.validatorStake u)) (w'.accounts (rt.validatorStake u)) :=
    fun u hu => h.voter hl hs hi hu
  have same : (∀ k, rt.StakePda k → Controlled rt (w.accounts k) → KeepsVoter (w.accounts k) (w'.accounts k)) →
      (∀ v ∈ w'.validatorList.validators, v ∈ w.validatorList.validators) → AllDelegates rt w' :=
    fun hkeep hlist => hd.continues hi hleft hkeep fun v hv => ⟨v, hlist v hv, .refl v⟩
  have find : ∀ {vote v}, w.validatorList.find vote = some v →
      w.validatorList.find v.voteAccountAddress = some v := fun hf => by
    rw [(ValidatorList.find_split hf).1]
    exact hf
  cases h with
  | add _ _ h =>
    have hkey := rt.validatorStake_eq (v := newEntry rt w _ _) rfl h.poolKey h.stakeKey
    have hnot : ∀ {k}, Controlled rt (w.accounts k) → KeepsVoter (w.accounts k) (w'.accounts k) := fun hk =>
      h.voter hl fun he => not_controlled_of_none (createStakeAccount_ok hl h.create).2.1 (he ▸ hk)
    intro u hu
    rw [congrArg World.validatorList h.result] at hu
    rcases List.mem_append.1 hu with hu | hu
    · exact (hd u hu).keep (fun h0 => hnot ((hleft u hu).controlled (hc.entries u hu) h0))
        fun h0 => hnot ((hc.entries u hu).transient h0)
    · rw [List.mem_singleton.1 hu]
      refine ⟨fun _ => ?_, fun h0 => absurd h0 (Nat.lt_irrefl 0)⟩
      rw [← hkey]
      exact stakeDelegate_onlyTo hl h.delegate
  | @remove _ _ v _ _ h =>
    exact hd.continues hi hleft (fun k _ _ => h.voter hl) (ValidatorList.continues_set (v := v)
      (congrArg World.validatorList h.result) (by exact find h.find) h.status rfl fun h => ⟨h, rfl⟩)
  | @decrease a _ seed _ _ v _ _ _ _ h =>
    obtain ⟨hvote, -⟩ := ValidatorList.find_split h.find
    have hkey := rt.transientStake_eq (v := { v with transientSeedSuffix := seed }) hvote h.poolKey rfl h.transientKey
    obtain ⟨pre, v', post, he⟩ := h.effect hl hc
    have hv : v ∈ w.validatorList.validators := by simp [he.list]
    refine he.delegates hi hleft hd hvalidator (fun u _ hne => ?_) fun _ => ?_
    · refine h.voter hl (transientStake_ne_ephemeralStake hl u) fun hk => ?_
      have hvote := transientStake_inj hl (hk.trans hkey)
      exact hne hvote
    · obtain rfl := he.eq_of_set hc hl (by exact find h.find) (congrArg World.validatorList h.result)
      exact hkey ▸ h.transientTo hl (hd v hv)
  | @increase a _ seed v _ _ _ h =>
    have hkey := h.transientKey_eq
    obtain ⟨pre, v', post, he⟩ := h.effect hl hc
    have hv : v ∈ w.validatorList.validators := by simp [he.list]
    refine he.delegates hi hleft hd hvalidator (fun u _ hne => ?_) fun _ => ?_
    · refine h.voter hl (transientStake_ne_ephemeralStake hl u) fun hk => ?_
      have hvote := transientStake_inj hl (hk.trans hkey)
      exact hne hvote
    · obtain rfl := he.eq_of_set hc hl (by exact find h.find) (congrArg World.validatorList h.result)
      exact hkey ▸ h.transientTo hl hc.reserve_ok (hd v hv)
  | @depositStake _ _ _ v _ _ _ _ _ _ _ h =>
    exact hd.continues hi hleft (fun k _ _ => h.voter hl) (ValidatorList.continues_set (v := v)
      (congrArg World.validatorList h.result) (by exact find h.find) h.status rfl fun h => ⟨h, rfl⟩)
  | withdrawStake h =>
    refine hd.continues hi hleft (fun k _ hk => h.voter hl fun he => ?_) h.continues
    -- what is split off goes to an account that is not used
    obtain ⟨-, -, -, hdst, -⟩ := stakeSplit_ok hl h.split
    rw [← he, (tokenBurn_only hl h.burn).eq hk.notToken] at hdst
    obtain ⟨m, hm, -⟩ := hk.poolState hdst
    cases hm
  | updateList _ _ h => exact hd.continues hi hleft (fun k _ _ => h.voter hl) (h.continues hl hi)
  | updatePool _ h =>
    exact same (fun k _ _ => h.voter hl) fun v hv => by rwa [congrArg World.validatorList h.result] at hv
  | depositSol _ h =>
    exact same (fun k _ _ => h.voter hl) fun v hv => by rwa [congrArg World.validatorList h.result] at hv
  | withdrawSol h =>
    exact same (fun k _ _ => h.voter hl) fun v hv => by rwa [congrArg World.validatorList h.result] at hv
  | cleanup hlist h =>
    subst h hlist
    exact same (fun k _ _ => .refl _) fun v hv => List.mem_of_mem_filter hv
  | createMetadata hm hsig ho hcr h =>
    subst h
    exact same (fun k hk _ => .of_data (congrArg Account.data
      (createMetadata_same hl hi.pool hc (hs _ hm hsig) ho hcr k (.inl hk)))) fun _ => id
  | updateMetadata hup h =>
    subst h
    obtain ⟨-, rfl⟩ := hl.updateMetadataAccountsV2_ok _ _ _ _ _ _ hup
    refine same (fun k _ _ => ?_) fun _ => id
    rw [update_eq_self]
    exact .refl _
  | setPreferred _ _ h | setFee _ _ _ _ _ h | manage _ _ h =>
    subst h
    exact same (fun k _ _ => .refl _) fun _ => id

theorem Step.delegates (hl : rt.Lawful) (hi : Inv rt w) (hleft : AllLeaving rt w) (hd : AllDelegates rt w)
    (h : Step rt w l w') : AllDelegates rt w' := by
  cases h with
  | instruction hs h => exact (process_executed (not_isInitialize hl hi.pool.valid h) h).delegates hl hs hi hleft hd
  | env h =>
    refine hd.continues hi hleft (fun k _ hk => h.voter hk) fun v hv => ⟨v, ?_, .refl v⟩
    rwa [h.ambient.list] at hv

theorem AllDelegates.of_reach (hl : rt.Lawful) {ok : World Key → Label Key → Prop}
    (h : (poolSystem rt).Reach ok w) : AllDelegates rt w := by
  refine h.invariant (fun w h v hv => ?_) fun w l w' hr hw _ hs =>
    hs.delegates hl (Inv.of_reach hl hr) (AllLeaving.of_reach hl hr) hw
  obtain ⟨w₀, accounts, fee, withdrawalFee, depositFee, referralFee, maxValidators, -, h⟩ := h
  obtain ⟨_, _, _, _, h⟩ := processInitialize_ok hl h
  obtain ⟨_, hw⟩ := h.result
  rw [hw] at hv
  cases hv

end

end SplStakePool
