import SplStakePool.Invariant.Run
import SplStakePool.Runtime.Session

/-!
# The statuses of the entries

The status of an entry says which of its parts may still record lamports. It only goes down: from active
to deactivating, part by part, until the entry is ready for removal. Stake is only moved on active entries.

An entry is followed by its vote account, as its place in the list may change. Most instructions leave the status or
replace one entry; the update of the list replaces many, one refresh after the other, so that what a refresh does to
the status is an invariant along the run of refreshes (`Refresh.run_rel`).
-/

namespace SplStakePool
open Exec Machine System

variable {Key : Type} [DecidableEq Key] [Inhabited Key] {rt : Runtime Key} {w w' : World Key}
  {accounts : List (AccountInfo Key)} {i : StakePoolInstruction Key} {l : Label Key}
  {v v' : ValidatorStakeInfo Key}

omit [DecidableEq Key] [Inhabited Key] in
theorem entry_unique {vs : List (ValidatorStakeInfo Key)} (hn : (vs.map (·.voteAccountAddress)).Nodup)
    (hv : v ∈ vs) (hv' : v' ∈ vs) (he : v'.voteAccountAddress = v.voteAccountAddress) : v' = v :=
  List.inj_on_of_nodup_map hn hv' hv he

omit [Inhabited Key] in
theorem ValidatorList.find_of_mem {l : ValidatorList Key}
    (hn : (l.validators.map (·.voteAccountAddress)).Nodup) (hv : v ∈ l.validators) :
    l.find v.voteAccountAddress = some v := by
  cases h : l.find v.voteAccountAddress with
  | none => exact absurd (List.mem_map_of_mem hv) (ValidatorList.find_eq_none h)
  | some u =>
    obtain ⟨hvote, pre, post, hlist, -⟩ := ValidatorList.find_split h
    have hu : u ∈ l.validators := by rw [hlist]; exact List.mem_append_right _ List.mem_cons_self
    rw [entry_unique hn hv hu hvote]

/-- The status of one entry goes down to that of another. -/
def StatusDown (v v' : ValidatorStakeInfo Key) : Prop :=
  ∀ s, v.status = StakeStatus.pod s → ∃ t, v'.status = StakeStatus.pod t ∧ s.down t

omit [DecidableEq Key] [Inhabited Key] in
theorem StatusDown.refl (v : ValidatorStakeInfo Key) : StatusDown v v := fun s hs => ⟨s, hs, s.down_refl⟩

omit [DecidableEq Key] [Inhabited Key] in
theorem StatusDown.trans {u : ValidatorStakeInfo Key} (h₁ : StatusDown v v') (h₂ : StatusDown v' u) :
    StatusDown v u := fun s hs => by
  obtain ⟨t, ht, hd⟩ := h₁ s hs
  obtain ⟨t', ht', hd'⟩ := h₂ t ht
  exact ⟨t', ht', StakeStatus.down_trans hd hd'⟩

omit [DecidableEq Key] in
/-- What every refresh of an entry preserves, a run of refreshes preserves of the entry with the same
vote account. -/
theorem Refresh.run_rel {reserve : Key} {epoch : Nat}
    {R : ValidatorStakeInfo Key → ValidatorStakeInfo Key → Prop} (hrefl : ∀ v, R v v)
    (htrans : ∀ u v w, R u v → R v w → R u w)
    (hstep : ∀ acc acc' v v', Refreshed rt reserve acc acc' v v' → v'.lastUpdateEpoch = epoch → R v v')
    {s s' : Accounts Key × List (ValidatorStakeInfo Key)}
    (h : Relation.ReflTransGen (Refresh rt reserve epoch) s s') :
    ∀ v' ∈ s'.2, ∃ v ∈ s.2, v'.voteAccountAddress = v.voteAccountAddress ∧ R v v' := by
  induction h with
  | refl => exact fun v hv => ⟨v, hv, rfl, hrefl v⟩
  | tail _ h ih =>
    cases h with
    | mk pre post hr he =>
      intro u hu
      simp only [List.mem_append, List.mem_cons] at hu ih
      by_cases hu' : u ∈ pre ∨ u ∈ post
      · exact ih u (by tauto)
      · obtain rfl : u = _ := by tauto
        obtain ⟨v, hv, hvote, hR⟩ := ih _ (.inr (.inl rfl))
        exact ⟨v, hv, hr.vote.trans hvote, htrans _ _ _ hR (hstep _ _ _ _ hr he)⟩

theorem Step.statusDown (hl : rt.Lawful) (hi : Inv rt w) (h : Step rt w l w')
    (hv : v ∈ w.validatorList.validators) (hv' : v' ∈ w'.validatorList.validators)
    (he : v'.voteAccountAddress = v.voteAccountAddress) : StatusDown v v' := by
  have hn := hi.core.votes
  have hsame : ∀ u, u ∈ w.validatorList.validators → u.voteAccountAddress = v.voteAccountAddress →
      StatusDown v u := fun u hu he => entry_unique hn hv hu he ▸ .refl v
  cases h with
  | env h => exact hsame v' (h.ambient.list ▸ hv') he
  | instruction hs h =>
    cases (process_executed (not_isInitialize hl hi.pool.valid h) h).effect hl hs hi.pool hi.core with
    | evolve h => exact hsame v' (h.list ▸ hv') he
    | entry h =>
      rw [h.list'] at hv'
      simp only [List.mem_append, List.mem_cons] at hv'
      rcases hv' with hv' | rfl | hv'
      · exact hsame v' (by rw [h.list]; simp [hv']) he
      · have hu := entry_unique hn hv (by rw [h.list]; simp) (h.moved.vote.symm.trans he)
        exact hu ▸ h.moved.down
      · exact hsame v' (by rw [h.list]; simp [hv']) he
    | push h =>
      rw [h.list'] at hv'
      rcases List.mem_append.1 hv' with hv' | hv'
      · exact hsame v' hv' he
      · rw [List.mem_singleton.1 hv'] at he
        exact absurd (he ▸ List.mem_map_of_mem hv) h.vote
    | refresh h hw =>
      rw [hw] at hv'
      obtain ⟨u, hu, hvote, hd⟩ := Refresh.run_rel StatusDown.refl (fun _ _ _ => StatusDown.trans)
        (fun _ _ _ _ h _ => h.down) h v' hv'
      exact entry_unique hn hv hu (hvote.symm.trans he) ▸ hd
    | cleanup h =>
      rw [h] at hv'
      exact hsame v' (List.mem_filter.1 hv').1 he
    | balance h => exact hsame v' (by rw [h.result] at hv'; exact hv') he

/-- The vote account that the stake at an address is delegated to. -/
def World.voter (w : World Key) (k : Key) : Option Key :=
  ((w.accounts k).stakeState?.bind (·.delegation?)).map (·.voterPubkey)

omit [DecidableEq Key] [Inhabited Key] in
theorem World.voter_eq {k : Key} {s : StakeStateV2 Key} (hd : (w.accounts k).data = .stakeState s) :
    w.voter k = s.delegation?.map (·.voterPubkey) := by
  rw [voter, Account.stakeState?_eq_some.2 hd, Option.bind_some]

/-- The vote account of the entry that an increase, a decrease, a stake deposit or a stake withdrawal
works on. A withdrawal of the reserve's stake, which is not delegated, works on none. -/
def StakePoolInstruction.target (rt : Runtime Key) (w : World Key) (accounts : List (AccountInfo Key)) :
    StakePoolInstruction Key → Option Key
  | .increaseValidatorStake _ _ =>
    ((IncreaseValidatorStakeAccounts.parse rt none).run accounts).toOption.map
      (·.1.validatorVoteAccountInfo.key)
  | .increaseAdditionalValidatorStake _ _ ephemeralStakeSeed =>
    ((IncreaseValidatorStakeAccounts.parse rt (some ephemeralStakeSeed)).run accounts).toOption.map
      (·.1.validatorVoteAccountInfo.key)
  | .decreaseValidatorStake _ _ =>
    ((DecreaseValidatorStakeAccounts.parse rt none false).run accounts).toOption.bind
      (w.voter ·.1.validatorStakeAccountInfo.key)
  | .decreaseValidatorStakeWithReserve _ _ =>
    ((DecreaseValidatorStakeAccounts.parse rt none true).run accounts).toOption.bind
      (w.voter ·.1.validatorStakeAccountInfo.key)
  | .decreaseAdditionalValidatorStake _ _ ephemeralStakeSeed =>
    ((DecreaseValidatorStakeAccounts.parse rt (some ephemeralStakeSeed) true).run accounts).toOption.bind
      (w.voter ·.1.validatorStakeAccountInfo.key)
  | .depositStake | .depositStakeWithSlippage _ =>
    ((DepositStakeAccounts.parse rt).run accounts).toOption.bind
      (w.voter ·.1.validatorStakeAccountInfo.key)
  | .withdrawStake _ | .withdrawStakeWithSlippage _ _ =>
    ((WithdrawStakeAccounts.parse rt).run accounts).toOption.bind (w.voter ·.1.stakeSplitFrom.key)
  | _ => none

theorem WithdrawStakeAccounts.Planned.target {a : WithdrawStakeAccounts Key} {n : Nat} {k : Key}
    {plan : WithdrawPlan Key} (h : Planned rt w a n plan) (hr : Reserve rt (w.accounts w.stakePool.reserveStake))
    (hk : w.voter a.stakeSplitFrom.key = some k) :
    ∃ v, w.validatorList.find k = some v ∧ v.status = StakeStatus.active.pod := by
  have entry : ∀ {v m d}, FromEntry w a v m d →
      ∃ v, w.validatorList.find k = some v ∧ v.status = StakeStatus.active.pod := by
    rintro v m d ⟨-, ⟨s, hs, -, hd⟩, hf, hst⟩
    rw [World.voter_eq hs, hd] at hk
    cases hk
    exact ⟨v, hf, hst⟩
  cases h with
  | reserve m hkey =>
    obtain ⟨m', hd, -⟩ := hr.state
    rw [hkey, World.voter_eq hd] at hk
    cases hk
  | active v m d he => exact entry he
  | transient v m d he => exact entry he
  | removal v m d he => exact entry he

theorem target_active (hi : Inv rt w) (h : process rt w accounts i = .ok w') {k : Key}
    (hk : i.target rt w accounts = some k) :
    ∃ v, w.validatorList.find k = some v ∧ v.status = StakeStatus.active.pod := by
  have hinc : ∀ {lamports seed ephemeral a rest},
      (IncreaseValidatorStakeAccounts.parse rt ephemeral).run accounts = .ok (a, rest) →
      (∃ v acc₁ src, a.Ok rt w w' lamports seed v acc₁ src) →
      (((IncreaseValidatorStakeAccounts.parse rt ephemeral).run accounts).toOption.map
        (·.1.validatorVoteAccountInfo.key)) = some k →
      ∃ v, w.validatorList.find k = some v ∧ v.status = StakeStatus.active.pod := by
    rintro _ _ _ a _ hp ⟨v, _, _, h⟩ hk
    rw [hp] at hk
    cases hk
    exact ⟨v, h.find, h.status⟩
  have hdec : ∀ {lamports seed ephemeral fund a rest},
      (DecreaseValidatorStakeAccounts.parse rt ephemeral fund).run accounts = .ok (a, rest) →
      (∃ m s v acc₁ src n, a.Ok rt w w' lamports seed m s v acc₁ src n) →
      (((DecreaseValidatorStakeAccounts.parse rt ephemeral fund).run accounts).toOption.bind
        (w.voter ·.1.validatorStakeAccountInfo.key)) = some k →
      ∃ v, w.validatorList.find k = some v ∧ v.status = StakeStatus.active.pod := by
    rintro _ _ _ _ a _ hp ⟨m, s, v, _, _, _, h⟩ hk
    rw [hp] at hk
    replace hk : w.voter a.validatorStakeAccountInfo.key = some k := hk
    rw [World.voter_eq h.stakeState] at hk
    cases hk
    exact ⟨v, h.find, h.status⟩
  cases i with
  | increaseValidatorStake | increaseAdditionalValidatorStake =>
    obtain ⟨a, rest, hp, h⟩ := processIncreaseValidatorStake_ok h
    exact hinc hp h hk
  | decreaseValidatorStake | decreaseValidatorStakeWithReserve | decreaseAdditionalValidatorStake =>
    obtain ⟨a, rest, hp, h⟩ := processDecreaseValidatorStake_ok h
    exact hdec hp h hk
  | depositStake | depositStakeWithSlippage =>
    obtain ⟨a, rest, hp, s, v, t, _, _, _, _, _, h⟩ := processDepositStake_ok h
    simp only [StakePoolInstruction.target, hp] at hk
    replace hk : w.voter a.validatorStakeAccountInfo.key = some k := hk
    obtain ⟨m, hd⟩ := h.stakeState
    rw [World.voter_eq hd] at hk
    cases hk
    exact ⟨v, h.find, h.status⟩
  | withdrawStake | withdrawStakeWithSlippage =>
    obtain ⟨a, rest, hp, _, _, _, _, _, _, _, h⟩ := processWithdrawStake_ok h
    simp only [StakePoolInstruction.target, hp] at hk
    exact h.planned.target hi.core.reserve_ok hk
  | _ => cases hk

/-- The statuses in every state of every run, along every run that keeps an entry in the list, and of the
entries that stake is moved on. -/
theorem status_machine (hl : rt.Lawful) (h : (poolSystem rt).Reachable w) :
    (∀ v ∈ w.validatorList.validators, ∃ s, v.status.status = .ok s ∧
      (s = .readyForRemoval → v.activeStakeLamports = 0 ∧ v.transientStakeLamports = 0) ∧
      (s = .deactivatingTransient → v.activeStakeLamports = 0) ∧
      (s = .deactivatingValidator → v.transientStakeLamports = 0)) ∧
    (∀ k w', (poolSystem rt).Path (fun u _ => k ∈ u.votes) w w' →
      ∀ v ∈ w.validatorList.validators, ∀ v' ∈ w'.validatorList.validators,
        v.voteAccountAddress = k → v'.voteAccountAddress = k →
        ∃ s t, v.status.status = .ok s ∧ v'.status.status = .ok t ∧ s.down t) ∧
    (∀ accounts i w', process rt w accounts i = .ok w' → ∀ k, i.target rt w accounts = some k →
      ∃ v, w.validatorList.find k = some v ∧ v.status.status = .ok .active) := by
  have hi := Inv.of_reach hl h
  refine ⟨fun v hv => ?_, fun k w' hp v hv v' hv' hk hk' => ?_, fun accounts i w' hp k hk => ?_⟩
  · obtain ⟨s, hs, hok⟩ := (hi.core.entries v hv).status
    refine ⟨s, by rw [hs, StakeStatus.status_pod], ?_, ?_, ?_⟩
    all_goals rintro rfl; exact hok
  · have hdown : ∀ u ∈ w'.validatorList.validators, u.voteAccountAddress = k → StatusDown v u := by
      refine hp.invariant (I := fun a => ∀ u ∈ a.validatorList.validators,
        u.voteAccountAddress = k → StatusDown v u) ?_ ?_
      · exact fun u hu he => entry_unique hi.core.votes hv hu (he.trans hk.symm) ▸ .refl v
      · -- the entry is still there before the step
        intro a l b ha hI hok hs u hu he
        obtain ⟨u₀, hu₀, he₀⟩ := List.mem_map.1 hok
        have hia := Inv.of_reach hl (h.trans_path ha)
        exact (hI u₀ hu₀ he₀).trans (hs.statusDown hl hia hu₀ hu (he.trans he₀.symm))
    obtain ⟨s, hs, -⟩ := (hi.core.entries v hv).status
    obtain ⟨t, ht, hd⟩ := hdown v' hv' hk' s hs
    exact ⟨s, t, by rw [hs, StakeStatus.status_pod], by rw [ht, StakeStatus.status_pod], hd⟩
  · obtain ⟨v, hf, hst⟩ := target_active hi hp hk
    exact ⟨v, hf, by rw [hst, StakeStatus.status_pod]⟩

open Reference in
theorem status_machine_removed :
    (retired.validatorList.validators.map (·.status)) = [StakeStatus.deactivatingValidator.pod] ∧
    ∀ v ∈ joined.validatorList.validators, ∀ v' ∈ retired.validatorList.validators,
      v.voteAccountAddress = vote → v'.voteAccountAddress = vote →
      ∃ s t, v.status.status = .ok s ∧ v'.status.status = .ok t ∧ s.down t :=
  ⟨by decide +kernel, (status_machine lawful
    (reachable_after (initialized_opened (by decide +kernel)) (by decide +kernel) :
      (poolSystem runtime).Reachable joined)).2.1 vote retired
    (.single (by decide +kernel) (next_step (by decide +kernel)))⟩

end SplStakePool
