import SplStakePool.Properties.Removal
import SplStakePool.Properties.Sweep

/-!
# Updates that merge

An update without `no_merge` decides by the epochs of a stake alone whether it is inactive or active, and merges on
that; the stake program decides by the stake history, and a merge that it refuses fails the instruction. Where the two
agree on the stakes of the pool, the update of a client succeeds; where all stake has settled, nothing transient is
left after it.

Both conditions are on one entry and its two accounts, and kept by what happens to other entries. So it is enough that
the update of one entry succeeds (`handles_agrees`, `handles_settled`); the rest is the sweep over the list
(`Sweep`), for chunks in any order. Transient stake of an active entry is merged into its validator stake, which
therefore has to be delegated.
-/

namespace SplStakePool
open Exec Machine System

variable {Key : Type} [DecidableEq Key] [Inhabited Key] {rt : Runtime Key} {w w' : World Key}
  {acc acc' acc₁ : Accounts Key} {v v' : ValidatorStakeInfo Key} {cooled : Sysvars → Stake Key → Prop}
  {mergeable : Sysvars → Stake Key → Stake Key → Prop}

/-- The stake program merges a stake into another one with the same authorities and lockup, if the two are
mergeable by their stake history. -/
def Runtime.MergesStakes (rt : Runtime Key) (mergeable : Sysvars → Stake Key → Stake Key → Prop) : Prop :=
  ∀ sys auth kd dst ks src md d ms s, sys.epochRewardsActive = false → kd ≠ ks →
    dst.owner = rt.stakeProgramId → src.owner = rt.stakeProgramId →
    dst.data = .stakeState (.stake md d) → src.data = .stakeState (.stake ms s) → mergeable sys d s →
    md.authorized = ms.authorized → md.lockup = ms.lockup → md.authorized.staker = auth →
    ∃ r, rt.merge sys auth (kd, dst) (ks, src) = .ok r

/-- The staker can deactivate a stake that is not deactivated. -/
def Runtime.Deactivates (rt : Runtime Key) : Prop :=
  ∀ sys auth a m s, sys.epochRewardsActive = false → a.owner = rt.stakeProgramId →
    a.data = .stakeState (.stake m s) → m.authorized.staker = auth → s.delegation.deactivationEpoch = epochMax →
    ∃ r, rt.deactivate sys auth a = .ok r

/-- What the stake program does with stakes, by their stake history. -/
structure Runtime.MergesBy (rt : Runtime Key) (cooled : Sysvars → Stake Key → Prop)
    (mergeable : Sysvars → Stake Key → Stake Key → Prop) : Prop where
  cooled : rt.MergesCooled cooled
  stakes : rt.MergesStakes mergeable
  deactivates : rt.Deactivates

/-- A stake at an account that is inactive by its epochs has cooled down. -/
def Account.CooledIfInactive (cooled : Sysvars → Stake Key → Prop) (sys : Sysvars) (a : Account Key) : Prop :=
  ∀ m s, a.data = .stakeState (.stake m s) → stakeIsInactiveWithoutHistory s sys.epoch → cooled sys s

/-- On the stakes of an entry, what an update tells by their epochs agrees with the stake history. -/
structure Agrees (rt : Runtime Key) (cooled : Sysvars → Stake Key → Prop)
    (mergeable : Sysvars → Stake Key → Stake Key → Prop) (sys : Sysvars) (acc : Accounts Key)
    (v : ValidatorStakeInfo Key) : Prop where
  validator : v.status ≠ StakeStatus.active.pod → (acc (rt.validatorStake v)).CooledIfInactive cooled sys
  transient : 0 < v.transientStakeLamports → (acc (rt.transientStake v)).CooledIfInactive cooled sys
  active : v.status = StakeStatus.active.pod → 0 < v.transientStakeLamports → ∀ mv d m s,
    (acc (rt.validatorStake v)).data = .stakeState (.stake mv d) →
    (acc (rt.transientStake v)).data = .stakeState (.stake m s) → ¬ stakeIsInactiveWithoutHistory s sys.epoch →
    s.delegation.activationEpoch < sys.epoch → d.delegation.activationEpoch < sys.epoch → mergeable sys d s

omit [DecidableEq Key] [Inhabited Key] in
theorem Agrees.congr {sys : Sysvars} (hs : SameStakes rt acc acc' v) (h : Agrees rt cooled mergeable sys acc v) :
    Agrees rt cooled mergeable sys acc' v := by
  obtain ⟨hv, ht, ha⟩ := h
  refine ⟨?_, ?_, ?_⟩
  · rw [hs.validator]
    exact hv
  · rw [hs.transient]
    exact ht
  · rw [hs.validator, hs.transient]
    exact ha

/-- All stake of an entry has settled. The validator stake of an active entry is delegated, and what is transient has
cooled down or can be merged into it; the stake of an entry that is leaving has cooled down. An active entry whose
validator stake a restart of the cluster has made undelegated has not settled: an update drops it. -/
inductive StakeSettled (rt : Runtime Key) (cooled : Sysvars → Stake Key → Prop)
    (mergeable : Sysvars → Stake Key → Stake Key → Prop) (sys : Sysvars) (acc : Accounts Key)
    (v : ValidatorStakeInfo Key) : Prop
  | returning {m : Meta Key} {d : Stake Key} (hs : v.status = StakeStatus.active.pod)
      (hd : (acc (rt.validatorStake v)).data = .stakeState (.stake m d))
      (ht : 0 < v.transientStakeLamports → (acc (rt.transientStake v)).CooledDown cooled sys)
  | arriving {m mt : Meta Key} {d s : Stake Key} (hs : v.status = StakeStatus.active.pod)
      (hd : (acc (rt.validatorStake v)).data = .stakeState (.stake m d)) (hpos : 0 < v.transientStakeLamports)
      (ht : (acc (rt.transientStake v)).data = .stakeState (.stake mt s))
      (hin : ¬ stakeIsInactiveWithoutHistory s sys.epoch) (hepoch : s.delegation.activationEpoch < sys.epoch)
      (hvepoch : d.delegation.activationEpoch < sys.epoch) (hm : mergeable sys d s)
  | leaving (hs : v.status ≠ StakeStatus.active.pod) (hleft : Leaving rt acc v)
      (hv : (acc (rt.validatorStake v)).CooledDown cooled sys)
      (ht : 0 < v.transientStakeLamports → (acc (rt.transientStake v)).CooledDown cooled sys)

omit [DecidableEq Key] in
theorem StakeSettled.congr {sys : Sysvars} (hs : SameStakes rt acc acc' v) (h : StakeSettled rt cooled mergeable sys acc v) :
    StakeSettled rt cooled mergeable sys acc' v := by
  cases h with
  | returning hst hd ht => exact .returning hst (hs.validator ▸ hd) (hs.transient ▸ ht)
  | arriving hst hd hpos ht hin hepoch hvepoch hm =>
    exact .arriving hst (hs.validator ▸ hd) hpos (hs.transient ▸ ht) hin hepoch hvepoch hm
  | leaving hst hleft hv ht =>
    exact .leaving hst (hleft.keep (by rw [hs.validator]; exact id)) (hs.validator ▸ hv) (hs.transient ▸ ht)

omit [DecidableEq Key] in
theorem StakeSettled.agrees {sys : Sysvars} (h : StakeSettled rt cooled mergeable sys acc v) :
    Agrees rt cooled mergeable sys acc v := by
  cases h with
  | returning hs hd ht =>
    exact ⟨fun h => absurd hs h, fun hpos m s hm _ => (ht hpos m s hm).2,
      fun _ hpos _ _ m s _ hm hin => absurd (ht hpos m s hm).1 hin⟩
  | @arriving m mt d s hs hd hpos ht hin hepoch hvepoch hmg =>
    refine ⟨fun h => absurd hs h, fun _ m' s' hm hin' => ?_, fun _ _ _ d' _ s' hd' ht' _ _ _ => ?_⟩
    · rw [ht] at hm
      cases hm
      exact absurd hin' hin
    · rw [hd] at hd'
      rw [ht] at ht'
      cases hd'
      cases ht'
      exact hmg
  | leaving hs _ hv ht =>
    exact ⟨fun _ m s hm _ => (hv m s hm).2, fun hpos m s hm _ => (ht hpos m s hm).2, fun h => absurd h hs⟩

/-- What an update makes of an entry that has settled: an active one without transient stake, or one to be removed. -/
def Settles (v v' : ValidatorStakeInfo Key) : Prop :=
  (v.status = StakeStatus.active.pod ∧ v'.status = StakeStatus.active.pod ∨
    v.status ≠ StakeStatus.active.pod ∧ v'.isRemoved) ∧ v'.transientStakeLamports = 0

theorem StakeStatus.removeValidatorStake_pod (s : StakeStatus) : ∃ p, s.pod.removeValidatorStake = .ok p := by
  rw [PodStakeStatus.removeValidatorStake, StakeStatus.status_pod, ok_bind]
  exact ⟨_, rfl⟩

/-! ## One entry -/

/-- The decision on a delegated transient stake of the pool in an update that merges. -/
inductive Decision (epoch : Nat) (status : PodStakeStatus) (s : Stake Key) (validator : Option (StakeStateV2 Key)) :
    TransientAction → Prop
  | count : Decision epoch status s validator .count
  | absorbInactive (h : stakeIsInactiveWithoutHistory s epoch) : Decision epoch status s validator .absorbInactive
  | mergeValidator {m : Meta Key} {d : Stake Key} (hs : status = StakeStatus.active.pod)
      (hin : ¬ stakeIsInactiveWithoutHistory s epoch) (h : s.delegation.activationEpoch < epoch)
      (hv : validator = some (.stake m d)) (hd : d.delegation.activationEpoch < epoch) :
      Decision epoch status s validator .mergeValidator
  | deactivate (h : s.delegation.deactivationEpoch = epochMax) : Decision epoch status s validator .deactivate

omit [DecidableEq Key] [Inhabited Key] in
theorem transientAction_decision {usable : Meta Key → Bool} {epoch : Nat} {status : PodStakeStatus} {m : Meta Key}
    {s : Stake Key} {validator : Option (StakeStateV2 Key)} (hu : usable m) :
    Decision epoch status s validator (transientAction usable epoch false status (some (.stake m s)) validator) := by
  simp only [transientAction, hu, if_true, Bool.false_eq_true, if_false]
  split
  · exact .absorbInactive ‹_›
  split
  · rename_i hin hs
    split
    · split
      · split
        · exact .mergeValidator (PodStakeStatus.status_eq_ok (orErr_eq_ok.2 hs)) hin ‹_› rfl ‹_›
        · exact .count
      · exact .count
    · exact .count
  · split
    · exact .deactivate ‹_›
    · exact .count

namespace UpdateValidatorListBalanceAccounts
variable {a : UpdateValidatorListBalanceAccounts Key} {va ta : AccountInfo Key} {t : Nat} {m : Meta Key}

theorem stakeMerge_mergeable (hm : rt.MergesStakes mergeable) (hx : Ctx rt w a)
    (hrew : w.sysvars.epochRewardsActive = false) (hne : va.key ≠ ta.key) {mv mt : Meta Key} {d s : Stake Key}
    (hcv : Controlled rt (acc va.key)) (hct : Controlled rt (acc ta.key))
    (hdv : (acc va.key).data = .stakeState (.stake mv d)) (hdt : (acc ta.key).data = .stakeState (.stake mt s))
    (h : mergeable w.sysvars d s) :
    ∃ acc', stakeMerge rt w.sysvars acc ta a.withdrawAuthorityInfo va = .ok acc' := by
  have hpv := (hcv.poolState hdv).poolMeta rfl
  have hpt := (hct.poolState hdt).poolMeta rfl
  obtain ⟨⟨dst, src⟩, h⟩ := hm w.sysvars a.withdrawAuthorityInfo.key va.key _ ta.key _ mv d mt s hrew hne hcv.owner
    hct.owner hdv hdt h (hpv.authorized.trans hpt.authorized.symm) (hpv.lockup.trans hpt.lockup.symm)
    (by rw [hpv.authorized, hx.authority])
  exact ⟨_, by rw [stakeMerge, h]; rfl⟩

theorem updateTransient_agrees (hl : rt.Lawful) (hm : rt.MergesBy cooled mergeable) (hx : Ctx rt w a)
    (hrew : w.sysvars.epochRewardsActive = false) (hv : EntryOk rt acc v)
    (hr : Reserve rt (acc w.stakePool.reserveStake)) (hn : ¬ rt.StakePda w.stakePool.reserveStake)
    (hva : va.key = rt.validatorStake v) (hta : ta.key = rt.transientStake v)
    (hg : Agrees rt cooled mergeable w.sysvars acc v) :
    ∃ r, a.updateTransient rt w false acc v va ta = .ok r := by
  by_cases h0 : v.transientStakeLamports = 0
  · exact ⟨_, by rw [updateTransient, if_neg (not_not.2 h0)]; rfl⟩
  have hpos := Nat.pos_of_ne_zero h0
  have hne : w.stakePool.reserveStake ≠ ta.key := fun he => hn (he ▸ hta ▸ .transient v)
  have hct : Controlled rt (acc ta.key) := by rw [hta]; exact hv.transient hpos
  obtain ⟨st, hst, -⟩ := hv.status
  obtain ⟨p, hp⟩ := StakeStatus.removeTransientStake_pod st
  rw [← hst] at hp
  obtain ⟨s, hs, m, hmeta, hpm⟩ := hct.state
  have hu : usable w a m := usable_of_controlled hx hct hs hmeta
  rw [updateTransient, if_pos h0, Account.stakeState?_eq_some.2 hs]
  cases s with
  | initialized m' =>
    cases hmeta
    obtain ⟨acc₁, h⟩ := stakeMerge_accepts hl hx hrew hr hne hs hct.owner hu
    exact ⟨_, by simp only [transientAction, hu, if_true, Bool.false_eq_true, if_false, h, hp, ok_bind]; rfl⟩
  | stake m' s =>
    cases hmeta
    have hcase : Decision w.sysvars.epoch v.status s (acc va.key).stakeState?
        (transientAction (usable w a) w.sysvars.epoch false v.status (some (.stake m s)) (acc va.key).stakeState?) :=
      transientAction_decision hu
    generalize transientAction (usable w a) w.sysvars.epoch false v.status (some (.stake m s))
      (acc va.key).stakeState? = action at hcase ⊢
    cases hcase with
    | count => exact ⟨_, rfl⟩
    | absorbInactive hin =>
      obtain ⟨acc₁, h⟩ := stakeMerge_cooled hm.cooled hx hrew hr hne hs hct.owner hu
        (hg.transient hpos m s (hta ▸ hs) hin)
      exact ⟨_, by simp only [h, hp, ok_bind]; rfl⟩
    | mergeValidator hactive hin hepoch hvd hvepoch =>
      rw [Account.stakeState?_eq_some] at hvd
      have hcv : Controlled rt (acc va.key) := by rw [hva]; exact hv.of_active hactive
      have hkeys : va.key ≠ ta.key := by rw [hva, hta]; exact validatorStake_ne_transientStake hl _ _
      obtain ⟨acc₁, h⟩ := stakeMerge_mergeable hm.stakes hx hrew hkeys hcv hct hvd hs
        (hg.active hactive hpos _ _ m s (hva ▸ hvd) (hta ▸ hs) hin hepoch hvepoch)
      exact ⟨_, by simp only [h, ok_bind]; rfl⟩
    | deactivate hmax =>
      obtain ⟨b, h⟩ := hm.deactivates w.sysvars a.withdrawAuthorityInfo.key (acc ta.key) m s hrew hct.owner hs
        (by rw [hpm.authorized, hx.authority]) hmax
      exact ⟨_, by simp only [stakeDeactivate, h, ok_bind]; rfl⟩
  | _ => cases hmeta

/-- The validator part: stake of an entry that is leaving is merged into the reserve if it has cooled down. -/
theorem updateValidator_agrees (hl : rt.Lawful) (hm : rt.MergesCooled cooled) (hx : Ctx rt w a)
    (hrew : w.sysvars.epochRewardsActive = false) (hr : Reserve rt (acc w.stakePool.reserveStake))
    (hne : w.stakePool.reserveStake ≠ va.key) (hpda : PdaOk rt (acc va.key)) (st : StakeStatus) (t : Nat)
    (hg : st ≠ .active → (acc va.key).CooledIfInactive cooled w.sysvars) :
    ∃ r, a.updateValidator rt w false acc st.pod t va = .ok r := by
  rw [updateValidator]
  cases hs : (acc va.key).stakeState? with
  | none => exact ⟨_, rfl⟩
  | some s =>
    have hd := Account.stakeState?_eq_some.1 hs
    cases s with
    | uninitialized | rewardsPool => exact ⟨_, rfl⟩
    | initialized m =>
      by_cases hu : usable w a m
      · obtain ⟨acc', h⟩ := stakeMerge_accepts hl hx hrew hr hne hd (hpda.owner hd) hu
        exact ⟨_, by simp only [hu, if_true, h, ok_bind]; rfl⟩
      · exact ⟨_, by simp only [hu]; rfl⟩
    | stake m s =>
      by_cases hu : usable w a m
      swap
      · exact ⟨_, by simp only [hu]; rfl⟩
      obtain ⟨acc₁, h⟩ := withdrawAdditional_accepts hl hx hrew hd (hpda.owner hd) hu
      have hsk := withdrawAdditional_spec hl hx h hr hne (hpda.rentExempt hd m rfl)
      have hd₁ : (acc₁ va.key).data = .stakeState (.stake m s) := hsk.data.trans hd
      have ho₁ := (hsk.pda _ hpda).owner hd₁
      simp only [hu, if_true, h, ok_bind, updateDelegated, StakeStatus.status_pod]
      obtain ⟨p, hp⟩ := StakeStatus.removeValidatorStake_pod st
      cases st with
      | active | deactivatingTransient | readyForRemoval => exact ⟨_, rfl⟩
      | deactivatingValidator | deactivatingAll =>
        by_cases hin : stakeIsInactiveWithoutHistory s w.sysvars.epoch
        · obtain ⟨acc', h'⟩ := stakeMerge_cooled hm hx hrew hsk.reserve_step.reserve hne hd₁ ho₁ hu
            (hg (by decide) m s hd hin)
          exact ⟨_, by simp only [Bool.false_eq_true, if_false, hin, if_true, h', hp, ok_bind]; rfl⟩
        · exact ⟨_, by simp only [Bool.false_eq_true, if_false, hin]; rfl⟩

theorem handles_agrees (hl : rt.Lawful) (hm : rt.MergesBy cooled mergeable) {pool : StakePool Key} {sys : Sysvars}
    (hrew : sys.epochRewardsActive = false) :
    Handles rt pool sys false (Agrees rt cooled mergeable sys) fun _ _ => True where
  congr := Agrees.congr
  entry := by
    rintro w a va ta acc v rfl rfl hx hpool ho hv hr hn hpda - hg
    obtain ⟨hva, hta⟩ := id ho
    dsimp only at hva hta
    obtain ⟨⟨acc₁, status, t⟩, ht⟩ := updateTransient_agrees hl hm hx hrew hv hr hn hva hta hg
    have hT := updateTransient_spec hl hx ht hv hr hn hva hta
    obtain ⟨st, hst, -⟩ := hT.status_ok
    subst hst
    have hrv : w.stakePool.reserveStake ≠ va.key := fun he => hn (he ▸ hva ▸ .validator v)
    -- an account that changed is that of an active entry
    obtain ⟨⟨acc', status', n⟩, h'⟩ := updateValidator_agrees hl hm.cooled hx hrew hT.reserve_step.reserve hrv
      (hT.pda _ (hva ▸ hpda)) st t fun hne => by
        rcases hT.validator with he | ⟨he, -⟩
        · rw [he, hva]
          refine hg.validator fun hs => hne (StakeStatus.pod_inj ?_)
          exact (updateTransient_left hl hx ht hv hta).active hs
        · exact absurd (StakeStatus.pod_inj he) hne
    exact ⟨_, _, by simp only [updateEntry_of_own hpool ho, ht, h', ok_bind]; rfl, trivial⟩

/-- The transient stake of an active entry that can be merged is merged into its validator stake. -/
theorem updateEntry_merges (hl : rt.Lawful) (hm : rt.MergesStakes mergeable) (hx : Ctx rt w a)
    (hpool : a.stakePoolInfo.key = rt.stakePoolAddress) (hrew : w.sysvars.epochRewardsActive = false)
    (ho : Own rt v (va, ta)) (hv : EntryOk rt acc v) (hs : v.status = StakeStatus.active.pod)
    (hpos : 0 < v.transientStakeLamports) {mv mt : Meta Key} {d s : Stake Key}
    (hd : (acc (rt.validatorStake v)).data = .stakeState (.stake mv d))
    (hd' : (acc (rt.transientStake v)).data = .stakeState (.stake mt s))
    (hin : ¬ stakeIsInactiveWithoutHistory s w.sysvars.epoch) (hepoch : s.delegation.activationEpoch < w.sysvars.epoch)
    (hvepoch : d.delegation.activationEpoch < w.sysvars.epoch) (hmg : mergeable w.sysvars d s) :
    ∃ acc', a.updateEntry rt w false acc v va ta = .ok (acc', { v with
      lastUpdateEpoch := w.sysvars.epoch
      activeStakeLamports := (acc' (rt.validatorStake v)).lamports
      transientStakeLamports := 0 }) := by
  obtain ⟨hva, hta⟩ := id ho
  dsimp only at hva hta
  rw [← hva] at hd
  rw [← hta] at hd'
  have hkeys : va.key ≠ ta.key := by rw [hva, hta]; exact validatorStake_ne_transientStake hl _ _
  have hcv : Controlled rt (acc va.key) := by rw [hva]; exact hv.of_active hs
  have hct : Controlled rt (acc ta.key) := by rw [hta]; exact hv.transient hpos
  obtain ⟨acc₁, h⟩ := stakeMerge_mergeable hm hx hrew hkeys hcv hct hd hd' hmg
  have hspec := stakeMerge_spec hl h
  have hu : usable w a mt := usable_of_controlled hx hct hd' rfl
  have ht : a.updateTransient rt w false acc v va ta = .ok (acc₁, StakeStatus.active.pod, 0) := by
    rw [updateTransient, if_pos (Nat.ne_of_gt hpos), Account.stakeState?_eq_some.2 hd, Account.stakeState?_eq_some.2 hd',
      transientAction, hs]
    simp only [hu, if_true, Bool.false_eq_true, if_false, hin, StakeStatus.fromU8_pod, hepoch, hvepoch, h, ok_bind,
      hspec.src_lamports]
    rfl
  -- the validator stake is still delegated
  obtain ⟨md, s', hd₁⟩ : ∃ m s', (acc₁ va.key).data = .stakeState (.stake m s') := by
    obtain ⟨-, -, -, d₀, _, d', _, _, hd₀, -, -, -, -, -, hstate, rfl⟩ := stakeMerge_ok hl h
    rw [hd, AccountData.stakeState.injEq] at hd₀
    subst hd₀
    cases hstate
    exact ⟨_, _, by rw [Function.update_self]⟩
  obtain ⟨acc', h'⟩ := updateValidator_counts (t := 0) hl hx hrew (hspec.dst_controlled hcv) hd₁ false
  refine ⟨acc', ?_⟩
  rw [updateEntry_of_own hpool ho, ht, ok_bind]
  dsimp only
  rw [h', ← hs, ok_bind, ← hva]
  rfl

theorem handles_settled (hl : rt.Lawful) (hm : rt.MergesBy cooled mergeable) {pool : StakePool Key} {sys : Sysvars}
    (hrew : sys.epochRewardsActive = false) :
    Handles rt pool sys false (StakeSettled rt cooled mergeable sys) Settles where
  congr := StakeSettled.congr
  entry := by
    rintro w a va ta acc v rfl rfl hx hpool ho hv hr hn hpda - hsettled
    cases hsettled with
    | returning hs hd ht =>
      obtain ⟨acc', h⟩ := updateEntry_returns hl hm.cooled hx hpool hrew ho hv hs hr hn hd ht
      exact ⟨acc', _, h, .inl ⟨hs, hs⟩, rfl⟩
    | arriving hs hd hpos ht hin hepoch hvepoch hmg =>
      obtain ⟨acc', h⟩ := updateEntry_merges hl hm.stakes hx hpool hrew ho hv hs hpos hd ht hin hepoch hvepoch hmg
      exact ⟨acc', _, h, .inl ⟨hs, hs⟩, rfl⟩
    | leaving hs hleft hcv hct =>
      obtain ⟨acc', h⟩ := updateEntry_removes hl hm.cooled hx hpool hrew ho hv hleft hs hr hn hpda hcv hct
      exact ⟨acc', _, h, .inr ⟨hs, rfl⟩, rfl⟩

end UpdateValidatorListBalanceAccounts

/-! ## The instructions of a client -/

/-- What the instructions that end an update leave: a total of what is there, and a list without the removed
entries. -/
structure Finished (w w' : World Key) : Prop where
  epoch : w'.stakePool.lastUpdateEpoch = w.sysvars.epoch
  list : w'.validatorList.validators = w.validatorList.validators.filter fun v => ¬ v.isRemoved
  reserve : w'.accounts w.stakePool.reserveStake = w.accounts w.stakePool.reserveStake
  total : ∃ m, (w'.accounts w.stakePool.reserveStake).data = .stakeState (.initialized m) ∧
    w'.stakePool.totalLamports + minimumReserveLamports m =
      (w'.accounts w.stakePool.reserveStake).lamports + recordedLamports w'.validatorList.validators

theorem Updatable.finishes (hl : rt.Lawful) (hw : Updatable rt w)
    (hup : ∀ v ∈ w.validatorList.validators, w.sysvars.epoch ≤ v.lastUpdateEpoch) :
    ∃ w', executeAll rt w (finalInstructions rt rt.programId w.stakePool rt.stakePoolAddress) = .ok w' ∧
      Finished w w' := by
  have hi := hw.inv
  obtain ⟨w₁, h₁, hepoch₁⟩ := (updatesPool_updateStakePoolBalance hi.pool).accepts hl hw hup
  have hstatics := (process_executed (not_isInitialize hl hi.pool.valid h₁) h₁).statics
  obtain ⟨a, _, -, m, fee, mint, hok⟩ := processUpdateStakePoolBalance_ok h₁
  have heffect : Effect rt none w w₁ := .balance hok
  have hi₁ : Inv rt w₁ := heffect.inv hl hi hstatics
  have hheader : w₁.validatorList.header.isValid := by
    rw [hstatics.header]
    exact hw.header
  obtain ⟨w', h', hacc, hlist, htotal, hepoch⟩ := executeAll_cleanup hi₁.pool hheader
  have hlist' : w'.validatorList.validators = w.validatorList.validators.filter fun v => ¬ v.isRemoved := by
    rw [hlist, congrArg World.validatorList hok.result]
  have hreserve : w'.accounts w.stakePool.reserveStake = w.accounts w.stakePool.reserveStake := by
    rw [hacc]
    exact (hok.only hl).eq hi.core.reserve_ok.controlled.notToken
  have hdata := hok.reserve
  have hle := hok.reserve_le
  have hsum := hok.total
  rw [hok.reserveKey] at hdata hle hsum
  refine ⟨w', ?_, hepoch.trans hepoch₁, hlist', hreserve, m, by rw [hreserve]; exact hdata, ?_⟩
  · rw [finalInstructions, executeAll, h₁, ok_bind, hi.pool.list]
    exact h'
  · rw [hreserve, hlist', recordedLamports_filter]
    omega

/-- What an update of a client does to the pool: it is up to date, nothing is lost, and the total is what is in the
reserve beyond its minimum and what the entries record. -/
structure Updated (w w' : World Key) : Prop where
  epoch : w'.stakePool.lastUpdateEpoch = w.sysvars.epoch
  covered : (w.accounts w.stakePool.reserveStake).lamports + recordedLamports w.validatorList.validators ≤
    (w'.accounts w.stakePool.reserveStake).lamports + recordedLamports w'.validatorList.validators
  total : ∃ m, (w'.accounts w.stakePool.reserveStake).data = .stakeState (.initialized m) ∧
    w'.stakePool.totalLamports + minimumReserveLamports m =
      (w'.accounts w.stakePool.reserveStake).lamports + recordedLamports w'.validatorList.validators

omit [DecidableEq Key] [Inhabited Key] in
theorem Swept.updated {Q : ValidatorStakeInfo Key → ValidatorStakeInfo Key → Prop} {ks : List Nat} {w₁ : World Key}
    (h : Swept rt Q ks w w₁) (h' : Finished w₁ w') : Updated w w' := by
  obtain ⟨hepoch, hlist, hreserve, htotal⟩ := h'
  rw [h.pool] at hreserve htotal
  refine ⟨by rw [hepoch, h.progress.sysvars], ?_, htotal⟩
  rw [hreserve, hlist, recordedLamports_filter]
  exact h.covered

section
variable {P : Accounts Key → ValidatorStakeInfo Key → Prop} {Q : ValidatorStakeInfo Key → ValidatorStakeInfo Key → Prop}
  {noMerge : Bool} {stakeHistoryId : Key} {instrs finals order : List (Instruction Key)}

omit [DecidableEq Key] in
theorem updatesRange_chunkInstruction (hp : PoolOk rt w.stakePool) {i : Nat}
    (hi : i < Chunks.count maxValidatorsToUpdate w.validatorList.validators) :
    (chunkInstruction rt stakeHistoryId rt.programId rt.stakePoolAddress w.stakePool w.validatorList noMerge
      i).UpdatesRange rt w noMerge (i * maxValidatorsToUpdate)
      (min maxValidatorsToUpdate (w.validatorList.validators.length - i * maxValidatorsToUpdate)) :=
  have h : (chunkInstruction rt stakeHistoryId rt.programId rt.stakePoolAddress w.stakePool w.validatorList true
      i).UpdatesPart rt w _ _ := updatesPart_chunkInstruction hp hi
  ⟨rfl, h.within, h.keys⟩

/-- Chunks of the list in any order, among them those of every stale entry, and the final instructions. -/
theorem Updatable.chunks_sweep (hl : rt.Lawful) (hh : Handles rt w.stakePool w.sysvars noMerge P Q)
    (hw : Updatable rt w) {p : Nat → Bool}
    (ho : order.Perm (((List.range (Chunks.count maxValidatorsToUpdate w.validatorList.validators)).filter p).map
      (chunkInstruction rt stakeHistoryId rt.programId rt.stakePoolAddress w.stakePool w.validatorList noMerge)))
    (hs : ∀ (k : Nat) v, w.validatorList.validators[k]? = some v → v.lastUpdateEpoch < w.sysvars.epoch →
      k ∈ (((List.range (Chunks.count maxValidatorsToUpdate w.validatorList.validators)).filter p).map
        (chunkInstruction rt stakeHistoryId rt.programId rt.stakePoolAddress w.stakePool w.validatorList
          noMerge)).flatMap Instruction.indices)
    (hP : ∀ v ∈ w.validatorList.validators, P w.accounts v) :
    ∃ w₁ w', executeAll rt w (order ++ finalInstructions rt rt.programId w.stakePool rt.stakePoolAddress) = .ok w' ∧
      Swept rt Q (order.flatMap Instruction.indices) w w₁ ∧ Finished w₁ w' := by
  have hparts : ∀ ins ∈ order, ∃ start n, ins.UpdatesRange rt w noMerge start n := by
    intro ins hins
    obtain ⟨i, hi, rfl⟩ := List.mem_map.1 (ho.mem_iff.1 hins)
    exact ⟨_, _, updatesRange_chunkInstruction hw.inv.pool (List.mem_range.1 (List.mem_of_mem_filter hi))⟩
  have hnodup : (order.flatMap Instruction.indices).Nodup :=
    (ho.flatMap_right _).nodup_iff.2 (List.nodup_range.sublist indices_sublist)
  obtain ⟨w₁, h₁, hw₁, hswept⟩ := executeAll_sweep hl hh hw hparts hnodup fun k _ v hv =>
    hP v (List.mem_of_getElem? hv)
  have hup : ∀ v ∈ w₁.validatorList.validators, w₁.sysvars.epoch ≤ v.lastUpdateEpoch := by
    intro v' hv'
    obtain ⟨k, hk⟩ := List.getElem?_of_mem hv'
    have hlen := (List.getElem?_eq_some_iff.1 hk).1
    rw [hswept.progress.length] at hlen
    have hv := List.getElem?_eq_getElem hlen
    obtain ⟨u, hu, -, hin, hout⟩ := hswept.progress.entry k _ hv
    obtain rfl := Option.some.inj (hk.symm.trans hu)
    rw [hswept.progress.sysvars]
    by_cases hmem : k ∈ order.flatMap Instruction.indices
    · exact (hin hmem).ge
    · rw [hout hmem]
      refine Nat.not_lt.1 fun hstale => hmem ?_
      rw [(ho.flatMap_right _).mem_iff]
      exact hs k _ hv hstale
  obtain ⟨w', h', hfinished⟩ := hw₁.finishes hl hup
  rw [hswept.pool] at h'
  exact ⟨w₁, w', by rw [executeAll_append, h₁]; exact h', hswept, hfinished⟩

theorem length_lt_of_reachable (hl : rt.Lawful) (hr : (poolSystem rt).Reachable w) :
    w.validatorList.validators.length < 2 ^ 64 := by
  have hroomy := Roomy.of_reach hl hr
  have := hroomy.length_le
  have := hroomy.max_le
  simp only [maxValidatorsInPool] at this
  omega

/-- The instructions that a client builds are chunks of the list, among them those of every stale entry. -/
theorem clientUpdate_chunks (hr : (poolSystem rt).Reachable w) (hl : rt.Lawful)
    (h : updateStakePool rt stakeHistoryId rt.programId w.stakePool w.validatorList rt.stakePoolAddress noMerge =
        some (instrs, finals) ∨
      updateStaleStakePool rt stakeHistoryId rt.programId w.stakePool w.validatorList rt.stakePoolAddress noMerge
        w.sysvars.epoch = some (instrs, finals)) :
    finals = finalInstructions rt rt.programId w.stakePool rt.stakePoolAddress ∧ ∃ p : Nat → Bool,
      instrs = ((List.range (Chunks.count maxValidatorsToUpdate w.validatorList.validators)).filter p).map
        (chunkInstruction rt stakeHistoryId rt.programId rt.stakePoolAddress w.stakePool w.validatorList noMerge) ∧
      ∀ (k : Nat) v, w.validatorList.validators[k]? = some v → v.lastUpdateEpoch < w.sysvars.epoch →
        k ∈ instrs.flatMap Instruction.indices := by
  have hlen := length_lt_of_reachable hl hr
  rcases h with h | h
  · obtain rfl := updateStakePool_eq_some hlen h
    refine ⟨updateStakePool_finals h, fun _ => true, by rw [List.filter_true], fun k v hv _ => ?_⟩
    rw [indices_all]
    exact List.mem_range.2 (List.getElem?_eq_some_iff.1 hv).1
  · obtain rfl := updateStaleStakePool_eq_some hlen h
    exact ⟨updateStaleStakePool_finals h, _, rfl, fun k v hv hs => indices_stale hv hs⟩

/-- While no epoch rewards are paid, the update that a client builds, also one that merges, succeeds in any order of the
instructions for the list, in every state of every run where the epochs of the pool's stakes agree with the stake
history. It loses nothing, and the total is what is there then. -/
theorem merging_updates_succeed (hl : rt.Lawful) (hm : rt.MergesBy cooled mergeable)
    (hr : (poolSystem rt).Reachable w) (hrew : w.sysvars.epochRewardsActive = false)
    (hlt : (w.accounts w.stakePool.reserveStake).lamports +
      rt.listLamports w.accounts w.validatorList.validators < 2 ^ 63)
    (hg : ∀ v ∈ w.validatorList.validators, Agrees rt cooled mergeable w.sysvars w.accounts v)
    (h : updateStakePool rt stakeHistoryId rt.programId w.stakePool w.validatorList rt.stakePoolAddress false =
        some (instrs, finals) ∨
      updateStaleStakePool rt stakeHistoryId rt.programId w.stakePool w.validatorList rt.stakePoolAddress false
        w.sysvars.epoch = some (instrs, finals))
    (ho : order.Perm instrs) :
    ∃ w', executeAll rt w (order ++ finals) = .ok w' ∧ Updated w w' := by
  have hw : Updatable rt w := .of_reachable hl hr hrew hlt
  obtain ⟨rfl, p, rfl, hcover⟩ := clientUpdate_chunks hr hl h
  obtain ⟨w₁, w', h', hswept, hfinished⟩ := hw.chunks_sweep hl
    (UpdateValidatorListBalanceAccounts.handles_agrees hl hm hrew) ho hcover hg
  exact ⟨w', h', hswept.updated hfinished⟩

omit [DecidableEq Key] [Inhabited Key] in
theorem ValidatorStakeInfo.isActive_iff : v.isActive ↔ v.status = StakeStatus.active.pod := by
  rw [isActive, decide_eq_true_eq]
  refine ⟨fun h => PodStakeStatus.status_eq_ok (orErr_eq_ok.2 h), fun h => ?_⟩
  rw [h, StakeStatus.fromU8_pod]

omit [DecidableEq Key] [Inhabited Key] in
/-- The entries that stay are the active ones. -/
theorem Settles.kept_iff (h : Settles v v') : v.isActive ↔ ¬ v'.isRemoved := by
  rw [ValidatorStakeInfo.isActive_iff]
  rcases h.1 with ⟨hs, hs'⟩ | ⟨hs, hr⟩
  · refine iff_of_true hs ?_
    rw [ValidatorStakeInfo.isRemoved, hs']
    simp
  · exact iff_of_false hs (not_not.2 hr)

/-- In every state of every run where all stake of the pool has settled, which for an active entry includes that its
validator stake is delegated, the update that a client builds leaves the active entries without transient stake, and no
others. It loses nothing, and the total is what is there then. -/
theorem settled_updates_complete (hl : rt.Lawful) (hm : rt.MergesBy cooled mergeable)
    (hr : (poolSystem rt).Reachable w) (hrew : w.sysvars.epochRewardsActive = false)
    (hlt : (w.accounts w.stakePool.reserveStake).lamports +
      rt.listLamports w.accounts w.validatorList.validators < 2 ^ 63)
    (hsettled : ∀ v ∈ w.validatorList.validators, StakeSettled rt cooled mergeable w.sysvars w.accounts v)
    (h : updateStakePool rt stakeHistoryId rt.programId w.stakePool w.validatorList rt.stakePoolAddress false =
        some (instrs, finals))
    (ho : order.Perm instrs) :
    ∃ w', executeAll rt w (order ++ finals) = .ok w' ∧ Updated w w' ∧
      w'.votes = (w.validatorList.validators.filter (·.isActive)).map (·.voteAccountAddress) ∧
      ∀ v ∈ w'.validatorList.validators, v.status = StakeStatus.active.pod ∧ v.transientStakeLamports = 0 := by
  have hw : Updatable rt w := .of_reachable hl hr hrew hlt
  have hinstrs := updateStakePool_eq_some (length_lt_of_reachable hl hr) h
  have hall : ∀ k < w.validatorList.validators.length, k ∈ order.flatMap Instruction.indices := by
    intro k hk
    rw [(ho.flatMap_right _).mem_iff, hinstrs, indices_all]
    exact List.mem_range.2 hk
  obtain ⟨rfl, p, rfl, hcover⟩ := clientUpdate_chunks hr hl (.inl h)
  obtain ⟨w₁, w', h', hswept, hfinished⟩ := hw.chunks_sweep hl
    (UpdateValidatorListBalanceAccounts.handles_settled hl hm hrew) ho hcover hsettled
  have hupdated := hswept.updated hfinished
  -- the entries after the updates of the list, one for each
  have hentries : List.Forall₂ (fun v v' => v'.voteAccountAddress = v.voteAccountAddress ∧ Settles v v')
      w.validatorList.validators w₁.validatorList.validators := by
    refine List.forall₂_iff_get.2 ⟨hswept.progress.length.symm, fun k hk hk' => ?_⟩
    have hv := List.getElem?_eq_getElem hk
    obtain ⟨v', hv', hsame, -⟩ := hswept.progress.entry k _ hv
    obtain ⟨u, hu, hsettles⟩ := hswept.handled k _ (hall k hk) hv
    obtain rfl := Option.some.inj (hv'.symm.trans hu)
    obtain ⟨_, rfl⟩ := List.getElem?_eq_some_iff.1 hv'
    exact ⟨hsame.vote, hsettles⟩
  have hkept := List.rel_filter (p := fun v => v.isActive) (q := fun v => ¬ v.isRemoved)
    (fun v v' (hv : _ ∧ Settles v v') => by simpa using hv.2.kept_iff) hentries
  rw [← hfinished.list] at hkept
  refine ⟨w', h', hupdated, ?_, fun v' hv' => ?_⟩
  · rw [World.votes, eq_comm, ← List.forall₂_eq_eq_eq, List.forall₂_map_left_iff, List.forall₂_map_right_iff]
    exact hkept.imp fun v v' h => h.1.symm
  · obtain ⟨j, hj, rfl⟩ := List.getElem_of_mem hv'
    have hlen : j < (w.validatorList.validators.filter (·.isActive)).length := by
      rw [hkept.length_eq]
      exact hj
    have hsettles := (hkept.get hlen hj).2
    have hactive := List.of_mem_filter (List.get_mem _ ⟨j, hlen⟩)
    refine ⟨(hsettles.1.resolve_right fun h => h.1 (ValidatorStakeInfo.isActive_iff.1 hactive)).2, hsettles.2⟩

end

section
open Reference

/-- Two stakes of one validator that are active. -/
def bothActive (sys : Sysvars) (d s : Stake Reference.Key) : Prop :=
  d.delegation.voterPubkey = s.delegation.voterPubkey ∧ phase d.delegation sys.epoch = .active ∧
    phase s.delegation sys.epoch = .active

theorem Reference.mergesBy : runtime.MergesBy deactivatedBefore bothActive where
  cooled := mergesCooled
  stakes := by
    intro sys auth kd dst ks src md d ms s _ hne ho ho' hd hs hboth ha hlo hst
    refine ⟨(⟨dst.lamports + src.lamports, dst.owner, .stakeState (.stake md (d.addStake s.delegation.stake
      d.creditsObserved))⟩, ⟨0, src.owner, .stakeState .uninitialized⟩), ?_⟩
    simp only [runtime] at ho ho' ⊢
    simp [merge, Account.stakeState?, hd, hs, orErr, StakeStateV2.meta?, statePhase, gained, gainStake,
      hne, ho, ho', ha, hlo, ← hst, hboth.2.1, hboth.2.2, Bind.bind, Except.bind, Pure.pure, Except.pure]
  deactivates := by
    intro sys auth a m s _ ho hd hst hmax
    refine ⟨{ a with data := .stakeState (.stake m (s.deactivateAt sys.epoch)) }, ?_⟩
    simp only [runtime] at ho ⊢
    simp [deactivate, ho, hd, hst, hmax, ensure, Bind.bind, Except.bind, Pure.pure, Except.pure]

/-- A pool with two validators in the next epoch: stake was moved to the first one, the other one was removed. -/
def settling : World Reference.Key :=
  after (opened noFee noFee noFee) [depositSol 100000000 0, addValidator vote, addValidator vote',
    increase vote 20000000 0, removeValidator vote', .advanceEpoch 11 false (fun _ => none)]

theorem settling_reachable : (poolSystem runtime).Reachable settling :=
  reachable_after (initialized_opened (by decide +kernel)) (by decide +kernel)

/-- A stake of the pool in it. -/
def settlingStake (vote : Reference.Key) (lamports deactivationEpoch : Nat) : AccountData Reference.Key :=
  .stakeState (.stake ⟨rent stakeSpace, ⟨withdrawAuthority, withdrawAuthority⟩, default⟩
    ⟨⟨vote, lamports, 10, deactivationEpoch⟩, 0⟩)

/-- Its entries. -/
def arrivingEntry : ValidatorStakeInfo Reference.Key :=
  ⟨3282880, 22282880, 10, 0, 0, StakeStatus.active.pod, vote⟩

def leavingEntry : ValidatorStakeInfo Reference.Key :=
  ⟨3282880, 0, 10, 0, 0, StakeStatus.deactivatingValidator.pod, vote'⟩

theorem settling_entries : settling.validatorList.validators = [arrivingEntry, leavingEntry] := by
  decide +kernel

theorem settling_settled : ∀ v ∈ settling.validatorList.validators,
    StakeSettled runtime deactivatedBefore bothActive settling.sysvars settling.accounts v := by
  intro v hv
  have hleft := AllLeaving.of_reach lawful settling_reachable v hv
  rw [settling_entries] at hv
  rcases List.mem_pair.1 hv with rfl | rfl
  · have hd : (settling.accounts (runtime.validatorStake arrivingEntry)).data = settlingStake vote 1000000 epochMax := by
      decide +kernel
    have ht : (settling.accounts (runtime.transientStake arrivingEntry)).data = settlingStake vote 20000000 epochMax := by
      decide +kernel
    exact .arriving rfl hd (by decide) ht (by decide +kernel) (by decide +kernel) (by decide +kernel)
      ⟨rfl, by decide +kernel, by decide +kernel⟩
  · exact .leaving (by decide) hleft (by decide +kernel) fun h => absurd h (by decide)

theorem settling_built :
    (updateStakePool runtime (wallet 9) runtime.programId settling.stakePool settling.validatorList
      runtime.stakePoolAddress false).isSome ∧
    (updateStaleStakePool runtime (wallet 9) runtime.programId settling.stakePool settling.validatorList
      runtime.stakePoolAddress false settling.sysvars.epoch).isSome :=
  updateStakePool_isSome (by rw [settling_entries]; decide)

theorem merging_updates_succeed_settling : ∃ instrs finals w',
    updateStaleStakePool runtime (wallet 9) runtime.programId settling.stakePool settling.validatorList
      runtime.stakePoolAddress false settling.sysvars.epoch = some (instrs, finals) ∧
    executeAll runtime settling (instrs ++ finals) = .ok w' ∧ Updated settling w' := by
  obtain ⟨⟨instrs, finals⟩, h⟩ := Option.isSome_iff_exists.1 settling_built.2
  obtain ⟨w', hw⟩ := merging_updates_succeed lawful mergesBy settling_reachable (by decide +kernel)
    (by decide +kernel) (fun v hv => (settling_settled v hv).agrees) (.inr h) (.refl _)
  exact ⟨instrs, finals, w', h, hw⟩

theorem settled_updates_complete_settling : ∃ instrs finals w',
    updateStakePool runtime (wallet 9) runtime.programId settling.stakePool settling.validatorList
      runtime.stakePoolAddress false = some (instrs, finals) ∧
    executeAll runtime settling (instrs ++ finals) = .ok w' ∧ w'.votes = [vote] := by
  obtain ⟨⟨instrs, finals⟩, h⟩ := Option.isSome_iff_exists.1 settling_built.1
  obtain ⟨w', hw, -, hvotes, -⟩ := settled_updates_complete lawful mergesBy settling_reachable (by decide +kernel)
    (by decide +kernel) settling_settled h (.refl _)
  rw [settling_entries] at hvotes
  exact ⟨instrs, finals, w', h, hw, hvotes⟩

end

end SplStakePool
