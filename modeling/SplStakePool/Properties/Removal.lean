import SplStakePool.Invariant.Leaving
import SplStakePool.Properties.UpdateAvailability

/-!
# A removal completes, and so does a decrease

Once the stake of an entry that is leaving has cooled down, anyone can update the entry and clean up the list: all
that it records is in the reserve, and it is gone. Once the transient stake of an active entry has cooled down, an
update of the entry returns it to the reserve. Neither depends on the other entries, whose merges may fail.

The handler is run forwards here, with the laws that say when the stake program must merge. Its two stages each return
what is needed of the next: the transient part is gone, and the status says that the validator part is what is left.
The status of a leaving entry is known from the runs (`Invariant/Leaving`).
-/

namespace SplStakePool
open Exec Machine System

variable {Key : Type} [DecidableEq Key] [Inhabited Key] {rt : Runtime Key} {w w' : World Key}
  {acc acc' acc₁ : Accounts Key} {v v' : ValidatorStakeInfo Key} {cooled : Sysvars → Stake Key → Prop}

/-- The stake program merges a stake that has cooled down, by its stake history, into an initialized account with the
same authorities and lockup. -/
def Runtime.MergesCooled (rt : Runtime Key) (cooled : Sysvars → Stake Key → Prop) : Prop :=
  ∀ sys auth kd dst ks src md ms s, sys.epochRewardsActive = false → kd ≠ ks →
    dst.owner = rt.stakeProgramId → src.owner = rt.stakeProgramId →
    dst.data = .stakeState (.initialized md) → src.data = .stakeState (.stake ms s) → cooled sys s →
    md.authorized = ms.authorized → md.lockup = ms.lockup → md.authorized.staker = auth →
    ∃ r, rt.merge sys auth (kd, dst) (ks, src) = .ok r

/-- A stake at an account has cooled down, also by the pool's own test. -/
def Account.CooledDown (cooled : Sysvars → Stake Key → Prop) (sys : Sysvars) (a : Account Key) : Prop :=
  ∀ m s, a.data = .stakeState (.stake m s) → stakeIsInactiveWithoutHistory s sys.epoch ∧ cooled sys s

omit [DecidableEq Key] [Inhabited Key] in
theorem Account.cooledDown_stake {sys : Sysvars} {a : Account Key} {m : Meta Key} {s : Stake Key}
    (hd : a.data = .stakeState (.stake m s)) :
    a.CooledDown cooled sys ↔ stakeIsInactiveWithoutHistory s sys.epoch ∧ cooled sys s := by
  refine ⟨fun h => h m s hd, fun h m' s' hd' => ?_⟩
  rw [hd] at hd'
  cases hd'
  exact h

theorem StakeStatus.removeTransientStake_pod (s : StakeStatus) : ∃ p, s.pod.removeTransientStake = .ok p := by
  rw [PodStakeStatus.removeTransientStake, StakeStatus.status_pod, ok_bind]
  exact ⟨_, rfl⟩

/-! ## One entry -/

namespace UpdateValidatorListBalanceAccounts
variable {a : UpdateValidatorListBalanceAccounts Key} {va ta : AccountInfo Key} {status : PodStakeStatus} {t : Nat}
  {m : Meta Key}

/-- A stake that has cooled down can be merged into the reserve. -/
theorem stakeMerge_cooled (hm : rt.MergesCooled cooled) (hx : Ctx rt w a) (hrew : w.sysvars.epochRewardsActive = false)
    (hr : Reserve rt (acc w.stakePool.reserveStake)) (hne : w.stakePool.reserveStake ≠ va.key) {s : Stake Key}
    (hd : (acc va.key).data = .stakeState (.stake m s)) (ho : (acc va.key).owner = rt.stakeProgramId)
    (hu : usable w a m) (hc : cooled w.sysvars s) :
    ∃ acc', stakeMerge rt w.sysvars acc va a.withdrawAuthorityInfo a.reserveStakeInfo = .ok acc' := by
  obtain ⟨hauth, hlockup⟩ := (usable_iff hx).1 hu
  obtain ⟨mr, hmr, hp, -⟩ := hr.state
  obtain ⟨⟨dst, src⟩, h⟩ := hm w.sysvars a.withdrawAuthorityInfo.key w.stakePool.reserveStake _ va.key _ mr m s hrew hne
    hr.owner ho hmr hd hc (hp.authorized.trans hauth.symm) (hp.lockup.trans hlockup.symm)
    (by rw [hp.authorized, hx.authority])
  exact ⟨_, by rw [stakeMerge, hx.reserveKey, h]; rfl⟩

theorem updateTransient_cooled (hl : rt.Lawful) (hm : rt.MergesCooled cooled) (hx : Ctx rt w a)
    (hrew : w.sysvars.epochRewardsActive = false) (hv : EntryOk rt acc v) (va : AccountInfo Key)
    (hr : Reserve rt (acc w.stakePool.reserveStake)) (hne : w.stakePool.reserveStake ≠ ta.key)
    (hta : ta.key = rt.transientStake v)
    (hc : 0 < v.transientStakeLamports → (acc ta.key).CooledDown cooled w.sysvars) :
    ∃ acc₁ status, a.updateTransient rt w false acc v va ta = .ok (acc₁, status, 0) ∧
      (∀ k, k ≠ w.stakePool.reserveStake → k ≠ ta.key → acc₁ k = acc k) := by
  by_cases h0 : v.transientStakeLamports = 0
  · refine ⟨acc, v.status, ?_, fun _ _ _ => rfl⟩
    rw [updateTransient, if_neg (not_not.2 h0)]
    rfl
  have hct : Controlled rt (acc ta.key) := by rw [hta]; exact hv.transient (Nat.pos_of_ne_zero h0)
  obtain ⟨st, hst, -⟩ := hv.status
  obtain ⟨p, hp⟩ := StakeStatus.removeTransientStake_pod st
  rw [← hst] at hp
  have hframe : ∀ {acc₁}, stakeMerge rt w.sysvars acc ta a.withdrawAuthorityInfo a.reserveStakeInfo = .ok acc₁ →
      (acc₁ ta.key).lamports = 0 ∧ ∀ k, k ≠ w.stakePool.reserveStake → k ≠ ta.key → acc₁ k = acc k := by
    intro acc₁ h
    have hspec := stakeMerge_spec hl h
    rw [hx.reserveKey] at hspec
    exact ⟨hspec.src_lamports, fun k hkr hkt => hspec.frame k (by simp [hkr, hkt])⟩
  obtain ⟨s, hs, m, hmeta, hpm⟩ := hct.state
  have hu : usable w a m := usable_of_controlled hx hct hs hmeta
  have hread : (acc ta.key).stakeState? = some s := Account.stakeState?_eq_some.2 hs
  rw [updateTransient, if_pos h0, hread]
  cases s with
  | initialized m' =>
    cases hmeta
    obtain ⟨acc₁, h⟩ := stakeMerge_accepts hl hx hrew hr hne hs hct.owner hu
    refine ⟨acc₁, p, ?_, (hframe h).2⟩
    simp only [transientAction, hu, if_true, Bool.false_eq_true, if_false, h, hp, ok_bind]
    rfl
  | stake m' s =>
    cases hmeta
    obtain ⟨hinactive, hcool⟩ := hc (Nat.pos_of_ne_zero h0) _ _ hs
    obtain ⟨acc₁, h⟩ := stakeMerge_cooled hm hx hrew hr hne hs hct.owner hu hcool
    refine ⟨acc₁, p, ?_, (hframe h).2⟩
    simp only [transientAction, hu, if_true, Bool.false_eq_true, if_false, hinactive, h, hp, ok_bind, (hframe h).1]
    rfl
  | _ => cases hmeta

theorem updateDelegated_cooled (hm : rt.MergesCooled cooled) (hx : Ctx rt w a)
    (hrew : w.sysvars.epochRewardsActive = false) (hr : Reserve rt (acc w.stakePool.reserveStake))
    (hne : w.stakePool.reserveStake ≠ va.key) {s : Stake Key} (hd : (acc va.key).data = .stakeState (.stake m s))
    (ho : (acc va.key).owner = rt.stakeProgramId) (hu : usable w a m)
    (hc : stakeIsInactiveWithoutHistory s w.sysvars.epoch ∧ cooled w.sysvars s)
    (hst : status = StakeStatus.deactivatingValidator.pod ∨ status = StakeStatus.readyForRemoval.pod) :
    ∃ acc', a.updateDelegated rt w false acc status s va = .ok (acc', StakeStatus.readyForRemoval.pod, 0) := by
  rcases hst with rfl | rfl
  · obtain ⟨acc', h⟩ := stakeMerge_cooled hm hx hrew hr hne hd ho hu hc.2
    refine ⟨acc', ?_⟩
    simp only [updateDelegated, StakeStatus.status_pod, ok_bind, Bool.false_eq_true, if_false, hc.1, if_true, h,
      PodStakeStatus.removeValidatorStake]
    rfl
  · refine ⟨acc, ?_⟩
    simp only [updateDelegated, StakeStatus.status_pod, ok_bind]
    rfl

/-- The validator part of an entry without a transient part that is leaving goes when it has cooled down. -/
theorem updateValidator_cooled (hl : rt.Lawful) (hm : rt.MergesCooled cooled) (hx : Ctx rt w a)
    (hrew : w.sysvars.epochRewardsActive = false) (hr : Reserve rt (acc w.stakePool.reserveStake))
    (hne : w.stakePool.reserveStake ≠ va.key) (hva : va.key = rt.validatorStake v) (hpda : PdaOk rt (acc va.key))
    (hst : status = StakeStatus.deactivatingValidator.pod ∧ Controlled rt (acc (rt.validatorStake v)) ∨
      status = StakeStatus.readyForRemoval.pod)
    (hc : (acc va.key).CooledDown cooled w.sysvars) :
    ∃ acc', a.updateValidator rt w false acc status 0 va = .ok (acc', StakeStatus.readyForRemoval.pod, 0) := by
  -- an account that is not the pool's is ignored, and then there is no validator part
  have hignore : ¬ Controlled rt (acc va.key) → status = StakeStatus.readyForRemoval.pod := by
    rintro hnot
    refine hst.resolve_left fun h => hnot ?_
    rw [hva]
    exact h.2
  have hnot : (∀ s, (acc va.key).data = .stakeState s → s.meta? = none) → ¬ Controlled rt (acc va.key) := by
    rintro hnone hcv
    obtain ⟨s, hs, m, hmeta, -⟩ := hcv.state
    rw [hnone s hs] at hmeta
    cases hmeta
  rw [updateValidator]
  cases hs : (acc va.key).stakeState? with
  | none =>
    refine ⟨acc, ?_⟩
    rw [hignore (hnot fun s hd => by rw [Account.stakeState?_eq_some.2 hd] at hs; cases hs)]
    rfl
  | some s =>
    have hd := Account.stakeState?_eq_some.1 hs
    have hunusable : ∀ m, s.meta? = some m → ¬ usable w a m → status = StakeStatus.readyForRemoval.pod :=
      fun m hmeta hu => hignore fun hcv => hu (usable_of_controlled hx hcv hd hmeta)
    cases s with
    | uninitialized | rewardsPool =>
      refine ⟨acc, ?_⟩
      rw [hignore (hnot fun s hd' => by rw [hd] at hd'; cases hd'; rfl)]
      rfl
    | initialized m =>
      by_cases hu : usable w a m
      · obtain ⟨acc', h⟩ := stakeMerge_accepts hl hx hrew hr hne hd (hpda.owner hd) hu
        exact ⟨acc', by simp only [hu, if_true, h, ok_bind, ne_eq, not_true_eq_false, if_false]; rfl⟩
      · refine ⟨acc, ?_⟩
        rw [hunusable m rfl hu]
        simp only [hu]
        rfl
    | stake m s =>
      by_cases hu : usable w a m
      · obtain ⟨acc₁, h⟩ := withdrawAdditional_accepts hl hx hrew hd (hpda.owner hd) hu
        have hsk := withdrawAdditional_spec hl hx h hr hne (hpda.rentExempt hd m rfl)
        have hd₁ : (acc₁ va.key).data = .stakeState (.stake m s) := hsk.data.trans hd
        obtain ⟨acc', h'⟩ := updateDelegated_cooled hm hx hrew hsk.reserve_step.reserve hne hd₁
          ((hsk.pda _ hpda).owner hd₁) hu (hc m s hd) (hst.imp_left And.left)
        exact ⟨acc', by simp only [hu, if_true, h, ok_bind]; exact h'⟩
      · refine ⟨acc, ?_⟩
        rw [hunusable m rfl hu]
        simp only [hu]
        rfl

theorem updateValidator_counts (hl : rt.Lawful) (hx : Ctx rt w a) (hrew : w.sysvars.epochRewardsActive = false)
    {s : Stake Key} (hcv : Controlled rt (acc va.key)) (hd : (acc va.key).data = .stakeState (.stake m s)) (noMerge : Bool) :
    ∃ acc', a.updateValidator rt w noMerge acc StakeStatus.active.pod t va =
      .ok (acc', StakeStatus.active.pod, (acc' va.key).lamports) := by
  have hu : usable w a m := usable_of_controlled hx hcv hd rfl
  obtain ⟨acc₁, h⟩ := withdrawAdditional_accepts hl hx hrew hd hcv.owner hu
  refine ⟨acc₁, ?_⟩
  rw [updateValidator, Account.stakeState?_eq_some.2 hd]
  simp only [hu, if_true, h, ok_bind, updateDelegated, StakeStatus.status_pod]
  rfl

theorem updateEntry_removes (hl : rt.Lawful) (hm : rt.MergesCooled cooled) (hx : Ctx rt w a)
    (hpool : a.stakePoolInfo.key = rt.stakePoolAddress) (hrew : w.sysvars.epochRewardsActive = false)
    (ho : Own rt v (va, ta)) (hv : EntryOk rt acc v) (hleft : Leaving rt acc v)
    (hs : v.status ≠ StakeStatus.active.pod) (hr : Reserve rt (acc w.stakePool.reserveStake))
    (hn : ¬ rt.StakePda w.stakePool.reserveStake) (hpda : PdaOk rt (acc (rt.validatorStake v)))
    (hcv : (acc (rt.validatorStake v)).CooledDown cooled w.sysvars)
    (hct : 0 < v.transientStakeLamports → (acc (rt.transientStake v)).CooledDown cooled w.sysvars) :
    ∃ acc', a.updateEntry rt w false acc v va ta = .ok (acc', { v with
      status := StakeStatus.readyForRemoval.pod
      lastUpdateEpoch := w.sysvars.epoch
      activeStakeLamports := 0
      transientStakeLamports := 0 }) := by
  obtain ⟨hva, hta⟩ := id ho
  dsimp only at hva hta
  have hrv : w.stakePool.reserveStake ≠ va.key := fun he => hn (he ▸ hva ▸ .validator v)
  have hrt : w.stakePool.reserveStake ≠ ta.key := fun he => hn (he ▸ hta ▸ .transient v)
  obtain ⟨acc₁, status, ht, hother⟩ := updateTransient_cooled hl hm hx hrew hv va hr hrt hta (hta ▸ hct)
  have hT := updateTransient_spec hl hx ht hv hr hn hva hta
  have hsame : acc₁ (rt.validatorStake v) = acc (rt.validatorStake v) := by
    refine hother _ (hva ▸ hrv.symm) ?_
    rw [hta]
    exact validatorStake_ne_transientStake hl _ _
  have hleft₁ : Leaving rt acc₁ { v with status := status, transientStakeLamports := 0 } :=
    updateTransient_leaving (updateTransient_left hl hx ht hv hta) hleft (by rw [hsame]; exact id)
  -- the status does not go back up
  have hne : status ≠ StakeStatus.active.pod := by
    obtain ⟨s, hst, -⟩ := hleft
    obtain ⟨s', hst', hdown⟩ := hT.down s hst
    rintro rfl
    obtain rfl := StakeStatus.pod_inj hst'
    cases s with
    | active => exact hs hst
    | _ => exact absurd hdown (by decide)
  obtain ⟨acc', h'⟩ := updateValidator_cooled hl hm hx hrew hT.reserve_step.reserve hrv hva
    (by rw [hva, hsame]; exact hpda) (hleft₁.settled.resolve_left hne) (by rw [hva, hsame]; exact hcv)
  exact ⟨acc', by simp only [updateEntry_of_own hpool ho, ht, h', ok_bind]; rfl⟩

theorem updateEntry_returns (hl : rt.Lawful) (hm : rt.MergesCooled cooled) (hx : Ctx rt w a)
    (hpool : a.stakePoolInfo.key = rt.stakePoolAddress) (hrew : w.sysvars.epochRewardsActive = false)
    (ho : Own rt v (va, ta)) (hv : EntryOk rt acc v) (hs : v.status = StakeStatus.active.pod)
    (hr : Reserve rt (acc w.stakePool.reserveStake)) (hn : ¬ rt.StakePda w.stakePool.reserveStake) {s : Stake Key}
    (hd : (acc (rt.validatorStake v)).data = .stakeState (.stake m s))
    (hct : 0 < v.transientStakeLamports → (acc (rt.transientStake v)).CooledDown cooled w.sysvars) :
    ∃ acc', a.updateEntry rt w false acc v va ta = .ok (acc', { v with
      lastUpdateEpoch := w.sysvars.epoch
      activeStakeLamports := (acc' (rt.validatorStake v)).lamports
      transientStakeLamports := 0 }) := by
  obtain ⟨hva, hta⟩ := id ho
  dsimp only at hva hta
  have hrt : w.stakePool.reserveStake ≠ ta.key := fun he => hn (he ▸ hta ▸ .transient v)
  obtain ⟨acc₁, status, ht, hother⟩ := updateTransient_cooled hl hm hx hrew hv va hr hrt hta (hta ▸ hct)
  have hsame : acc₁ va.key = acc (rt.validatorStake v) := by
    rw [hva]
    refine hother _ (fun he => hn (he ▸ .validator v)) ?_
    rw [hta]
    exact validatorStake_ne_transientStake hl _ _
  have hst : status = StakeStatus.active.pod := (updateTransient_left hl hx ht hv hta).active hs
  rw [← hsame] at hd
  have hcv : Controlled rt (acc₁ va.key) := by
    rw [hsame]
    exact hv.of_active hs
  obtain ⟨acc', h'⟩ := updateValidator_counts (t := 0) hl hx hrew hcv hd false
  refine ⟨acc', ?_⟩
  rw [updateEntry_of_own hpool ho, ht, hst, ok_bind]
  dsimp only
  rw [h', ← hs, ok_bind, ← hva]
  rfl

end UpdateValidatorListBalanceAccounts

/-! ## Instructions -/

/-- An update of one entry that merges what can be merged. -/
structure Instruction.UpdatesEntry (rt : Runtime Key) (w : World Key) (ins : Instruction Key) (k : Nat)
    (v : ValidatorStakeInfo Key) : Prop where
  data : ins.data = .updateValidatorListBalance k false
  keys : ∃ stakeHistory, ins.accounts.map (·.key) =
    [rt.stakePoolAddress, rt.withdrawAuthority, rt.validatorListAddress, w.stakePool.reserveStake, rt.clockId,
      stakeHistory, rt.stakeProgramId] ++ [rt.validatorStake v, rt.transientStake v]

/-- The instruction does to the list and the accounts what handling the entry does. -/
theorem Instruction.UpdatesEntry.execute_eq (hl : rt.Lawful) (hp : PoolOk rt w.stakePool)
    (hheader : w.validatorList.header.isValid) (hrew : w.sysvars.epochRewardsActive = false)
    {ins : Instruction Key} {k : Nat} (hv : w.validatorList.validators[k]? = some v) (h : ins.UpdatesEntry rt w k v) :
    ∃ (a : UpdateValidatorListBalanceAccounts Key) (va ta : AccountInfo Key),
      UpdateValidatorListBalanceAccounts.Ctx rt w a ∧ a.stakePoolInfo.key = rt.stakePoolAddress ∧
      UpdateValidatorListBalanceAccounts.Own rt v (va, ta) ∧
      ∀ acc' v', a.updateEntry rt w false w.accounts v va ta = .ok (acc', v') →
        ins.execute rt w = .ok { w with
          validatorList := { w.validatorList with validators := w.validatorList.validators.set k v' }
          accounts := acc' } := by
  obtain ⟨_, hkeys⟩ := h.keys
  obtain ⟨a, rest, hparse, hpool, hauth, hlist, hreserve, hprogram, hks⟩ :=
    UpdateValidatorListBalanceAccounts.parse_of_keys hkeys
  rw [List.map_eq_cons_iff] at hks
  obtain ⟨va, infos, hinfos, hva, hks⟩ := hks
  rw [List.map_eq_singleton_iff] at hks
  obtain ⟨ta, rfl, hta⟩ := hks
  have hadmits : UpdateValidatorListBalanceAccounts.Admits rt w.stakePool w.sysvars w.validatorList.header a := by
    refine ⟨hpool, hp.valid, ensure_eq_ok.2 (hlist.trans hp.list.symm), ?_, hreserve, ensure_eq_ok.2 hprogram, hrew,
      by simp [hinfos], hlist, hheader⟩
    rw [hpool]
    exact (StakePool.checkAuthorityWithdraw_eq_ok hl hp.bump).2 hauth
  obtain ⟨hlt, hget⟩ := List.getElem?_eq_some_iff.1 hv
  have hslice : BigVec.deserializeSlice w.validatorList.validators k (a.validatorStakeAccounts.length / 2) =
      .ok [v] := by
    rw [BigVec.deserializeSlice_eq_ok, hinfos]
    refine ⟨by simp only [List.length_cons, List.length_nil]; omega, ?_⟩
    rw [List.drop_eq_getElem_cons hlt, hget]
    simp
  refine ⟨a, va, ta, ⟨hauth, hp.lockup, hreserve⟩, hpool, ⟨hva, hta⟩, fun acc' v' hupdate => ?_⟩
  have hentries : a.updateEntries rt w false w.accounts [v] (pairs a.validatorStakeAccounts) = .ok (acc', [v']) := by
    rw [hinfos]
    simp only [pairs, UpdateValidatorListBalanceAccounts.updateEntries, hupdate, ok_bind]
    rfl
  have hprocess := UpdateValidatorListBalanceAccounts.process_eq_ok.2 ⟨hadmits, _, acc', [v'], hslice, hentries, rfl⟩
  have hwrite : BigVec.writeSlice w.validatorList.validators k [v'] = w.validatorList.validators.set k v' := by
    rw [BigVec.writeSlice, List.set_eq_take_append_cons_drop, if_pos hlt, List.append_assoc]
    rfl
  rw [hwrite] at hprocess
  rw [Instruction.execute, h.data]
  simp only [process, processUpdateValidatorListBalance, hparse, ok_bind]
  exact hprocess

theorem executeAll_cleanup (hp : PoolOk rt w.stakePool) (hheader : w.validatorList.header.isValid) :
    ∃ w', executeAll rt w [cleanupRemovedValidatorEntries rt.programId rt.stakePoolAddress rt.validatorListAddress] =
        .ok w' ∧ w'.accounts = w.accounts ∧
      w'.validatorList.validators = w.validatorList.validators.filter (fun v => ¬ v.isRemoved) ∧
      w'.stakePool.totalLamports = w.stakePool.totalLamports ∧
      w'.stakePool.lastUpdateEpoch = w.stakePool.lastUpdateEpoch := by
  obtain ⟨w', h, hepoch⟩ := cleanupRemovedValidatorEntries_accepts hp.valid hp.list hheader
  have hprocess := h
  simp only [executeAll, bind_eq_ok, Except.ok.injEq, exists_eq_right] at hprocess
  obtain ⟨a, _, _, -, rfl, rfl⟩ := processCleanupRemovedValidatorEntries_ok hprocess
  exact ⟨_, h, rfl, rfl, by dsimp only; split <;> rfl, hepoch⟩

/-- In every state of every run, an entry that is leaving and whose stake has cooled down can be removed by anyone:
an update of the entry and a cleanup of the list succeed. What it recorded is in the reserve then, the entry is gone,
and no other entry is lost. -/
theorem removal_completes (hl : rt.Lawful) (hm : rt.MergesCooled cooled) (hr : (poolSystem rt).Reachable w)
    (hrew : w.sysvars.epochRewardsActive = false) {k : Nat} (hv : w.validatorList.validators[k]? = some v)
    (hs : v.status ≠ StakeStatus.active.pod)
    (hcv : (w.accounts (rt.validatorStake v)).CooledDown cooled w.sysvars)
    (hct : 0 < v.transientStakeLamports → (w.accounts (rt.transientStake v)).CooledDown cooled w.sysvars)
    {ins : Instruction Key} (hins : ins.UpdatesEntry rt w k v) :
    ∃ w', executeAll rt w [ins, cleanupRemovedValidatorEntries rt.programId rt.stakePoolAddress
        rt.validatorListAddress] = .ok w' ∧
      (w.accounts w.stakePool.reserveStake).lamports + v.recorded ≤ (w'.accounts w.stakePool.reserveStake).lamports ∧
      v.voteAccountAddress ∉ w'.votes ∧
      ∀ u ∈ w.validatorList.validators, u.voteAccountAddress ≠ v.voteAccountAddress →
        (u ∈ w'.validatorList.validators ↔ ¬ u.isRemoved) := by
  have hi := Inv.of_reach hl hr
  have hc := hi.core
  have hmem : v ∈ w.validatorList.validators := List.mem_of_getElem? hv
  have hheader : w.validatorList.header.isValid := by
    rw [ValidatorListHeader.isValid, (Roomy.of_reach hl hr).type]
    rfl
  obtain ⟨a, va, ta, hx, hpool, ho, hexec⟩ := hins.execute_eq hl hi.pool hheader hrew hv
  obtain ⟨acc', hupdate⟩ := UpdateValidatorListBalanceAccounts.updateEntry_removes hl hm hx hpool hrew ho
    (hc.entries v hmem) (AllLeaving.of_reach hl hr v hmem) hs hc.reserve_ok hc.reserve_pda (hc.pdas _ (.validator v))
    hcv hct
  have hexecute := hexec _ _ hupdate
  obtain ⟨v', hv'⟩ : ∃ v', v' = { v with
    status := StakeStatus.readyForRemoval.pod
    lastUpdateEpoch := w.sysvars.epoch
    activeStakeLamports := 0
    transientStakeLamports := 0 } := ⟨_, rfl⟩
  rw [← hv'] at hupdate hexecute
  -- nothing is lost
  have hcovered : (w.accounts w.stakePool.reserveStake).lamports + v.recorded ≤
      (acc' w.stakePool.reserveStake).lamports := by
    rcases UpdateValidatorListBalanceAccounts.updateEntry_spec hl hx hpool hupdate (hc.entries v hmem) hc.reserve_ok
      hc.reserve_pda (hc.pdas _ (.validator v)) with ⟨hnot, -⟩ | ⟨-, -, hrefreshed⟩
    · exact absurd ho hnot
    · have := hrefreshed.covered
      rw [hv'] at this
      simpa [ValidatorStakeInfo.recorded] using this
  obtain ⟨w', hcleanup, hacc, hlist, -⟩ := executeAll_cleanup (w := { w with
    validatorList := { w.validatorList with validators := w.validatorList.validators.set k v' }
    accounts := acc' }) hi.pool hheader
  have hremoved : v'.isRemoved := by
    rw [hv']
    rfl
  -- the entry was replaced, and the others are where they were
  have hset : ∀ u, u ∈ w.validatorList.validators.set k v' → u = v' ∨
      u ∈ w.validatorList.validators ∧ u.voteAccountAddress ≠ v.voteAccountAddress := by
    intro u hu
    obtain ⟨j, hj⟩ := List.getElem?_of_mem hu
    by_cases hjk : j = k
    · subst hjk
      rw [List.getElem?_set_self (List.getElem?_eq_some_iff.1 hv).1] at hj
      exact .inl (Option.some.inj hj).symm
    · rw [List.getElem?_set_ne (Ne.symm hjk)] at hj
      refine .inr ⟨List.mem_of_getElem? hj, fun he => hjk ?_⟩
      have hlt := (List.getElem?_eq_some_iff.1 hj).1
      refine (List.getElem?_inj (by rw [List.length_map]; exact hlt) hc.votes).1 ?_
      rw [List.getElem?_map, List.getElem?_map, hj, hv, Option.map_some, Option.map_some, he]
  refine ⟨w', ?_, by rw [hacc]; exact hcovered, ?_, ?_⟩
  · rw [executeAll, hexecute, ok_bind]
    exact hcleanup
  · rw [World.votes, hlist]
    intro hvote
    obtain ⟨u, hu, he⟩ := List.mem_map.1 hvote
    obtain ⟨hu, hkept⟩ := List.mem_filter.1 hu
    rcases hset u hu with rfl | ⟨-, hne⟩
    · simp [hremoved] at hkept
    · exact hne he
  · intro u hu hne
    rw [hlist, List.mem_filter]
    refine ⟨fun h => by simpa using h.2, fun h => ⟨?_, by simpa using h⟩⟩
    obtain ⟨j, hj⟩ := List.getElem?_of_mem hu
    refine List.mem_of_getElem? (i := j) ?_
    rw [List.getElem?_set_ne ?_]
    · exact hj
    · rintro rfl
      rw [hv] at hj
      exact hne (congrArg _ (Option.some.inj hj)).symm

/-- In every state of every run, transient stake of an active entry that has cooled down goes back to the reserve when
anyone updates the entry, as long as its validator stake is delegated: the update succeeds, no lamports are lost, and
the record of the entry is what its validator stake account holds. Validator stake that a restart of the cluster has
made undelegated is merged into the reserve as well, by another branch. -/
theorem decrease_completes (hl : rt.Lawful) (hm : rt.MergesCooled cooled) (hr : (poolSystem rt).Reachable w)
    (hrew : w.sysvars.epochRewardsActive = false) {k : Nat} (hv : w.validatorList.validators[k]? = some v)
    (hs : v.status = StakeStatus.active.pod) (hpos : 0 < v.transientStakeLamports) {m : Meta Key} {s : Stake Key}
    (hd : (w.accounts (rt.validatorStake v)).data = .stakeState (.stake m s))
    (hct : (w.accounts (rt.transientStake v)).CooledDown cooled w.sysvars)
    {ins : Instruction Key} (hins : ins.UpdatesEntry rt w k v) :
    ∃ w' v', ins.execute rt w = .ok w' ∧ w'.validatorList.validators = w.validatorList.validators.set k v' ∧
      v'.status = StakeStatus.active.pod ∧ v'.transientStakeLamports = 0 ∧
      v'.activeStakeLamports = (w'.accounts (rt.validatorStake v)).lamports ∧
      (w'.accounts (rt.transientStake v)).lamports = 0 ∧
      (w'.accounts w.stakePool.reserveStake).lamports + v'.activeStakeLamports =
        (w.accounts w.stakePool.reserveStake).lamports + (w.accounts (rt.validatorStake v)).lamports +
          (w.accounts (rt.transientStake v)).lamports := by
  have hi := Inv.of_reach hl hr
  have hc := hi.core
  have hmem : v ∈ w.validatorList.validators := List.mem_of_getElem? hv
  have hheader : w.validatorList.header.isValid := by
    rw [ValidatorListHeader.isValid, (Roomy.of_reach hl hr).type]
    rfl
  obtain ⟨a, va, ta, hx, hpool, ho, hexec⟩ := hins.execute_eq hl hi.pool hheader hrew hv
  obtain ⟨acc', hupdate⟩ := UpdateValidatorListBalanceAccounts.updateEntry_returns hl hm hx hpool hrew ho
    (hc.entries v hmem) hs hc.reserve_ok hc.reserve_pda hd fun _ => hct
  refine ⟨_, _, hexec _ _ hupdate, rfl, hs, rfl, rfl, ?_⟩
  -- the lamports of the three accounts
  obtain ⟨acc₁, status, t, status', n, -, -, hT, hV, he⟩ := UpdateValidatorListBalanceAccounts.updateEntry_parts hl hx
    hpool ho hupdate (hc.entries v hmem) hc.reserve_ok hc.reserve_pda (hc.pdas _ (.validator v))
  obtain ⟨hva, hta⟩ := ho
  dsimp only at hva hta
  have ht : t = 0 := (congrArg ValidatorStakeInfo.transientStakeLamports he).symm
  have htransient : (acc' ta.key).lamports = 0 := by
    rw [hV.frame _ ?_, (hT.busy hpos).1, ht]
    simp only [List.mem_cons, List.not_mem_nil, or_false, not_or, hta, hva]
    exact ⟨fun he => hc.reserve_pda (he ▸ .transient v), (validatorStake_ne_transientStake hl _ _).symm⟩
  have hbT := hT.balance
  have hbV := hV.balance
  have hbusy := (hT.busy hpos).1
  rw [hva, hta] at hbT
  rw [hva] at hbV
  rw [hta] at hbusy htransient
  exact ⟨htransient, by dsimp only; omega⟩

section
open Reference

/-- A stake that was deactivated in an earlier epoch. -/
def deactivatedBefore (sys : Sysvars) (s : Stake Reference.Key) : Prop := s.delegation.deactivationEpoch < sys.epoch

theorem Reference.mergesCooled : runtime.MergesCooled deactivatedBefore := by
  intro sys auth kd dst ks src md ms s _ hne ho ho' hd hs hc ha hl hst
  have hphase : phase s.delegation sys.epoch = .inactive := by
    rw [phase, if_pos (.inl hc)]
  refine ⟨(⟨dst.lamports + src.lamports, dst.owner, dst.data⟩, ⟨0, src.owner, .stakeState .uninitialized⟩), ?_⟩
  simp only [runtime] at ho ho' ⊢
  simp [merge, Account.stakeState?, hd, hs, orErr, StakeStateV2.meta?, statePhase, gained, gainStake,
    hne, ho, ho', ha, hl, ← hst, hphase, Bind.bind, Except.bind, Pure.pure, Except.pure]

instance (sys : Sysvars) (s : Stake Reference.Key) : Decidable (deactivatedBefore sys s) :=
  inferInstanceAs (Decidable (_ < _))

instance (sys : Sysvars) (a : Account Reference.Key) : Decidable (a.CooledDown deactivatedBefore sys) :=
  match hd : a.data with
  | .stakeState (.stake _ _) => decidable_of_iff' _ (Account.cooledDown_stake hd)
  | .stakeState .uninitialized | .stakeState (.initialized _) | .stakeState .rewardsPool | .mint _ | .token _ | .vote _
    | .none =>
    isTrue fun _ _ h => by rw [hd] at h; cases h

/-- A pool with two validators in the next epoch, one of them removed while stake was moved to it. -/
def departing : World Reference.Key :=
  after (opened noFee noFee noFee) [depositSol 100000000 0, addValidator vote, addValidator vote',
    increase vote 5000000 0, removeValidator vote, .advanceEpoch 11 false (fun _ => none)]

/-- The entry that is leaving it. -/
def departingEntry : ValidatorStakeInfo Reference.Key := departing.validatorList.validators.headD (entry vote 0)

theorem removal_completes_departing : departingEntry.status = StakeStatus.deactivatingAll.pod ∧ ∃ w',
    executeAll runtime departing [updateOne vote 0, cleanupRemovedValidatorEntries runtime.programId
      runtime.stakePoolAddress runtime.validatorListAddress] = .ok w' ∧
    (departing.accounts reserve).lamports + departingEntry.recorded ≤ (w'.accounts reserve).lamports ∧
    vote ∉ w'.votes := by
  have hr : (poolSystem runtime).Reachable departing :=
    reachable_after (initialized_opened (by decide +kernel)) (by decide +kernel)
  have hins : (updateOne vote 0).UpdatesEntry runtime departing 0 departingEntry :=
    ⟨rfl, Reference.unused.key, by decide +kernel⟩
  obtain ⟨w', h, hle, hgone, -⟩ := removal_completes (k := 0) lawful mergesCooled hr (by decide +kernel)
    (by decide +kernel) (by decide +kernel) (by decide +kernel) (fun _ => by decide +kernel) hins
  refine ⟨by decide +kernel, w', h, hle, ?_⟩
  rwa [show departingEntry.voteAccountAddress = vote by decide +kernel] at hgone

/-- A pool whose validator has stake that was taken off it in the last epoch. -/
def returning : World Reference.Key :=
  after (opened noFee noFee noFee) [depositSol 100000000 0, addValidator vote, increase vote 20000000 0,
    .advanceEpoch 11 false (fun _ => none), updateList [(vote, 0)] false, updatePool,
    .purge (Reference.transientStake vote 0), decrease vote 10000000 0, .advanceEpoch 12 false (fun _ => none)]

/-- Its entry. -/
def returningEntry : ValidatorStakeInfo Reference.Key := returning.validatorList.validators.headD (entry vote 0)

theorem decrease_completes_returning : 10000000 ≤ returningEntry.transientStakeLamports ∧ ∃ w' v',
    (updateOne vote 0).execute runtime returning = .ok w' ∧ w'.validatorList.validators = [v'] ∧
    v'.transientStakeLamports = 0 := by
  have hr : (poolSystem runtime).Reachable returning :=
    reachable_after (initialized_opened (by decide +kernel)) (by decide +kernel)
  have hins : (updateOne vote 0).UpdatesEntry runtime returning 0 returningEntry :=
    ⟨rfl, Reference.unused.key, by decide +kernel⟩
  obtain ⟨m, s, hd⟩ : ∃ m s, (returning.accounts (runtime.validatorStake returningEntry)).data =
      .stakeState (.stake m s) := ⟨⟨rent stakeSpace, ⟨withdrawAuthority, withdrawAuthority⟩, default⟩,
        ⟨⟨vote, 11000000, 10, epochMax⟩, 0⟩, by decide +kernel⟩
  obtain ⟨w', v', h, hlist, -, ht, -⟩ := decrease_completes (k := 0) lawful mergesCooled hr (by decide +kernel)
    (by decide +kernel) (by decide +kernel) (by decide +kernel) hd (by decide +kernel) hins
  refine ⟨by decide +kernel, w', v', h, ?_, ht⟩
  rw [hlist, show returning.validatorList.validators = [returningEntry] by decide +kernel]
  rfl

end

end SplStakePool
