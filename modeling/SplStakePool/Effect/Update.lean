import SplStakePool.Invariant.Entry
import SplStakePool.Spec.UpdateList

/-!
# The effect of an update on one entry

First the transient account is counted or merged away, then the validator account. Afterwards each
record is what its account holds, or it was and is zero.

The two stages have a specification each, `updateTransient_spec` and `updateValidator_spec`, with the accounts of the
entry between them as the interface: the second stage does not depend on what the first one did, but on what it left.
Put together they are a `Refresh` of the entry, which touches no other, so that the loop over a slice is a run of
refreshes.
-/

namespace SplStakePool
open Exec Machine

variable {Key : Type} [DecidableEq Key] [Inhabited Key] {rt : Runtime Key} {w : World Key}
  {acc acc' acc₁ : Accounts Key}

/-- An entry after an update in an epoch. -/
structure Refreshed (rt : Runtime Key) (reserve : Key) (acc acc' : Accounts Key)
    (v v' : ValidatorStakeInfo Key) : Prop extends EntryStep rt reserve acc acc' v v' where
  seed : v'.validatorSeedSuffix = v.validatorSeedSuffix
  transientSeed : v'.transientSeedSuffix = v.transientSeedSuffix
  frame : Frame acc acc' [reserve, rt.validatorStake v, rt.transientStake v]
  active : (acc' (rt.validatorStake v)).lamports = v'.activeStakeLamports ∨
    v'.activeStakeLamports = 0 ∧ v.activeStakeLamports = 0 ∧
      (acc' (rt.validatorStake v)).lamports ≤ (acc (rt.validatorStake v)).lamports
  transient : (acc' (rt.transientStake v)).lamports = v'.transientStakeLamports ∨
    v'.transientStakeLamports = 0 ∧ v.transientStakeLamports = 0 ∧
      acc' (rt.transientStake v) = acc (rt.transientStake v)
  covered : (acc reserve).lamports + v.recorded ≤ (acc' reserve).lamports + v'.recorded
  transient_le : (acc' (rt.transientStake v)).lamports ≤ (acc (rt.transientStake v)).lamports

/-- One entry of the list is refreshed. -/
inductive Refresh (rt : Runtime Key) (reserve : Key) (epoch : Nat) :
    Accounts Key × List (ValidatorStakeInfo Key) → Accounts Key × List (ValidatorStakeInfo Key) → Prop
  | mk {acc acc' : Accounts Key} {v v' : ValidatorStakeInfo Key} (pre post : List (ValidatorStakeInfo Key))
      (hr : Refreshed rt reserve acc acc' v v') (he : v'.lastUpdateEpoch = epoch) :
      Refresh rt reserve epoch (acc, pre ++ v :: post) (acc', pre ++ v' :: post)

omit [DecidableEq Key] in
/-- The accounts of an entry are not touched when the entry of another validator is refreshed. -/
theorem Refreshed.other (hl : rt.Lawful) {reserve : Key} {u u' v : ValidatorStakeInfo Key}
    (h : Refreshed rt reserve acc acc' u u') (hn : ¬ rt.StakePda reserve)
    (hv : v.voteAccountAddress ≠ u.voteAccountAddress) :
    ∀ k, k = rt.validatorStake v ∨ k = rt.transientStake v → acc' k = acc k := by
  rintro k (rfl | rfl) <;> refine h.frame _ ?_ <;>
    simp only [List.mem_cons, List.not_mem_nil, or_false, not_or]
  · exact ⟨fun he => hn (he ▸ .validator v), fun he => hv (validatorStake_inj hl he),
      validatorStake_ne_transientStake hl _ _⟩
  · exact ⟨fun he => hn (he ▸ .transient v), (validatorStake_ne_transientStake hl _ _).symm,
      fun he => hv (transientStake_inj hl he)⟩

omit [DecidableEq Key] [Inhabited Key] in
theorem transientAction_usable {usable : Meta Key → Bool} {epoch : Nat} {noMerge : Bool}
    {status : PodStakeStatus} {s : StakeStateV2 Key} {vs : Option (StakeStateV2 Key)} {m : Meta Key}
    (hm : s.meta? = some m) (hu : usable m) :
    transientAction usable epoch noMerge status (some s) vs ≠ .ignore := by
  cases s with
  | initialized m' =>
    cases hm
    simp only [transientAction, hu, if_true]
    split <;> simp
  | stake m' st =>
    cases hm
    simp only [transientAction, hu, if_true]
    repeat' split
    all_goals simp
  | _ => cases hm

omit [DecidableEq Key] [Inhabited Key] in
theorem transientAction_mergeValidator {usable : Meta Key → Bool} {epoch : Nat} {noMerge : Bool}
    {status : PodStakeStatus} {ts vs : Option (StakeStateV2 Key)}
    (h : transientAction usable epoch noMerge status ts vs = .mergeValidator) :
    StakeStatus.fromU8 status.byte = some .active ∧ (∃ m d, vs = some (.stake m d)) ∧
      ∃ m s, ts = some (.stake m s) ∧ ¬ stakeIsInactiveWithoutHistory s epoch := by
  unfold transientAction at h
  repeat' split at h
  all_goals first
    | exact ⟨‹_›, ⟨_, _, rfl⟩, _, _, rfl, ‹_›⟩
    | cases h

namespace UpdateValidatorListBalanceAccounts
variable {a : UpdateValidatorListBalanceAccounts Key} {noMerge : Bool} {v : ValidatorStakeInfo Key}
  {status status' : PodStakeStatus} {t n : Nat} {va ta : AccountInfo Key} {m : Meta Key}

/-- The accounts of an update are the pool's. -/
structure Ctx (rt : Runtime Key) (w : World Key) (a : UpdateValidatorListBalanceAccounts Key) : Prop where
  authority : a.withdrawAuthorityInfo.key = rt.withdrawAuthority
  lockup : w.stakePool.lockup = default
  reserveKey : a.reserveStakeInfo.key = w.stakePool.reserveStake

theorem usable_iff (hx : Ctx rt w a) : usable w a m ↔
    m.authorized = ⟨rt.withdrawAuthority, rt.withdrawAuthority⟩ ∧ m.lockup = default := by
  rw [usable, stakeIsUsableByPool_iff, hx.authority, hx.lockup]

theorem usable_of_controlled (hx : Ctx rt w a) {b : Account Key} (hc : Controlled rt b)
    {s : StakeStateV2 Key} (hd : b.data = .stakeState s) (hm : s.meta? = some m) : usable w a m := by
  have hp := (hc.poolState hd).poolMeta hm
  exact (usable_iff hx).2 ⟨hp.authorized, hp.lockup⟩

theorem controlled_of_usable (hx : Ctx rt w a) {b : Account Key} (hb : PdaOk rt b)
    {s : StakeStateV2 Key} (hd : b.data = .stakeState s) (hm : s.meta? = some m) (hu : usable w a m)
    (h0 : 0 < b.lamports) : Controlled rt b := by
  obtain ⟨ha, hlo⟩ := (usable_iff hx).1 hu
  exact ⟨hb.owner hd, h0, s, hd, m, hm, ha, hlo, hb.rentExempt hd m hm⟩

/-- What handling the transient account does. -/
structure TransientUpdate (rt : Runtime Key) (acc acc₁ : Accounts Key) (reserve va ta : Key)
    (v : ValidatorStakeInfo Key) (status : PodStakeStatus) (t : Nat) : Prop where
  idle : v.transientStakeLamports = 0 → acc₁ = acc ∧ t = 0
  busy : 0 < v.transientStakeLamports → (acc₁ ta).lamports = t ∧ (0 < t → Controlled rt (acc₁ ta))
  reserve_step : ReserveStep rt (acc reserve) (acc₁ reserve)
  balance : (acc₁ reserve).lamports + (acc₁ va).lamports + (acc₁ ta).lamports =
    (acc reserve).lamports + (acc va).lamports + (acc ta).lamports
  validator : acc₁ va = acc va ∨ status = StakeStatus.active.pod ∧ Controlled rt (acc₁ va)
  frame : Frame acc acc₁ [reserve, va, ta]
  pda : AllPda rt acc acc₁
  status_ok : ∃ s, status = s.pod ∧ StatusOk rt acc₁ { v with transientStakeLamports := t } s
  down : ∀ s, v.status = StakeStatus.pod s → ∃ s', status = StakeStatus.pod s' ∧ s.down s'
  transient_le : (acc₁ ta).lamports ≤ (acc ta).lamports

omit [DecidableEq Key] in
theorem removeTransient_ok (h : v.status.removeTransientStake = .ok status)
    (hv : ∃ s, v.status = s.pod ∧ StatusOk rt acc v s)
    (hc : Controlled rt (acc (rt.validatorStake v)) → Controlled rt (acc₁ (rt.validatorStake v))) :
    (∃ s, status = s.pod ∧ StatusOk rt acc₁ { v with transientStakeLamports := 0 } s) ∧
      ∀ s, v.status = StakeStatus.pod s → ∃ s', status = s'.pod ∧ s.down s' := by
  obtain ⟨s, hs, hok⟩ := hv
  rw [hs] at h ⊢
  simp only [PodStakeStatus.removeTransientStake, bind_eq_ok, StakeStatus.status_pod, Except.ok.injEq,
    exists_eq_left', pure_eq_ok] at h
  subst h
  have hdown : ∀ t : StakeStatus, s.down t → ∀ s' : StakeStatus, s.pod = s'.pod →
      ∃ u : StakeStatus, t.pod = u.pod ∧ s'.down u :=
    fun t hd s' he => ⟨t, rfl, StakeStatus.pod_inj he ▸ hd⟩
  cases s with
  | active => exact ⟨⟨.active, rfl, hc hok⟩, hdown _ rfl⟩
  | deactivatingTransient => exact ⟨⟨.readyForRemoval, rfl, hok, rfl⟩, hdown _ rfl⟩
  | readyForRemoval => exact ⟨⟨.readyForRemoval, rfl, hok.1, rfl⟩, hdown _ rfl⟩
  | deactivatingValidator => exact ⟨⟨.deactivatingValidator, rfl, rfl⟩, hdown _ rfl⟩
  | deactivatingAll => exact ⟨⟨.deactivatingValidator, rfl, rfl⟩, hdown _ rfl⟩

theorem updateTransient_spec (hl : rt.Lawful) (hx : Ctx rt w a)
    (h : a.updateTransient rt w noMerge acc v va ta = .ok (acc₁, status, t))
    (hv : EntryOk rt acc v) (hr : Reserve rt (acc w.stakePool.reserveStake))
    (hn : ¬ rt.StakePda w.stakePool.reserveStake) (hva : va.key = rt.validatorStake v)
    (hta : ta.key = rt.transientStake v) :
    TransientUpdate rt acc acc₁ w.stakePool.reserveStake va.key ta.key v status t := by
  have hne : va.key ≠ ta.key := by rw [hva, hta]; exact validatorStake_ne_transientStake hl _ _
  have hrv : w.stakePool.reserveStake ≠ va.key := fun he => hn (he ▸ hva ▸ .validator v)
  have hrt : w.stakePool.reserveStake ≠ ta.key := fun he => hn (he ▸ hta ▸ .transient v)
  simp only [updateTransient] at h
  split at h
  · rename_i h0
    have hct : Controlled rt (acc ta.key) := by rw [hta]; exact hv.transient (Nat.pos_of_ne_zero h0)
    -- merging into the reserve
    have habsorb : ∀ acc₁, stakeMerge rt w.sysvars acc ta a.withdrawAuthorityInfo a.reserveStakeInfo =
        .ok acc₁ → v.status.removeTransientStake = .ok status →
        TransientUpdate rt acc acc₁ w.stakePool.reserveStake va.key ta.key v status
          (acc₁ ta.key).lamports := by
      intro acc₁ hm hst
      have hm := stakeMerge_spec hl hm
      rw [hx.reserveKey] at hm
      have hva' : acc₁ va.key = acc va.key := hm.frame _ (by simp [hne, hrv.symm])
      have hsrc := hm.src_lamports
      have hdst := hm.dst_lamports
      have hcontrolled : Controlled rt (acc (rt.validatorStake v)) →
          Controlled rt (acc₁ (rt.validatorStake v)) := fun hc => by rw [← hva, hva', hva]; exact hc
      refine ⟨fun h => absurd h h0, fun _ => ⟨rfl, fun h => by omega⟩, hm.reserve hr,
        by rw [hva']; omega, .inl hva', hm.frame.mono (by simp), hm.pda, ?_, ?_, by omega⟩
      · rw [hsrc]
        exact (removeTransient_ok hst hv.status hcontrolled).1
      · exact (removeTransient_ok hst hv.status hcontrolled).2
    have hsame : ∀ s, v.status = StakeStatus.pod s → ∃ s', v.status = s'.pod ∧ s.down s' :=
      fun s hs => ⟨s, hs, s.down_refl⟩
    have hkeep : ∃ s, v.status = s.pod ∧
        StatusOk rt acc { v with transientStakeLamports := (acc ta.key).lamports } s := by
      obtain ⟨s, hs, hok⟩ := hv.status
      refine ⟨s, hs, ?_⟩
      cases s with
      | active => exact hok
      | deactivatingTransient => exact hok
      | readyForRemoval => exact absurd hok.2 h0
      | deactivatingValidator => exact absurd hok h0
      | deactivatingAll => trivial
    split at h
    · -- the account is a stake of the pool
      rename_i hact
      obtain ⟨s, hs, hps⟩ := hct.state
      obtain ⟨m, hm, -⟩ := hps
      rw [Account.stakeState?_eq_some.2 hs] at hact
      exact absurd hact (transientAction_usable hm (usable_of_controlled hx hct hs hm))
    · cases h
      exact ⟨fun h => absurd h h0, fun _ => ⟨rfl, fun _ => hct⟩, .refl hr, rfl, .inl rfl,
        fun _ _ => rfl, .refl _, hkeep, hsame, le_rfl⟩
    · simp only [bind_eq_ok, pure_eq_ok, Prod.mk.injEq] at h
      obtain ⟨acc₂, hm, st, hst, rfl, rfl, rfl⟩ := h
      have h0' := (stakeMerge_spec hl hm).src_lamports
      have := habsorb acc₂ hm hst
      rwa [h0'] at this
    · simp only [bind_eq_ok, pure_eq_ok, Prod.mk.injEq] at h
      obtain ⟨acc₂, hm, st, hst, rfl, rfl, rfl⟩ := h
      exact habsorb acc₂ hm hst
    · -- merging into the validator stake, of an active entry
      rename_i hact
      simp only [bind_eq_ok, pure_eq_ok, Prod.mk.injEq] at h
      obtain ⟨acc₂, hm, rfl, rfl, rfl⟩ := h
      obtain ⟨s, hs, hok⟩ := hv.status
      have hact := (transientAction_mergeValidator hact).1
      rw [hs, StakeStatus.fromU8_pod, Option.some.injEq] at hact
      subst hact
      have hm := stakeMerge_spec hl hm
      have hc := hm.dst_controlled (by rw [hva]; exact hok)
      have hres : acc₂ w.stakePool.reserveStake = acc w.stakePool.reserveStake :=
        hm.frame _ (by simp [hrv, hrt])
      have hsrc := hm.src_lamports
      have hdst := hm.dst_lamports
      exact ⟨fun h => absurd h h0, fun _ => ⟨rfl, fun h => by omega⟩, by rw [hres]; exact .refl hr,
        by rw [hres]; omega, .inr ⟨hs, hc⟩, hm.frame.mono (by simp), hm.pda,
        ⟨.active, hs, by rw [hva] at hc; exact hc⟩, hsame, by omega⟩
    · simp only [bind_eq_ok, pure_eq_ok, Prod.mk.injEq] at h
      obtain ⟨acc₂, hd, rfl, rfl, rfl⟩ := h
      have hd := stakeDeactivate_spec hl hd
      have hva' : acc₂ va.key = acc va.key := hd.frame _ (by simpa using hne)
      have hres : acc₂ w.stakePool.reserveStake = acc w.stakePool.reserveStake :=
        hd.frame _ (by simpa using hrt)
      have hlam := hd.lamports
      refine ⟨fun h => absurd h h0, fun _ => ⟨rfl, fun _ => hd.controlled hct⟩,
        by rw [hres]; exact .refl hr, by rw [hres, hva', hlam], .inl hva', hd.frame.mono (by simp), hd.pda,
        ?_, hsame, hlam.le⟩
      obtain ⟨s, hs, hok⟩ := hkeep
      refine ⟨s, hs, ?_⟩
      rw [hlam]
      cases s with
      | active => show Controlled rt (acc₂ (rt.validatorStake v)); rw [← hva, hva', hva]; exact hok
      | _ => exact hok
  · rename_i h0
    simp only [not_not] at h0
    cases h
    refine ⟨fun _ => ⟨rfl, rfl⟩, fun h => by omega, .refl hr, rfl, .inl rfl, fun _ _ => rfl, .refl _, ?_,
      fun s hs => ⟨s, hs, s.down_refl⟩, le_rfl⟩
    rw [← h0]
    exact hv.status

/-- What handling the validator account does. -/
structure ValidatorUpdate (rt : Runtime Key) (acc acc' : Accounts Key) (reserve va : Key)
    (v : ValidatorStakeInfo Key) (t : Nat) (status status' : PodStakeStatus) (n : Nat) : Prop where
  active : (acc' va).lamports = n ∨ n = 0 ∧ v.activeStakeLamports = 0 ∧
    status ≠ StakeStatus.active.pod ∧ (acc reserve).lamports ≤ (acc' reserve).lamports
  controlled : 0 < n → Controlled rt (acc' va)
  reserve_step : ReserveStep rt (acc reserve) (acc' reserve)
  balance : (acc' reserve).lamports + (acc' va).lamports = (acc reserve).lamports + (acc va).lamports
  frame : Frame acc acc' [reserve, va]
  pda : AllPda rt acc acc'
  status_ok : ∃ s, status' = s.pod ∧
    StatusOk rt acc' { v with activeStakeLamports := n, transientStakeLamports := t } s
  down : ∀ s, status = StakeStatus.pod s → ∃ s', status' = s'.pod ∧ s.down s'

/-- Withdrawing what is beyond the delegation and the rent. -/
structure Skimmed (rt : Runtime Key) (acc acc' : Accounts Key) (reserve va : Key) : Prop where
  reserve_step : ReserveStep rt (acc reserve) (acc' reserve)
  reserve_le : (acc reserve).lamports ≤ (acc' reserve).lamports
  balance : (acc' reserve).lamports + (acc' va).lamports = (acc reserve).lamports + (acc va).lamports
  controlled : Controlled rt (acc va) → Controlled rt (acc' va)
  data : (acc' va).data = (acc va).data
  frame : Frame acc acc' [reserve, va]
  pda : AllPda rt acc acc'

theorem withdrawAdditional_spec (hl : rt.Lawful) (hx : Ctx rt w a) {s : Stake Key}
    (h : a.withdrawAdditional rt w acc m s va = .ok acc')
    (hr : Reserve rt (acc w.stakePool.reserveStake)) (hne : w.stakePool.reserveStake ≠ va.key)
    (hrent : 0 < m.rentExemptReserve) :
    Skimmed rt acc acc' w.stakePool.reserveStake va.key := by
  simp only [withdrawAdditional] at h
  rcases ite_pure_eq_ok.1 h with ⟨hpos, h⟩ | ⟨-, rfl⟩
  · have hw := stakeWithdraw_spec hl h
    rw [hx.reserveKey] at hw
    -- rent stays behind
    have hlt : saturatingSub (saturatingSub (acc va.key).lamports s.delegation.stake)
        m.rentExemptReserve < (acc va.key).lamports := by
      simp only [saturatingSub] at hpos ⊢
      omega
    have hlam := hw.src_lamports hne.symm
    have hdst := hw.dst_eq hne.symm
    refine ⟨by rw [hdst]; exact (hr.evolves (.credit _ _)).1, ?_, ?_, hw.src_controlled hlt,
      hw.src_data hlt, hw.frame.mono (by simp), hw.pda⟩
    · rw [hdst, Account.credit_lamports]; omega
    · rw [hdst, Account.credit_lamports]; omega
  · exact ⟨.refl hr, le_rfl, rfl, id, rfl, fun _ _ => rfl, .refl _⟩

omit [DecidableEq Key] in
theorem ignore_ok {s : StakeStatus} (h : StatusOk rt acc { v with transientStakeLamports := t } s)
    (hs : s ≠ .active) :
    StatusOk rt acc' { v with activeStakeLamports := 0, transientStakeLamports := t } s := by
  cases s with
  | active => exact absurd rfl hs
  | deactivatingTransient => rfl
  | readyForRemoval => exact ⟨rfl, h.2⟩
  | deactivatingValidator => exact h
  | deactivatingAll => trivial

omit [DecidableEq Key] in
theorem ValidatorUpdate.ignore (hr : Reserve rt (acc w.stakePool.reserveStake))
    (hkey : va.key = rt.validatorStake v)
    (hva : 0 < v.activeStakeLamports → Controlled rt (acc va.key))
    (hst : ∃ s, status = s.pod ∧ StatusOk rt acc { v with transientStakeLamports := t } s)
    (hc : ¬ Controlled rt (acc va.key)) :
    ValidatorUpdate rt acc acc w.stakePool.reserveStake va.key v t status status 0 := by
  obtain ⟨s, rfl, hok⟩ := hst
  have hs : s ≠ .active := by
    rintro rfl
    rw [hkey] at hc
    exact hc hok
  refine ⟨.inr ⟨rfl, Nat.eq_zero_of_not_pos fun h0 => hc (hva h0), fun he => ?_, le_rfl⟩,
    fun h0 => absurd h0 (Nat.lt_irrefl 0), .refl hr, rfl, fun _ _ => rfl, .refl _,
    ⟨s, rfl, ignore_ok hok hs⟩, fun s hs => ⟨s, hs, s.down_refl⟩⟩
  exact hs (StakeStatus.pod_inj he)

/-- The validator account is merged into the reserve. -/
theorem ValidatorUpdate.absorb (hl : rt.Lawful) (hx : Ctx rt w a)
    (h : stakeMerge rt w.sysvars acc va a.withdrawAuthorityInfo a.reserveStakeInfo = .ok acc')
    (hr : Reserve rt (acc w.stakePool.reserveStake))
    (hst : ∃ s, status' = s.pod ∧
      StatusOk rt acc' { v with activeStakeLamports := 0, transientStakeLamports := t } s)
    (hdown : ∀ s, status = StakeStatus.pod s → ∃ s', status' = s'.pod ∧ s.down s') :
    ValidatorUpdate rt acc acc' w.stakePool.reserveStake va.key v t status status' 0 := by
  have hm := stakeMerge_spec hl h
  rw [hx.reserveKey] at hm
  have hsrc := hm.src_lamports
  have hdst := hm.dst_lamports
  exact ⟨.inl hsrc, fun h0 => absurd h0 (Nat.lt_irrefl 0), hm.reserve hr, by omega,
    hm.frame.mono (by simp), hm.pda, hst, hdown⟩

omit [DecidableEq Key] in
/-- Handling after the extra lamports were withdrawn. -/
theorem Skimmed.then (hs : Skimmed rt acc acc₁ w.stakePool.reserveStake va.key)
    (h : ValidatorUpdate rt acc₁ acc' w.stakePool.reserveStake va.key v t status status' n) :
    ValidatorUpdate rt acc acc' w.stakePool.reserveStake va.key v t status status' n := by
  have hb := hs.balance
  have hle := hs.reserve_le
  have hb' := h.balance
  refine ⟨?_, h.controlled, hs.reserve_step.trans h.reserve_step, by omega,
    (hs.frame.trans h.frame).mono (by simp), hs.pda.trans h.pda, h.status_ok, h.down⟩
  rcases h.active with h | ⟨h₁, h₂, h₃, h₄⟩
  · exact .inl h
  · exact .inr ⟨h₁, h₂, h₃, hle.trans h₄⟩

theorem updateDelegated_spec (hl : rt.Lawful) (hx : Ctx rt w a) {s : Stake Key}
    (h : a.updateDelegated rt w noMerge acc status s va = .ok (acc', status', n))
    (hr : Reserve rt (acc w.stakePool.reserveStake))
    (hc : 0 < (acc va.key).lamports → Controlled rt (acc va.key))
    (hst : ∃ s, status = s.pod ∧ StatusOk rt acc { v with transientStakeLamports := t } s)
    (hva : ∀ s, status = StakeStatus.pod s → s = .deactivatingTransient ∨ s = .readyForRemoval →
      v.activeStakeLamports = 0) :
    ValidatorUpdate rt acc acc' w.stakePool.reserveStake va.key v t status status' n := by
  obtain ⟨st, rfl, hok⟩ := hst
  have hcount : StatusOk rt acc { v with
        activeStakeLamports := (acc va.key).lamports, transientStakeLamports := t } st →
      ValidatorUpdate rt acc acc w.stakePool.reserveStake va.key v t st.pod st.pod
        (acc va.key).lamports := fun hok =>
    ⟨.inl rfl, hc, .refl hr, rfl, fun _ _ => rfl, .refl _, ⟨st, rfl, hok⟩,
      fun s hs => ⟨s, hs, s.down_refl⟩⟩
  have hdrop : st = .deactivatingTransient ∨ st = .readyForRemoval →
      ValidatorUpdate rt acc acc w.stakePool.reserveStake va.key v t st.pod st.pod 0 := fun hs => by
    have hne : st ≠ .active := by rcases hs with rfl | rfl <;> simp
    exact ⟨.inr ⟨rfl, hva st rfl hs, fun he => hne (StakeStatus.pod_inj he), le_rfl⟩,
      fun h0 => absurd h0 (Nat.lt_irrefl 0), .refl hr, rfl, fun _ _ => rfl, .refl _,
      ⟨st, rfl, ignore_ok hok hne⟩, fun s hs => ⟨s, hs, s.down_refl⟩⟩
  simp only [updateDelegated, StakeStatus.status_pod, bind_eq_ok, Except.ok.injEq, exists_eq_left'] at h
  cases st with
  | active => cases h; exact hcount hok
  | deactivatingTransient => cases h; exact hdrop (.inl rfl)
  | readyForRemoval => cases h; exact hdrop (.inr rfl)
  | deactivatingValidator =>
    dsimp only at h
    split at h
    · cases h; exact hcount hok
    · split at h
      · simp only [bind_eq_ok, pure_eq_ok, PodStakeStatus.removeValidatorStake, StakeStatus.status_pod,
          Except.ok.injEq, exists_eq_left', Prod.mk.injEq] at h
        obtain ⟨acc₂, hm, rfl, rfl, rfl⟩ := h
        exact .absorb hl hx hm hr ⟨.readyForRemoval, rfl, rfl, hok⟩
          fun s hs => ⟨_, rfl, StakeStatus.pod_inj hs ▸ rfl⟩
      · cases h; exact hcount hok
  | deactivatingAll =>
    dsimp only at h
    split at h
    · cases h; exact hcount trivial
    · split at h
      · simp only [bind_eq_ok, pure_eq_ok, PodStakeStatus.removeValidatorStake, StakeStatus.status_pod,
          Except.ok.injEq, exists_eq_left', Prod.mk.injEq] at h
        obtain ⟨acc₂, hm, rfl, rfl, rfl⟩ := h
        exact .absorb hl hx hm hr ⟨.deactivatingTransient, rfl, rfl⟩
          fun s hs => ⟨_, rfl, StakeStatus.pod_inj hs ▸ rfl⟩
      · cases h; exact hcount trivial

theorem updateValidator_spec (hl : rt.Lawful) (hx : Ctx rt w a)
    (h : a.updateValidator rt w noMerge acc status t va = .ok (acc', status', n))
    (hr : Reserve rt (acc w.stakePool.reserveStake)) (hne : w.stakePool.reserveStake ≠ va.key)
    (hkey : va.key = rt.validatorStake v) (hpda : PdaOk rt (acc va.key))
    (hva : 0 < v.activeStakeLamports → Controlled rt (acc va.key))
    (hst : ∃ s, status = s.pod ∧ StatusOk rt acc { v with transientStakeLamports := t } s) :
    ValidatorUpdate rt acc acc' w.stakePool.reserveStake va.key v t status status' n := by
  have hnot : ∀ {s : StakeStateV2 Key} {m : Meta Key}, (acc va.key).data = .stakeState s →
      s.meta? = some m → ¬ usable w a m → ¬ Controlled rt (acc va.key) :=
    fun hd hm hu hc => hu (usable_of_controlled hx hc hd hm)
  have hnone : (acc va.key).stakeState? = none ∨ (acc va.key).stakeState? = some .uninitialized ∨
      (acc va.key).stakeState? = some .rewardsPool → ¬ Controlled rt (acc va.key) := by
    intro h hc
    obtain ⟨s, hs, m, hm, -⟩ := hc.state
    rw [Account.stakeState?_eq_some.2 hs] at h
    rcases h with h | h | h <;> cases h
    · cases hm
    · cases hm
  simp only [updateValidator] at h
  split at h
  · rename_i m s hd
    rw [Account.stakeState?_eq_some] at hd
    split at h
    · rename_i hu
      simp only [bind_eq_ok] at h
      obtain ⟨acc₁, hw, h⟩ := h
      have hsk := withdrawAdditional_spec hl hx hw hr hne (hpda.rentExempt hd m rfl)
      have hb := hsk.balance
      have hle := hsk.reserve_le
      refine hsk.then (updateDelegated_spec hl hx h hsk.reserve_step.reserve ?_ ?_ ?_)
      · exact fun h0 => hsk.controlled (controlled_of_usable hx hpda hd rfl hu (by omega))
      · obtain ⟨s', hs', hok⟩ := hst
        refine ⟨s', hs', ?_⟩
        cases s' with
        | active =>
          have hc := hsk.controlled (by rw [hkey]; exact hok)
          rw [hkey] at hc
          exact hc
        | _ => exact hok
      · intro s' hs' hcase
        obtain ⟨s'', hs'', hok⟩ := hst
        obtain rfl := StakeStatus.pod_inj (hs'.symm.trans hs'')
        rcases hcase with rfl | rfl
        · exact hok
        · exact hok.1
    · rename_i hu
      cases h
      exact .ignore hr hkey hva hst (hnot hd rfl hu)
  · rename_i m hd
    rw [Account.stakeState?_eq_some] at hd
    split at h
    · simp only [bind_eq_ok, pure_eq_ok, Prod.mk.injEq] at h
      obtain ⟨acc₁, hm, rfl, rfl, rfl⟩ := h
      obtain ⟨s, rfl, hok⟩ := hst
      by_cases h0 : t = 0
      · rw [if_neg (not_not.2 h0)]
        refine .absorb hl hx hm hr ⟨.readyForRemoval, rfl, rfl, h0⟩ fun s hs => ⟨_, rfl, ?_⟩
        cases s <;> rfl
      · -- with a transient stake the status was not past that
        rw [if_pos h0]
        refine .absorb hl hx hm hr ⟨.deactivatingTransient, rfl, rfl⟩ fun s' hs => ⟨_, rfl, ?_⟩
        obtain rfl := StakeStatus.pod_inj hs
        cases s with
        | deactivatingValidator => exact absurd hok h0
        | readyForRemoval => exact absurd hok.2 h0
        | _ => rfl
    · rename_i hu
      cases h
      exact .ignore hr hkey hva hst (hnot hd rfl hu)
  · cases h; exact .ignore hr hkey hva hst (hnone (.inl ‹_›))
  · cases h; exact .ignore hr hkey hva hst (hnone (.inr (.inl ‹_›)))
  · cases h; exact .ignore hr hkey hva hst (hnone (.inr (.inr ‹_›)))

theorem updateEntry_parts (hl : rt.Lawful) (hx : Ctx rt w a)
    (hpool : a.stakePoolInfo.key = rt.stakePoolAddress) {v' : ValidatorStakeInfo Key}
    (ho : Own rt v (va, ta)) (h : a.updateEntry rt w noMerge acc v va ta = .ok (acc', v'))
    (hv : EntryOk rt acc v) (hr : Reserve rt (acc w.stakePool.reserveStake))
    (hn : ¬ rt.StakePda w.stakePool.reserveStake) (hpda : PdaOk rt (acc (rt.validatorStake v))) :
    ∃ acc₁ status t status' n,
      a.updateTransient rt w noMerge acc v va ta = .ok (acc₁, status, t) ∧
      a.updateValidator rt w noMerge acc₁ status t va = .ok (acc', status', n) ∧
      TransientUpdate rt acc acc₁ w.stakePool.reserveStake va.key ta.key v status t ∧
      ValidatorUpdate rt acc₁ acc' w.stakePool.reserveStake va.key v t status status' n ∧
      v' = { v with
        status := status'
        lastUpdateEpoch := w.sysvars.epoch
        activeStakeLamports := n
        transientStakeLamports := t } := by
  rw [updateEntry_of_own hpool ho] at h
  simp only [bind_eq_ok, pure_eq_ok, Prod.mk.injEq] at h
  obtain ⟨hva, hta⟩ := ho
  dsimp only at hva hta
  obtain ⟨⟨acc₁, status, t⟩, ht, ⟨acc₂, status', n⟩, hn', rfl, rfl⟩ := h
  have hrv : w.stakePool.reserveStake ≠ va.key := fun he => hn (he ▸ hva ▸ .validator v)
  have hT := updateTransient_spec hl hx ht hv hr hn hva hta
  have hcv : Controlled rt (acc va.key) → Controlled rt (acc₁ va.key) := by
    rcases hT.validator with he | ⟨-, hc⟩
    · rw [he]; exact id
    · exact fun _ => hc
  have hV := updateValidator_spec hl hx hn' hT.reserve_step.reserve hrv hva
    (hT.pda _ (by rw [hva]; exact hpda)) (fun h0 => hcv (by rw [hva]; exact hv.active h0)) hT.status_ok
  exact ⟨acc₁, status, t, status', n, ht, hn', hT, hV, rfl⟩

/-- An entry is skipped if the accounts are not its own, and refreshed otherwise. -/
theorem updateEntry_spec (hl : rt.Lawful) (hx : Ctx rt w a)
    (hpool : a.stakePoolInfo.key = rt.stakePoolAddress) {v' : ValidatorStakeInfo Key}
    (h : a.updateEntry rt w noMerge acc v va ta = .ok (acc', v')) (hv : EntryOk rt acc v)
    (hr : Reserve rt (acc w.stakePool.reserveStake)) (hn : ¬ rt.StakePda w.stakePool.reserveStake)
    (hpda : PdaOk rt (acc (rt.validatorStake v))) :
    ¬ (va.key = rt.validatorStake v ∧ ta.key = rt.transientStake v) ∧ acc' = acc ∧ v' = v ∨
    (va.key = rt.validatorStake v ∧ ta.key = rt.transientStake v) ∧
      v'.lastUpdateEpoch = w.sysvars.epoch ∧ Refreshed rt w.stakePool.reserveStake acc acc' v v' := by
  by_cases ho : Own rt v (va, ta)
  swap
  · rw [updateEntry_skip hpool ho] at h
    cases h
    exact .inl ⟨ho, rfl, rfl⟩
  obtain ⟨acc₁, status, t, status', n, -, -, hT, hV, rfl⟩ := updateEntry_parts hl hx hpool ho h hv hr hn hpda
  have hva : rt.validatorStake v = va.key := ho.1.symm
  have hta : rt.transientStake v = ta.key := ho.2.symm
  have hne : va.key ≠ ta.key := by rw [← hva, ← hta]; exact validatorStake_ne_transientStake hl _ _
  have hrv : w.stakePool.reserveStake ≠ va.key := fun he => hn (he ▸ hva ▸ .validator v)
  have hrt : w.stakePool.reserveStake ≠ ta.key := fun he => hn (he ▸ hta ▸ .transient v)
  have hta₂ : acc' ta.key = acc₁ ta.key := hV.frame _ (by simp [hrt.symm, hne.symm])
  have hbT := hT.balance
  have hbV := hV.balance
  have hale := hv.active_le
  have htle := hv.transient_le
  rw [hva] at hale
  rw [hta] at htle
  refine .inr ⟨ho, rfl, ⟨⟨rfl, hT.reserve_step.trans hV.reserve_step,
    hT.pda.trans hV.pda, ?_, ⟨?_, ?_, ?_, ?_, hV.status_ok⟩, ?_⟩, rfl, rfl, ?_, ?_, ?_, ?_,
    by rw [hta, hta₂]; exact hT.transient_le⟩⟩
  · intro k hk hkv hkt
    have hkr : k ≠ w.stakePool.reserveStake := fun he => hn (he ▸ hk)
    have hkv : k ≠ va.key := by rw [← hva]; exact hkv
    have hkt : k ≠ ta.key := by rw [← hta]; exact hkt
    rw [hV.frame k (by simp [hkr, hkv]), hT.frame k (by simp [hkr, hkv, hkt])]
    exact .refl _
  · show n ≤ (acc' (rt.validatorStake v)).lamports
    rw [hva]
    rcases hV.active with h | ⟨h, -⟩ <;> omega
  · show t ≤ (acc' (rt.transientStake v)).lamports
    rw [hta, hta₂]
    rcases Nat.eq_zero_or_pos v.transientStakeLamports with h0 | h0
    · have := (hT.idle h0).2
      omega
    · exact (hT.busy h0).1.ge
  · intro h0
    show Controlled rt (acc' (rt.validatorStake v))
    rw [hva]
    exact hV.controlled h0
  · intro h0
    show Controlled rt (acc' (rt.transientStake v))
    rw [hta, hta₂]
    rcases Nat.eq_zero_or_pos v.transientStakeLamports with h | h
    · exact absurd ((hT.idle h).2 ▸ h0) (Nat.lt_irrefl 0)
    · exact (hT.busy h).2 h0
  · intro s hs
    obtain ⟨s', hs', hd⟩ := hT.down s hs
    obtain ⟨s'', hs'', hd'⟩ := hV.down s' hs'
    exact ⟨s'', hs'', StakeStatus.down_trans hd hd'⟩
  · rw [hva, hta]
    exact (hT.frame.trans hV.frame).mono (by simp)
  · rw [hva]
    rcases hV.active with h | ⟨h₁, h₂, h₃, h₄⟩
    · exact .inl h
    · -- ignored, and nothing was merged into it
      have he : acc₁ va.key = acc va.key := hT.validator.resolve_right fun h => h₃ h.1
      rw [he] at hbV
      exact .inr ⟨h₁, h₂, by omega⟩
  · rw [hta, hta₂]
    rcases Nat.eq_zero_or_pos v.transientStakeLamports with h0 | h0
    · obtain ⟨he, ht0⟩ := hT.idle h0
      exact .inr ⟨ht0, h0, by rw [he]⟩
    · exact .inl (hT.busy h0).1
  · simp only [ValidatorStakeInfo.recorded]
    have hidle : v.transientStakeLamports = 0 → acc₁ = acc ∧ t = 0 := hT.idle
    have hbusy : 0 < v.transientStakeLamports → (acc₁ ta.key).lamports = t := fun h => (hT.busy h).1
    rcases hV.active with h | ⟨h₁, h₂, h₃, h₄⟩
    · rcases Nat.eq_zero_or_pos v.transientStakeLamports with h0 | h0
      · obtain ⟨rfl, rfl⟩ := hidle h0
        omega
      · have := hbusy h0
        omega
    · have he : acc₁ va.key = acc va.key := hT.validator.resolve_right fun h => h₃ h.1
      rw [he] at hbT
      rcases Nat.eq_zero_or_pos v.transientStakeLamports with h0 | h0
      · obtain ⟨rfl, rfl⟩ := hidle h0
        omega
      · have := hbusy h0
        omega

/-- The step of a loop from `acc` to `acc'` that refreshed `v` with its two accounts: no other step of the loop has
touched these. -/
structure StepAt (rt : Runtime Key) (w : World Key) (a : UpdateValidatorListBalanceAccounts Key) (noMerge : Bool)
    (acc acc₀ acc₁ acc' : Accounts Key) (v v' : ValidatorStakeInfo Key)
    (info : AccountInfo Key × AccountInfo Key) : Prop where
  own : Own rt v info
  before : ∀ k, k = rt.validatorStake v ∨ k = rt.transientStake v → acc₀ k = acc k
  after : ∀ k, k = rt.validatorStake v ∨ k = rt.transientStake v → acc' k = acc₁ k
  entry : EntryOk rt acc₀ v
  pda : PdaOk rt (acc₀ (rt.validatorStake v))
  reserve : Reserve rt (acc₀ w.stakePool.reserveStake)
  update : a.updateEntry rt w noMerge acc₀ v info.1 info.2 = .ok (acc₁, v')

theorem StepAt.parts (hl : rt.Lawful) (hx : Ctx rt w a) (hpool : a.stakePoolInfo.key = rt.stakePoolAddress)
    (hn : ¬ rt.StakePda w.stakePool.reserveStake) {acc₀ : Accounts Key} {v' : ValidatorStakeInfo Key}
    {info : AccountInfo Key × AccountInfo Key} (h : StepAt rt w a noMerge acc acc₀ acc₁ acc' v v' info) :
    ∃ acc₂ status t status' n,
      a.updateTransient rt w noMerge acc₀ v info.1 info.2 = .ok (acc₂, status, t) ∧
      a.updateValidator rt w noMerge acc₂ status t info.1 = .ok (acc₁, status', n) ∧
      TransientUpdate rt acc₀ acc₂ w.stakePool.reserveStake info.1.key info.2.key v status t ∧
      ValidatorUpdate rt acc₂ acc₁ w.stakePool.reserveStake info.1.key v t status status' n ∧
      v' = { v with
        status := status'
        lastUpdateEpoch := w.sysvars.epoch
        activeStakeLamports := n
        transientStakeLamports := t } :=
  updateEntry_parts hl hx hpool h.own h.update h.entry h.reserve hn h.pda

theorem updateEntries_other (hl : rt.Lawful) (hx : Ctx rt w a)
    (hpool : a.stakePoolInfo.key = rt.stakePoolAddress) {pre post vs vs' : List (ValidatorStakeInfo Key)}
    {infos : List (AccountInfo Key × AccountInfo Key)}
    (hc : Core rt w.stakePool.reserveStake (pre ++ vs ++ post) acc)
    (h : a.updateEntries rt w noMerge acc vs infos = .ok (acc', vs'))
    (hv : ∀ u ∈ vs, v.voteAccountAddress ≠ u.voteAccountAddress) :
    ∀ k, k = rt.validatorStake v ∨ k = rt.transientStake v → acc' k = acc k := by
  induction vs generalizing pre acc infos vs' with
  | nil => cases h; exact fun _ _ => rfl
  | cons u vs ih =>
    cases infos with
    | nil => cases h; exact fun _ _ => rfl
    | cons info infos =>
      simp only [updateEntries, bind_eq_ok, pure_eq_ok, Prod.mk.injEq] at h
      obtain ⟨⟨acc₁, u'⟩, hu, ⟨acc₂, vs''⟩, h, rfl, rfl⟩ := h
      dsimp only at h ⊢
      have hlist : ∀ u, pre ++ u :: vs ++ post = pre ++ [u] ++ vs ++ post := by simp
      have hv' : ∀ u ∈ vs, v.voteAccountAddress ≠ u.voteAccountAddress := fun u hu => hv u (by simp [hu])
      rw [List.append_assoc, List.cons_append] at hc
      rcases updateEntry_spec hl hx hpool hu hc.mem hc.reserve_ok hc.reserve_pda
        (hc.pdas _ (.validator u)) with ⟨-, rfl, rfl⟩ | ⟨-, -, hr⟩
      · rw [← List.cons_append, ← List.append_assoc, hlist] at hc
        exact ih hc h hv'
      · have hc' := hc.entry hl hr.toEntryStep
        rw [← List.cons_append, ← List.append_assoc, hlist] at hc'
        exact fun k hk =>
          (ih hc' h hv' k hk).trans (hr.other hl hc.reserve_pda (hv u (by simp)) k hk)

theorem updateEntries_step (hl : rt.Lawful) (hx : Ctx rt w a)
    (hpool : a.stakePoolInfo.key = rt.stakePoolAddress) {pre post vs vs' : List (ValidatorStakeInfo Key)}
    {infos : List (AccountInfo Key × AccountInfo Key)}
    (hc : Core rt w.stakePool.reserveStake (pre ++ vs ++ post) acc)
    (h : a.updateEntries rt w noMerge acc vs infos = .ok (acc', vs')) {j : Nat} (hv : vs[j]? = some v) :
    ∃ v', vs'[j]? = some v' ∧ ((¬ ∃ info ∈ infos[j]?, Own rt v info) ∧ v' = v ∨
      ∃ info acc₀ acc₁, infos[j]? = some info ∧ StepAt rt w a noMerge acc acc₀ acc₁ acc' v v' info) := by
  induction vs generalizing pre acc infos vs' j with
  | nil => cases hv
  | cons u vs ih =>
    cases infos with
    | nil =>
      cases h
      exact ⟨v, hv, .inl ⟨by simp, rfl⟩⟩
    | cons info infos =>
      simp only [updateEntries, bind_eq_ok, pure_eq_ok, Prod.mk.injEq] at h
      obtain ⟨⟨acc₁, u'⟩, hu, ⟨acc₂, vs''⟩, h, rfl, rfl⟩ := h
      dsimp only at h
      have hlist : ∀ u, pre ++ u :: vs ++ post = pre ++ [u] ++ vs ++ post := by simp
      rw [List.append_assoc, List.cons_append] at hc
      have hspec := updateEntry_spec hl hx hpool hu hc.mem hc.reserve_ok hc.reserve_pda
        (hc.pdas _ (.validator u))
      cases j with
      | zero =>
        cases hv
        refine ⟨u', rfl, ?_⟩
        by_cases ho : Own rt v info
        · rcases hspec with ⟨hn, -⟩ | ⟨-, -, hr⟩
          · exact absurd ho hn
          have hrest := hc.entry hl hr.toEntryStep
          rw [← List.cons_append, ← List.append_assoc, hlist] at hrest
          refine .inr ⟨info, acc, acc₁, rfl, ho, fun _ _ => rfl, ?_, hc.mem, hc.pdas _ (.validator v),
            hc.reserve_ok, hu⟩
          refine updateEntries_other hl hx hpool hrest h fun u hu he => ?_
          exact hc.vote_ne (by simp [hu]) he.symm
        · rw [updateEntry_skip hpool ho] at hu
          cases hu
          exact .inl ⟨by simpa using ho, rfl⟩
      | succ j =>
        have hne : v.voteAccountAddress ≠ u.voteAccountAddress :=
          hc.vote_ne (by simp [show v ∈ vs from List.mem_of_getElem? hv])
        rcases hspec with ⟨-, rfl, rfl⟩ | ⟨-, -, hr⟩
        · rw [← List.cons_append, ← List.append_assoc, hlist] at hc
          exact ih hc h hv
        · have hc' := hc.entry hl hr.toEntryStep
          rw [← List.cons_append, ← List.append_assoc, hlist] at hc'
          obtain ⟨v', hv', hcase⟩ := ih hc' h hv
          refine ⟨v', hv', hcase.imp_right ?_⟩
          rintro ⟨info', acc₃, acc₄, hi, hs⟩
          exact ⟨info', acc₃, acc₄, hi, hs.own,
            fun k hk => (hs.before k hk).trans (hr.other hl hc.reserve_pda hne k hk), hs.after, hs.entry,
            hs.pda, hs.reserve, hs.update⟩

/-- The loop over a slice between two parts of the list is a run of refreshes. -/
theorem updateEntries_refresh (hl : rt.Lawful) (hx : Ctx rt w a)
    (hpool : a.stakePoolInfo.key = rt.stakePoolAddress) {pre post vs vs' : List (ValidatorStakeInfo Key)}
    {infos : List (AccountInfo Key × AccountInfo Key)}
    (hc : Core rt w.stakePool.reserveStake (pre ++ vs ++ post) acc)
    (h : a.updateEntries rt w noMerge acc vs infos = .ok (acc', vs')) :
    Relation.ReflTransGen (Refresh rt w.stakePool.reserveStake w.sysvars.epoch)
      (acc, pre ++ vs ++ post) (acc', pre ++ vs' ++ post) := by
  induction vs generalizing pre acc infos vs' with
  | nil => cases h; exact .refl
  | cons v vs ih =>
    cases infos with
    | nil => cases h; exact .refl
    | cons info infos =>
      simp only [updateEntries, bind_eq_ok, pure_eq_ok, Prod.mk.injEq] at h
      obtain ⟨⟨acc₁, v'⟩, h₁, ⟨acc₂, vs''⟩, h₂, rfl, rfl⟩ := h
      dsimp only at h₂ ⊢
      have hlist : ∀ (u : ValidatorStakeInfo Key) us, pre ++ u :: us ++ post = pre ++ [u] ++ us ++ post := by
        simp
      rw [List.append_assoc, List.cons_append] at hc
      rcases updateEntry_spec hl hx hpool h₁ hc.mem hc.reserve_ok hc.reserve_pda
        (hc.pdas _ (.validator v)) with ⟨-, rfl, rfl⟩ | ⟨-, hepoch, hr⟩
      · rw [← List.cons_append, ← List.append_assoc, hlist] at hc
        rw [hlist, hlist]
        exact ih hc h₂
      · have hc' := hc.entry hl hr.toEntryStep
        rw [← List.cons_append, ← List.append_assoc, hlist] at hc'
        have hstep := Refresh.mk pre (vs ++ post) hr hepoch
        rw [← List.cons_append, ← List.append_assoc, ← List.cons_append, ← List.append_assoc] at hstep
        refine .head hstep ?_
        rw [hlist, hlist]
        exact ih hc' h₂

section
variable {start k : Nat} {pre slice post slice' : List (ValidatorStakeInfo Key)} {w' : World Key}

theorem Ok.ctx (hl : rt.Lawful) (hp : PoolOk rt w.stakePool)
    (h : a.Ok rt w w' start noMerge pre slice post slice') : Ctx rt w a := by
  have hauth := h.authority
  rw [h.poolKey, StakePool.checkAuthorityWithdraw_eq_ok hl hp.bump] at hauth
  exact ⟨hauth, hp.lockup, h.reserveKey⟩

theorem Ok.refreshes (hl : rt.Lawful) (hp : PoolOk rt w.stakePool)
    (h : a.Ok rt w w' start noMerge pre slice post slice')
    (hc : Core rt w.stakePool.reserveStake w.validatorList.validators w.accounts) :
    Relation.ReflTransGen (Refresh rt w.stakePool.reserveStake w.sysvars.epoch)
      (w.accounts, w.validatorList.validators) (w'.accounts, pre ++ slice' ++ post) := by
  rw [h.list] at hc ⊢
  exact updateEntries_refresh hl (h.ctx hl hp) h.poolKey hc h.entries

/-- What an update does at one place of the list. -/
theorem Ok.step (hl : rt.Lawful) (hp : PoolOk rt w.stakePool)
    (h : a.Ok rt w w' start noMerge pre slice post slice')
    (hc : Core rt w.stakePool.reserveStake w.validatorList.validators w.accounts)
    (hv : w.validatorList.validators[k]? = some v) :
    ∃ v', w'.validatorList.validators[k]? = some v' ∧ (¬ Names rt a start k v ∧ v' = v ∨
      Names rt a start k v ∧ ∃ info acc₀ acc₁, StepAt rt w a noMerge w.accounts acc₀ acc₁ w'.accounts v v' info) := by
  by_cases hn : Names rt a start k v
  · obtain ⟨hle, info, hinfo, ho⟩ := id hn
    have hlen : k - start < slice.length := by
      have := (List.getElem?_eq_some_iff.1 hinfo).1
      rwa [length_pairs, ← h.length] at this
    have hlen' := updateEntries_length h.entries
    have hstart := h.start_eq
    rw [congrArg World.validatorList h.result]
    rw [h.list] at hc
    rw [h.list, List.append_assoc, List.getElem?_append_right (by omega),
      List.getElem?_append_left (by omega), hstart] at hv
    dsimp only
    rw [List.append_assoc, List.getElem?_append_right (by omega), List.getElem?_append_left (by omega), hstart]
    obtain ⟨v', hv', hcase⟩ := updateEntries_step hl (h.ctx hl hp) h.poolKey hc h.entries hv
    rcases hcase with ⟨hnot, -⟩ | ⟨info', acc₀, acc₁, hi, hs⟩
    · exact absurd ⟨info, hinfo, ho⟩ hnot
    · exact ⟨v', hv', .inr ⟨hn, info', acc₀, acc₁, hs⟩⟩
  · obtain ⟨v', hv', -, hcase⟩ := h.get hv
    rcases hcase with ⟨hn', -⟩ | ⟨-, he⟩
    · exact absurd hn' hn
    · exact ⟨v', hv', .inl ⟨hn, he⟩⟩

end

end UpdateValidatorListBalanceAccounts
end SplStakePool
