import SplStakePool.Effect.Update

/-!
# What an update leaves in the accounts of an entry

The records of an entry after its update, read off the accounts as they are left. Nothing is assumed of the
entry or of its accounts before.

The relation between accounts and record has a case for each kind of account that may be found: one that the pool
cannot use counts nothing, one that it can use counts what it holds. A second update finds the accounts as the first
one left them, and moves only what came since.
-/

namespace SplStakePool
open Exec Machine

variable {Key : Type} [DecidableEq Key] {rt : Runtime Key} {w : World Key} {acc acc' acc₁ : Accounts Key}

omit [DecidableEq Key] in
/-- Whether the account is a stake account that the pool can use. -/
def Account.isUsable (usable : Meta Key → Bool) (b : Account Key) : Bool :=
  (b.stakeState?.bind (·.meta?)).any usable

omit [DecidableEq Key] in
/-- Whether the account is a delegated stake that the pool can use. -/
def Account.isDelegated (usable : Meta Key → Bool) (b : Account Key) : Bool :=
  match b.stakeState? with
  | some (.stake m _) => usable m
  | _ => false

/-- Whether the validator stake of an entry counts. -/
def PodStakeStatus.counts (p : PodStakeStatus) : Bool :=
  match StakeStatus.fromU8 p.byte with
  | some .active | some .deactivatingValidator | some .deactivatingAll => true
  | some .deactivatingTransient | some .readyForRemoval | none => false

/-- The lamports of both stake accounts of an entry. -/
def Runtime.stakeLamports (rt : Runtime Key) (acc : Accounts Key) (v : ValidatorStakeInfo Key) : Nat :=
  (acc (rt.validatorStake v)).lamports + (acc (rt.transientStake v)).lamports

section
variable {usable : Meta Key → Bool} {b : Account Key} {m : Meta Key} {s : Stake Key}

omit [DecidableEq Key] in
theorem Account.isUsable_of_data {t : StakeStateV2 Key} (hd : b.data = .stakeState t) (hm : t.meta? = some m) :
    b.isUsable usable = usable m := by
  simp [isUsable, stakeState?_eq_some.2 hd, hm]

omit [DecidableEq Key] in
theorem Account.isDelegated_of_data (hd : b.data = .stakeState (.stake m s)) : b.isDelegated usable = usable m := by
  simp [isDelegated, stakeState?_eq_some.2 hd]

omit [DecidableEq Key] in
theorem Account.isDelegated_iff : b.isDelegated usable ↔ ∃ m s, b.data = .stakeState (.stake m s) ∧ usable m := by
  constructor
  · intro h
    unfold isDelegated at h
    split at h
    · exact ⟨_, _, stakeState?_eq_some.1 ‹_›, h⟩
    · cases h
  · rintro ⟨m, s, hd, hu⟩
    rw [isDelegated_of_data hd, hu]

theorem PodStakeStatus.counts_removeTransientStake {p p' : PodStakeStatus} (h : p.removeTransientStake = .ok p') :
    p'.counts = p.counts := by
  simp only [removeTransientStake, bind_eq_ok, pure_eq_ok] at h
  obtain ⟨s, hs, rfl⟩ := h
  rw [PodStakeStatus.status_eq_ok hs]
  cases s <;> rfl

omit [DecidableEq Key] in
/-- A transient account is ignored exactly if the pool cannot use it. -/
theorem transientAction_eq_ignore {epoch : Nat} {noMerge : Bool} {status : PodStakeStatus}
    {vs : Option (StakeStateV2 Key)} :
    transientAction usable epoch noMerge status b.stakeState? vs = .ignore ↔ b.isUsable usable = false := by
  constructor
  · intro h
    by_contra hu
    rw [Bool.not_eq_false, Account.isUsable, Option.any_eq_true] at hu
    obtain ⟨m, hm, hu⟩ := hu
    obtain ⟨t, ht, hm⟩ := Option.bind_eq_some_iff.1 hm
    rw [ht] at h
    exact transientAction_usable hm hu h
  · intro hu
    unfold transientAction
    split
    · rename_i m hs
      rw [Account.isUsable, hs] at hu
      rw [if_neg (by simpa [StakeStateV2.meta?] using hu)]
    · rename_i m s hs
      rw [Account.isUsable, hs] at hu
      rw [if_neg (by simpa [StakeStateV2.meta?] using hu)]
    · rfl
    · rfl
    · rfl

end

namespace UpdateValidatorListBalanceAccounts
variable {a : UpdateValidatorListBalanceAccounts Key} {noMerge : Bool} {v : ValidatorStakeInfo Key}
  {status status' : PodStakeStatus} {t n : Nat} {va ta : AccountInfo Key} {m : Meta Key}

/-- What handling the transient account leaves. -/
structure TransientAccounts (usable : Meta Key → Bool) (acc acc₁ : Accounts Key) (reserve va ta : Key)
    (v : ValidatorStakeInfo Key) (status : PodStakeStatus) (t : Nat) : Prop where
  lamports : t = if v.transientStakeLamports ≠ 0 ∧ (acc₁ ta).isUsable usable then (acc₁ ta).lamports else 0
  counted : v.transientStakeLamports ≠ 0 → (acc ta).isUsable usable → t = (acc₁ ta).lamports
  idle : v.transientStakeLamports = 0 ∨ (acc ta).isUsable usable = false → acc₁ = acc
  validator : acc₁ va = acc va ∨ StakeStatus.fromU8 v.status.byte = some .active ∧
    ∃ m s s', (acc va).data = .stakeState (.stake m s) ∧ (acc₁ va).data = .stakeState (.stake m s')
  counts : status.counts = v.status.counts
  balance : (acc₁ reserve).lamports + (acc₁ va).lamports + (acc₁ ta).lamports =
    (acc reserve).lamports + (acc va).lamports + (acc ta).lamports
  frame : Frame acc acc₁ [reserve, va, ta]

theorem updateTransient_accounts [Inhabited Key] (hl : rt.Lawful)
    (h : a.updateTransient rt w noMerge acc v va ta = .ok (acc₁, status, t)) (hne : va.key ≠ ta.key)
    (hrv : a.reserveStakeInfo.key ≠ va.key) (hrt : a.reserveStakeInfo.key ≠ ta.key) :
    TransientAccounts (usable w a) acc acc₁ a.reserveStakeInfo.key va.key ta.key v status t := by
  simp only [updateTransient] at h
  split at h
  swap
  · rename_i h0
    cases h
    exact ⟨by rw [if_neg fun hc => h0 hc.1], fun hc => absurd hc h0, fun _ => rfl, .inl rfl, rfl, rfl,
      fun _ _ => rfl⟩
  rename_i h0
  -- the account is drained into the reserve
  have habsorb : ∀ acc₁, stakeMerge rt w.sysvars acc ta a.withdrawAuthorityInfo a.reserveStakeInfo = .ok acc₁ →
      (acc ta.key).isUsable (usable w a) ≠ false → v.status.removeTransientStake = .ok status →
      TransientAccounts (usable w a) acc acc₁ a.reserveStakeInfo.key va.key ta.key v status 0 := by
    intro acc₁ hm hu hst
    have hm := stakeMerge_spec hl hm
    have hva : acc₁ va.key = acc va.key := hm.frame _ (by simp [hne, hrv.symm])
    have hsrc := hm.src_lamports
    have hdst := hm.dst_lamports
    refine ⟨by rw [hsrc, ite_self], fun _ _ => hsrc.symm, ?_, .inl hva,
      PodStakeStatus.counts_removeTransientStake hst, by rw [hva]; omega, hm.frame.mono (by simp)⟩
    exact fun hc => absurd hc (by simp [h0, hu])
  split at h
  · rename_i hact
    cases h
    rw [transientAction_eq_ignore] at hact
    refine ⟨by rw [if_neg (by simp [hact])], fun _ hu => ?_, fun _ => rfl, .inl rfl, rfl, rfl, fun _ _ => rfl⟩
    rw [hact] at hu
    cases hu
  all_goals
    rename_i hact
    have hu : (acc ta.key).isUsable (usable w a) ≠ false :=
      fun hc => by rw [transientAction_eq_ignore.2 hc] at hact; cases hact
  · cases h
    have hu := Bool.of_not_eq_false hu
    exact ⟨by rw [if_pos ⟨h0, hu⟩], fun _ _ => rfl, fun _ => rfl, .inl rfl, rfl, rfl, fun _ _ => rfl⟩
  · simp only [bind_eq_ok, pure_eq_ok, Prod.mk.injEq] at h
    obtain ⟨acc₂, hm, st, hst, rfl, rfl, rfl⟩ := h
    exact habsorb acc₂ hm hu hst
  · simp only [bind_eq_ok, pure_eq_ok, Prod.mk.injEq] at h
    obtain ⟨acc₂, hm, st, hst, rfl, rfl, rfl⟩ := h
    rw [(stakeMerge_spec hl hm).src_lamports]
    exact habsorb acc₂ hm hu hst
  · -- the account is drained into the validator stake
    simp only [bind_eq_ok, pure_eq_ok, Prod.mk.injEq] at h
    obtain ⟨acc₂, hm, rfl, rfl, rfl⟩ := h
    obtain ⟨hactive, ⟨mv, sv, hvs⟩, -⟩ := transientAction_mergeValidator hact
    rw [Account.stakeState?_eq_some] at hvs
    have hs := stakeMerge_spec hl hm
    have hres : acc₂ a.reserveStakeInfo.key = acc a.reserveStakeInfo.key := hs.frame _ (by simp [hrv, hrt])
    have hsrc := hs.src_lamports
    have hdst := hs.dst_lamports
    obtain ⟨-, -, -, d, _, d', _, _, hd, -, -, -, -, -, hmerge, rfl⟩ := stakeMerge_ok hl hm
    rw [hvs, AccountData.stakeState.injEq] at hd
    subst hd
    cases hmerge with
    | stake _ _ gained credits =>
      refine ⟨by rw [hsrc, ite_self], fun _ _ => hsrc ▸ rfl, fun hc => absurd hc (by simp [h0, hu]),
        .inr ⟨hactive, mv, sv, _, hvs, by rw [Function.update_self]⟩, rfl, ?_, hs.frame.mono (by simp)⟩
      rw [hres, hsrc, hdst]
      omega
  · simp only [bind_eq_ok, pure_eq_ok, Prod.mk.injEq] at h
    obtain ⟨acc₂, hd, rfl, rfl, rfl⟩ := h
    have hs := stakeDeactivate_spec hl hd
    have hva : acc₂ va.key = acc va.key := hs.frame _ (by simpa using hne)
    have hres : acc₂ a.reserveStakeInfo.key = acc a.reserveStakeInfo.key := hs.frame _ (by simpa using hrt)
    have hlam := hs.lamports
    obtain ⟨-, mt, st, hdata, -, rfl⟩ := stakeDeactivate_ok hl hd
    have hu₁ : (Function.update acc ta.key ⟨(acc ta.key).lamports, (acc ta.key).owner,
        .stakeState (.stake mt (st.deactivateAt w.sysvars.epoch))⟩ ta.key).isUsable (usable w a) := by
      rw [Account.isUsable_of_data hdata rfl] at hu
      rw [Function.update_self, Account.isUsable_of_data rfl rfl]
      exact Bool.of_not_eq_false hu
    refine ⟨by rw [if_pos ⟨h0, hu₁⟩], fun _ _ => rfl, fun hc => absurd hc (by simp [h0, hu]), .inl hva, rfl, ?_,
      hs.frame.mono (by simp)⟩
    rw [hres, hva, hlam]

/-- What handling the validator account leaves. -/
structure ValidatorAccounts (usable : Meta Key → Bool) (acc acc' : Accounts Key) (reserve va : Key)
    (status status' : PodStakeStatus) (n : Nat) : Prop where
  lamports : n = if (acc' va).isDelegated usable ∧ status.counts then (acc' va).lamports else 0
  counted : (acc va).isDelegated usable → status.counts → n = (acc' va).lamports
  counts : (acc' va).isDelegated usable → status'.counts = status.counts
  settled : ∀ s m, (acc' va).data = .stakeState s → s.meta? = some m → usable m →
    ∃ st, s = .stake m st ∧ (acc' va).lamports ≤ st.delegation.stake + m.rentExemptReserve
  balance : (acc' reserve).lamports + (acc' va).lamports = (acc reserve).lamports + (acc va).lamports
  frame : Frame acc acc' [reserve, va]

omit [DecidableEq Key] in
theorem ValidatorAccounts.ignore {usable : Meta Key → Bool} {reserve va : Key}
    (h : (acc va).isUsable usable = false) : ValidatorAccounts usable acc acc reserve va status status 0 := by
  have hnot : ∀ s m, (acc va).data = .stakeState s → s.meta? = some m → usable m = false :=
    fun s m hd hm => by rwa [Account.isUsable_of_data hd hm] at h
  have hdel : ¬ (acc va).isDelegated usable := fun hc => by
    obtain ⟨m, s, hd, hu⟩ := Account.isDelegated_iff.1 hc
    rw [hnot _ m hd rfl] at hu
    cases hu
  refine ⟨by rw [if_neg fun hc => hdel hc.1], fun hc => absurd hc hdel, fun _ => rfl, ?_, rfl, fun _ _ => rfl⟩
  intro s m hd hm hu
  rw [hnot s m hd hm] at hu
  cases hu

/-- The validator account is drained into the reserve. -/
theorem ValidatorAccounts.absorb [Inhabited Key] (hl : rt.Lawful) {usable : Meta Key → Bool}
    (h : stakeMerge rt w.sysvars acc va a.withdrawAuthorityInfo a.reserveStakeInfo = .ok acc') :
    ValidatorAccounts usable acc acc' a.reserveStakeInfo.key va.key status status' 0 := by
  have hm := stakeMerge_spec hl h
  have hsrc := hm.src_lamports
  have hdst := hm.dst_lamports
  have hdata : (acc' va.key).data = .stakeState .uninitialized := by
    obtain ⟨hne, -, -, _, _, _, _, _, -, -, -, -, -, -, -, rfl⟩ := stakeMerge_ok hl h
    rw [Function.update_of_ne hne.symm, Function.update_self]
  have hdel : ¬ (acc' va.key).isDelegated usable := fun hc => by
    obtain ⟨m, s, hd, -⟩ := Account.isDelegated_iff.1 hc
    rw [hdata] at hd
    cases hd
  refine ⟨by rw [hsrc, ite_self], fun _ _ => hsrc.symm, fun hc => absurd hc hdel, ?_, by omega,
    hm.frame.mono (by simp)⟩
  intro s m hd hm
  rw [hdata, AccountData.stakeState.injEq] at hd
  subst hd
  cases hm

/-- Withdrawing what is beyond the delegation and the rent, from a delegated account. -/
structure Trimmed (acc acc' : Accounts Key) (reserve va : Key) (m : Meta Key) (s : Stake Key) : Prop where
  lamports_le : (acc' va).lamports ≤ s.delegation.stake + m.rentExemptReserve
  data : (acc' va).data = .stakeState (.stake m s) ∨
    (acc' va).lamports = 0 ∧ (acc' va).data = .stakeState .uninitialized
  balance : (acc' reserve).lamports + (acc' va).lamports = (acc reserve).lamports + (acc va).lamports
  frame : Frame acc acc' [reserve, va]

theorem withdrawAdditional_trimmed [Inhabited Key] (hl : rt.Lawful) {s : Stake Key}
    (h : a.withdrawAdditional rt w acc m s va = .ok acc') (hd : (acc va.key).data = .stakeState (.stake m s))
    (hrv : a.reserveStakeInfo.key ≠ va.key) :
    Trimmed acc acc' a.reserveStakeInfo.key va.key m s := by
  simp only [withdrawAdditional, saturatingSub] at h
  rcases ite_pure_eq_ok.1 h with ⟨hpos, h⟩ | ⟨hz, rfl⟩
  · have hw := stakeWithdraw_spec hl h
    have hlam := hw.src_lamports hrv.symm
    have hdst := congrArg Account.lamports (hw.dst_eq hrv.symm)
    rw [Account.credit_lamports] at hdst
    refine ⟨by omega, ?_, by omega, hw.frame.mono (by simp)⟩
    obtain ⟨-, hle, t, -, ht, -, -, -, b, rfl, rfl⟩ := stakeWithdraw_ok hl h
    rw [hd, AccountData.stakeState.injEq] at ht
    subst ht
    rw [Function.update_of_ne hrv.symm, Function.update_self]
    by_cases hall : (acc va.key).lamports - s.delegation.stake - m.rentExemptReserve = (acc va.key).lamports
    · exact .inr ⟨by dsimp only; omega, by rw [if_pos hall]⟩
    · exact .inl (by rw [if_neg hall])
  · exact ⟨by omega, .inl hd, rfl, fun _ _ => rfl⟩

omit [DecidableEq Key] in
/-- Handling after the extra lamports were withdrawn. -/
theorem Trimmed.then {usable : Meta Key → Bool} {reserve va : Key} {s : Stake Key}
    (hs : Trimmed acc acc₁ reserve va m s)
    (hc : status.counts → n = (acc' va).lamports)
    (h : ValidatorAccounts usable acc₁ acc' reserve va status status' n) :
    ValidatorAccounts usable acc acc' reserve va status status' n :=
  ⟨h.lamports, fun _ h0 => hc h0, h.counts, h.settled, h.balance.trans hs.balance,
    (hs.frame.trans h.frame).mono (by simp)⟩

/-- A delegated account that the pool can use, without extra lamports, by the status of the entry. -/
theorem updateDelegated_accounts [Inhabited Key] (hl : rt.Lawful) {s : Stake Key}
    (h : a.updateDelegated rt w noMerge acc status s va = .ok (acc', status', n)) (hu : usable w a m)
    (hle : (acc va.key).lamports ≤ s.delegation.stake + m.rentExemptReserve)
    (hd : (acc va.key).data = .stakeState (.stake m s) ∨
      (acc va.key).lamports = 0 ∧ (acc va.key).data = .stakeState .uninitialized) :
    ValidatorAccounts (usable w a) acc acc' a.reserveStakeInfo.key va.key status status' n ∧
      (status.counts → n = (acc' va.key).lamports) := by
  have hsettled : ∀ t m', (acc va.key).data = .stakeState t → t.meta? = some m' → usable w a m' →
      ∃ st, t = .stake m' st ∧ (acc va.key).lamports ≤ st.delegation.stake + m'.rentExemptReserve := by
    intro t m' ht hm' _
    rcases hd with hd | ⟨-, hd⟩
    · rw [hd, AccountData.stakeState.injEq] at ht
      subst ht
      cases hm'
      exact ⟨s, rfl, hle⟩
    · rw [hd, AccountData.stakeState.injEq] at ht
      subst ht
      cases hm'
  have hlam : ¬ (acc va.key).isDelegated (usable w a) → (acc va.key).lamports = 0 := by
    intro hc
    rcases hd with hd | ⟨h0, -⟩
    · rw [Account.isDelegated_of_data hd] at hc
      exact absurd hu hc
    · exact h0
  -- the account stays, and counts
  have hcount : status.counts → ValidatorAccounts (usable w a) acc acc a.reserveStakeInfo.key va.key status
      status (acc va.key).lamports := by
    intro hc
    refine ⟨?_, fun _ _ => rfl, fun _ => rfl, hsettled, rfl, fun _ _ => rfl⟩
    by_cases hdel : (acc va.key).isDelegated (usable w a)
    · rw [if_pos ⟨hdel, hc⟩]
    · rw [if_neg fun h => hdel h.1, hlam hdel]
  -- the account stays, and does not count
  have hdrop : status.counts = false → ValidatorAccounts (usable w a) acc acc a.reserveStakeInfo.key va.key
      status status 0 := by
    intro hc
    refine ⟨by rw [if_neg (by simp [hc])], fun _ h0 => ?_, fun _ => rfl, hsettled, rfl, fun _ _ => rfl⟩
    rw [hc] at h0
    cases h0
  simp only [updateDelegated, bind_eq_ok] at h
  obtain ⟨st, hst, h⟩ := h
  obtain rfl := PodStakeStatus.status_eq_ok hst
  -- the account is drained if it is inactive, and counts if it is not
  have hdeactivating : st.pod.counts → (if noMerge then pure (acc, st.pod, (acc va.key).lamports)
      else if stakeIsInactiveWithoutHistory s w.sysvars.epoch then do
        let accounts ← stakeMerge rt w.sysvars acc va a.withdrawAuthorityInfo a.reserveStakeInfo
        return (accounts, ← st.pod.removeValidatorStake, 0)
      else pure (acc, st.pod, (acc va.key).lamports)) = Except.ok (acc', status', n) →
      ValidatorAccounts (usable w a) acc acc' a.reserveStakeInfo.key va.key st.pod status' n ∧
        (st.pod.counts → n = (acc' va.key).lamports) := by
    intro hc h
    split at h
    · cases h
      exact ⟨hcount hc, fun _ => rfl⟩
    split at h
    · simp only [bind_eq_ok, pure_eq_ok, Prod.mk.injEq] at h
      obtain ⟨acc₂, hm, st', -, rfl, rfl, rfl⟩ := h
      exact ⟨.absorb hl hm, fun _ => (stakeMerge_spec hl hm).src_lamports.symm⟩
    · cases h
      exact ⟨hcount hc, fun _ => rfl⟩
  cases st with
  | active =>
    cases h
    exact ⟨hcount rfl, fun _ => rfl⟩
  | deactivatingValidator => exact hdeactivating rfl h
  | deactivatingAll => exact hdeactivating rfl h
  | deactivatingTransient =>
    cases h
    exact ⟨hdrop rfl, fun hc => absurd hc (by decide)⟩
  | readyForRemoval =>
    cases h
    exact ⟨hdrop rfl, fun hc => absurd hc (by decide)⟩

theorem updateValidator_accounts [Inhabited Key] (hl : rt.Lawful)
    (h : a.updateValidator rt w noMerge acc status t va = .ok (acc', status', n))
    (hrv : a.reserveStakeInfo.key ≠ va.key) :
    ValidatorAccounts (usable w a) acc acc' a.reserveStakeInfo.key va.key status status' n := by
  simp only [updateValidator] at h
  split at h
  · rename_i m s hd
    have hdata := Account.stakeState?_eq_some.1 hd
    split at h
    · rename_i hu
      simp only [bind_eq_ok] at h
      obtain ⟨acc₁, hw, h⟩ := h
      have ht := withdrawAdditional_trimmed hl hw hdata hrv
      obtain ⟨hv, hc⟩ := updateDelegated_accounts hl h hu ht.lamports_le ht.data
      exact ht.then hc hv
    · rename_i hu
      cases h
      exact .ignore (by rw [Account.isUsable_of_data hdata rfl]; exact Bool.eq_false_iff.2 hu)
  · rename_i m hd
    have hdata := Account.stakeState?_eq_some.1 hd
    split at h
    · simp only [bind_eq_ok, pure_eq_ok, Prod.mk.injEq] at h
      obtain ⟨acc₁, hm, rfl, rfl, rfl⟩ := h
      exact .absorb hl hm
    · rename_i hu
      cases h
      exact .ignore (by rw [Account.isUsable_of_data hdata rfl]; exact Bool.eq_false_iff.2 hu)
  all_goals
    rename_i hd
    cases h
    exact .ignore (by rw [Account.isUsable, hd]; rfl)

/-- What an update of an entry leaves in its record and in its two stake accounts. -/
structure EntryAccounts (usable : Meta Key → Bool) (epoch : Nat) (va ta : Account Key)
    (v v' : ValidatorStakeInfo Key) : Prop extends SameAccounts v v' where
  lastUpdateEpoch : v'.lastUpdateEpoch = epoch
  active : v'.activeStakeLamports = if va.isDelegated usable ∧ v.status.counts then va.lamports else 0
  transient : v'.transientStakeLamports =
    if v.transientStakeLamports ≠ 0 ∧ ta.isUsable usable then ta.lamports else 0
  counts : va.isDelegated usable → v'.status.counts = v.status.counts
  settled : ∀ s m, va.data = .stakeState s → s.meta? = some m → usable m →
    ∃ st, s = .stake m st ∧ va.lamports ≤ st.delegation.stake + m.rentExemptReserve

theorem updateEntry_stages [Inhabited Key] (hl : rt.Lawful) (hpool : a.stakePoolInfo.key = rt.stakePoolAddress)
    (hn : ¬ rt.StakePda a.reserveStakeInfo.key) {v' : ValidatorStakeInfo Key} (ho : Own rt v (va, ta))
    (h : a.updateEntry rt w noMerge acc v va ta = .ok (acc', v')) :
    ∃ acc₁ status t status' n,
      TransientAccounts (usable w a) acc acc₁ a.reserveStakeInfo.key va.key ta.key v status t ∧
      a.updateValidator rt w noMerge acc₁ status t va = .ok (acc', status', n) ∧
      ValidatorAccounts (usable w a) acc₁ acc' a.reserveStakeInfo.key va.key status status' n ∧
      acc' ta.key = acc₁ ta.key ∧
      v' = { v with
        status := status'
        lastUpdateEpoch := w.sysvars.epoch
        activeStakeLamports := n
        transientStakeLamports := t } := by
  rw [updateEntry_of_own hpool ho] at h
  simp only [bind_eq_ok, pure_eq_ok, Prod.mk.injEq] at h
  obtain ⟨hva, hta⟩ := ho
  dsimp only at hva hta
  obtain ⟨⟨acc₁, status, t⟩, ht, ⟨acc₂, status', n⟩, hn', rfl, rfl⟩ := h
  dsimp only at hn' ⊢
  have hne : va.key ≠ ta.key := by rw [hva, hta]; exact validatorStake_ne_transientStake hl _ _
  have hrv : a.reserveStakeInfo.key ≠ va.key := fun he => hn (he ▸ hva ▸ .validator v)
  have hrt : a.reserveStakeInfo.key ≠ ta.key := fun he => hn (he ▸ hta ▸ .transient v)
  have hV := updateValidator_accounts hl hn' hrv
  exact ⟨acc₁, status, t, status', n, updateTransient_accounts hl ht hne hrv hrt, hn', hV,
    hV.frame _ (by simp [hrt.symm, hne.symm]), rfl⟩

theorem updateEntry_accounts [Inhabited Key] (hl : rt.Lawful) (hpool : a.stakePoolInfo.key = rt.stakePoolAddress)
    (hn : ¬ rt.StakePda a.reserveStakeInfo.key) {v' : ValidatorStakeInfo Key} (ho : Own rt v (va, ta))
    (h : a.updateEntry rt w noMerge acc v va ta = .ok (acc', v')) :
    EntryAccounts (usable w a) w.sysvars.epoch (acc' (rt.validatorStake v)) (acc' (rt.transientStake v)) v v' ∧
      (acc' a.reserveStakeInfo.key).lamports + rt.stakeLamports acc' v =
        (acc a.reserveStakeInfo.key).lamports + rt.stakeLamports acc v ∧
      Frame acc acc' [a.reserveStakeInfo.key, rt.validatorStake v, rt.transientStake v] := by
  obtain ⟨hsame, hepoch⟩ := updateEntry_own hpool ho h
  obtain ⟨acc₁, status, t, status', n, hT, -, hV, hta₂, rfl⟩ := updateEntry_stages hl hpool hn ho h
  obtain ⟨hva, hta⟩ := ho
  have hbT := hT.balance
  have hbV := hV.balance
  simp only [Runtime.stakeLamports, ← hva, ← hta]
  refine ⟨⟨hsame, hepoch, ?_, ?_, ?_, hV.settled⟩, by rw [hta₂]; omega, (hT.frame.trans hV.frame).mono (by simp)⟩
  · dsimp only
    rw [hV.lamports, hT.counts]
  · dsimp only
    rw [hta₂, hT.lamports]
  · intro hdel
    exact (hV.counts hdel).trans hT.counts

/-! ## Updating again -/

/-- The records of an entry and its two accounts, as an update leaves them. -/
structure Settled (usable : Meta Key → Bool) (va ta : Account Key) (v : ValidatorStakeInfo Key) : Prop where
  active : v.activeStakeLamports = if va.isDelegated usable ∧ v.status.counts then va.lamports else 0
  transient : v.transientStakeLamports = 0 ∨ ta.isUsable usable ∧ v.transientStakeLamports = ta.lamports
  settled : ∀ s m, va.data = .stakeState s → s.meta? = some m → usable m →
    ∃ st, s = .stake m st ∧ va.lamports ≤ st.delegation.stake + m.rentExemptReserve

omit [DecidableEq Key] in
theorem EntryAccounts.to_settled {usable : Meta Key → Bool} {epoch : Nat} {va ta : Account Key}
    {v' : ValidatorStakeInfo Key} (h : EntryAccounts usable epoch va ta v v') : Settled usable va ta v' := by
  refine ⟨?_, ?_, h.settled⟩
  · rw [h.active]
    by_cases hd : va.isDelegated usable
    · rw [h.counts hd]
    · rw [if_neg fun hc => hd hc.1, if_neg fun hc => hd hc.1]
  · rw [h.transient]
    split
    · rename_i hc
      exact .inr ⟨hc.2, rfl⟩
    · exact .inl rfl

theorem updateValidator_still
    (h : a.updateValidator rt w noMerge acc status t va = .ok (acc', status', n))
    (hs : ∀ s m, (acc va.key).data = .stakeState s → s.meta? = some m → usable w a m →
      ∃ st, s = .stake m st ∧ (acc va.key).lamports ≤ st.delegation.stake + m.rentExemptReserve)
    (hc : ¬ ((acc va.key).isDelegated (usable w a) ∧ status.counts)) : acc' = acc ∧ n = 0 := by
  simp only [updateValidator] at h
  split at h
  · rename_i m s hd
    have hdata := Account.stakeState?_eq_some.1 hd
    split at h
    · rename_i hu
      obtain ⟨st, he, hle⟩ := hs _ m hdata rfl hu
      cases he
      simp only [bind_eq_ok, withdrawAdditional] at h
      obtain ⟨acc₁, hw, h⟩ := h
      rw [if_neg (by simp only [saturatingSub]; omega)] at hw
      cases hw
      have hc : ¬ status.counts := fun h0 => hc ⟨by rwa [Account.isDelegated_of_data hdata], h0⟩
      simp only [updateDelegated, bind_eq_ok] at h
      obtain ⟨st, hst, h⟩ := h
      obtain rfl := PodStakeStatus.status_eq_ok hst
      cases st with
      | deactivatingTransient =>
        cases h
        exact ⟨rfl, rfl⟩
      | readyForRemoval =>
        cases h
        exact ⟨rfl, rfl⟩
      | _ => exact absurd rfl hc
    · cases h
      exact ⟨rfl, rfl⟩
  · rename_i m hd
    split at h
    · rename_i hu
      obtain ⟨st, he, -⟩ := hs _ m (Account.stakeState?_eq_some.1 hd) rfl hu
      cases he
    · cases h
      exact ⟨rfl, rfl⟩
  all_goals
    cases h
    exact ⟨rfl, rfl⟩

/-- A second update of an entry moves only what the entry records. -/
theorem updateEntry_again [Inhabited Key] (hl : rt.Lawful) (hpool : a.stakePoolInfo.key = rt.stakePoolAddress)
    (hn : ¬ rt.StakePda a.reserveStakeInfo.key) {v' : ValidatorStakeInfo Key} (ho : Own rt v (va, ta))
    (h : a.updateEntry rt w noMerge acc v va ta = .ok (acc', v'))
    (hs : Settled (usable w a) (acc (rt.validatorStake v)) (acc (rt.transientStake v)) v)
    (hv : StakeStatus.fromU8 v.status.byte = some .active →
      (acc (rt.validatorStake v)).isUsable (usable w a)) :
    (acc' a.reserveStakeInfo.key).lamports + v'.recorded = (acc a.reserveStakeInfo.key).lamports + v.recorded := by
  obtain ⟨acc₁, status, t, status', n, hT, hn', hV, hta₂, rfl⟩ := updateEntry_stages hl hpool hn ho h
  obtain ⟨hva, hta⟩ := ho
  dsimp only at hva hta
  rw [← hva] at hs hv
  rw [← hta] at hs
  have hbT := hT.balance
  have hbV := hV.balance
  -- the transient account, if it counts, counts with all it has
  have ht : t + (acc ta.key).lamports = v.transientStakeLamports + (acc₁ ta.key).lamports := by
    rcases hs.transient with h0 | ⟨hu, he⟩
    · rw [hT.lamports, if_neg fun hc => hc.1 h0, hT.idle (.inl h0), h0]
    · by_cases h0 : v.transientStakeLamports = 0
      · rw [hT.lamports, if_neg fun hc => hc.1 h0, hT.idle (.inl h0), h0]
      · rw [hT.counted h0 hu, he, Nat.add_comm]
  simp only [ValidatorStakeInfo.recorded]
  have hactive := hs.active
  by_cases hc : (acc va.key).isDelegated (usable w a) ∧ v.status.counts
  · -- so does the validator account
    rw [if_pos hc] at hactive
    have hdel : (acc₁ va.key).isDelegated (usable w a) := by
      rcases hT.validator with he | ⟨-, m, s, s', hd, hd'⟩
      · rw [he]
        exact hc.1
      · rw [Account.isDelegated_of_data hd']
        have := hc.1
        rwa [Account.isDelegated_of_data hd] at this
    have hn := hV.counted hdel (by rw [hT.counts]; exact hc.2)
    omega
  · rw [if_neg hc] at hactive
    have he : acc₁ va.key = acc va.key := by
      refine hT.validator.resolve_right ?_
      rintro ⟨hact, m, s, -, hd, -⟩
      refine hc ⟨?_, by rw [PodStakeStatus.counts, hact]⟩
      have hu := hv hact
      rw [Account.isUsable_of_data hd rfl] at hu
      rwa [Account.isDelegated_of_data hd]
    obtain ⟨rfl, rfl⟩ := updateValidator_still hn' (by rw [he]; exact hs.settled)
      (by rw [he, hT.counts]; exact hc)
    rw [he] at hbT
    omega

end UpdateValidatorListBalanceAccounts
end SplStakePool
