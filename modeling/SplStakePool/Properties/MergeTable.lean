import SplStakePool.Invariant.Run
import SplStakePool.Runtime.Session

/-!
# Merge decisions of an update

An update of the balances decides from the epochs of two delegations what to do with the transient stake of an
entry. It looks at when both were activated, but not at whether they have been deactivated since: where one has,
it attempts a merge that the stake program refuses, and with it the whole update fails.

The documented table is a relation between the two stakes, the epoch and the action. The decision of the source is a
function, and the two agree exactly where neither stake was deactivated since it was active
(`transientAction_followsTable`); a successful update has carried out its action, so that it made no refused merge.
-/

namespace SplStakePool
open Exec Machine System

variable {Key : Type} [DecidableEq Key] [Inhabited Key] {rt : Runtime Key} {w w' : World Key}
  {v : ValidatorStakeInfo Key} {epoch : Nat} {ts vs rs : Option (StakeStateV2 Key)}
  {action : TransientAction}

/-! ## The table -/

/-- How a stake counts in an epoch, without taking into account warmup and cooldown. -/
inductive StakeActivation
  | inactive | activating | active | deactivating
deriving DecidableEq, Repr

def Stake.activation (s : Stake Key) (epoch : Nat) : StakeActivation :=
  if stakeIsInactiveWithoutHistory s epoch then .inactive
  else if epoch ≤ s.delegation.activationEpoch then .activating
  else if s.delegation.deactivationEpoch = epochMax ∧ epoch < epochMax then .active
  else .deactivating

/-- An account that is initialized and not delegated counts as inactive. -/
def StakeStateV2.activation (epoch : Nat) : StakeStateV2 Key → Option StakeActivation
  | .initialized _ => some .inactive
  | .stake _ s => some (s.activation epoch)
  | .uninitialized | .rewardsPool => none

/-- What the stake program refuses to merge: a stake that is deactivating in this epoch, or a deactivated stake
with an active one. -/
def MergeRefused (epoch : Nat) (src dst : Option (StakeStateV2 Key)) : Prop :=
  (∃ m s, (src = some (.stake m s) ∨ dst = some (.stake m s)) ∧ s.delegation.deactivatingAt epoch) ∨
  ∃ m s m' d, src = some (.stake m s) ∧ dst = some (.stake m' d) ∧
    (s.delegation.fullyActiveAt epoch ∧ d.delegation.deactivationEpoch < epoch ∨
      d.delegation.fullyActiveAt epoch ∧ s.delegation.deactivationEpoch < epoch)

/-- The merge that an action makes is refused. -/
def TransientAction.Refused (epoch : Nat) (ts vs rs : Option (StakeStateV2 Key)) : TransientAction → Prop
  | .mergeValidator => MergeRefused epoch ts vs
  | .absorb | .absorbInactive => MergeRefused epoch ts rs
  | .ignore | .count | .deactivate => False

/-- An action on a transient stake follows the table of possible merge situations. -/
structure FollowsTable (epoch : Nat) (ts vs rs : Option (StakeStateV2 Key)) (action : TransientAction) :
    Prop where
  /-- active: merge into validator stake -/
  validator : action = .mergeValidator →
    ts.bind (·.activation epoch) = some .active ∧ vs.bind (·.activation epoch) = some .active
  /-- inactive: merge into reserve stake -/
  reserve : action = .absorb ∨ action = .absorbInactive → ts.bind (·.activation epoch) = some .inactive
  /-- activating, deactivating: nothing, just account its lamports -/
  waits : ts.bind (·.activation epoch) = some .activating ∨ ts.bind (·.activation epoch) = some .deactivating →
    action = .count
  accepted : ¬ action.Refused epoch ts vs rs

/-- Both stakes were activated before this epoch, the transient one was not deactivated before it, and one of the
two has been deactivated. -/
def DeactivatedSince (epoch : Nat) (ts vs : Option (StakeStateV2 Key)) : Prop :=
  ∃ m s m' d, ts = some (.stake m s) ∧ vs = some (.stake m' d) ∧
    s.delegation.activationEpoch < epoch ∧ d.delegation.activationEpoch < epoch ∧
    epoch ≤ s.delegation.deactivationEpoch ∧
    ¬ (s.delegation.deactivationEpoch = epochMax ∧ d.delegation.deactivationEpoch = epochMax ∧ epoch < epochMax)

omit [DecidableEq Key] [Inhabited Key] in
theorem Stake.activation_active {s : Stake Key} :
    s.activation epoch = .active ↔ s.delegation.fullyActiveAt epoch := by
  simp only [activation, stakeIsInactiveWithoutHistory, Delegation.fullyActiveAt, Bool.decide_or,
    Bool.or_eq_true, decide_eq_true_eq]
  split
  · simp only [reduceCtorEq, false_iff]
    omega
  split
  · simp only [reduceCtorEq, false_iff]
    omega
  split
  · simp only [true_iff]
    omega
  · simp only [reduceCtorEq, false_iff]
    omega

omit [DecidableEq Key] [Inhabited Key] in
theorem FollowsTable.count : FollowsTable epoch ts vs rs .count :=
  ⟨by simp, by simp, fun _ => rfl, id⟩

omit [DecidableEq Key] [Inhabited Key] in
theorem FollowsTable.absorb {m : Meta Key} (hrs : rs = some (.initialized m))
    (hact : action = .absorb ∨ action = .absorbInactive)
    (ht : ts.bind (·.activation epoch) = some .inactive) : FollowsTable epoch ts vs rs action := by
  have hnot : ¬ MergeRefused epoch ts rs := by
    rintro (⟨m', s, hs | hs, hd⟩ | ⟨_, _, _, _, -, hs, -⟩)
    · -- a stake that is deactivating is not inactive
      subst hs
      replace ht : s.activation epoch = .inactive := Option.some.inj ht
      simp only [Stake.activation, stakeIsInactiveWithoutHistory, Bool.decide_or, Bool.or_eq_true,
        decide_eq_true_eq] at ht
      obtain ⟨h₁, h₂⟩ := hd
      rw [if_neg (by omega), if_neg (by omega)] at ht
      split at ht <;> cases ht
    · rw [hrs] at hs; cases hs
    · rw [hrs] at hs; cases hs
  refine ⟨fun h => ?_, fun _ => ht, fun h => ?_, ?_⟩
  · rcases hact with rfl | rfl <;> cases h
  · rw [ht] at h
    rcases h with h | h <;> cases h
  · rcases hact with rfl | rfl <;> exact hnot

omit [DecidableEq Key] [Inhabited Key] in
theorem FollowsTable.merge {m m' : Meta Key} {s d : Stake Key} (hs : s.delegation.fullyActiveAt epoch)
    (hd : d.delegation.fullyActiveAt epoch) :
    FollowsTable epoch (some (.stake m s)) (some (.stake m' d)) rs .mergeValidator := by
  have ha : s.activation epoch = .active := Stake.activation_active.2 hs
  refine ⟨fun _ => ⟨congrArg some ha, congrArg some (Stake.activation_active.2 hd)⟩,
    by simp, fun h => ?_, ?_⟩
  · replace h : some (s.activation epoch) = some .activating ∨ some (s.activation epoch) = some .deactivating := h
    rw [ha] at h
    rcases h with h | h <;> cases h
  · obtain ⟨-, hs₁, hs₂⟩ := hs
    obtain ⟨-, hd₁, hd₂⟩ := hd
    rintro (⟨m₁, s₁, h | h, -, he⟩ | ⟨_, _, _, _, h, h', he⟩)
    · cases h; omega
    · cases h; omega
    · cases h
      cases h'
      omega

omit [DecidableEq Key] [Inhabited Key] in
/-- The decision on the transient account of an active entry follows the table exactly if the stakes were not
deactivated since they were active. -/
theorem transientAction_followsTable {usable : Meta Key → Bool} {s : StakeStateV2 Key} {m mr : Meta Key}
    (hts : ts = some s) (hm : s.meta? = some m) (hu : usable m) (hrs : rs = some (.initialized mr)) :
    FollowsTable epoch ts vs rs (transientAction usable epoch false StakeStatus.active.pod ts vs) ↔
      ¬ DeactivatedSince epoch ts vs := by
  subst hts
  cases s with
  | initialized m' =>
    cases hm
    simp only [transientAction, hu, if_true, Bool.false_eq_true, if_false]
    refine iff_of_true (.absorb hrs (.inl rfl) rfl) ?_
    rintro ⟨_, _, _, _, h, -⟩
    cases h
  | stake m' s =>
    cases hm
    simp only [transientAction, hu, if_true, Bool.false_eq_true, if_false, StakeStatus.fromU8_pod]
    split
    · rename_i hin
      refine iff_of_true (.absorb hrs (.inr rfl) ?_) ?_
      · show some (s.activation epoch) = _
        rw [Stake.activation, if_pos hin]
      · rintro ⟨_, _, _, _, h, -, h₁, -, h₂, -⟩
        cases h
        simp only [stakeIsInactiveWithoutHistory, Bool.decide_or, Bool.or_eq_true, decide_eq_true_eq] at hin
        omega
    rename_i hin
    simp only [stakeIsInactiveWithoutHistory, Bool.decide_or, Bool.or_eq_true, decide_eq_true_eq] at hin
    split
    · rename_i hact
      split
      · rename_i md d
        split
        · -- merged into the validator stake
          rename_i hact'
          constructor
          · rintro h ⟨_, _, _, _, hs, hd, -, -, -, hnot⟩
            obtain ⟨h₁, h₂⟩ := h.validator rfl
            cases hs
            cases hd
            obtain ⟨-, h₁, h₃⟩ := Stake.activation_active.1 (Option.some.inj h₁)
            exact hnot ⟨h₁, (Stake.activation_active.1 (Option.some.inj h₂)).2.1, h₃⟩
          · intro h
            have hboth : s.delegation.deactivationEpoch = epochMax ∧ d.delegation.deactivationEpoch = epochMax ∧
                epoch < epochMax := by
              by_contra hnot
              exact h ⟨m, s, md, d, rfl, rfl, hact, hact', by omega, hnot⟩
            exact .merge ⟨hact, hboth.1, hboth.2.2⟩ ⟨hact', hboth.2.1, hboth.2.2⟩
        · refine iff_of_true .count ?_
          rintro ⟨_, _, _, _, -, h, -, h', -⟩
          cases h
          contradiction
      · rename_i hnot
        refine iff_of_true .count ?_
        rintro ⟨_, _, m', d, -, h, -⟩
        exact hnot m' d h
    · refine iff_of_true .count ?_
      rintro ⟨_, _, _, _, h, -, h', -⟩
      cases h
      contradiction
  | _ => cases hm

/-! ## An update of the balances -/

/-- What an update does with the transient account of an entry. -/
def ValidatorStakeInfo.mergeAction (rt : Runtime Key) (w : World Key) (v : ValidatorStakeInfo Key) (noMerge : Bool) :
    TransientAction :=
  transientAction (fun m => stakeIsUsableByPool m rt.withdrawAuthority w.stakePool.lockup) w.sysvars.epoch noMerge
    v.status (w.accounts (rt.transientStake v)).stakeState? (w.accounts (rt.validatorStake v)).stakeState?

/-- An action was carried out on a transient account: it was merged away, or it is still there. What is left on it
is recorded in the entry, if it is a stake of the pool. -/
def CarriedOut (a a' : Account Key) (v' : ValidatorStakeInfo Key) : TransientAction → Prop
  | .ignore => a' = a ∧ v'.transientStakeLamports = 0
  | .count => a' = a ∧ v'.transientStakeLamports = a.lamports
  | .deactivate => a'.lamports = a.lamports ∧ v'.transientStakeLamports = a.lamports
  | .absorb | .absorbInactive | .mergeValidator => a'.lamports = 0 ∧ v'.transientStakeLamports = 0

omit [Inhabited Key] in
/-- A merge that was accepted is not one that is refused. -/
theorem stakeMerge_accepted (hl : rt.Lawful) {sys : Sysvars} {acc acc' : Accounts Key}
    {src auth dst : AccountInfo Key} (h : stakeMerge rt sys acc src auth dst = .ok acc')
    (hsrc : ∀ m s m' d, (acc src.key).stakeState? = some (.stake m s) →
      (acc dst.key).stakeState? = some (.stake m' d) → sys.epoch ≤ s.delegation.deactivationEpoch) :
    ¬ MergeRefused sys.epoch (acc src.key).stakeState? (acc dst.key).stakeState? := by
  simp only [stakeMerge, bind_eq_ok] at h
  obtain ⟨⟨d, s⟩, hm, -⟩ := h
  rintro (⟨m, s, hs, hd⟩ | ⟨m, s, m', d, hs, hd, ⟨h₁, h₂⟩ | ⟨-, h₂⟩⟩)
  · simp only [Account.stakeState?_eq_some] at hs
    obtain ⟨e, he⟩ := hl.merge_refuses_deactivating sys auth.key dst.key (acc dst.key) src.key (acc src.key) m s
      hs.symm hd
    rw [hm] at he
    cases he
  · simp only [Account.stakeState?_eq_some] at hs hd
    obtain ⟨e, he⟩ := hl.merge_refuses_mismatch sys auth.key dst.key (acc dst.key) src.key (acc src.key) m' d m s
      hd hs h₁ h₂
    rw [hm] at he
    cases he
  · have := hsrc m s m' d hs hd
    omega

namespace UpdateValidatorListBalanceAccounts
variable {a : UpdateValidatorListBalanceAccounts Key} {acc₀ acc₁ acc' : Accounts Key}
  {v' : ValidatorStakeInfo Key} {info : AccountInfo Key × AccountInfo Key}

/-- A successful update of an active entry has carried out its action on the transient account, with a merge that
is not refused. -/
theorem StepAt.carriedOut (hl : rt.Lawful) (hx : Ctx rt w a) (hpool : a.stakePoolInfo.key = rt.stakePoolAddress)
    (hi : Inv rt w) (h : StepAt rt w a false w.accounts acc₀ acc₁ acc' v v' info)
    (ht : v.transientStakeLamports ≠ 0) :
    CarriedOut (w.accounts (rt.transientStake v)) (acc' (rt.transientStake v)) v' (v.mergeAction rt w false) ∧
      ¬ (v.mergeAction rt w false).Refused w.sysvars.epoch (w.accounts (rt.transientStake v)).stakeState?
        (w.accounts (rt.validatorStake v)).stakeState? (w.accounts w.stakePool.reserveStake).stakeState? := by
  obtain ⟨hva, hta⟩ := h.own
  have hn := hi.core.reserve_pda
  obtain ⟨acc₂, status, t, status', n, hT', -, hT, hV, rfl⟩ := h.parts hl hx hpool hn
  have hne : info.2.key ≠ info.1.key := by rw [hva, hta]; exact (validatorStake_ne_transientStake hl _ _).symm
  have hrt : info.2.key ≠ w.stakePool.reserveStake := fun he => hn (he ▸ hta ▸ .transient v)
  have hbefore : acc₀ info.2.key = w.accounts (rt.transientStake v) := by rw [hta]; exact h.before _ (.inr rfl)
  have hbefore' : acc₀ info.1.key = w.accounts (rt.validatorStake v) := by rw [hva]; exact h.before _ (.inl rfl)
  have hafter : acc' (rt.transientStake v) = acc₂ info.2.key := by
    rw [h.after _ (.inr rfl), ← hta]
    exact hV.frame _ (by simp [hne, hrt])
  have hmerged : (acc₂ info.2.key).lamports = 0 → (acc₂ info.2.key).lamports = 0 ∧ t = 0 :=
    fun h0 => ⟨h0, (hT.busy (Nat.pos_of_ne_zero ht)).1.symm.trans h0⟩
  have haction : transientAction (usable w a) w.sysvars.epoch false v.status (acc₀ info.2.key).stakeState?
      (acc₀ info.1.key).stakeState? = v.mergeAction rt w false := by
    rw [hbefore, hbefore', ValidatorStakeInfo.mergeAction, ← hx.authority]
    rfl
  rw [hafter]
  simp only [updateTransient, if_pos ht, haction] at hT'
  -- merging into the reserve, which is not delegated
  have habsorb : ∀ acc, stakeMerge rt w.sysvars acc₀ info.2 a.withdrawAuthorityInfo a.reserveStakeInfo = .ok acc →
      acc = acc₂ → (acc₂ info.2.key).lamports = 0 ∧ ¬ MergeRefused w.sysvars.epoch
        (w.accounts (rt.transientStake v)).stakeState? (w.accounts w.stakePool.reserveStake).stakeState? := by
    rintro acc hm rfl
    obtain ⟨mr, hd, -⟩ := h.reserve.state
    obtain ⟨mr', hd', -⟩ := hi.core.reserve_ok.state
    refine ⟨(stakeMerge_spec hl hm).src_lamports, ?_⟩
    have hacc := stakeMerge_accepted hl hm fun m s m' d _ hdst => by
      rw [hx.reserveKey, Account.stakeState?_eq_some, hd] at hdst
      cases hdst
    rw [hbefore, hx.reserveKey] at hacc
    rintro (⟨m, s, hs | hs, hd₁⟩ | ⟨_, _, _, _, -, hs, -⟩)
    · exact hacc (.inl ⟨m, s, .inl hs, hd₁⟩)
    · rw [Account.stakeState?_eq_some, hd'] at hs; cases hs
    · rw [Account.stakeState?_eq_some, hd'] at hs; cases hs
  cases hact : v.mergeAction rt w false with
  | ignore =>
    rw [hact] at hT'
    cases hT'
    exact ⟨⟨hbefore, rfl⟩, id⟩
  | count =>
    rw [hact] at hT'
    cases hT'
    exact ⟨⟨hbefore, by rw [hbefore]⟩, id⟩
  | absorb =>
    rw [hact] at hT'
    simp only [bind_eq_ok, pure_eq_ok, Prod.mk.injEq] at hT'
    obtain ⟨acc, hm, st, -, he, -⟩ := hT'
    obtain ⟨h0, hnot⟩ := habsorb acc hm he
    exact ⟨hmerged h0, hnot⟩
  | absorbInactive =>
    rw [hact] at hT'
    simp only [bind_eq_ok, pure_eq_ok, Prod.mk.injEq] at hT'
    obtain ⟨acc, hm, st, -, he, -⟩ := hT'
    obtain ⟨h0, hnot⟩ := habsorb acc hm he
    exact ⟨hmerged h0, hnot⟩
  | mergeValidator =>
    rw [hact] at hT'
    simp only [bind_eq_ok, pure_eq_ok, Prod.mk.injEq] at hT'
    obtain ⟨acc, hm, rfl, -⟩ := hT'
    refine ⟨hmerged (stakeMerge_spec hl hm).src_lamports, ?_⟩
    obtain ⟨-, -, ms, s, hs, hin⟩ := transientAction_mergeValidator hact
    have hacc := stakeMerge_accepted hl hm fun m' s' _ _ hsrc _ => by
      rw [hbefore, hs] at hsrc
      cases hsrc
      simp only [stakeIsInactiveWithoutHistory, Bool.decide_or, Bool.or_eq_true, decide_eq_true_eq] at hin
      omega
    rwa [hbefore, hbefore'] at hacc
  | deactivate =>
    rw [hact] at hT'
    simp only [bind_eq_ok, pure_eq_ok, Prod.mk.injEq] at hT'
    obtain ⟨acc, hm, rfl, -, rfl⟩ := hT'
    have hlam := (stakeDeactivate_spec hl hm).lamports
    rw [hbefore] at hlam
    exact ⟨⟨hlam, hlam⟩, id⟩

end UpdateValidatorListBalanceAccounts

/-- For every active entry with a transient record of every reachable state, the decision of an update that merges
follows the table exactly if neither stake has been deactivated since both were active. An update that succeeds has
carried the decision out, and its merge was not refused: where it is refused, no update of the entry succeeds. -/
theorem merge_table_iff (hl : rt.Lawful) (hr : (poolSystem rt).Reachable w) (hv : v ∈ w.validatorList.validators)
    (hs : v.status = StakeStatus.active.pod) (ht : v.transientStakeLamports ≠ 0) :
    (FollowsTable w.sysvars.epoch (w.accounts (rt.transientStake v)).stakeState?
        (w.accounts (rt.validatorStake v)).stakeState? (w.accounts w.stakePool.reserveStake).stakeState?
        (v.mergeAction rt w false) ↔
      ¬ DeactivatedSince w.sysvars.epoch (w.accounts (rt.transientStake v)).stakeState?
        (w.accounts (rt.validatorStake v)).stakeState?) ∧
    ∀ accounts start w' a rest (k : Nat),
      process rt w accounts (.updateValidatorListBalance start false) = .ok w' →
      (UpdateValidatorListBalanceAccounts.parse rt).run accounts = .ok (a, rest) →
      w.validatorList.validators[k]? = some v → UpdateValidatorListBalanceAccounts.Names rt a start k v →
      ∃ v', w'.validatorList.validators[k]? = some v' ∧
        CarriedOut (w.accounts (rt.transientStake v)) (w'.accounts (rt.transientStake v)) v'
          (v.mergeAction rt w false) ∧
        ¬ (v.mergeAction rt w false).Refused w.sysvars.epoch (w.accounts (rt.transientStake v)).stakeState?
          (w.accounts (rt.validatorStake v)).stakeState? (w.accounts w.stakePool.reserveStake).stakeState? := by
  have hi := Inv.of_reach hl hr
  constructor
  · -- the account is a stake of the pool, as it is recorded
    obtain ⟨s, hd, m, hm, hp⟩ := ((hi.core.entries v hv).transient (Nat.pos_of_ne_zero ht)).state
    obtain ⟨mr, hrd, -⟩ := hi.core.reserve_ok.state
    rw [ValidatorStakeInfo.mergeAction, hs]
    refine transientAction_followsTable (Account.stakeState?_eq_some.2 hd) hm ?_ (Account.stakeState?_eq_some.2 hrd)
    exact stakeIsUsableByPool_iff.2 ⟨hp.authorized, hp.lockup.trans hi.pool.lockup.symm⟩
  · intro accounts start w' a rest k h hp hk hn
    obtain ⟨a', rest', hp', pre, slice, post, slice', h⟩ := processUpdateValidatorListBalance_ok h
    rw [hp] at hp'
    cases hp'
    obtain ⟨v', hv', ⟨hn', -⟩ | ⟨-, info, acc₀, acc₁, hst⟩⟩ := h.step hl hi.pool hi.core hk
    · exact absurd hn hn'
    · obtain ⟨hc, hacc⟩ := hst.carriedOut hl (h.ctx hl hi.pool) h.poolKey hi ht
      exact ⟨v', hv', hc, hacc⟩

section
open Reference

/-- A pool whose validator and transient stake are both active. -/
def matured : World Reference.Key :=
  after joined [increase vote 50000000 7, .advanceEpoch 11 false (fun _ => none)]

theorem merge_table_iff_matured : ∃ v ∈ matured.validatorList.validators,
    v.mergeAction runtime matured false = .mergeValidator ∧
    FollowsTable matured.sysvars.epoch (matured.accounts (runtime.transientStake v)).stakeState?
      (matured.accounts (runtime.validatorStake v)).stakeState?
      (matured.accounts matured.stakePool.reserveStake).stakeState? (v.mergeAction runtime matured false) := by
  have hv : ∃ v ∈ matured.validatorList.validators, v.status = StakeStatus.active.pod ∧
      v.transientStakeLamports ≠ 0 ∧ v.mergeAction runtime matured false = .mergeValidator ∧
      ((matured.accounts (runtime.transientStake v)).stakeState?.bind fun s =>
        s.delegation?.map (·.deactivationEpoch)) = some epochMax ∧
      ((matured.accounts (runtime.validatorStake v)).stakeState?.bind fun s =>
        s.delegation?.map (·.deactivationEpoch)) = some epochMax := by decide +kernel
  obtain ⟨v, hv, hs, ht, hact, hts, hvs⟩ := hv
  have hr : (poolSystem runtime).Reachable matured :=
    (reachable_after (initialized_opened (by decide +kernel)) (by decide +kernel)).trans_path
      (after_path (fun _ _ _ _ => trivial) (by decide +kernel) : (poolSystem runtime).Path _ joined matured)
  refine ⟨v, hv, hact, (merge_table_iff lawful hr hv hs ht).1.2 ?_⟩
  rintro ⟨m, s, m', d, h₁, h₂, -, -, -, hnot⟩
  rw [h₁] at hts
  rw [h₂] at hvs
  exact hnot ⟨Option.some.inj hts, Option.some.inj hvs, by decide +kernel⟩

/-- After the transient stake was merged, stake was decreased again. -/
def decreased : World Reference.Key :=
  after matured [updateList [(vote, 7)] false, updatePool, decrease vote 10000000 8]

/-- The validator was deactivated as delinquent in the epoch before, in which stake was added. -/
def delinquent : World Reference.Key :=
  after joined [.advanceEpoch 11 false (fun _ => none), updateList [(vote, 0)] false, updatePool,
    increase vote 5000000 7, .deactivateDelinquent (validatorStake vote), .advanceEpoch 12 false (fun _ => none)]

/-- An entry whose transient stake would be merged into the validator stake against the table. -/
def Misjudged (w : World Reference.Key) : Prop :=
  ∃ v ∈ w.validatorList.validators, v.status = StakeStatus.active.pod ∧ v.transientStakeLamports ≠ 0 ∧
    v.mergeAction runtime w false = .mergeValidator ∧
    ¬ FollowsTable w.sysvars.epoch (w.accounts (runtime.transientStake v)).stakeState?
      (w.accounts (runtime.validatorStake v)).stakeState?
      (w.accounts w.stakePool.reserveStake).stakeState? (v.mergeAction runtime w false)

/-- In the epoch of a decrease, and after a validator was deactivated while its transient stake became active, the
merge is attempted, and the update fails. -/
theorem merge_misjudged :
    (poolSystem runtime).Reachable decreased ∧ Misjudged decreased ∧
    (exec decreased (updateList [(vote, 8)] false)).isNone ∧
    (poolSystem runtime).Reachable delinquent ∧ Misjudged delinquent ∧
    (exec delinquent (updateList [(vote, 7)] false)).isNone := by
  have hj : (poolSystem runtime).Reachable joined :=
    reachable_after (initialized_opened (by decide +kernel)) (by decide +kernel)
  have hm : (poolSystem runtime).Path (fun _ _ => True) joined matured :=
    after_path (fun _ _ _ _ => trivial) (by decide +kernel)
  have hd : (poolSystem runtime).Path (fun _ _ => True) matured decreased :=
    after_path (fun _ _ _ _ => trivial) (by decide +kernel)
  have hl : (poolSystem runtime).Path (fun _ _ => True) joined delinquent :=
    after_path (fun _ _ _ _ => trivial) (by decide +kernel)
  have hfound : ∀ w : World Reference.Key,
      (∃ v ∈ w.validatorList.validators, v.status = StakeStatus.active.pod ∧ v.transientStakeLamports ≠ 0 ∧
        v.mergeAction runtime w false = .mergeValidator ∧
        ¬ (((w.accounts (runtime.transientStake v)).stakeState?.bind (·.activation w.sysvars.epoch)) = some .active ∧
          ((w.accounts (runtime.validatorStake v)).stakeState?.bind (·.activation w.sysvars.epoch)) =
            some .active)) → Misjudged w :=
    fun w ⟨v, hv, hs, ht, hact, hnot⟩ => ⟨v, hv, hs, ht, hact, fun h => hnot (h.validator hact)⟩
  exact ⟨(hj.trans_path hm).trans_path hd, hfound _ (by decide +kernel), by decide +kernel, hj.trans_path hl,
    hfound _ (by decide +kernel), by decide +kernel⟩

end

end SplStakePool
