import SplStakePool.Properties.StatusMachine

/-!
# Entries that are leaving

The status of an entry that is leaving names what is left of it: while the validator part is deactivating, only
the pool can use the validator stake account, and while the transient part is deactivating, it has a record.
`Step.leaving` says that every step keeps this.

The update of the list is where the status changes, in two stages. The transient account is handled first, and what is
left of the entry afterwards (`updateTransient_leaving`) decides what the second stage may find in the validator
account; a withdrawal of a whole account is the other way for an entry to lose its validator part.
-/

namespace SplStakePool
open Exec Machine System

variable {Key : Type} [DecidableEq Key] [Inhabited Key] {rt : Runtime Key} {w w' : World Key}
  {acc acc' acc₁ : Accounts Key} {accounts : List (AccountInfo Key)} {i : StakePoolInstruction Key} {out : Option Key}
  {l : Label Key} {u v v' : ValidatorStakeInfo Key}

/-- What a status says is left of an entry. -/
def StatusLeaving (rt : Runtime Key) (acc : Accounts Key) (v : ValidatorStakeInfo Key) : StakeStatus → Prop
  | .deactivatingAll => Controlled rt (acc (rt.validatorStake v)) ∧ 0 < v.transientStakeLamports
  | .deactivatingValidator => Controlled rt (acc (rt.validatorStake v))
  | .deactivatingTransient => 0 < v.transientStakeLamports
  | .active | .readyForRemoval => True

/-- What its status says of an entry is left of it. -/
def Leaving (rt : Runtime Key) (acc : Accounts Key) (v : ValidatorStakeInfo Key) : Prop :=
  ∃ s, v.status = StakeStatus.pod s ∧ StatusLeaving rt acc v s

/-- What the statuses of all entries say is left of them. -/
def AllLeaving (rt : Runtime Key) (w : World Key) : Prop :=
  ∀ v ∈ w.validatorList.validators, Leaving rt w.accounts v

namespace Leaving
omit [DecidableEq Key]

theorem of_status (h : v.status = StakeStatus.active.pod ∨ v.status = StakeStatus.readyForRemoval.pod) :
    Leaving rt acc v := by
  rcases h with h | h
  · exact ⟨.active, h, trivial⟩
  · exact ⟨.readyForRemoval, h, trivial⟩

theorem keep (h : Leaving rt acc v)
    (hc : Controlled rt (acc (rt.validatorStake v)) → Controlled rt (acc' (rt.validatorStake v))) :
    Leaving rt acc' v := by
  obtain ⟨s, hs, h⟩ := h
  refine ⟨s, hs, ?_⟩
  cases s with
  | deactivatingAll => exact ⟨hc h.1, h.2⟩
  | deactivatingValidator => exact hc h
  | _ => exact h

/-- Once its transient part is gone, an entry is active, has its validator part left or can be removed. -/
theorem settled {status : PodStakeStatus}
    (h : Leaving rt acc { v with status := status, transientStakeLamports := 0 }) :
    status = StakeStatus.active.pod ∨
      status = StakeStatus.deactivatingValidator.pod ∧ Controlled rt (acc (rt.validatorStake v)) ∨
      status = StakeStatus.readyForRemoval.pod := by
  obtain ⟨s, hs, hleft⟩ := h
  cases s with
  | active => exact .inl hs
  | deactivatingValidator => exact .inr (.inl ⟨hs, hleft⟩)
  | readyForRemoval => exact .inr (.inr hs)
  | deactivatingAll => exact absurd hleft.2 (Nat.lt_irrefl 0)
  | deactivatingTransient => exact absurd hleft (Nat.lt_irrefl 0)

end Leaving

theorem EntryEffect.eq_of_set {pre post : List (ValidatorStakeInfo Key)} (h : EntryEffect rt out w w' pre v v' post)
    (hc : Core rt w.stakePool.reserveStake w.validatorList.validators w.accounts) (hl : rt.Lawful)
    (hf : w.validatorList.find u.voteAccountAddress = some v)
    (hset : w'.validatorList = w.validatorList.set u) : v' = u := by
  have hc' : Core rt w.stakePool.reserveStake w'.validatorList.validators w'.accounts := by
    rw [h.list] at hc
    rw [h.list']
    exact hc.entry hl h.moved.toEntryStep
  have hv' : v' ∈ w'.validatorList.validators := by
    rw [h.list']
    exact List.mem_append_right _ List.mem_cons_self
  have hfind := ValidatorList.find_of_mem hc'.votes hv'
  have hvote : v'.voteAccountAddress = u.voteAccountAddress :=
    h.moved.vote.trans (ValidatorList.find_split hf).1
  rw [hvote, hset, ValidatorList.find_set hf] at hfind
  exact (Option.some.inj hfind).symm

omit [DecidableEq Key] in
theorem EntryEffect.leaving (hl : rt.Lawful) {pre post : List (ValidatorStakeInfo Key)}
    (h : EntryEffect rt out w w' pre v v' post)
    (hc : Core rt w.stakePool.reserveStake w.validatorList.validators w.accounts) (hw : AllLeaving rt w)
    (hv' : Leaving rt w'.accounts v') : AllLeaving rt w' := by
  intro u hu
  rw [h.list'] at hu
  rw [AllLeaving, h.list] at hw
  rw [h.list] at hc
  have hother : u ∈ pre ++ post → Leaving rt w'.accounts u := by
    intro hu
    have hne := hc.vote_ne hu
    refine (hw u (by simp only [List.mem_append, List.mem_cons] at hu ⊢; tauto)).keep ?_
    exact (h.moved.evolves _ (.validator u) (fun he => hne (validatorStake_inj hl he))
      (validatorStake_ne_transientStake hl _ _)).controlled
  simp only [List.mem_append, List.mem_cons] at hu
  rcases hu with hu | rfl | hu
  · exact hother (List.mem_append_left _ hu)
  · exact hv'
  · exact hother (List.mem_append_right _ hu)

omit [DecidableEq Key] in
theorem AllLeaving.same (hw : AllLeaving rt w)
    (hlist : ∀ v ∈ w'.validatorList.validators, v ∈ w.validatorList.validators)
    (he : ∀ k, rt.StakePda k → Controlled rt (w.accounts k) → Controlled rt (w'.accounts k)) : AllLeaving rt w' :=
  fun v hv => (hw v (hlist v hv)).keep (he _ (.validator v))

/-! ## Updates -/

namespace UpdateValidatorListBalanceAccounts
variable {a : UpdateValidatorListBalanceAccounts Key} {noMerge : Bool} {status status' : PodStakeStatus} {t n : Nat}
  {va ta : AccountInfo Key}

/-- The transient part of an entry stays, or goes. -/
inductive TransientLeft (v : ValidatorStakeInfo Key) (status : PodStakeStatus) (t : Nat) : Prop
  | none (h₀ : v.transientStakeLamports = 0) (hs : status = v.status) (ht : t = 0)
  | stays (h₀ : 0 < v.transientStakeLamports) (hs : status = v.status) (ht : 0 < t)
  | gone (h₀ : 0 < v.transientStakeLamports) (hs : v.status.removeTransientStake = .ok status) (ht : t = 0)

omit [DecidableEq Key] [Inhabited Key] in
theorem TransientLeft.active (h : TransientLeft v status t) (hs : v.status = StakeStatus.active.pod) :
    status = StakeStatus.active.pod := by
  cases h with
  | none _ hst => exact hst.trans hs
  | stays _ hst => exact hst.trans hs
  | gone _ hst =>
    rw [hs] at hst
    exact (Except.ok.inj hst).symm

theorem updateTransient_left (hl : rt.Lawful) (hx : Ctx rt w a)
    (h : a.updateTransient rt w noMerge acc v va ta = .ok (acc₁, status, t)) (hv : EntryOk rt acc v)
    (hta : ta.key = rt.transientStake v) : TransientLeft v status t := by
  simp only [updateTransient] at h
  split at h
  swap
  · cases h
    exact .none (not_not.1 ‹_›) rfl rfl
  rename_i h0
  have hpos := Nat.pos_of_ne_zero h0
  have hct : Controlled rt (acc ta.key) := by rw [hta]; exact hv.transient hpos
  split at h
  · -- the account is a stake of the pool
    rename_i hact
    obtain ⟨s, hs, m, hm, hp⟩ := hct.state
    rw [Account.stakeState?_eq_some.2 hs] at hact
    exact absurd hact (transientAction_usable hm (usable_of_controlled hx hct hs hm))
  · cases h
    exact .stays hpos rfl hct.lamports
  · simp only [bind_eq_ok, pure_eq_ok, Prod.mk.injEq] at h
    obtain ⟨acc₂, -, st, hst, rfl, rfl, rfl⟩ := h
    exact .gone hpos hst rfl
  · simp only [bind_eq_ok, pure_eq_ok, Prod.mk.injEq] at h
    obtain ⟨acc₂, hm, st, hst, rfl, rfl, rfl⟩ := h
    exact .gone hpos hst (stakeMerge_spec hl hm).src_lamports
  · -- only an active entry has a transient stake merged into the validator stake
    rename_i hact
    simp only [bind_eq_ok, pure_eq_ok, Prod.mk.injEq] at h
    obtain ⟨acc₂, hm, rfl, rfl, rfl⟩ := h
    obtain ⟨s, hs, -⟩ := hv.status
    have hactive := (transientAction_mergeValidator hact).1
    rw [hs, StakeStatus.fromU8_pod, Option.some.injEq] at hactive
    subst hactive
    refine .gone hpos ?_ (stakeMerge_spec hl hm).src_lamports
    rw [hs]
    rfl
  · simp only [bind_eq_ok, pure_eq_ok, Prod.mk.injEq] at h
    obtain ⟨acc₂, hd, rfl, rfl, rfl⟩ := h
    exact .stays hpos rfl (by rw [(stakeDeactivate_spec hl hd).lamports]; exact hct.lamports)

omit [DecidableEq Key] in
/-- What is left of the entry is left of it once its transient account was handled. -/
theorem updateTransient_leaving (h : TransientLeft v status t) (hv : Leaving rt acc v)
    (hc : Controlled rt (acc (rt.validatorStake v)) → Controlled rt (acc₁ (rt.validatorStake v))) :
    Leaving rt acc₁ { v with status := status, transientStakeLamports := t } := by
  obtain ⟨s, hs, hleft⟩ := hv
  cases h with
  | none h₀ hst ht =>
    refine ⟨s, hst.trans hs, ?_⟩
    cases s with
    | deactivatingAll => exact absurd hleft.2 (by omega)
    | deactivatingTransient => exact absurd h₀ (Nat.ne_of_gt hleft)
    | deactivatingValidator => exact hc hleft
    | _ => trivial
  | stays h₀ hst ht =>
    refine ⟨s, hst.trans hs, ?_⟩
    cases s with
    | deactivatingAll => exact ⟨hc hleft.1, ht⟩
    | deactivatingTransient => exact ht
    | deactivatingValidator => exact hc hleft
    | _ => trivial
  | gone h₀ hst ht =>
    simp only [hs, PodStakeStatus.removeTransientStake, bind_eq_ok, StakeStatus.status_pod, Except.ok.injEq,
      exists_eq_left', pure_eq_ok] at hst
    cases s with
    | deactivatingAll => exact ⟨.deactivatingValidator, hst.symm, hc hleft.1⟩
    | deactivatingTransient => exact ⟨.readyForRemoval, hst.symm, trivial⟩
    | deactivatingValidator => exact ⟨.deactivatingValidator, hst.symm, hc hleft⟩
    | active => exact ⟨.active, hst.symm, trivial⟩
    | readyForRemoval => exact ⟨.readyForRemoval, hst.symm, trivial⟩

theorem updateDelegated_leaving {s : Stake Key}
    (h : a.updateDelegated rt w noMerge acc status s va = .ok (acc', status', n))
    (hv : Leaving rt acc { v with status := status, transientStakeLamports := t }) :
    Leaving rt acc' { v with
      status := status', activeStakeLamports := n, transientStakeLamports := t } := by
  obtain ⟨st, hst, hleft⟩ := hv
  obtain rfl : status = st.pod := hst
  simp only [updateDelegated, StakeStatus.status_pod, bind_eq_ok, Except.ok.injEq, exists_eq_left'] at h
  cases st with
  | active | deactivatingTransient | readyForRemoval =>
    cases h
    exact ⟨_, rfl, hleft⟩
  | deactivatingValidator =>
    dsimp only at h
    split at h
    · cases h
      exact ⟨_, rfl, hleft⟩
    split at h
    · simp only [bind_eq_ok, pure_eq_ok, PodStakeStatus.removeValidatorStake, StakeStatus.status_pod,
        Except.ok.injEq, exists_eq_left', Prod.mk.injEq] at h
      obtain ⟨_, -, -, rfl, -⟩ := h
      exact ⟨.readyForRemoval, rfl, trivial⟩
    · cases h
      exact ⟨_, rfl, hleft⟩
  | deactivatingAll =>
    dsimp only at h
    split at h
    · cases h
      exact ⟨_, rfl, hleft⟩
    split at h
    · simp only [bind_eq_ok, pure_eq_ok, PodStakeStatus.removeValidatorStake, StakeStatus.status_pod,
        Except.ok.injEq, exists_eq_left', Prod.mk.injEq] at h
      obtain ⟨_, -, -, rfl, -⟩ := h
      exact ⟨.deactivatingTransient, rfl, hleft.2⟩
    · cases h
      exact ⟨_, rfl, hleft⟩

theorem updateValidator_leaving (hl : rt.Lawful) (hx : Ctx rt w a)
    (h : a.updateValidator rt w noMerge acc status t va = .ok (acc', status', n))
    (hr : Reserve rt (acc w.stakePool.reserveStake)) (hne : w.stakePool.reserveStake ≠ va.key)
    (hva : va.key = rt.validatorStake v) (hpda : PdaOk rt (acc va.key))
    (hv : Leaving rt acc { v with status := status, transientStakeLamports := t }) :
    Leaving rt acc' { v with
      status := status', activeStakeLamports := n, transientStakeLamports := t } := by
  simp only [updateValidator] at h
  split at h
  · rename_i m s hd
    rw [Account.stakeState?_eq_some] at hd
    split at h
    · simp only [bind_eq_ok] at h
      obtain ⟨acc₁, hw, h⟩ := h
      have hsk := withdrawAdditional_spec hl hx hw hr hne (hpda.rentExempt hd m rfl)
      rw [hva] at hsk
      exact updateDelegated_leaving h (hv.keep hsk.controlled)
    · cases h
      exact hv
  · split at h
    · simp only [bind_eq_ok, pure_eq_ok, Prod.mk.injEq] at h
      obtain ⟨_, -, rfl, rfl, rfl⟩ := h
      split
      · exact ⟨.deactivatingTransient, rfl, Nat.pos_of_ne_zero ‹_›⟩
      · exact ⟨.readyForRemoval, rfl, trivial⟩
    · cases h
      exact hv
  all_goals
    cases h
    exact hv

theorem updateEntry_leaving (hl : rt.Lawful) (hx : Ctx rt w a) (hpool : a.stakePoolInfo.key = rt.stakePoolAddress)
    (ho : Own rt v (va, ta)) (h : a.updateEntry rt w noMerge acc v va ta = .ok (acc', v')) (hv : EntryOk rt acc v)
    (hr : Reserve rt (acc w.stakePool.reserveStake)) (hn : ¬ rt.StakePda w.stakePool.reserveStake)
    (hpda : PdaOk rt (acc (rt.validatorStake v))) (hleft : Leaving rt acc v) : Leaving rt acc' v' := by
  obtain ⟨acc₁, status, t, status', n, ht, hn', hT, -, rfl⟩ := updateEntry_parts hl hx hpool ho h hv hr hn hpda
  have hva : va.key = rt.validatorStake v := ho.1
  have hkeep : Controlled rt (acc (rt.validatorStake v)) → Controlled rt (acc₁ (rt.validatorStake v)) := by
    rw [← hva]
    rcases hT.validator with he | ⟨-, hc⟩
    · rw [he]
      exact id
    · exact fun _ => hc
  have hleft₁ := updateTransient_leaving (updateTransient_left hl hx ht hv ho.2) hleft hkeep
  have hpda₁ : PdaOk rt (acc₁ va.key) := hT.pda _ (hva ▸ hpda)
  exact updateValidator_leaving hl hx hn' hT.reserve_step.reserve (fun he => hn (he ▸ hva ▸ .validator v)) hva hpda₁
    hleft₁

theorem updateEntries_leaving (hl : rt.Lawful) (hx : Ctx rt w a) (hpool : a.stakePoolInfo.key = rt.stakePoolAddress)
    {pre post vs vs' : List (ValidatorStakeInfo Key)} {infos : List (AccountInfo Key × AccountInfo Key)}
    (hc : Core rt w.stakePool.reserveStake (pre ++ vs ++ post) acc)
    (h : a.updateEntries rt w noMerge acc vs infos = .ok (acc', vs'))
    (hleft : ∀ v ∈ pre ++ vs ++ post, Leaving rt acc v) : ∀ v ∈ pre ++ vs' ++ post, Leaving rt acc' v := by
  induction vs generalizing pre acc infos vs' with
  | nil =>
    cases h
    exact hleft
  | cons u vs ih =>
    cases infos with
    | nil =>
      cases h
      exact hleft
    | cons info infos =>
      simp only [updateEntries, bind_eq_ok, pure_eq_ok, Prod.mk.injEq] at h
      obtain ⟨⟨acc₁, u'⟩, hu, ⟨acc₂, vs''⟩, h, rfl, rfl⟩ := h
      dsimp only at h ⊢
      have hlist : ∀ (u : ValidatorStakeInfo Key) us, pre ++ u :: us ++ post = pre ++ [u] ++ us ++ post := by simp
      have hmid : ∀ u : ValidatorStakeInfo Key, pre ++ u :: vs ++ post = pre ++ u :: (vs ++ post) := by simp
      rw [hlist]
      rw [hmid] at hc hleft
      have hpda := hc.pdas _ (.validator u)
      rcases updateEntry_spec hl hx hpool hu hc.mem hc.reserve_ok hc.reserve_pda hpda with
        ⟨-, rfl, rfl⟩ | ⟨ho, -, hr⟩
      · rw [← hmid, hlist] at hc hleft
        exact ih hc h hleft
      · have hc' := hc.entry hl hr.toEntryStep
        have hleft' : ∀ v ∈ pre ++ u' :: (vs ++ post), Leaving rt acc₁ v := by
          intro v hv
          simp only [List.mem_append, List.mem_cons] at hv
          by_cases hvu : v = u'
          · rw [hvu]
            exact updateEntry_leaving hl hx hpool ho hu hc.mem hc.reserve_ok hc.reserve_pda hpda (hleft u (by simp))
          · have hmem : v ∈ pre ++ (vs ++ post) := by
              simp only [List.mem_append]
              tauto
            have hsame := hr.other hl hc.reserve_pda (hc.vote_ne hmem) _ (.inl rfl)
            refine (hleft v (by simp only [List.mem_append, List.mem_cons] at hmem ⊢; tauto)).keep ?_
            rw [hsame]
            exact id
        rw [← hmid, hlist] at hc' hleft'
        exact ih hc' h hleft'

end UpdateValidatorListBalanceAccounts

/-! ## Runs -/

omit [Inhabited Key] in
theorem ValidatorList.withdraw_set {l l' : ValidatorList Key} {plan : WithdrawPlan Key} {source : StakeWithdrawSource}
    (h : l.withdraw plan = .ok l') (hp : plan.item = some (v, source)) : ∃ u, l' = l.set u ∧
      u.voteAccountAddress = v.voteAccountAddress ∧
      (u.status = v.status ∨ u.status = StakeStatus.readyForRemoval.pod) := by
  simp only [withdraw, hp, bind_eq_ok, pure_eq_ok] at h
  obtain ⟨u, hu, rfl⟩ := h
  refine ⟨u, rfl, ?_⟩
  cases source <;>
    simp only [ValidatorStakeInfo.withdraw, bind_eq_ok, orErr_eq_ok, ensure_eq_ok, exists_unit, pure_eq_ok] at hu
  · obtain ⟨_, -, rfl⟩ := hu
    exact ⟨rfl, .inl rfl⟩
  · obtain ⟨_, -, rfl⟩ := hu
    exact ⟨rfl, .inl rfl⟩
  · obtain ⟨_, -, -, rfl⟩ := hu
    exact ⟨rfl, .inr rfl⟩

theorem WithdrawStakeAccounts.Ok.leaving (hl : rt.Lawful) {a : WithdrawStakeAccounts Key} {tokens : Nat}
    {minimum : Option Nat} {fee decimals n : Nat} {plan : WithdrawPlan Key} {acc₁ acc₂ acc₃ : Accounts Key}
    (h : a.Ok rt w w' tokens minimum fee decimals n plan acc₁ acc₂ acc₃)
    (hc : Core rt w.stakePool.reserveStake w.validatorList.validators w.accounts) (hw : AllLeaving rt w) :
    AllLeaving rt w' := by
  have hlist := h.list
  obtain ⟨hsrc, hpos⟩ := h.source hc
  have hh := h.handed hl hsrc hpos
  have hkeep : ∀ k, k ≠ a.stakeSplitFrom.key → Controlled rt (w.accounts k) → Controlled rt (w'.accounts k) := by
    intro k hk hck
    rw [hh.frame k hck.notToken hk fun he => hh.fresh (he ▸ hck)]
    exact hck
  -- the entry that the stake is taken from stays active or can be removed
  have entry : ∀ {u m d source}, plan.item = some (u, source) → FromEntry w a u m d →
      a.stakeSplitFrom.key = rt.validatorStake u ∨ a.stakeSplitFrom.key = rt.transientStake u →
      AllLeaving rt w' := by
    intro u m d source hitem he hk v hv
    obtain ⟨u', hset, hvote, hst⟩ := ValidatorList.withdraw_set hlist hitem
    obtain ⟨hu, pre, post, hsplit, hwrite⟩ := ValidatorList.find_split he.find
    rw [hset, hwrite u' (hvote.trans hu)] at hv
    have hc' := hc
    rw [hsplit] at hc'
    simp only [List.mem_append, List.mem_cons] at hv
    by_cases hvu : v = u'
    · refine .of_status ?_
      rw [hvu]
      exact hst.imp_left fun hst => hst.trans he.status
    · have hmem : v ∈ pre ++ post := by
        simp only [List.mem_append]
        tauto
      have hne := hc'.vote_ne hmem
      refine (hw v ?_).keep (hkeep _ fun hkv => ?_)
      · rw [hsplit]
        simp only [List.mem_append, List.mem_cons] at hmem ⊢
        tauto
      · rcases hk with hk | hk
        · exact hne (validatorStake_inj hl (hkv.trans hk))
        · exact validatorStake_ne_transientStake hl _ _ (hkv.trans hk)
  cases h.planned with
  | reserve m hk =>
    refine AllLeaving.same hw (fun v hv => ?_) fun k hk' => hkeep k fun he => hc.reserve_pda (hk ▸ he ▸ hk')
    rwa [← Except.ok.inj hlist] at hv
  | active v m d he hk =>
    exact entry rfl he (.inl (rt.validatorStake_eq (ValidatorList.find_split he.find).1 h.poolKey hk))
  | transient v m d he hk =>
    exact entry rfl he (.inr (rt.transientStake_eq (ValidatorList.find_split he.find).1 h.poolKey rfl hk))
  | removal v m d he hk =>
    exact entry rfl he (.inl (rt.validatorStake_eq (ValidatorList.find_split he.find).1 h.poolKey hk))

theorem Executed.leaving (hl : rt.Lawful) (hs : NoPdaSigner rt accounts) (hi : Inv rt w) (hw : AllLeaving rt w)
    (h : Executed rt w w' accounts i out) : AllLeaving rt w' := by
  have hc := hi.core
  have evolve : ∀ {out}, EvolveEffect rt out w w' → AllLeaving rt w' := fun h =>
    .same hw (fun v hv => h.list ▸ hv) fun k hk => (h.evolves k hk).controlled
  cases h with
  | add _ _ h =>
    obtain ⟨v, h⟩ := h.effect hl hc
    intro u hu
    rw [h.list'] at hu
    rcases List.mem_append.1 hu with hu | hu
    · refine (hw u hu).keep fun hcu => ?_
      rw [h.landed.frame _ ?_]
      · exact hcu
      · simp only [List.mem_cons, List.not_mem_nil, or_false, not_or]
        exact ⟨fun he => hc.reserve_pda (he ▸ .validator u), fun he => h.unlisted (he ▸ hcu)⟩
    · rw [List.mem_singleton.1 hu]
      exact .of_status (.inl h.status)
  | @remove a s v acc₁ _ h =>
    obtain ⟨pre, v', post, he⟩ := h.effect hl hc
    obtain ⟨hvote, pre₀, post₀, hsplit, -⟩ := ValidatorList.find_split h.find
    have hv : EntryOk rt w.accounts v := hc.entries v (by rw [hsplit]; simp)
    have hcv := (h.retired hl).validator (hv.of_active h.status)
    refine he.leaving hl hc hw ?_
    obtain rfl := he.eq_of_set hc hl (by rw [hvote]; exact h.find) (congrArg World.validatorList h.result)
    by_cases h0 : v.transientStakeLamports > 0
    · exact ⟨.deactivatingAll, by simp only [h0, if_true], hcv, h0⟩
    · exact ⟨.deactivatingValidator, by simp only [h0, if_false], hcv⟩
  | decrease _ h =>
    obtain ⟨pre, v', post, he⟩ := h.effect hl hc
    refine he.leaving hl hc hw ?_
    obtain rfl := he.eq_of_set hc hl (by rw [(ValidatorList.find_split h.find).1]; exact h.find)
      (congrArg World.validatorList h.result)
    exact .of_status (.inl h.status)
  | increase _ h =>
    obtain ⟨pre, v', post, he⟩ := h.effect hl hc
    refine he.leaving hl hc hw ?_
    obtain rfl := he.eq_of_set hc hl (by rw [(ValidatorList.find_split h.find).1]; exact h.find)
      (congrArg World.validatorList h.result)
    exact .of_status (.inl h.status)
  | depositStake hm h =>
    obtain ⟨pre, v', post, he⟩ := h.effect hl (fun hsig => hs _ hm hsig) hc
    refine he.leaving hl hc hw ?_
    obtain rfl := he.eq_of_set hc hl (by rw [(ValidatorList.find_split h.find).1]; exact h.find)
      (congrArg World.validatorList h.result)
    exact .of_status (.inl h.status)
  | updateList _ _ h =>
    have hw' : ∀ v ∈ w.validatorList.validators, Leaving rt w.accounts v := hw
    rw [h.list] at hc hw'
    intro v hv
    rw [congrArg World.validatorList h.result] at hv
    exact UpdateValidatorListBalanceAccounts.updateEntries_leaving hl (h.ctx hl hi.pool) h.poolKey hc h.entries hw' v hv
  | withdrawStake h => exact h.leaving hl hc hw
  | depositSol hm h => exact evolve (h.effect hl (fun hsig => hs _ hm hsig) hc)
  | withdrawSol h => exact evolve (h.effect hl hc)
  | updatePool _ h =>
    refine .same hw (fun v hv => ?_) fun k hk hck => ?_
    · rwa [congrArg World.validatorList h.result] at hv
    · rw [(h.only hl).eq hck.notToken]
      exact hck
  | cleanup hl h =>
    subst h hl
    exact .same hw (fun v hv => List.mem_of_mem_filter hv) fun _ _ => id
  | createMetadata hm hsig ho hcr h =>
    subst h
    refine .same hw (fun _ => id) fun k hk hck => ?_
    dsimp only
    rw [createMetadata_same hl hi.pool hc (hs _ hm hsig) ho hcr k (.inl hk)]
    exact hck
  | updateMetadata hup h =>
    subst h
    obtain ⟨-, rfl⟩ := hl.updateMetadataAccountsV2_ok _ _ _ _ _ _ hup
    refine .same hw (fun _ => id) fun k hk hck => ?_
    rw [Function.update_eq_self]
    exact hck
  | setPreferred _ _ h | setFee _ _ _ _ _ h | manage _ _ h =>
    subst h
    exact .same hw (fun _ => id) fun _ _ => id

theorem Step.leaving (hl : rt.Lawful) (hi : Inv rt w) (hw : AllLeaving rt w) (h : Step rt w l w') :
    AllLeaving rt w' := by
  cases h with
  | instruction hs h =>
    exact (process_executed (not_isInitialize hl hi.pool.valid h) h).leaving hl hs hi hw
  | env h =>
    exact .same hw (fun v hv => h.ambient.list ▸ hv) fun k _ => (h.ambient.evolves k).controlled

theorem AllLeaving.of_reach (hl : rt.Lawful) {ok : World Key → Label Key → Prop}
    (h : (poolSystem rt).Reach ok w) : AllLeaving rt w := by
  refine h.invariant (fun w h v hv => ?_) fun w l w' hr hw _ hs => hs.leaving hl (Inv.of_reach hl hr) hw
  obtain ⟨w₀, accounts, fee, withdrawalFee, depositFee, referralFee, maxValidators, -, h⟩ := h
  obtain ⟨_, _, _, _, h⟩ := processInitialize_ok hl h
  obtain ⟨_, hw⟩ := h.result
  rw [hw] at hv
  cases hv

end SplStakePool
