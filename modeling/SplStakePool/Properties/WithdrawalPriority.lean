import SplStakePool.Properties.WithdrawAvailability

/-!
# Where a withdrawal of stake may come from

The program looks for stake in a fixed order: the preferred validator, other validators, transient stake, and last
the reserve or the whole account of a validator, whose entry is then removed. Whatever a withdrawal is from, nothing
that comes before it in the order had more than must remain on an account and the value of a token.

What the scans of the list look at are the bytes of the records, compared with a sum that saturates; a record is above
it only if it is above the sum. The rest is read off the plan of the withdrawal, one case for each source.
-/

namespace SplStakePool
open Exec Machine System

variable {Key : Type} [DecidableEq Key] [Inhabited Key] {rt : Runtime Key} {w w' : World Key}
  {a : WithdrawStakeAccounts Key} {n : Nat}

/-- The order of withdrawals, for one from `source`, an account with the meta data `m`. The `tolerance` is what must
remain on an account and the value of a token. -/
structure Prioritized (rt : Runtime Key) (w w' : World Key) (source : Key) (m : Meta Key)
    (lamportsPerPoolToken : Nat) : Prop where
  /-- The source is the reserve or an account of an active entry, derived with its current seeds. -/
  listed : source = w.stakePool.reserveStake ∨ ∃ v ∈ w.validatorList.validators,
    v.status = StakeStatus.active.pod ∧ (source = rt.validatorStake v ∨ source = rt.transientStake v)
  /-- While an active entry has active stake, the source is not transient, the reserve or a whole account. -/
  active : (∃ v ∈ w.validatorList.validators, source = rt.transientStake v) ∨
      source = w.stakePool.reserveStake ∨ (w'.accounts source).lamports = 0 →
    ∀ v ∈ w.validatorList.validators, v.status = StakeStatus.active.pod → v.activeStakeLamports ≤
      saturatingAdd 64 (minimumStakeLamports m w.sysvars.minimumDelegation) lamportsPerPoolToken
  /-- While an active entry has transient stake, the source is not the reserve or a whole account. -/
  transient : source = w.stakePool.reserveStake ∨ (w'.accounts source).lamports = 0 →
    ∀ v ∈ w.validatorList.validators, v.status = StakeStatus.active.pod → v.transientStakeLamports ≤
      saturatingAdd 64 (minimumStakeLamports m w.sysvars.minimumDelegation) lamportsPerPoolToken
  /-- A whole account is that of an entry without transient stake, which is then ready for removal. -/
  removed : (w'.accounts source).lamports = 0 → ∃ v ∈ w.validatorList.validators,
    v.status = StakeStatus.active.pod ∧ source = rt.validatorStake v ∧ v.transientStakeLamports = 0 ∧
      { v with activeStakeLamports := 0, status := StakeStatus.readyForRemoval.pod } ∈ w'.validatorList.validators
  /-- While the preferred validator has active stake, the source is no account of another validator. -/
  preferred : source ≠ w.stakePool.reserveStake → ∀ v ∈ w.validatorList.validators,
    w.stakePool.preferredWithdrawValidatorVoteAddress = some v.voteAccountAddress →
    source ≠ rt.validatorStake v → source ≠ rt.transientStake v → v.activeStakeLamports ≤
      saturatingAdd 64 (minimumStakeLamports m w.sysvars.minimumDelegation) lamportsPerPoolToken
  /-- An account that is not taken as a whole keeps what must remain. -/
  remains : source ≠ w.stakePool.reserveStake → (w'.accounts source).lamports ≠ 0 →
    minimumStakeLamports m w.sysvars.minimumDelegation ≤ (w'.accounts source).lamports
  reserve : source = w.stakePool.reserveStake → minimumReserveLamports m ≤ (w'.accounts source).lamports

omit [Inhabited Key] in
theorem WithdrawStakeAccounts.Ok.source_lamports (hl : rt.Lawful) {tokens fee decimals : Nat}
    {minimum : Option Nat} {plan : WithdrawPlan Key} {acc₁ acc₂ acc₃ : Accounts Key}
    (h : a.Ok rt w w' tokens minimum fee decimals n plan acc₁ acc₂ acc₃) :
    (w'.accounts a.stakeSplitFrom.key).lamports =
      (w.accounts a.stakeSplitFrom.key).lamports - plan.withdrawLamports := by
  obtain ⟨hne, -, -, -, -, s, t, u, -, -, -, hacc₂⟩ := stakeSplit_ok hl h.split
  obtain ⟨-, s', m', -, -, -, hacc₃⟩ := stakeAuthorizeSigned_ok hl h.authorize
  have h₄ : (w'.accounts a.stakeSplitFrom.key).lamports = (acc₃ a.stakeSplitFrom.key).lamports := by
    rcases h.transfer with ⟨-, ht⟩ | ⟨-, he⟩
    · exact (tokenTransfer_only hl ht _).1
    · rw [he]
  rw [h₄, hacc₃, Function.update_of_ne hne, hacc₂, Function.update_of_ne hne, Function.update_self,
    (tokenBurn_only hl h.burn _).1]

section
variable {m : Meta Key} {s : StakeStateV2 Key} {l : Nat} {v : ValidatorStakeInfo Key}

omit [DecidableEq Key] [Inhabited Key] in
theorem hasTransientStake_iff (hs : (w.accounts a.stakeSplitFrom.key).data = .stakeState s) (hm : s.meta? = some m)
    (hprice : w.stakePool.getLamportsPerPoolToken = some l) :
    a.hasTransientStake w = true ↔ ∃ u ∈ w.validatorList.validators, u.status = StakeStatus.active.pod ∧
      saturatingAdd 64 (requiredLamports w m.rentExemptReserve) l < u.transientStakeLamports := by
  rw [WithdrawStakeAccounts.hasTransientStake, tolerance_eq hs hm hprice, Option.any_some, List.any_eq_true]
  refine exists_congr fun u => and_congr_right fun _ => ?_
  rw [Bool.and_eq_true, isActive_iff, ValidatorStakeInfo.transientLamportsGreaterThan, decide_eq_true_eq, and_comm]
  rfl

variable (hs : (w.accounts a.stakeSplitFrom.key).data = .stakeState s) (hm : s.meta? = some m)
  (hprice : w.stakePool.getLamportsPerPoolToken = some l)
include hs hm hprice

omit [DecidableEq Key] [Inhabited Key] in
theorem active_le_of_not_hasActiveStake (h : a.hasActiveStake w = false) (hv : v ∈ w.validatorList.validators)
    (hactive : v.status = StakeStatus.active.pod) :
    v.activeStakeLamports ≤ saturatingAdd 64 (minimumStakeLamports m w.sysvars.minimumDelegation) l := by
  by_contra hlt
  have := (hasActiveStake_iff hs hm hprice).2 ⟨v, hv, hactive, Nat.lt_of_not_le hlt⟩
  rw [h] at this
  cases this

omit [DecidableEq Key] [Inhabited Key] in
theorem transient_le_of_not_hasTransientStake (h : a.hasTransientStake w = false)
    (hv : v ∈ w.validatorList.validators) (hactive : v.status = StakeStatus.active.pod) :
    v.transientStakeLamports ≤ saturatingAdd 64 (minimumStakeLamports m w.sysvars.minimumDelegation) l := by
  by_contra hlt
  have := (hasTransientStake_iff hs hm hprice).2 ⟨v, hv, hactive, Nat.lt_of_not_le hlt⟩
  rw [h] at this
  cases this

end

section
variable {m : Meta Key} {s : StakeStateV2 Key} {l : Nat} {plan : WithdrawPlan Key}
  (hs : (w.accounts a.stakeSplitFrom.key).data = .stakeState s) (hm : s.meta? = some m)
  (hprice : w.stakePool.getLamportsPerPoolToken = some l)
  (hplan : a.plan rt w w.stakePool w.validatorList n = .ok plan)
include hs hm hprice hplan

omit [Inhabited Key] in
theorem plan_of_reserve (hk : a.stakeSplitFrom.key = w.stakePool.reserveStake) :
    a.hasActiveStake w = false ∧ a.hasTransientStake w = false ∧ plan = ⟨none, n⟩ ∧
      minimumReserveLamports m ≤ (w.accounts a.stakeSplitFrom.key).lamports - n := by
  rw [plan_eq hs hm hprice, if_pos hk] at hplan
  simp only [WithdrawStakeAccounts.planReserve, bind_eq_ok, ensure_eq_ok, exists_unit, pure_eq_ok, Bool.or_eq_true,
    not_or, Bool.not_eq_true] at hplan
  obtain ⟨⟨htransient, hactive⟩, hle, rfl⟩ := hplan
  exact ⟨hactive, htransient, rfl, hle⟩

omit [Inhabited Key] in
/-- A plan of an entry's lamports: the source in the order of the program, and the preferred validator is used up. -/
theorem plan_of_entry (hk : a.stakeSplitFrom.key ≠ w.stakePool.reserveStake)
    (hpool : a.stakePoolInfo.key = rt.stakePoolAddress) :
    ∃ v source n', w.validatorList.find v.voteAccountAddress = some v ∧ v.status = StakeStatus.active.pod ∧
      PreferredUsed w a v.voteAccountAddress ∧ plan = ⟨some (v, source), n'⟩ ∧
      (a.hasActiveStake w = true ∧ rt.validatorStake v = a.stakeSplitFrom.key ∧ source = .active ∨
        a.hasActiveStake w = false ∧ (a.hasTransientStake w = true ∨ v.transientStakeLamports ≠ 0) ∧
          rt.transientStake v = a.stakeSplitFrom.key ∧ source = .transient ∨
        a.hasActiveStake w = false ∧ a.hasTransientStake w = false ∧ v.transientStakeLamports = 0 ∧
          rt.validatorStake v = a.stakeSplitFrom.key ∧ source = .validatorRemoval) ∧
      WithdrawStakeAccounts.withdrawAmount source (w.accounts a.stakeSplitFrom.key).lamports n
        (minimumStakeLamports m w.sysvars.minimumDelegation) l = .ok n' := by
  rw [plan_eq hs hm hprice, if_neg hk] at hplan
  simp only [WithdrawStakeAccounts.planValidator, bind_eq_ok, orErr_eq_ok, ensure_eq_ok, exists_unit,
    pure_eq_ok] at hplan
  obtain ⟨d, -, hpreferred, v, hfind, source, hsource, hstatus, n', hn', rfl⟩ := hplan
  rw [checkPreferredWithdraw_eq_ok (tolerance_eq hs hm hprice)] at hpreferred
  obtain ⟨hvote, -⟩ := ValidatorList.find_split hfind
  rw [← hvote] at hfind hpreferred hsource
  exact ⟨v, source, n', hfind, hstatus, hpreferred, rfl, (withdrawSource_eq_ok hpool).1 hsource, hn'⟩

end

omit [Inhabited Key] in
theorem ValidatorList.withdraw_removal {l l' : ValidatorList Key} {v : ValidatorStakeInfo Key} {n : Nat}
    (hf : l.find v.voteAccountAddress = some v) (h : l.withdraw ⟨some (v, .validatorRemoval), n⟩ = .ok l') :
    { v with activeStakeLamports := 0, status := StakeStatus.readyForRemoval.pod } ∈ l'.validators := by
  simp only [ValidatorList.withdraw, ValidatorStakeInfo.withdraw, bind_eq_ok, orErr_eq_ok, ensure_eq_ok,
    exists_unit, pure_eq_ok] at h
  obtain ⟨v', ⟨x, -, rfl, rfl⟩, rfl⟩ := h
  obtain ⟨-, pre, post, -, hset⟩ := ValidatorList.find_split hf
  rw [hset { v with activeStakeLamports := 0, status := StakeStatus.readyForRemoval.pod } rfl]
  exact List.mem_append_right _ List.mem_cons_self

theorem withdrawAmount_remains {source : StakeWithdrawSource} {lamports required l n' : Nat}
    (hs : source ≠ .validatorRemoval)
    (h : WithdrawStakeAccounts.withdrawAmount source lamports n required l = .ok n') :
    n' = n ∧ required ≤ lamports - n := by
  cases source with
  | active | transient =>
    simp only [WithdrawStakeAccounts.withdrawAmount, bind_eq_ok, exists_unit, pure_eq_ok, saturatingSub_eq] at h
    exact ⟨h.2.symm, ensure_eq_ok.1 h.1⟩
  | validatorRemoval => exact absurd rfl hs

/-! ## The order -/

section
variable {m : Meta Key} {s : StakeStateV2 Key} {l : Nat} {tokens fee decimals : Nat} {minimum : Option Nat}
  {plan : WithdrawPlan Key} {acc₁ acc₂ acc₃ : Accounts Key}
  (hl : rt.Lawful) (hi : Inv rt w) (h : a.Ok rt w w' tokens minimum fee decimals n plan acc₁ acc₂ acc₃)
  (hs : (w.accounts a.stakeSplitFrom.key).data = .stakeState s) (hm : s.meta? = some m)
  (hprice : w.stakePool.getLamportsPerPoolToken = some l)
  (hplan : a.plan rt w w.stakePool w.validatorList n = .ok plan)
include hl hi h hs hm hprice hplan

theorem Prioritized.of_reserve (hk : a.stakeSplitFrom.key = w.stakePool.reserveStake) :
    Prioritized rt w w' a.stakeSplitFrom.key m l := by
  obtain ⟨hactive, htransient, rfl, hle⟩ := plan_of_reserve hs hm hprice hplan hk
  have hafter := h.source_lamports hl
  rw [← hafter] at hle
  -- the reserve keeps its rent-exempt balance
  have hkeeps : (w'.accounts a.stakeSplitFrom.key).lamports ≠ 0 := by
    obtain ⟨m', hm', hmeta, -⟩ := hi.core.reserve_ok.state
    rw [← hk, hs, AccountData.stakeState.injEq] at hm'
    subst hm'
    cases hm
    have := hmeta.rent
    simp only [minimumReserveLamports, minimumReserve, saturatingAdd, maxValue] at hle
    omega
  exact {
    listed := .inl hk
    active := fun _ v hv hv' => active_le_of_not_hasActiveStake hs hm hprice hactive hv hv'
    transient := fun _ v hv hv' => transient_le_of_not_hasTransientStake hs hm hprice htransient hv hv'
    removed := fun h0 => absurd h0 hkeeps
    preferred := fun hne => absurd hk hne
    remains := fun hne => absurd hk hne
    reserve := fun _ => hle }

theorem Prioritized.of_entry (hk : a.stakeSplitFrom.key ≠ w.stakePool.reserveStake) :
    Prioritized rt w w' a.stakeSplitFrom.key m l := by
  obtain ⟨v, source, n', hfind, hstatus, hpreferred, rfl, hsource, hn'⟩ :=
    plan_of_entry hs hm hprice hplan hk h.poolKey
  have hafter := h.source_lamports hl
  have hlist := h.list
  have hv : v ∈ w.validatorList.validators := by
    obtain ⟨-, pre, post, hlist, -⟩ := ValidatorList.find_split hfind
    rw [hlist]
    exact List.mem_append_right _ List.mem_cons_self
  have hpref : a.stakeSplitFrom.key = rt.validatorStake v ∨ a.stakeSplitFrom.key = rt.transientStake v →
      ∀ u ∈ w.validatorList.validators,
        w.stakePool.preferredWithdrawValidatorVoteAddress = some u.voteAccountAddress →
        a.stakeSplitFrom.key ≠ rt.validatorStake u → a.stakeSplitFrom.key ≠ rt.transientStake u →
        u.activeStakeLamports ≤ saturatingAdd 64 (minimumStakeLamports m w.sysvars.minimumDelegation) l := by
    intro hown u hu hp h₁ h₂
    refine hpreferred _ u _ hp (fun he => ?_) (ValidatorList.find_of_mem hi.core.votes hu)
      (tolerance_eq hs hm hprice)
    obtain rfl := entry_unique hi.core.votes hv hu he
    rcases hown with hown | hown
    · exact h₁ hown
    · exact h₂ hown
  have hpos := minimumStakeLamports_pos m w.sysvars.minimumDelegation
  rcases hsource with ⟨-, hkey, rfl⟩ | ⟨hactive, -, hkey, rfl⟩ | ⟨hactive, htransient, h0, hkey, rfl⟩
  · obtain ⟨rfl, hle⟩ := withdrawAmount_remains (by decide) hn'
    rw [← hafter] at hle
    have hkeeps : (w'.accounts a.stakeSplitFrom.key).lamports ≠ 0 := by omega
    exact {
      listed := .inr ⟨v, hv, hstatus, .inl hkey.symm⟩
      active := by
        rintro (⟨u, -, hu⟩ | hr | h0)
        · exact absurd (hkey.trans hu) (validatorStake_ne_transientStake hl v u)
        · exact absurd hr hk
        · exact absurd h0 hkeeps
      transient := by
        rintro (hr | h0)
        · exact absurd hr hk
        · exact absurd h0 hkeeps
      removed := fun h0 => absurd h0 hkeeps
      preferred := fun _ => hpref (.inl hkey.symm)
      remains := fun _ _ => hle
      reserve := fun hr => absurd hr hk }
  · obtain ⟨rfl, hle⟩ := withdrawAmount_remains (by decide) hn'
    rw [← hafter] at hle
    have hkeeps : (w'.accounts a.stakeSplitFrom.key).lamports ≠ 0 := by omega
    exact {
      listed := .inr ⟨v, hv, hstatus, .inr hkey.symm⟩
      active := fun _ u hu hu' => active_le_of_not_hasActiveStake hs hm hprice hactive hu hu'
      transient := by
        rintro (hr | h0)
        · exact absurd hr hk
        · exact absurd h0 hkeeps
      removed := fun h0 => absurd h0 hkeeps
      preferred := fun _ => hpref (.inr hkey.symm)
      remains := fun _ _ => hle
      reserve := fun hr => absurd hr hk }
  · simp only [WithdrawStakeAccounts.withdrawAmount, bind_eq_ok, ensure_eq_ok, exists_unit, pure_eq_ok] at hn'
    obtain ⟨-, rfl⟩ := hn'
    have hempty : (w'.accounts a.stakeSplitFrom.key).lamports = 0 := hafter.trans (Nat.sub_self _)
    exact {
      listed := .inr ⟨v, hv, hstatus, .inl hkey.symm⟩
      active := fun _ u hu hu' => active_le_of_not_hasActiveStake hs hm hprice hactive hu hu'
      transient := fun _ u hu hu' => transient_le_of_not_hasTransientStake hs hm hprice htransient hu hu'
      removed := fun _ => ⟨v, hv, hstatus, hkey.symm, h0, ValidatorList.withdraw_removal hfind hlist⟩
      preferred := fun _ => hpref (.inl hkey.symm)
      remains := fun _ hne => absurd hempty hne
      reserve := fun hr => absurd hr hk }

end

/-- Every withdrawal of stake from a reachable pool keeps to the order. -/
theorem withdrawal_prioritized (hl : rt.Lawful) (hr : (poolSystem rt).Reachable w) {tokens : Nat}
    {minimum : Option Nat} {accounts rest : List (AccountInfo Key)}
    (hp : (WithdrawStakeAccounts.parse rt).run accounts = .ok (a, rest))
    (h : processWithdrawStake rt w accounts tokens minimum = .ok w') :
    ∃ s m lamportsPerPoolToken, (w.accounts a.stakeSplitFrom.key).data = .stakeState s ∧ s.meta? = some m ∧
      w.stakePool.getLamportsPerPoolToken = some lamportsPerPoolToken ∧
      Prioritized rt w w' a.stakeSplitFrom.key m lamportsPerPoolToken := by
  simp only [processWithdrawStake, bind_eq_ok] at h
  obtain ⟨⟨a', rest'⟩, hp', h⟩ := h
  cases hp.symm.trans hp'
  obtain ⟨fee, decimals, n, plan, acc₁, acc₂, acc₃, h, -, -, hplan⟩ := a.process_priced h
  obtain ⟨s, m, l, hs, hm, hprice⟩ := plan_reads hplan
  have hi := Inv.of_reach hl hr
  refine ⟨s, m, l, hs, hm, hprice, ?_⟩
  by_cases hk : a.stakeSplitFrom.key = w.stakePool.reserveStake
  · exact .of_reserve hl hi h hs hm hprice hplan hk
  · exact .of_entry hl hi h hs hm hprice hplan hk

open Reference in
theorem withdrawal_prioritized_staked : ∃ s m lamportsPerPoolToken,
    (staked.accounts (transientStake vote 7)).data = .stakeState s ∧ s.meta? = some m ∧
      staked.stakePool.getLamportsPerPoolToken = some lamportsPerPoolToken ∧
      Prioritized runtime staked (next staked (Reference.withdrawStake (transientStake vote 7) userStake 1000001 0))
        (transientStake vote 7) m lamportsPerPoolToken :=
  withdrawal_prioritized lawful
    (reachable_after (initialized_opened (by decide +kernel)) (by decide +kernel))
    (a := ⟨poolInfo, listInfo, authorityInfo, writable (transientStake vote 7), writable userStake, writable user,
      signer user, tokensInfo, feeInfo, mintInfo, tokenInfo, stakeInfo⟩) rfl
    (next_process (i := .withdrawStakeWithSlippage 1000001 0) (by decide +kernel))

end SplStakePool
