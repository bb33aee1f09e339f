import SplStakePool.Client.Withdraw
import SplStakePool.Properties.StatusMachine
import SplStakePool.Spec.Withdraw

/-!
# Which stake account a withdrawal is accepted from

The program accepts the reserve, the validator stake account of an entry or its transient one, in an order that
depends on what is recorded for all of the entries. Each of the three is put in terms of the records and of the
account itself: who it is delegated to, what must remain on it, and what the preferred validator still has.

The handler reads the account before it looks for the entry. The proofs take the two apart: what the plan of a
withdrawal computes of the account is the same for all sources, and the source of an entry is decided by whether
any active validator has active or transient stake over the tolerance.
-/

namespace SplStakePool
open Exec Machine

variable {Key : Type} [DecidableEq Key]

/-- The lamports that a withdrawal pays, unless a whole account is taken. -/
def paidLamports (rt : Runtime Key) (w : World Key) (a : WithdrawStakeAccounts Key) (poolTokens : Nat) :
    Except ProgramError Nat := do
  let poolTokensFee ← w.stakePool.withdrawalFee rt w.accounts w.stakePool.calcPoolTokensStakeWithdrawalFee
    a.burnFromPoolInfo a.managerFeeInfo poolTokens
  let poolTokensBurnt ← orErr (checkedSub poolTokens poolTokensFee) (.custom .calculationFailure)
  w.stakePool.withdrawLamports poolTokensBurnt none

/-- The source is accepted: which account it is, the preferred validator, the status of the entry and what
remains on the account. -/
def Passes (rt : Runtime Key) (w : World Key) (a : WithdrawStakeAccounts Key) (n : Nat) : Prop :=
  ∃ plan, a.plan rt w w.stakePool w.validatorList n = .ok plan

section
variable (w : World Key) (a : WithdrawStakeAccounts Key)

/-- No other validator is preferred that has more than must remain. -/
def PreferredUsed (vote : Key) : Prop :=
  ∀ preferred v lamports, w.stakePool.preferredWithdrawValidatorVoteAddress = some preferred → preferred ≠ vote →
    w.validatorList.find preferred = some v → a.minimumLamportsWithTolerance w = some lamports →
    v.activeStakeLamports ≤ lamports

/-- The account is delegated to a validator whose entry is active, and the preferred validator is used up. -/
structure EntryReady (vote : Key) (m : Meta Key) (lamportsPerPoolToken : Nat) (v : ValidatorStakeInfo Key) :
    Prop where
  delegated : ∃ s, (w.accounts a.stakeSplitFrom.key).data = .stakeState (.stake m s) ∧
    s.delegation.voterPubkey = vote
  price : w.stakePool.getLamportsPerPoolToken = some lamportsPerPoolToken
  find : w.validatorList.find vote = some v
  active : v.status = StakeStatus.active.pod
  preferred : PreferredUsed w a vote

/-- A validator stake account pays `n` lamports: some active validator has more than must remain, and this one
keeps that; or no validator has active or transient stake to withdraw, and all of the account is paid for. -/
def ValidatorPays (vote : Key) (n : Nat) : Prop :=
  ∃ m lamportsPerPoolToken v, EntryReady w a vote m lamportsPerPoolToken v ∧
    (a.hasActiveStake w = true ∧ minimumStakeLamports m w.sysvars.minimumDelegation ≤
        (w.accounts a.stakeSplitFrom.key).lamports - n ∨
      a.hasActiveStake w = false ∧ a.hasTransientStake w = false ∧ v.transientStakeLamports = 0 ∧
        (w.accounts a.stakeSplitFrom.key).lamports ≤ n ∧
        n ≤ saturatingAdd 64 (w.accounts a.stakeSplitFrom.key).lamports lamportsPerPoolToken)

/-- A transient stake account pays `n` lamports: no active validator has more than must remain, and the account
keeps that. -/
def TransientPays (vote : Key) (n : Nat) : Prop :=
  ∃ m lamportsPerPoolToken v, EntryReady w a vote m lamportsPerPoolToken v ∧ a.hasActiveStake w = false ∧
    (a.hasTransientStake w = true ∨ v.transientStakeLamports ≠ 0) ∧
    minimumStakeLamports m w.sysvars.minimumDelegation ≤ (w.accounts a.stakeSplitFrom.key).lamports - n

/-- The reserve pays `n` lamports: no validator has active or transient stake to withdraw, and its minimum
remains. -/
def ReservePays (n : Nat) : Prop :=
  ∃ s m, (w.accounts a.stakeSplitFrom.key).data = .stakeState s ∧ s.meta? = some m ∧
    w.stakePool.getLamportsPerPoolToken.isSome ∧ a.hasActiveStake w = false ∧ a.hasTransientStake w = false ∧
    minimumReserveLamports m ≤ (w.accounts a.stakeSplitFrom.key).lamports - n

end

/-- The account with a key suits the program: the reserve, or the account of the entry of a validator. -/
def Suits (rt : Runtime Key) (w : World Key) (a : WithdrawStakeAccounts Key) (s : WithdrawAccount Key)
    (n : Nat) : Prop :=
  if s.stakeAddress = w.stakePool.reserveStake then ReservePays w a n
  else
    ∀ vote ∈ s.voteAddress,
      if s.stakeAddress ∈ w.validatorList.validators.map rt.validatorStake then ValidatorPays w a vote n
      else TransientPays w a vote n

/-- Where the lamports of an account are taken from, with the amount: some active validator has more than must
remain, or the validator stake account is taken as a whole. -/
def sourceOf (rt : Runtime Key) (w : World Key) (a : WithdrawStakeAccounts Key) (s : WithdrawAccount Key)
    (n : Nat) : Option (WithdrawPlan Key) :=
  if s.stakeAddress = w.stakePool.reserveStake then some ⟨none, n⟩
  else do
    let v ← w.validatorList.find (← s.voteAddress)
    if s.stakeAddress ≠ rt.validatorStake v then return ⟨some (v, .transient), n⟩
    else if a.hasActiveStake w then return ⟨some (v, .active), n⟩
    else return ⟨some (v, .validatorRemoval), (w.accounts s.stakeAddress).lamports⟩

/-- An account of the pool with the vote account that it belongs to: of an entry, or the reserve. -/
def Listed (rt : Runtime Key) (w : World Key) (stakeAddress : Key) (voteAddress : Option Key) : Prop :=
  (∃ v ∈ w.validatorList.validators, voteAddress = some v.voteAccountAddress ∧
      (stakeAddress = rt.validatorStake v ∨ stakeAddress = rt.transientStake v)) ∨
    stakeAddress = w.stakePool.reserveStake

variable {rt : Runtime Key} {w : World Key} {a : WithdrawStakeAccounts Key} {n : Nat}

theorem checkPreferredWithdraw_eq_ok {vote : Key} {lamports : Nat}
    (htolerance : a.minimumLamportsWithTolerance w = some lamports) :
    WithdrawStakeAccounts.checkPreferredWithdraw w.stakePool w.validatorList vote lamports = .ok () ↔
      PreferredUsed w a vote := by
  rw [WithdrawStakeAccounts.checkPreferredWithdraw]
  split
  next preferred hpreferred =>
    split
    next v hfind =>
      rw [ensure_eq_ok]
      constructor
      · intro h q u l hq hne hu hl
        rw [hpreferred, Option.some.injEq] at hq
        rw [htolerance, Option.some.injEq] at hl
        subst hq hl
        rw [hfind, Option.some.injEq] at hu
        subst hu
        by_contra hlt
        exact h ⟨hne, Nat.sub_pos_of_lt (Nat.not_le.1 hlt)⟩
      · rintro h ⟨hne, hlt⟩
        have := h preferred v lamports hpreferred hne hfind htolerance
        rw [saturatingSub_eq] at hlt
        omega
    next hfind =>
      refine iff_of_true rfl fun q u l hq hne hu => ?_
      rw [hpreferred, Option.some.injEq] at hq
      subst hq
      rw [hfind] at hu
      cases hu
  next hnone =>
    refine iff_of_true rfl fun q u l hq => ?_
    rw [hnone] at hq
    cases hq

omit [DecidableEq Key] in
theorem tolerance_eq {s : StakeStateV2 Key} {m : Meta Key} {lamportsPerPoolToken : Nat}
    (hs : (w.accounts a.stakeSplitFrom.key).data = .stakeState s) (hm : s.meta? = some m)
    (hprice : w.stakePool.getLamportsPerPoolToken = some lamportsPerPoolToken) :
    a.minimumLamportsWithTolerance w =
      some (saturatingAdd 64 (minimumStakeLamports m w.sysvars.minimumDelegation) lamportsPerPoolToken) := by
  rw [WithdrawStakeAccounts.minimumLamportsWithTolerance, Account.stakeState?_eq_some.2 hs]
  simp only [Option.bind_eq_bind, Option.bind_some, hm, hprice, Option.pure_def]

theorem plan_eq {s : StakeStateV2 Key} {m : Meta Key} {lamportsPerPoolToken : Nat}
    (hs : (w.accounts a.stakeSplitFrom.key).data = .stakeState s) (hm : s.meta? = some m)
    (hprice : w.stakePool.getLamportsPerPoolToken = some lamportsPerPoolToken) :
    a.plan rt w w.stakePool w.validatorList n =
      if a.stakeSplitFrom.key = w.stakePool.reserveStake then
        a.planReserve w m (a.hasTransientStake w || a.hasActiveStake w) n
      else
        a.planValidator rt w w.stakePool w.validatorList s (a.hasActiveStake w) (a.hasTransientStake w) n
          (minimumStakeLamports m w.sysvars.minimumDelegation) lamportsPerPoolToken := by
  simp only [WithdrawStakeAccounts.plan, readStakeState, Account.stakeState?_eq_some.2 hs, orErr, ok_bind, hm, hprice,
    WithdrawStakeAccounts.hasActiveStake, WithdrawStakeAccounts.hasTransientStake, tolerance_eq hs hm hprice,
    Option.any_some]

theorem plan_reads {plan : WithdrawPlan Key} (h : a.plan rt w w.stakePool w.validatorList n = .ok plan) :
    ∃ s m lamportsPerPoolToken, (w.accounts a.stakeSplitFrom.key).data = .stakeState s ∧ s.meta? = some m ∧
      w.stakePool.getLamportsPerPoolToken = some lamportsPerPoolToken := by
  simp only [WithdrawStakeAccounts.plan, bind_eq_ok, readStakeState_eq_ok, orErr_eq_ok] at h
  obtain ⟨s, hs, m, hm, l, hl, -⟩ := h
  exact ⟨s, m, l, hs, hm, hl⟩

theorem EntryReady.plan_eq_ok {vote : Key} {m : Meta Key} {l n' : Nat} {v : ValidatorStakeInfo Key}
    {source : StakeWithdrawSource} (h : EntryReady w a vote m l v)
    (hk : a.stakeSplitFrom.key ≠ w.stakePool.reserveStake)
    (hsource : a.withdrawSource rt v vote (a.hasActiveStake w) (a.hasTransientStake w) = .ok source)
    (hn' : WithdrawStakeAccounts.withdrawAmount source (w.accounts a.stakeSplitFrom.key).lamports n
      (minimumStakeLamports m w.sysvars.minimumDelegation) l = .ok n') :
    a.plan rt w w.stakePool w.validatorList n = .ok ⟨some (v, source), n'⟩ := by
  obtain ⟨⟨st, hs, rfl⟩, hl, hfind, hstatus, hpreferred⟩ := h
  rw [plan_eq hs rfl hl, if_neg hk]
  simp only [WithdrawStakeAccounts.planValidator, bind_eq_ok, orErr_eq_ok, ensure_eq_ok, exists_unit]
  exact ⟨_, rfl, (checkPreferredWithdraw_eq_ok (tolerance_eq hs rfl hl)).2 hpreferred, v, hfind, source, hsource,
    hstatus, n', hn', rfl⟩

theorem EntryReady.eq_of_mem {m : Meta Key} {l : Nat} {u v : ValidatorStakeInfo Key}
    (h : EntryReady w a v.voteAccountAddress m l u)
    (hvotes : (w.validatorList.validators.map (·.voteAccountAddress)).Nodup) (hv : v ∈ w.validatorList.validators) :
    u = v := by
  have hfind := h.find
  rw [ValidatorList.find_of_mem hvotes hv, Option.some.injEq] at hfind
  exact hfind.symm

theorem withdrawSource_eq_ok {v : ValidatorStakeInfo Key} {hasActive hasTransient : Bool}
    {source : StakeWithdrawSource} (hpool : a.stakePoolInfo.key = rt.stakePoolAddress) :
    a.withdrawSource rt v v.voteAccountAddress hasActive hasTransient = .ok source ↔
      hasActive = true ∧ rt.validatorStake v = a.stakeSplitFrom.key ∧ source = .active ∨
      hasActive = false ∧ (hasTransient = true ∨ v.transientStakeLamports ≠ 0) ∧
        rt.transientStake v = a.stakeSplitFrom.key ∧ source = .transient ∨
      hasActive = false ∧ hasTransient = false ∧ v.transientStakeLamports = 0 ∧
        rt.validatorStake v = a.stakeSplitFrom.key ∧ source = .validatorRemoval := by
  have hvalidator : ∀ source', (do
      checkValidatorStakeAddress rt rt.programId a.stakePoolInfo.key a.stakeSplitFrom.key v.voteAccountAddress
        (nonZeroU32 v.validatorSeedSuffix)
      return source' : Except ProgramError StakeWithdrawSource) = .ok source ↔
      rt.validatorStake v = a.stakeSplitFrom.key ∧ source = source' := fun source' => by
    simp only [bind_eq_ok, checkValidatorStakeAddress, ensure_eq_ok, exists_unit, pure_eq_ok, hpool]
    exact and_congr_right fun _ => eq_comm
  have htransient : (do
      let _ ← checkTransientStakeAddress rt rt.programId a.stakePoolInfo.key a.stakeSplitFrom.key
        v.voteAccountAddress v.transientSeedSuffix
      return .transient : Except ProgramError StakeWithdrawSource) = .ok source ↔
      rt.transientStake v = a.stakeSplitFrom.key ∧ source = .transient := by
    simp only [bind_eq_ok, checkTransientStakeAddress, ensure_eq_ok, exists_unit, pure_eq_ok, hpool]
    constructor
    · rintro ⟨-, ⟨hkey, -⟩, rfl⟩
      exact ⟨hkey, rfl⟩
    · rintro ⟨hkey, rfl⟩
      exact ⟨_, ⟨hkey, rfl⟩, rfl⟩
  rw [WithdrawStakeAccounts.withdrawSource]
  split
  next hactive => simp only [hvalidator, hactive, true_and, Bool.true_eq_false, false_and, or_false]
  next hactive =>
    rw [Bool.not_eq_true] at hactive
    split
    next h =>
      rw [htransient]
      constructor
      · intro hs
        exact .inr (.inl ⟨hactive, h, hs⟩)
      · rintro (⟨h', -⟩ | ⟨-, -, hs⟩ | ⟨-, h₁, h₂, -⟩)
        · rw [hactive] at h'
          cases h'
        · exact hs
        · rw [h₁, h₂] at h
          exact absurd h (by decide)
    next h =>
      rw [not_or, Bool.not_eq_true, not_not] at h
      simp only [hvalidator, hactive, h.1, h.2, true_and, Bool.false_eq_true, false_and, false_or, ne_eq,
        not_true_eq_false]

theorem withdrawAmount_isOk_iff {source : StakeWithdrawSource} {lamports required l : Nat} :
    (∃ n', WithdrawStakeAccounts.withdrawAmount source lamports n required l = .ok n') ↔
      if source = .validatorRemoval then lamports ≤ n ∧ n ≤ saturatingAdd 64 lamports l
      else required ≤ lamports - n := by
  cases source with
  | active | transient =>
    simp only [WithdrawStakeAccounts.withdrawAmount, bind_eq_ok, exists_unit, pure_eq_ok, exists_and_left,
      exists_eq', and_true, reduceCtorEq, if_false, saturatingSub_eq]
    exact ensure_eq_ok
  | validatorRemoval =>
    simp only [WithdrawStakeAccounts.withdrawAmount, bind_eq_ok, ensure_eq_ok, exists_unit, pure_eq_ok,
      exists_and_left, exists_eq', and_true, if_true]


/-! ## What is accepted -/

section
variable {s : WithdrawAccount Key} {v : ValidatorStakeInfo Key}

theorem passes_reserve_iff (hk : a.stakeSplitFrom.key = w.stakePool.reserveStake) :
    Passes rt w a n ↔ ReservePays w a n := by
  constructor
  · rintro ⟨plan, h⟩
    obtain ⟨st, m, l, hs, hm, hl⟩ := plan_reads h
    rw [plan_eq hs hm hl, if_pos hk] at h
    simp only [WithdrawStakeAccounts.planReserve, bind_eq_ok, ensure_eq_ok, exists_unit, Bool.or_eq_true, not_or,
      Bool.not_eq_true] at h
    exact ⟨st, m, hs, hm, by rw [hl]; rfl, h.1.2, h.1.1, h.2.1⟩
  · rintro ⟨st, m, hs, hm, hl, hactive, htransient, hle⟩
    obtain ⟨l, hl⟩ := Option.isSome_iff_exists.1 hl
    refine ⟨⟨none, n⟩, ?_⟩
    rw [plan_eq hs hm hl, if_pos hk, hactive, htransient]
    simp only [WithdrawStakeAccounts.planReserve, bind_eq_ok, ensure_eq_ok, exists_unit]
    exact ⟨by decide, hle, rfl⟩

section
variable (hl : rt.Lawful) (hvotes : (w.validatorList.validators.map (·.voteAccountAddress)).Nodup)
  (hv : v ∈ w.validatorList.validators) (hpool : a.stakePoolInfo.key = rt.stakePoolAddress)
  (haddress : a.stakeSplitFrom.key = rt.validatorStake v ∨ a.stakeSplitFrom.key = rt.transientStake v)
  (hk : a.stakeSplitFrom.key ≠ w.stakePool.reserveStake)
include hl hvotes hv hpool haddress hk

/-- The plan for the account of an entry is for that entry: its vote account is in the address. -/
theorem plan_entry_eq_ok {plan : WithdrawPlan Key} :
    a.plan rt w w.stakePool w.validatorList n = .ok plan ↔ ∃ m l source n',
      EntryReady w a v.voteAccountAddress m l v ∧
      a.withdrawSource rt v v.voteAccountAddress (a.hasActiveStake w) (a.hasTransientStake w) = .ok source ∧
      WithdrawStakeAccounts.withdrawAmount source (w.accounts a.stakeSplitFrom.key).lamports n
        (minimumStakeLamports m w.sysvars.minimumDelegation) l = .ok n' ∧ plan = ⟨some (v, source), n'⟩ := by
  constructor
  · intro h
    obtain ⟨st, m, l, hs, hm, hlp⟩ := plan_reads h
    rw [plan_eq hs hm hlp, if_neg hk] at h
    simp only [WithdrawStakeAccounts.planValidator, bind_eq_ok, orErr_eq_ok, ensure_eq_ok, exists_unit,
      pure_eq_ok] at h
    obtain ⟨d, hd, hpreferred, u, hfind, source, hsource, hstatus, n', hn', rfl⟩ := h
    rw [checkPreferredWithdraw_eq_ok (tolerance_eq hs hm hlp)] at hpreferred
    obtain ⟨hvote, pre, post, hlist, -⟩ := ValidatorList.find_split hfind
    have hu : u ∈ w.validatorList.validators := by
      rw [hlist]
      exact List.mem_append_right _ List.mem_cons_self
    rw [← hvote] at hsource
    have huv : u.voteAccountAddress = v.voteAccountAddress := by
      rcases (withdrawSource_eq_ok hpool).1 hsource with ⟨-, h, -⟩ | ⟨-, -, h, -⟩ | ⟨-, -, -, h, -⟩ <;>
        rcases haddress with haddress | haddress <;> rw [haddress] at h
      · exact validatorStake_inj hl h
      · exact absurd h (validatorStake_ne_transientStake hl u v)
      · exact absurd h.symm (validatorStake_ne_transientStake hl v u)
      · exact transientStake_inj hl h
      · exact validatorStake_inj hl h
      · exact absurd h (validatorStake_ne_transientStake hl u v)
    obtain rfl := entry_unique hvotes hv hu huv
    cases st with
    | stake m' st =>
      cases hm
      cases hd
      exact ⟨m, l, source, n', ⟨⟨st, hs, hvote.symm⟩, hlp, hvote ▸ hfind, hstatus, hvote ▸ hpreferred⟩, hsource, hn',
        rfl⟩
    | _ => cases hd
  · rintro ⟨m, l, source, n', hready, hsource, hn', rfl⟩
    exact hready.plan_eq_ok hk hsource hn'

theorem passes_validator_iff (hkey : a.stakeSplitFrom.key = rt.validatorStake v) :
    Passes rt w a n ↔ ValidatorPays w a v.voteAccountAddress n := by
  simp only [Passes, plan_entry_eq_ok hl hvotes hv hpool haddress hk]
  constructor
  · rintro ⟨plan, m, l, source, n', hready, hsource, hn', -⟩
    have hamount := withdrawAmount_isOk_iff.1 ⟨n', hn'⟩
    rcases (withdrawSource_eq_ok hpool).1 hsource with
      ⟨hactive, -, rfl⟩ | ⟨-, -, h, -⟩ | ⟨hactive, htransient, hzero, -, rfl⟩
    · exact ⟨m, l, v, hready, .inl ⟨hactive, hamount⟩⟩
    · rw [hkey] at h
      exact absurd h.symm (validatorStake_ne_transientStake hl v v)
    · exact ⟨m, l, v, hready, .inr ⟨hactive, htransient, hzero, hamount⟩⟩
  · rintro ⟨m, l, u, hready, hpays⟩
    obtain rfl := hready.eq_of_mem hvotes hv
    rcases hpays with ⟨hactive, hle⟩ | ⟨hactive, htransient, hzero, hle⟩
    · obtain ⟨n', hn'⟩ : ∃ n', WithdrawStakeAccounts.withdrawAmount .active
          (w.accounts a.stakeSplitFrom.key).lamports n (minimumStakeLamports m w.sysvars.minimumDelegation) l =
          .ok n' := withdrawAmount_isOk_iff.2 hle
      exact ⟨_, m, l, _, n', hready, (withdrawSource_eq_ok hpool).2 (.inl ⟨hactive, hkey.symm, rfl⟩), hn', rfl⟩
    · obtain ⟨n', hn'⟩ : ∃ n', WithdrawStakeAccounts.withdrawAmount .validatorRemoval
          (w.accounts a.stakeSplitFrom.key).lamports n (minimumStakeLamports m w.sysvars.minimumDelegation) l =
          .ok n' := withdrawAmount_isOk_iff.2 hle
      exact ⟨_, m, l, _, n', hready,
        (withdrawSource_eq_ok hpool).2 (.inr (.inr ⟨hactive, htransient, hzero, hkey.symm, rfl⟩)), hn', rfl⟩

theorem passes_transient_iff (hkey : a.stakeSplitFrom.key = rt.transientStake v) :
    Passes rt w a n ↔ TransientPays w a v.voteAccountAddress n := by
  simp only [Passes, plan_entry_eq_ok hl hvotes hv hpool haddress hk]
  constructor
  · rintro ⟨plan, m, l, source, n', hready, hsource, hn', -⟩
    have hamount := withdrawAmount_isOk_iff.1 ⟨n', hn'⟩
    rcases (withdrawSource_eq_ok hpool).1 hsource with ⟨-, h, -⟩ | ⟨hactive, hstake, -, rfl⟩ | ⟨-, -, -, h, -⟩
    · rw [hkey] at h
      exact absurd h (validatorStake_ne_transientStake hl v v)
    · exact ⟨m, l, v, hready, hactive, hstake, hamount⟩
    · rw [hkey] at h
      exact absurd h (validatorStake_ne_transientStake hl v v)
  · rintro ⟨m, l, u, hready, hactive, hstake, hle⟩
    obtain rfl := hready.eq_of_mem hvotes hv
    obtain ⟨n', hn'⟩ : ∃ n', WithdrawStakeAccounts.withdrawAmount .transient
        (w.accounts a.stakeSplitFrom.key).lamports n (minimumStakeLamports m w.sysvars.minimumDelegation) l =
        .ok n' := withdrawAmount_isOk_iff.2 hle
    exact ⟨_, m, l, _, n', hready,
      (withdrawSource_eq_ok hpool).2 (.inr (.inl ⟨hactive, hstake, hkey.symm, rfl⟩)), hn', rfl⟩

end

section
variable (hl : rt.Lawful) (hvotes : (w.validatorList.validators.map (·.voteAccountAddress)).Nodup)
  (hpool : a.stakePoolInfo.key = rt.stakePoolAddress) (hkey : a.stakeSplitFrom.key = s.stakeAddress)
  (hs : Listed rt w s.stakeAddress s.voteAddress)
include hl hvotes hpool hkey hs

theorem passes_iff_suits : Passes rt w a n ↔ Suits rt w a s n := by
  rw [Suits]
  split
  next hreserve => exact passes_reserve_iff (hkey.trans hreserve)
  next hk =>
    rw [← hkey] at hk
    rcases hs with ⟨v, hv, hvote, haddress⟩ | hreserve
    · rw [← hkey] at haddress
      have hsome : (∀ vote ∈ s.voteAddress, if s.stakeAddress ∈ w.validatorList.validators.map rt.validatorStake then
          ValidatorPays w a vote n else TransientPays w a vote n) ↔
          if s.stakeAddress ∈ w.validatorList.validators.map rt.validatorStake then
            ValidatorPays w a v.voteAccountAddress n
          else TransientPays w a v.voteAccountAddress n := by
        rw [hvote]
        exact ⟨fun h => h _ rfl, fun h vote heq => by cases heq; exact h⟩
      rw [hsome, ← hkey]
      by_cases hvalidator : a.stakeSplitFrom.key = rt.validatorStake v
      · rw [if_pos (hvalidator ▸ List.mem_map_of_mem hv)]
        exact passes_validator_iff hl hvotes hv hpool haddress hk hvalidator
      · have htransient := haddress.resolve_left hvalidator
        have hnot : a.stakeSplitFrom.key ∉ w.validatorList.validators.map rt.validatorStake := by
          intro hmem
          obtain ⟨u, -, hu⟩ := List.mem_map.1 hmem
          rw [htransient] at hu
          exact validatorStake_ne_transientStake hl u v hu
        rw [if_neg hnot]
        exact passes_transient_iff hl hvotes hv hpool haddress hk htransient
    · exact absurd (hkey.trans hreserve) hk

/-- The plan of the program takes from an account what it is the source of. -/
theorem sourceOf_of_plan {plan : WithdrawPlan Key} (h : a.plan rt w w.stakePool w.validatorList n = .ok plan) :
    sourceOf rt w a s n = some plan := by
  rw [sourceOf]
  split
  next hreserve =>
    obtain ⟨st, m, l, hst, hm, hlp⟩ := plan_reads h
    rw [plan_eq hst hm hlp, if_pos (hkey.trans hreserve)] at h
    simp only [WithdrawStakeAccounts.planReserve, bind_eq_ok, ensure_eq_ok, exists_unit, pure_eq_ok] at h
    rw [← h.2.2]
  next hk =>
    rcases hs with ⟨v, hv, hvote, haddress⟩ | hreserve
    · rw [← hkey] at hk haddress
      obtain ⟨m, l, source, n', hready, hsource, hn', rfl⟩ :=
        (plan_entry_eq_ok hl hvotes hv hpool haddress hk).1 h
      rw [hvote, ← hkey]
      simp only [Option.bind_eq_bind, Option.bind_some, ValidatorList.find_of_mem hvotes hv, Option.pure_def]
      rcases (withdrawSource_eq_ok hpool).1 hsource with
        ⟨hactive, haddr, rfl⟩ | ⟨-, -, haddr, rfl⟩ | ⟨hactive, -, -, haddr, rfl⟩
      all_goals
        simp only [WithdrawStakeAccounts.withdrawAmount, bind_eq_ok, exists_unit, pure_eq_ok] at hn'
        obtain ⟨-, rfl⟩ := hn'
      · rw [if_neg (not_not.2 haddr.symm), if_pos hactive]
      · rw [if_pos (haddr ▸ (validatorStake_ne_transientStake hl v v).symm)]
      · rw [if_neg (not_not.2 haddr.symm), if_neg (by rw [hactive]; exact Bool.false_ne_true)]
    · exact absurd hreserve hk

end
end
end SplStakePool
