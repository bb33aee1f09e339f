import SplStakePool.Client.Rebalance
import SplStakePool.Effect.Increase
import SplStakePool.Invariant.Delegation
import SplStakePool.Properties.MergingUpdates

/-!
# Moving stake

When an increase or a decrease that a client builds for a validator succeeds, and what it does then. The system
program and the stake program accept what they document; the rest is up to the pool.

A move is three calls, and each accepts what the one before it leaves: the transient account is created, split off the
reserve or the validator stake, and delegated or deactivated. So the accounts are written out after each call
(`splitTransient_accepts`, `splitDecrease_accepts`), and the checks of the handler are those of the state before.
`Shifted` says what is different afterwards, and that the pool can be rebalanced again is a consequence of it.
-/

namespace SplStakePool
open Exec Machine Function System

variable {Key : Type} [DecidableEq Key] [Inhabited Key] {rt : Runtime Key} {w w' : World Key} {sys : Sysvars}
  {acc acc' : Accounts Key} {votable : Key × Account Key → Prop}
  {u v : ValidatorStakeInfo Key} {lamports : Nat} {seed : UInt64}

/-- What the system program and the stake program accept while no epoch rewards are paid: an unused account is
allocated and assigned, and an authority splits, withdraws, delegates and deactivates what leaves the accounts rent
exempt and enough delegated. The vote accounts that can be delegated to are `votable`. -/
structure Runtime.Rebalances (rt : Runtime Key) (votable : Key × Account Key → Prop) : Prop where
  allocates : ∀ n a, a.owner = rt.systemProgramId → a.data = .none → ∃ r, rt.allocate n a = .ok r
  assigns : ∀ k a, a.owner = rt.systemProgramId → ∃ r, rt.assign k a = .ok r
  splitsInitialized : ∀ sys auth n src dst m, sys.epochRewardsActive = false → src.owner = rt.stakeProgramId →
    dst.owner = rt.stakeProgramId → dst.data = .stakeState .uninitialized →
    src.data = .stakeState (.initialized m) → m.authorized.staker = auth → n + m.rentExemptReserve ≤ src.lamports →
    rt.rentMinimumBalance stakeSpace ≤ dst.lamports + n → ∃ r, rt.split sys auth n src dst = .ok r
  splitsStake : ∀ sys auth n src dst m s, sys.epochRewardsActive = false → src.owner = rt.stakeProgramId →
    dst.owner = rt.stakeProgramId → dst.data = .stakeState .uninitialized → src.data = .stakeState (.stake m s) →
    m.authorized.staker = auth → 0 < n → sys.minimumDelegation ≤ n →
    n + sys.minimumDelegation ≤ s.delegation.stake → n + m.rentExemptReserve < src.lamports →
    n + m.rentExemptReserve + sys.minimumDelegation ≤ src.lamports →
    rt.rentMinimumBalance stakeSpace ≤ dst.lamports → ∃ r, rt.split sys auth n src dst = .ok r
  withdrawsInitialized : ∀ sys auth n src m, sys.epochRewardsActive = false → src.owner = rt.stakeProgramId →
    src.data = .stakeState (.initialized m) → m.authorized.withdrawer = auth → m.lockup.unixTimestamp = 0 →
    m.lockup.epoch = 0 → n + m.rentExemptReserve ≤ src.lamports → ∃ r, rt.withdraw sys auth n src = .ok r
  delegates : ∀ sys auth vote a m, sys.epochRewardsActive = false → a.owner = rt.stakeProgramId →
    a.data = .stakeState (.initialized m) → m.authorized.staker = auth → votable vote →
    m.rentExemptReserve + sys.minimumDelegation ≤ a.lamports → ∃ r, rt.delegate sys auth vote a = .ok r
  deactivates : rt.Deactivates

/-! ## Calls -/

/-- A stake account with some lamports. -/
abbrev Runtime.stakeAccount (rt : Runtime Key) (lamports : Nat) (s : StakeStateV2 Key) : Account Key :=
  ⟨lamports, rt.stakeProgramId, .stakeState s⟩

section
omit [DecidableEq Key] [Inhabited Key] in
theorem Account.eq_stakeAccount {a : Account Key} {s : StakeStateV2 Key} (ho : a.owner = rt.stakeProgramId)
    (hd : a.data = .stakeState s) : a = rt.stakeAccount a.lamports s := by
  obtain ⟨n, o, d⟩ := a
  subst ho hd
  rfl

omit [Inhabited Key]
variable {n a b : Nat} {m : Meta Key} {s : Stake Key} (src dst auth vote : AccountInfo Key)

theorem createStakeAccount_accepts (hl : rt.Lawful) (hm : rt.Rebalances votable)
    (ho : (acc dst.key).owner = rt.systemProgramId) (hd : (acc dst.key).data = .none) :
    createStakeAccount rt acc dst =
      .ok (update acc dst.key (rt.stakeAccount (acc dst.key).lamports .uninitialized)) := by
  obtain ⟨a, ha⟩ := hm.allocates stakeSpace _ ho hd
  obtain ⟨-, -, rfl⟩ := hl.allocate_ok _ _ _ ha
  obtain ⟨b, hb⟩ := hm.assigns rt.stakeProgramId { acc dst.key with data := .stakeState .uninitialized } ho
  obtain ⟨-, rfl⟩ := hl.assign_ok _ _ _ hb
  rw [createStakeAccount, ha, ok_bind, hb]
  rfl

theorem stakeSplit_initialized_accepts (hl : rt.Lawful) (hm : rt.Rebalances votable)
    (hrew : sys.epochRewardsActive = false) (hs : acc src.key = rt.stakeAccount a (.initialized m))
    (hd : acc dst.key = rt.stakeAccount b .uninitialized) (hauth : m.authorized.staker = auth.key)
    (hle : n + m.rentExemptReserve ≤ a) (hpos : 0 < m.rentExemptReserve)
    (hdle : rt.rentMinimumBalance stakeSpace ≤ b + n) :
    stakeSplit rt sys acc src auth n dst = .ok (update (update acc src.key
      (rt.stakeAccount (a - n) (.initialized m))) dst.key
      (rt.stakeAccount (b + n) (.initialized { m with rentExemptReserve := rt.rentMinimumBalance stakeSpace }))) := by
  obtain ⟨⟨x, y⟩, h⟩ := hm.splitsInitialized sys auth.key n (acc src.key) (acc dst.key) m hrew (by rw [hs])
    (by rw [hd]) (by rw [hd]) (by rw [hs]) hauth (by rw [hs]; exact hle) (by rw [hd]; exact hdle)
  have h : stakeSplit rt sys acc src auth n dst = .ok (update (update acc src.key x) dst.key y) := by
    rw [stakeSplit, h]
    rfl
  obtain ⟨-, -, -, -, -, s, t, u, hstate, hsplit, -, he⟩ := stakeSplit_ok hl h
  rw [hs, AccountData.stakeState.injEq] at hstate
  subst hstate
  cases hsplit
  rw [h, he, hs, hd, if_neg (by dsimp only; omega)]

theorem stakeSplit_stake_accepts (hl : rt.Lawful) (hm : rt.Rebalances votable)
    (hrew : sys.epochRewardsActive = false) (hs : acc src.key = rt.stakeAccount a (.stake m s))
    (hd : acc dst.key = rt.stakeAccount b .uninitialized) (hauth : m.authorized.staker = auth.key) (hpos : 0 < n)
    (hmin : sys.minimumDelegation ≤ n) (hleft : n + sys.minimumDelegation ≤ s.delegation.stake)
    (hlt : n + m.rentExemptReserve < a) (hle : n + m.rentExemptReserve + sys.minimumDelegation ≤ a)
    (hdle : rt.rentMinimumBalance stakeSpace ≤ b) :
    ∃ left moved, stakeSplit rt sys acc src auth n dst = .ok (update (update acc src.key
      (rt.stakeAccount (a - n) (.stake m (s.setStake left)))) dst.key
      (rt.stakeAccount (b + n) (.stake { m with rentExemptReserve := rt.rentMinimumBalance stakeSpace }
        (s.setStake moved)))) := by
  obtain ⟨⟨x, y⟩, h⟩ := hm.splitsStake sys auth.key n (acc src.key) (acc dst.key) m s hrew (by rw [hs]) (by rw [hd])
    (by rw [hd]) (by rw [hs]) hauth hpos hmin hleft (by rw [hs]; exact hlt) (by rw [hs]; exact hle)
    (by rw [hd]; exact hdle)
  have h : stakeSplit rt sys acc src auth n dst = .ok (update (update acc src.key x) dst.key y) := by
    rw [stakeSplit, h]
    rfl
  obtain ⟨-, -, -, -, -, s', t, u, hstate, hsplit, -, he⟩ := stakeSplit_ok hl h
  rw [hs, AccountData.stakeState.injEq] at hstate
  subst hstate
  cases hsplit with
  | stake _ _ left moved => exact ⟨left, moved, by rw [h, he, hs, hd, if_neg (by dsimp only; omega)]⟩

theorem stakeDelegate_accepts (hl : rt.Lawful) (hm : rt.Rebalances votable) (hrew : sys.epochRewardsActive = false)
    (hd : acc dst.key = rt.stakeAccount a (.initialized m)) (hauth : m.authorized.staker = auth.key)
    (hvote : votable (vote.key, acc vote.key)) (hle : m.rentExemptReserve + sys.minimumDelegation ≤ a) :
    ∃ s, s.delegation.voterPubkey = vote.key ∧ stakeDelegate rt sys acc dst vote auth =
      .ok (update acc dst.key (rt.stakeAccount a (.stake m s))) := by
  obtain ⟨x, h⟩ := hm.delegates sys auth.key (vote.key, acc vote.key) (acc dst.key) m hrew (by rw [hd]) (by rw [hd])
    hauth hvote (by rw [hd]; exact hle)
  have h : stakeDelegate rt sys acc dst vote auth = .ok (update acc dst.key x) := by
    rw [stakeDelegate, h]
    rfl
  obtain ⟨-, t, m', s, hstate, hmeta, -, hv, -, -, he⟩ := stakeDelegate_ok hl h
  rw [hd, AccountData.stakeState.injEq] at hstate
  subst hstate
  cases hmeta
  exact ⟨s, hv, by rw [h, he, hd]⟩

theorem stakeDeactivate_accepts (hl : rt.Lawful) (hm : rt.Rebalances votable) (hrew : sys.epochRewardsActive = false)
    (hd : acc dst.key = rt.stakeAccount a (.stake m s)) (hauth : m.authorized.staker = auth.key)
    (hmax : s.delegation.deactivationEpoch = epochMax) :
    stakeDeactivate rt sys acc dst auth =
      .ok (update acc dst.key (rt.stakeAccount a (.stake m (s.deactivateAt sys.epoch)))) := by
  obtain ⟨x, h⟩ := hm.deactivates sys auth.key (acc dst.key) m s hrew (by rw [hd]) (by rw [hd]) hauth hmax
  have h : stakeDeactivate rt sys acc dst auth = .ok (update acc dst.key x) := by
    rw [stakeDeactivate, h]
    rfl
  obtain ⟨-, m', s', hstate, -, he⟩ := stakeDeactivate_ok hl h
  rw [hd] at hstate
  cases hstate
  rw [h, he, hd]

theorem stakeWithdraw_accepts (hl : rt.Lawful) (hm : rt.Rebalances votable) (hrew : sys.epochRewardsActive = false)
    (hne : src.key ≠ dst.key) (hs : acc src.key = rt.stakeAccount a (.initialized m))
    (hauth : m.authorized.withdrawer = auth.key) (hlockup : m.lockup.unixTimestamp = 0 ∧ m.lockup.epoch = 0)
    (hpos : 0 < m.rentExemptReserve) (hle : n + m.rentExemptReserve ≤ a) :
    stakeWithdraw rt sys acc src auth dst n = .ok (update (update acc src.key
      (rt.stakeAccount (a - n) (.initialized m))) dst.key ((acc dst.key).credit n)) := by
  obtain ⟨x, h⟩ := hm.withdrawsInitialized sys auth.key n (acc src.key) m hrew (by rw [hs]) (by rw [hs]) hauth
    hlockup.1 hlockup.2 (by rw [hs]; exact hle)
  have h : stakeWithdraw rt sys acc src auth dst n = .ok (update (update acc src.key x) dst.key
      ((update acc src.key x dst.key).credit n)) := by
    rw [stakeWithdraw, h]
    rfl
  obtain ⟨-, -, s, m', hstate, -, -, -, x', rfl, he⟩ := stakeWithdraw_ok hl h
  rw [hs, AccountData.stakeState.injEq] at hstate
  subst hstate
  rw [h, he, hs, if_neg (by dsimp only; omega), update_of_ne hne.symm]

end

/-! ## The pool -/

variable (rt votable) in
/-- A pool, in a state of any run, that the stake program lets move stake: no epoch rewards are paid, the reserve is to
keep no more than the rent of today, and the vote accounts of the entries can be delegated to. The accounts of the pool
and of its list, the staker and the vote accounts are not derived, no vote account is the reserve, and reserve and
maximum are in range. -/
structure Rebalanceable (w : World Key) : Prop where
  reachable : (poolSystem rt).Reachable w
  rewards : w.sysvars.epochRewardsActive = false
  lamports_lt : (w.accounts w.stakePool.reserveStake).lamports < 2 ^ 63
  reserveRent : ∀ m, (w.accounts w.stakePool.reserveStake).data = .stakeState (.initialized m) →
    m.rentExemptReserve ≤ rt.rentMinimumBalance stakeSpace
  maximum_lt : ∀ M, w.stakePool.maxValidatorStake = some M → M < 2 ^ 64
  places : ¬ rt.StakePda rt.stakePoolAddress ∧ ¬ rt.StakePda rt.validatorListAddress
  staker : ¬ rt.IsPda w.stakePool.staker
  votable : ∀ v ∈ w.validatorList.validators, votable (v.voteAccountAddress, w.accounts v.voteAccountAddress)
  votes : ∀ v ∈ w.validatorList.validators, v.voteAccountAddress ≠ w.stakePool.reserveStake ∧
    ¬ rt.StakePda v.voteAccountAddress

/-- Stake was moved between the reserve and a validator: its entry `v` is replaced by `v'`, some lamports have left the
reserve, and beside it and the new transient stake account no other accounts than the ones in `touched` have changed.
An increase touches none, a decrease the validator stake account. -/
structure Shifted (rt : Runtime Key) (w w' : World Key) (v v' : ValidatorStakeInfo Key) (cost : Nat)
    (touched : List Key) : Prop where
  result : w' = { w with validatorList := w.validatorList.set v', accounts := w'.accounts }
  vote : v'.voteAccountAddress = v.voteAccountAddress
  seed : v'.validatorSeedSuffix = v.validatorSeedSuffix
  covered : cost ≤ (w.accounts w.stakePool.reserveStake).lamports
  reserve : w'.accounts w.stakePool.reserveStake = ⟨(w.accounts w.stakePool.reserveStake).lamports - cost,
    rt.stakeProgramId, (w.accounts w.stakePool.reserveStake).data⟩
  frame : Frame w.accounts w'.accounts (w.stakePool.reserveStake :: rt.transientStake v' :: touched)

namespace Rebalanceable

theorem header (hl : rt.Lawful) (hw : Rebalanceable rt votable w) : w.validatorList.header.isValid := by
  rw [ValidatorListHeader.isValid, (Roomy.of_reach hl hw.reachable).type]
  rfl

theorem find (hl : rt.Lawful) (hw : Rebalanceable rt votable w) (hv : v ∈ w.validatorList.validators) :
    w.validatorList.find v.voteAccountAddress = some v :=
  ValidatorList.find_of_mem (Inv.of_reach hl hw.reachable).core.votes hv

theorem stakeState (hl : rt.Lawful) (hw : Rebalanceable rt votable w) (hv : v ∈ w.validatorList.validators)
    (hs : v.status = StakeStatus.active.pod) {m : Meta Key} {s : Stake Key}
    (hd : (w.accounts (rt.validatorStake v)).data = .stakeState (.stake m s)) :
    PoolMeta rt m ∧ s.delegation.voterPubkey = v.voteAccountAddress := by
  have hcv := ((Inv.of_reach hl hw.reachable).core.entries v hv).of_active hs
  exact ⟨(hcv.poolState hd).poolMeta rfl,
    (AllDelegates.of_reach hl hw.reachable v hv).validator ⟨.active, hs, rfl⟩ _ ⟨m, s, hd, rfl⟩⟩

/-- The validator stake of an active entry passes its checks. -/
theorem checks (hl : rt.Lawful) (hw : Rebalanceable rt votable w) (hv : v ∈ w.validatorList.validators)
    (hs : v.status = StakeStatus.active.pod) {m : Meta Key} {s : Stake Key}
    (hd : (w.accounts (rt.validatorStake v)).data = .stakeState (.stake m s)) :
    checkValidatorStakeAccount rt w.accounts (.readonly (rt.validatorStake v)) rt.programId rt.stakePoolAddress
      rt.withdrawAuthority v.voteAccountAddress v.validatorSeedSuffix w.stakePool.lockup = .ok () := by
  have hi := Inv.of_reach hl hw.reachable
  obtain ⟨hm, hvoter⟩ := hw.stakeState hl hv hs hd
  have hne : ¬ (rt.validatorStake v = rt.stakePoolAddress ∨ rt.validatorStake v = rt.validatorListAddress) := by
    rintro (he | he)
    · exact hw.places.1 (he ▸ .validator v)
    · exact hw.places.2 (he ▸ .validator v)
  simp only [checkValidatorStakeAccount, checkAccountOwner, checkValidatorStakeAddress, checkStakeState, bind_eq_ok,
    exists_unit, ensure_eq_ok]
  refine ⟨?_, rfl, (m, s), getStakeState_eq_ok.2 hd, ?_, hvoter⟩
  · rw [AccountInfo.readonly, ownerOf, if_neg hne, ((hi.core.entries v hv).of_active hs).owner]
  · simp [stakeIsUsableByPool, hm.authorized, hm.lockup, hi.pool.lockup]

end Rebalanceable

namespace Shifted
variable {cost : Nat} {touched : List Key}

omit [Inhabited Key] in
theorem split (h : Shifted rt w w' v v' cost touched) (hfind : w.validatorList.find v.voteAccountAddress = some v) :
    ∃ pre post, w.validatorList.validators = pre ++ v :: post ∧ w'.validatorList.validators = pre ++ v' :: post := by
  obtain ⟨-, pre, post, hlist, hset⟩ := ValidatorList.find_split hfind
  exact ⟨pre, post, hlist, by rw [congrArg World.validatorList h.result, hset v' h.vote]⟩

omit [Inhabited Key] in
theorem mono {touched' : List Key} (h : Shifted rt w w' v v' cost touched) (hsub : touched ⊆ touched') :
    Shifted rt w w' v v' cost touched' :=
  ⟨h.result, h.vote, h.seed, h.covered, h.reserve,
    h.frame.mono (List.cons_subset_cons _ (List.cons_subset_cons _ hsub))⟩

omit [Inhabited Key] in
theorem same {k : Key} (h : Shifted rt w w' v v' cost [rt.validatorStake v]) (hr : k ≠ w.stakePool.reserveStake)
    (hv : k ≠ rt.validatorStake v) (ht : k ≠ rt.transientStake v') : w'.accounts k = w.accounts k :=
  h.frame k (by simp [hr, hv, ht])

end Shifted

/-! ## Increases -/

section
variable {stakeHistoryId stakeConfigId : Key}

variable (rt w) in
/-- The accounts of an increase of an entry. -/
def increaseAccounts (v : ValidatorStakeInfo Key) (seed : UInt64) : IncreaseValidatorStakeAccounts Key where
  stakePoolInfo := .readonly rt.stakePoolAddress
  stakerInfo := .readonlySigner w.stakePool.staker
  withdrawAuthorityInfo := .readonly rt.withdrawAuthority
  validatorListInfo := .writable w.stakePool.validatorList
  reserveStakeAccountInfo := .writable w.stakePool.reserveStake
  maybeEphemeral := none
  transientStakeAccountInfo := .writable (rt.transientStake { v with transientSeedSuffix := seed })
  validatorStakeAccountInfo := .readonly (rt.validatorStake v)
  validatorVoteAccountInfo := .readonly v.voteAccountAddress
  systemProgramInfo := .readonly rt.systemProgramId
  stakeProgramInfo := .readonly rt.stakeProgramId

variable (rt w stakeHistoryId stakeConfigId) in
/-- The increase that a client builds for an entry. -/
abbrev increaseOf (v : ValidatorStakeInfo Key) (lamports : Nat) (seed : UInt64) : Instruction Key :=
  increaseValidatorStakeWithVote rt stakeHistoryId stakeConfigId rt.programId w.stakePool rt.stakePoolAddress
    v.voteAccountAddress lamports (nonZeroU32 v.validatorSeedSuffix) seed

omit [Inhabited Key] in
theorem parse_increaseOf : (IncreaseValidatorStakeAccounts.parse rt none).run
    (increaseOf rt w stakeHistoryId stakeConfigId v lamports seed).accounts =
      .ok (increaseAccounts rt w v seed, []) := by
  simp only [StateT.run, IncreaseValidatorStakeAccounts.parse, nextAccountInfo_bind, nextSysvar_bind,
    increaseValidatorStakeWithVote, increaseValidatorStake, Option.isNone_none, if_true, pure_bind]
  exact ⟨_, _, rfl, _, _, rfl, _, _, rfl, _, _, rfl, _, _, rfl, _, _, rfl, _, _, rfl, _, _, rfl, _, _, rfl, rfl,
    _, _, rfl, rfl, _, _, rfl, _, _, rfl, _, _, rfl, _, _, rfl, rfl⟩

theorem execute_increaseOf : (increaseOf rt w stakeHistoryId stakeConfigId v lamports seed).execute rt w =
    (increaseAccounts rt w v seed).process rt w lamports seed := by
  have h : (IncreaseValidatorStakeAccounts.parse rt none).run
    (increaseOf rt w stakeHistoryId stakeConfigId v lamports seed).accounts = _ := parse_increaseOf
  show processIncreaseValidatorStake rt w _ lamports seed none = _
  rw [processIncreaseValidatorStake, h, ok_bind]

theorem step_increaseOf (hs : ¬ rt.IsPda w.stakePool.staker)
    (h : (increaseOf rt w stakeHistoryId stakeConfigId v lamports seed).execute rt w = .ok w') :
    ∃ l, Step rt w l w' := by
  refine ⟨_, .instruction ?_ h⟩
  simpa [NoPdaSigner, increaseValidatorStakeWithVote, increaseValidatorStake, AccountInfo.readonly,
    AccountInfo.writable, AccountInfo.readonlySigner] using hs

variable (rt w) in
/-- What an increase of an entry takes, beside the accounts. -/
structure Increasable (v : ValidatorStakeInfo Key) (lamports : Nat) (seed : UInt64) : Prop where
  fresh : w.sysvars.epoch ≤ w.stakePool.lastUpdateEpoch
  status : v.status = StakeStatus.active.pod
  idle : v.transientStakeLamports = 0
  delegated : ∃ m s, (w.accounts (rt.validatorStake v)).data = .stakeState (.stake m s)
  unused : (w.accounts (rt.transientStake { v with transientSeedSuffix := seed })).owner = rt.systemProgramId ∧
    (w.accounts (rt.transientStake { v with transientSeedSuffix := seed })).data = .none
  maximum : ∀ M, w.stakePool.maxValidatorStake = some M → v.activeStakeLamports + lamports ≤ M
  minimum : minimumDelegation w.sysvars.minimumDelegation ≤ lamports
  funded : lamports + rt.rentMinimumBalance stakeSpace + rt.rentMinimumBalance stakeSpace ≤
    (w.accounts w.stakePool.reserveStake).lamports

/-- The entry after an increase. -/
def ValidatorStakeInfo.increased (rt : Runtime Key) (v : ValidatorStakeInfo Key) (lamports : Nat) (seed : UInt64) :
    ValidatorStakeInfo Key :=
  { v with
    transientStakeLamports := lamports + rt.rentMinimumBalance stakeSpace
    transientSeedSuffix := seed }

omit [Inhabited Key] in
theorem IncreaseValidatorStakeAccounts.splitTransient_of {a : IncreaseValidatorStakeAccounts Key}
    {info : AccountInfo Key} {n : Nat} {m : Meta Key} {acc₁ acc₂ : Accounts Key}
    (hcreate : createStakeAccount rt acc a.transientStakeAccountInfo = .ok acc₁)
    (hsplit : stakeSplit rt w.sysvars acc₁ info a.withdrawAuthorityInfo n a.transientStakeAccountInfo = .ok acc₂)
    (hd : (acc₂ a.transientStakeAccountInfo.key).data = .stakeState (.initialized m))
    (hdelegate : stakeDelegate rt w.sysvars acc₂ a.transientStakeAccountInfo a.validatorVoteAccountInfo
      a.withdrawAuthorityInfo = .ok acc') : a.splitTransient rt w acc info n = .ok acc' := by
  simp only [splitTransient, bind_eq_ok, readStakeState_eq_ok]
  exact ⟨acc₁, hcreate, acc₂, hsplit, _, hd, hdelegate⟩

theorem splitTransient_accepts (hl : rt.Lawful) (hm : rt.Rebalances votable) (hw : Rebalanceable rt votable w)
    (hv : v ∈ w.validatorList.validators) (h : Increasable rt w v lamports seed) :
    ∃ acc', (increaseAccounts rt w v seed).splitTransient rt w w.accounts (.writable w.stakePool.reserveStake)
        (lamports + rt.rentMinimumBalance stakeSpace) = .ok acc' ∧
      acc' w.stakePool.reserveStake = ⟨(w.accounts w.stakePool.reserveStake).lamports -
        (lamports + rt.rentMinimumBalance stakeSpace), rt.stakeProgramId,
        (w.accounts w.stakePool.reserveStake).data⟩ ∧
      Frame w.accounts acc' [w.stakePool.reserveStake, rt.transientStake { v with transientSeedSuffix := seed }] := by
  obtain ⟨howner, hnone⟩ := h.unused
  have hfunded := h.funded
  have hmin : w.sysvars.minimumDelegation ≤ lamports := (Nat.le_max_left _ _).trans h.minimum
  have hc := (Inv.of_reach hl hw.reachable).core
  have hreserve := hc.reserve_ok
  obtain ⟨hvr, hvp⟩ := hw.votes v hv
  obtain ⟨m, hmr, hpm, -⟩ := hreserve.state
  have hmle := hw.reserveRent m hmr
  have hR := Account.eq_stakeAccount hreserve.owner hmr
  set t := rt.transientStake { v with transientSeedSuffix := seed } with ht
  set r := w.stakePool.reserveStake with hr
  have htr : t ≠ r := fun he => hc.reserve_pda (he ▸ .transient _)
  have hvt : v.voteAccountAddress ≠ t := fun he => hvp (he ▸ .transient _)
  have hauth : m.authorized.staker = rt.withdrawAuthority := by rw [hpm.authorized]
  have hcreate := createStakeAccount_accepts (.writable t) hl hm howner hnone
  set acc₁ := update w.accounts t (rt.stakeAccount (w.accounts t).lamports .uninitialized) with h₁
  -- the transient account is initialized with the rent
  have hr₁ : acc₁ r = _ := (update_of_ne htr.symm _ _).trans hR
  have ht₁ : acc₁ t = _ := update_self t _ w.accounts
  set n := lamports + rt.rentMinimumBalance stakeSpace with hn
  set acc₂ := update (update acc₁ r (rt.stakeAccount ((w.accounts r).lamports - n) (.initialized m))) t
    (rt.stakeAccount ((w.accounts t).lamports + n)
      (.initialized { m with rentExemptReserve := rt.rentMinimumBalance stakeSpace })) with h₂
  have hsplit : stakeSplit rt w.sysvars acc₁ (.writable r) (.readonly rt.withdrawAuthority) n (.writable t) =
      .ok acc₂ :=
    stakeSplit_initialized_accepts (.writable r) (.writable t) (.readonly rt.withdrawAuthority) hl hm hw.rewards hr₁ ht₁
      hauth (by omega) hpm.rent (by omega)
  have ht₂ : acc₂ t = _ := update_self t _ _
  have hvote : votable (v.voteAccountAddress, acc₂ v.voteAccountAddress) := by
    rw [h₂, update_of_ne hvt, update_of_ne hvr, h₁, update_of_ne hvt]
    exact hw.votable v hv
  obtain ⟨s, -, hdelegate⟩ := stakeDelegate_accepts (.writable t) (.readonly rt.withdrawAuthority)
    (.readonly v.voteAccountAddress) hl hm hw.rewards ht₂ hauth hvote (by dsimp only; omega)
  refine ⟨_, IncreaseValidatorStakeAccounts.splitTransient_of hcreate hsplit (congrArg Account.data ht₂) hdelegate, ?_,
    fun k hk => ?_⟩
  · dsimp only [AccountInfo.writable]
    rw [update_of_ne htr.symm, h₂, update_of_ne htr.symm, update_self, hmr]
  · simp only [List.mem_cons, List.not_mem_nil, or_false, not_or] at hk
    dsimp only [AccountInfo.writable]
    rw [update_of_ne hk.2, h₂, update_of_ne hk.2, update_of_ne hk.1, h₁, update_of_ne hk.2]

omit [DecidableEq Key] [Inhabited Key] in
theorem checkMaxValidatorStake_accepts {maxValidatorStake : Option Nat}
    (h : ∀ M, maxValidatorStake = some M →
      M < 2 ^ 64 ∧ v.activeStakeLamports + v.transientStakeLamports + lamports ≤ M) :
    IncreaseValidatorStakeAccounts.checkMaxValidatorStake maxValidatorStake v lamports = .ok () := by
  cases maxValidatorStake with
  | none => rfl
  | some M =>
    obtain ⟨hlt, hle⟩ := h M rfl
    simp only [IncreaseValidatorStakeAccounts.checkMaxValidatorStake, ValidatorStakeInfo.stakeLamports, bind_eq_ok,
      orErr_eq_ok, checkedAdd_eq_some, ensure_eq_ok]
    exact ⟨_, ⟨by omega, rfl⟩, _, ⟨by omega, rfl⟩, hle⟩

theorem Increasable.succeeds (hl : rt.Lawful) (hm : rt.Rebalances votable) (hw : Rebalanceable rt votable w)
    (hv : v ∈ w.validatorList.validators) (h : Increasable rt w v lamports seed) :
    ∃ w', (increaseAccounts rt w v seed).process rt w lamports seed = .ok w' ∧
      Shifted rt w w' v (v.increased rt lamports seed) (lamports + rt.rentMinimumBalance stakeSpace) [] := by
  have hi := Inv.of_reach hl hw.reachable
  have hfunded := h.funded
  have hlt := hw.lamports_lt
  have hpos := hl.rent_pos
  obtain ⟨mv, sv, hdv⟩ := h.delegated
  obtain ⟨hpv, hvoter⟩ := hw.stakeState hl hv h.status hdv
  have hcv := (hi.core.entries v hv).of_active h.status
  have htotal : saturatingAdd 64 lamports (rt.rentMinimumBalance stakeSpace) =
      lamports + rt.rentMinimumBalance stakeSpace := by
    simp only [saturatingAdd, maxValue]
    omega
  obtain ⟨acc', hsplit, hreserve, hframe⟩ := splitTransient_accepts hl hm hw hv h
  refine ⟨{ w with validatorList := w.validatorList.set (v.increased rt lamports seed), accounts := acc' }, ?_, ?_⟩
  swap
  · exact ⟨rfl, rfl, rfl, by omega, hreserve, hframe⟩
  simp only [IncreaseValidatorStakeAccounts.process, bind_eq_ok, ensure_eq_ok, orErr_eq_ok, exists_unit, pure_eq_ok,
    World.validStakePool_eq_ok, World.validValidatorList_eq_ok, StakePool.checkReserveStake,
    checkTransientStakeAddress, checkedAdd_eq_some, checkSystemProgram, checkStakeProgram]
  refine ⟨rfl, rfl, _, ⟨rfl, hi.pool.valid, rfl⟩, (StakePool.checkAuthorityWithdraw_eq_ok hl hi.pool.bump).2 rfl, ?_,
    h.fresh, ensure_eq_ok.2 rfl, rfl, _, ⟨hi.pool.list, hw.header hl, rfl⟩, v, hw.find hl hv, ?_,
    hw.checks hl hv h.status hdv, h.status, ?_, h.minimum, ?_, (w.accounts, .writable w.stakePool.reserveStake), rfl, _,
    ⟨rfl, rfl⟩, acc', ?_, _, ⟨?_, rfl⟩, ?_⟩
  · simp only [StakePool.checkStaker, StakePool.checkSigned, bind_eq_ok, exists_unit, ensure_eq_ok]
    exact ⟨rfl, rfl⟩
  · rw [IncreaseValidatorStakeAccounts.checkTransient, h.idle, if_neg (Nat.lt_irrefl 0)]
  · exact checkMaxValidatorStake_accepts fun M hM =>
      ⟨hw.maximum_lt M hM, by rw [h.idle]; exact h.maximum M hM⟩
  · rw [htotal]
    show _ ≤ (w.accounts w.stakePool.reserveStake).lamports - _
    omega
  · rw [if_neg (by rw [h.idle]; decide), htotal]
    exact hsplit
  · rw [h.idle, htotal]
    omega
  · rw [h.idle, htotal, Nat.zero_add]
    rfl

/-- What a successful increase has checked. -/
theorem Increasable.of_process (hl : rt.Lawful) (hw : Rebalanceable rt votable w) (hv : v ∈ w.validatorList.validators)
    (h : (increaseAccounts rt w v seed).process rt w lamports seed = .ok w') : Increasable rt w v lamports seed := by
  obtain ⟨u, acc₁, src, hok⟩ := IncreaseValidatorStakeAccounts.process_ok h
  obtain rfl : u = v := Option.some.inj (hok.find.symm.trans (hw.find hl hv))
  have hlt := hw.lamports_lt
  have hpos := hl.rent_pos
  obtain ⟨hidle, hnew⟩ : u.transientStakeLamports = 0 ∧ IncreaseValidatorStakeAccounts.NewTransient rt w
      (increaseAccounts rt w u seed) (increaseLamports rt lamports) acc₁ src w'.accounts := by
    rcases hok.transient with ⟨-, -, he, -⟩ | hnew
    · cases he
    · exact hnew
  obtain ⟨hcreate, -, -, -⟩ := hnew
  have hsource : acc₁ = w.accounts := by
    cases hok.source with
    | reserve => rfl
    | ephemeral he => cases he
  subst hsource
  obtain ⟨howner, hnone, -⟩ := createStakeAccount_ok hl hcreate
  -- the reserve keeps its rent
  have hle : rt.rentMinimumBalance stakeSpace ≤
      (w.accounts w.stakePool.reserveStake).lamports - increaseLamports rt lamports := hok.reserve_le
  refine ⟨hok.fresh, hok.status, hidle, ?_, ⟨howner, hnone⟩, fun M hM => ?_, hok.minimum, ?_⟩
  · simp only [IncreaseValidatorStakeAccounts.process, bind_eq_ok, exists_unit, checkValidatorStakeAccount,
      checkStakeState] at h
    obtain ⟨-, -, _, -, -, -, -, -, -, _, -, _, -, -, ⟨-, -, ⟨m, s⟩, hd, -⟩, -⟩ := h
    exact ⟨m, s, getStakeState_eq_ok.1 hd⟩
  · have hmax := hok.max M hM
    omega
  · simp only [increaseLamports, saturatingAdd, maxValue] at hle
    omega

/-- In every state of every run of a pool that can be rebalanced, the increase that a client builds for an entry
succeeds if and only if the pool is up to date, the entry is active and has no transient stake, its validator stake is
delegated, the transient address is not used, and the amount is enough, not too much, and available. Only the entry, the
reserve and the new transient stake account change then. -/
theorem increase_succeeds_iff (hl : rt.Lawful) (hm : rt.Rebalances votable) (hw : Rebalanceable rt votable w)
    (hv : v ∈ w.validatorList.validators) :
    ((∃ w', (increaseOf rt w stakeHistoryId stakeConfigId v lamports seed).execute rt w = .ok w') ↔
      Increasable rt w v lamports seed) ∧
    ∀ w', (increaseOf rt w stakeHistoryId stakeConfigId v lamports seed).execute rt w = .ok w' →
      Shifted rt w w' v (v.increased rt lamports seed) (lamports + rt.rentMinimumBalance stakeSpace) [] := by
  rw [execute_increaseOf]
  refine ⟨⟨fun ⟨w', h⟩ => .of_process hl hw hv h, fun h => ?_⟩, fun w' h => ?_⟩
  · obtain ⟨w', h, -⟩ := h.succeeds hl hm hw hv
    exact ⟨w', h⟩
  · obtain ⟨w₁, h₁, hs⟩ := (Increasable.of_process hl hw hv h).succeeds hl hm hw hv
    obtain rfl := Except.ok.inj (h.symm.trans h₁)
    exact hs

end

/-! ## Decreases -/

section
variable {stakeHistoryId : Key}

variable (rt w) in
/-- The accounts of a decrease of an entry. -/
def decreaseAccounts (v : ValidatorStakeInfo Key) (seed : UInt64) : DecreaseValidatorStakeAccounts Key where
  stakePoolInfo := .readonly rt.stakePoolAddress
  stakerInfo := .readonlySigner w.stakePool.staker
  withdrawAuthorityInfo := .readonly rt.withdrawAuthority
  validatorListInfo := .writable w.stakePool.validatorList
  maybeReserveStakeInfo := some (.writable w.stakePool.reserveStake)
  validatorStakeAccountInfo := .writable (rt.validatorStake v)
  maybeEphemeral := none
  transientStakeAccountInfo := .writable (rt.transientStake { v with transientSeedSuffix := seed })
  hasStakeHistoryInfo := true
  systemProgramInfo := .readonly rt.systemProgramId
  stakeProgramInfo := .readonly rt.stakeProgramId

variable (rt w stakeHistoryId) in
/-- The decrease that a client builds for an entry. -/
abbrev decreaseOf (v : ValidatorStakeInfo Key) (lamports : Nat) (seed : UInt64) : Instruction Key :=
  decreaseValidatorStakeWithVote rt stakeHistoryId rt.programId w.stakePool rt.stakePoolAddress v.voteAccountAddress
    lamports (nonZeroU32 v.validatorSeedSuffix) seed

omit [Inhabited Key] in
theorem parse_decreaseOf : (DecreaseValidatorStakeAccounts.parse rt none true).run
    (decreaseOf rt w stakeHistoryId v lamports seed).accounts = .ok (decreaseAccounts rt w v seed, []) := by
  simp only [StateT.run, DecreaseValidatorStakeAccounts.parse, nextAccountInfo_bind, nextSysvar_bind,
    decreaseValidatorStakeWithVote, decreaseValidatorStakeWithReserve, Option.isSome_none, Bool.or_true, if_true,
    map_eq_pure_bind, bind_assoc, pure_bind]
  exact ⟨_, _, rfl, _, _, rfl, _, _, rfl, _, _, rfl, _, _, rfl, _, _, rfl, _, _, rfl, _, _, rfl, rfl, _, _, rfl,
    _, _, rfl, _, _, rfl, rfl⟩

theorem execute_decreaseOf : (decreaseOf rt w stakeHistoryId v lamports seed).execute rt w =
    (decreaseAccounts rt w v seed).process rt w lamports seed := by
  have h : (DecreaseValidatorStakeAccounts.parse rt none true).run
    (decreaseOf rt w stakeHistoryId v lamports seed).accounts = _ := parse_decreaseOf
  show processDecreaseValidatorStake rt w _ lamports seed none true = _
  rw [processDecreaseValidatorStake, h, ok_bind]

theorem step_decreaseOf (hs : ¬ rt.IsPda w.stakePool.staker)
    (h : (decreaseOf rt w stakeHistoryId v lamports seed).execute rt w = .ok w') : ∃ l, Step rt w l w' := by
  refine ⟨_, .instruction ?_ h⟩
  simpa [NoPdaSigner, decreaseValidatorStakeWithVote, decreaseValidatorStakeWithReserve, AccountInfo.readonly,
    AccountInfo.writable, AccountInfo.readonlySigner] using hs

variable (rt w) in
/-- What a decrease of an entry takes, beside the accounts. The stake is not deactivated, and what is left of it is
enough. -/
structure Decreasable (v : ValidatorStakeInfo Key) (lamports : Nat) (seed : UInt64) : Prop where
  fresh : w.sysvars.epoch ≤ w.stakePool.lastUpdateEpoch
  status : v.status = StakeStatus.active.pod
  idle : v.transientStakeLamports = 0
  delegated : ∃ m s, (w.accounts (rt.validatorStake v)).data = .stakeState (.stake m s) ∧
    s.delegation.deactivationEpoch = epochMax ∧ lamports + w.sysvars.minimumDelegation ≤ s.delegation.stake ∧
    lamports + m.rentExemptReserve + minimumDelegation w.sysvars.minimumDelegation ≤
      (w.accounts (rt.validatorStake v)).lamports
  unused : (w.accounts (rt.transientStake { v with transientSeedSuffix := seed })).owner = rt.systemProgramId ∧
    (w.accounts (rt.transientStake { v with transientSeedSuffix := seed })).data = .none
  minimum : minimumDelegation w.sysvars.minimumDelegation ≤ lamports
  active_le : lamports ≤ v.activeStakeLamports
  funded : rt.rentMinimumBalance stakeSpace + rt.rentMinimumBalance stakeSpace ≤
    (w.accounts w.stakePool.reserveStake).lamports

/-- The rent that is missing on a transient account. -/
def missingRent (rt : Runtime Key) (acc : Accounts Key) (t : Key) : Nat :=
  rt.rentMinimumBalance stakeSpace - (acc t).lamports

theorem fundTransientRent_accepts (src : AccountInfo Key) (lamports : Nat) {a : DecreaseValidatorStakeAccounts Key}
    (info : AccountInfo Key) {m : Meta Key} {b c : Nat} (hl : rt.Lawful) (hm : rt.Rebalances votable)
    (hrew : w.sysvars.epochRewardsActive = false) (hreserve : a.maybeReserveStakeInfo = some src)
    (hhistory : a.hasStakeHistoryInfo = true) (hne : src.key ≠ a.transientStakeAccountInfo.key)
    (hs : acc src.key = rt.stakeAccount b (.initialized m))
    (ht : acc a.transientStakeAccountInfo.key = rt.stakeAccount c .uninitialized) (hpool : PoolMeta rt m)
    (hauth : a.withdrawAuthorityInfo.key = rt.withdrawAuthority) (hpart : (acc info.key).lamports ≠ lamports)
    (hle : rt.rentMinimumBalance stakeSpace + m.rentExemptReserve ≤ b) :
    ∃ acc', a.fundTransientRent rt w acc info lamports = .ok acc' ∧
      acc' src.key = rt.stakeAccount (b - (rt.rentMinimumBalance stakeSpace - c)) (.initialized m) ∧
      acc' a.transientStakeAccountInfo.key = rt.stakeAccount (max (rt.rentMinimumBalance stakeSpace) c) .uninitialized ∧
      Frame acc acc' [src.key, a.transientStakeAccountInfo.key] := by
  have hpos := hpool.rent
  have hlt : rt.rentMinimumBalance stakeSpace - c < (acc src.key).lamports := by
    rw [hs]
    dsimp only
    omega
  simp only [DecreaseValidatorStakeAccounts.fundTransientRent, hreserve, if_pos hpart, hhistory, ht, saturatingSub_eq,
    hlt, ensure, if_true, ok_bind]
  by_cases h0 : rt.rentMinimumBalance stakeSpace - c > 0
  · have h := stakeWithdraw_accepts src a.transientStakeAccountInfo a.withdrawAuthorityInfo
      (n := rt.rentMinimumBalance stakeSpace - c) hl hm hrew hne hs (by rw [hpool.authorized, hauth])
      (by rw [hpool.lockup]; exact ⟨rfl, rfl⟩) hpos (by omega)
    rw [if_pos h0, h, ht]
    refine ⟨_, rfl, ?_, ?_, fun k hk => ?_⟩
    · rw [update_of_ne hne, update_self]
    · rw [update_self, Account.credit, show c + (rt.rentMinimumBalance stakeSpace - c) =
        max (rt.rentMinimumBalance stakeSpace) c by omega]
    · simp only [List.mem_cons, List.not_mem_nil, or_false, not_or] at hk
      rw [update_of_ne hk.2, update_of_ne hk.1]
  · rw [if_neg h0]
    refine ⟨acc, rfl, ?_, ?_, fun _ _ => rfl⟩
    · rw [hs, show b - (rt.rentMinimumBalance stakeSpace - c) = b by omega]
    · rw [ht, show max (rt.rentMinimumBalance stakeSpace) c = c by omega]

/-- The entry after a decrease. -/
def ValidatorStakeInfo.decreased (rt : Runtime Key) (acc : Accounts Key) (v : ValidatorStakeInfo Key) (lamports : Nat)
    (seed : UInt64) : ValidatorStakeInfo Key :=
  { v with
    activeStakeLamports := v.activeStakeLamports - lamports
    transientStakeLamports := max (rt.rentMinimumBalance stakeSpace)
      (acc (rt.transientStake { v with transientSeedSuffix := seed })).lamports + lamports
    transientSeedSuffix := seed }

omit [Inhabited Key] in
theorem DecreaseValidatorStakeAccounts.splitTransient_of {a : DecreaseValidatorStakeAccounts Key}
    {info : AccountInfo Key} {n : Nat} {m : Meta Key} {s : Stake Key} {acc₁ acc₂ acc₃ : Accounts Key}
    (hcreate : createStakeAccount rt acc a.transientStakeAccountInfo = .ok acc₁)
    (hfund : a.fundTransientRent rt w acc₁ info n = .ok acc₂)
    (hsplit : stakeSplit rt w.sysvars acc₂ info a.withdrawAuthorityInfo n a.transientStakeAccountInfo = .ok acc₃)
    (hd : (acc₃ a.transientStakeAccountInfo.key).data = .stakeState (.stake m s))
    (hmax : s.delegation.deactivationEpoch = epochMax)
    (hdeactivate : stakeDeactivate rt w.sysvars acc₃ a.transientStakeAccountInfo a.withdrawAuthorityInfo = .ok acc') :
    a.splitTransient rt w acc info n = .ok acc' := by
  simp only [splitTransient, bind_eq_ok]
  exact ⟨acc₁, hcreate, acc₂, hfund, acc₃, hsplit, (m, s), getStakeState_eq_ok.2 hd,
    by rw [if_pos hmax]; exact hdeactivate⟩

theorem splitDecrease_accepts (hl : rt.Lawful) (hm : rt.Rebalances votable) (hw : Rebalanceable rt votable w)
    (hv : v ∈ w.validatorList.validators) (h : Decreasable rt w v lamports seed) :
    ∃ acc', (decreaseAccounts rt w v seed).splitTransient rt w w.accounts (.writable (rt.validatorStake v)) lamports =
        .ok acc' ∧
      acc' w.stakePool.reserveStake = ⟨(w.accounts w.stakePool.reserveStake).lamports -
        missingRent rt w.accounts (rt.transientStake { v with transientSeedSuffix := seed }), rt.stakeProgramId,
        (w.accounts w.stakePool.reserveStake).data⟩ ∧
      (acc' (rt.transientStake { v with transientSeedSuffix := seed })).lamports =
        (v.decreased rt w.accounts lamports seed).transientStakeLamports ∧
      Frame w.accounts acc' [w.stakePool.reserveStake, rt.transientStake { v with transientSeedSuffix := seed },
        rt.validatorStake v] := by
  obtain ⟨howner, hnone⟩ := h.unused
  obtain ⟨mv, sv, hdv, hmax, hleft, hremain⟩ := h.delegated
  have hfunded := h.funded
  have hdel : w.sysvars.minimumDelegation ≤ minimumDelegation w.sysvars.minimumDelegation := Nat.le_max_left _ _
  have hmin := hdel.trans h.minimum
  have hactive : 0 < minimumDelegation w.sysvars.minimumDelegation := by
    simp only [minimumDelegation, minimumActiveStake]
    omega
  have hpos : 0 < lamports := Nat.lt_of_lt_of_le hactive h.minimum
  have hc := (Inv.of_reach hl hw.reachable).core
  have hreserve := hc.reserve_ok
  obtain ⟨m, hmr, hpm, -⟩ := hreserve.state
  have hmle := hw.reserveRent m hmr
  have hR := Account.eq_stakeAccount hreserve.owner hmr
  have hV := Account.eq_stakeAccount ((hc.entries v hv).of_active h.status).owner hdv
  obtain ⟨hpv, -⟩ := hw.stakeState hl hv h.status hdv
  set t := rt.transientStake { v with transientSeedSuffix := seed } with ht
  set r := w.stakePool.reserveStake with hr
  have htr : t ≠ r := fun he => hc.reserve_pda (he ▸ .transient _)
  have hvr : rt.validatorStake v ≠ r := fun he => hc.reserve_pda (he ▸ .validator _)
  have hvt : rt.validatorStake v ≠ t := validatorStake_ne_transientStake hl _ _
  have hcreate := createStakeAccount_accepts (.writable t) hl hm howner hnone
  set acc₁ := update w.accounts t (rt.stakeAccount (w.accounts t).lamports .uninitialized) with h₁
  have hr₁ : acc₁ r = _ := (update_of_ne htr.symm _ _).trans hR
  have ht₁ : acc₁ t = _ := update_self t _ w.accounts
  obtain ⟨acc₂, hfund, hr₂, ht₂, hframe₂⟩ := fundTransientRent_accepts (w := w) (.writable r) lamports
    (a := decreaseAccounts rt w v seed) (.writable (rt.validatorStake v)) hl hm hw.rewards rfl rfl htr.symm hr₁ ht₁ hpm
    rfl (by rw [AccountInfo.writable, h₁, update_of_ne hvt]; omega) (by omega)
  have hv₂ : acc₂ (rt.validatorStake v) = w.accounts (rt.validatorStake v) :=
    (hframe₂ _ (by simp [decreaseAccounts, AccountInfo.writable, ← ht, hvr, hvt])).trans (update_of_ne hvt _ _)
  obtain ⟨left, moved, hsplit⟩ := stakeSplit_stake_accepts (.writable (rt.validatorStake v)) (.writable t)
    (.readonly rt.withdrawAuthority) hl hm hw.rewards (hv₂.trans hV) ht₂ (by rw [hpv.authorized]; rfl) hpos hmin hleft
    (by omega) (by omega) (Nat.le_max_left _ _)
  set acc₃ := update (update acc₂ (rt.validatorStake v)
    (rt.stakeAccount ((w.accounts (rt.validatorStake v)).lamports - lamports) (.stake mv (sv.setStake left)))) t
    (rt.stakeAccount (max (rt.rentMinimumBalance stakeSpace) (w.accounts t).lamports + lamports)
      (.stake { mv with rentExemptReserve := rt.rentMinimumBalance stakeSpace } (sv.setStake moved))) with h₃
  have ht₃ : acc₃ t = _ := update_self t _ _
  have hdeactivate := stakeDeactivate_accepts (.writable t) (.readonly rt.withdrawAuthority) hl hm hw.rewards ht₃
    (by rw [hpv.authorized]; rfl) hmax
  refine ⟨_, DecreaseValidatorStakeAccounts.splitTransient_of hcreate hfund hsplit (congrArg Account.data ht₃) hmax
    hdeactivate, ?_, ?_, fun k hk => ?_⟩
  · dsimp only [AccountInfo.writable]
    rw [update_of_ne htr.symm, h₃, update_of_ne htr.symm, update_of_ne hvr.symm, hmr]
    exact hr₂
  · dsimp only [AccountInfo.writable]
    rw [update_self, ValidatorStakeInfo.decreased, ht]
  · simp only [List.mem_cons, List.not_mem_nil, or_false, not_or] at hk
    dsimp only [AccountInfo.writable]
    rw [update_of_ne hk.2.1, h₃, update_of_ne hk.2.1, update_of_ne hk.2.2,
      hframe₂ k (by simp [decreaseAccounts, AccountInfo.writable, ← ht, hk.1, hk.2.1]), h₁, update_of_ne hk.2.1]

theorem Decreasable.succeeds (hl : rt.Lawful) (hm : rt.Rebalances votable) (hw : Rebalanceable rt votable w)
    (hv : v ∈ w.validatorList.validators) (h : Decreasable rt w v lamports seed) :
    ∃ w', (decreaseOf rt w stakeHistoryId v lamports seed).execute rt w = .ok w' ∧
      Shifted rt w w' v (v.decreased rt w.accounts lamports seed)
        (missingRent rt w.accounts (rt.transientStake { v with transientSeedSuffix := seed })) [rt.validatorStake v] := by
  have hi := Inv.of_reach hl hw.reachable
  have hfunded := h.funded
  obtain ⟨mv, sv, hdv, hmax, hleft, hremain⟩ := h.delegated
  obtain ⟨hpv, hvoter⟩ := hw.stakeState hl hv h.status hdv
  obtain ⟨acc', hsplit, hreserve, ht, hframe⟩ := splitDecrease_accepts hl hm hw hv h
  rw [execute_decreaseOf]
  refine ⟨{ w with validatorList := w.validatorList.set (v.decreased rt w.accounts lamports seed), accounts := acc' },
    ?_, ?_⟩
  swap
  · exact ⟨rfl, rfl, rfl, by simp only [missingRent]; omega, hreserve, hframe⟩
  simp only [DecreaseValidatorStakeAccounts.process, bind_eq_ok, ensure_eq_ok, orErr_eq_ok, exists_unit, pure_eq_ok,
    World.validStakePool_eq_ok, World.validValidatorList_eq_ok, checkValidatorStakeAddress,
    checkTransientStakeAddress, DecreaseValidatorStakeAccounts.checkRemaining_eq_ok, checkedSub_eq_some,
    checkSystemProgram, checkStakeProgram]
  refine ⟨rfl, rfl, _, ⟨rfl, hi.pool.valid, rfl⟩, (StakePool.checkAuthorityWithdraw_eq_ok hl hi.pool.bump).2 rfl, ?_,
    h.fresh, ensure_eq_ok.2 rfl, _, ⟨hi.pool.list, hw.header hl, rfl⟩, ensure_eq_ok.2 rfl, (mv, sv),
    getStakeState_eq_ok.2 hdv, v, ?_, ?_, ?_, h.status, h.minimum, _, ⟨?_, rfl⟩, ?_,
    (w.accounts, .writable (rt.validatorStake v), lamports), rfl, _, ⟨?_, rfl⟩, acc', ?_, _, ⟨h.active_le, rfl⟩, ?_⟩
  · simp only [StakePool.checkStaker, StakePool.checkSigned, bind_eq_ok, exists_unit, ensure_eq_ok]
    exact ⟨rfl, rfl⟩
  · rw [hvoter]
    exact hw.find hl hv
  · rw [hvoter]
    rfl
  · rw [DecreaseValidatorStakeAccounts.checkTransient, h.idle, if_neg (Nat.lt_irrefl 0)]
  · show lamports ≤ (w.accounts (rt.validatorStake v)).lamports
    omega
  · show saturatingAdd 64 mv.rentExemptReserve (minimumDelegation w.sysvars.minimumDelegation) ≤
      (w.accounts (rt.validatorStake v)).lamports - lamports
    simp only [saturatingAdd]
    omega
  · rw [hvoter]
    rfl
  · rw [if_neg (by rw [h.idle]; decide)]
    exact hsplit
  · rw [show (acc' (decreaseAccounts rt w v seed).transientStakeAccountInfo.key).lamports = _ from ht]
    rfl

end

section
open Reference

theorem Reference.rebalances : runtime.Rebalances fun _ => True where
  allocates n a ho hd := ⟨{ a with data := .stakeState .uninitialized }, by
    simp only [runtime] at ho ⊢
    simp [allocate, ho, hd, ensure, Bind.bind, Except.bind, Pure.pure, Except.pure]⟩
  assigns k a ho := ⟨{ a with owner := k }, by
    simp only [runtime] at ho ⊢
    simp [assign, ho, ensure, Bind.bind, Except.bind, Pure.pure, Except.pure]⟩
  splitsInitialized sys auth n src dst m _ ho ho' hd hs hauth hle hrent := by
    obtain ⟨t, h⟩ : ∃ t, splitState auth n src.lamports dst.lamports (.initialized m) = .ok t := by
      simp only [splitState, bind_eq_ok, ensure_eq_ok, exists_unit, pure_eq_ok]
      exact ⟨_, hauth, .inr (by omega), hrent, rfl⟩
    simp only [runtime, split, bind_eq_ok, ensure_eq_ok, exists_unit, orErr_eq_ok, Account.stakeState?_eq_some]
    exact ⟨_, ⟨ho, ho'⟩, ⟨hd, by omega⟩, _, hs, t, h, rfl⟩
  splitsStake sys auth n src dst m s _ ho ho' hd hs hauth hpos _ hstake hlt _ hrent := by
    replace hrent : rent stakeSpace ≤ dst.lamports := hrent
    obtain ⟨t, h⟩ : ∃ t, splitState auth n src.lamports dst.lamports (.stake m s) = .ok t := by
      simp only [splitState, bind_eq_ok, ensure_eq_ok, exists_unit, pure_eq_ok]
      exact ⟨_, hauth, .inr ⟨by omega, by omega⟩, by omega, rfl⟩
    simp only [runtime, split, bind_eq_ok, ensure_eq_ok, exists_unit, orErr_eq_ok, Account.stakeState?_eq_some]
    exact ⟨_, ⟨ho, ho'⟩, ⟨hd, by omega⟩, _, hs, t, h, rfl⟩
  withdrawsInitialized sys auth n src m _ ho hs hauth _ _ hle := by
    simp only [runtime, withdraw, bind_eq_ok, ensure_eq_ok, exists_unit, orErr_eq_ok, Account.stakeState?_eq_some]
    exact ⟨_, ho, _, hs, m, rfl, hauth, by omega, .inl hle, rfl⟩
  delegates sys auth vote a m _ ho hd hauth _ _ := by
    simp only [runtime, delegate, bind_eq_ok, ensure_eq_ok, exists_unit, hd]
    exact ⟨_, ho, hauth, rfl⟩
  deactivates := mergesBy.deactivates

/-- A pool with two validators that hold very different amounts of stake. -/
def lopsided : World Reference.Key :=
  after (opened noFee noFee noFee) [.donate user 10000000000, depositSol 10000000000 0, addValidator vote,
    addValidator vote', increase vote 4000000000 0, .advanceEpoch 11 false (fun _ => none),
    updateList [(vote, 0), (vote', 0)] false, updatePool]

/-- Its entries. -/
def heavyEntry : ValidatorStakeInfo Reference.Key := ⟨4003282880, 0, 11, 0, 0, StakeStatus.active.pod, vote⟩

def lightEntry : ValidatorStakeInfo Reference.Key := ⟨3282880, 0, 11, 0, 0, StakeStatus.active.pod, vote'⟩

theorem lopsided_entries : lopsided.validatorList.validators = [heavyEntry, lightEntry] := by
  decide +kernel

theorem lopsided_reserve : lopsided.accounts lopsided.stakePool.reserveStake =
    ⟨6993434240, stakeProgram, .stakeState (.initialized poolMeta)⟩ := by
  decide +kernel

theorem lopsided_rebalanceable : Rebalanceable runtime (fun _ => True) lopsided where
  reachable := reachable_after (initialized_opened (by decide +kernel)) (by decide +kernel)
  rewards := by decide +kernel
  lamports_lt := by
    rw [lopsided_reserve]
    decide
  reserveRent m hm := by
    rw [lopsided_reserve] at hm
    cases hm
    decide
  maximum_lt := by
    have h : lopsided.stakePool.maxValidatorStake = none := by decide +kernel
    intro M hM
    rw [h] at hM
    cases hM
  places := by
    constructor <;> exact fun h => not_isPda_of_head (by decide) (h.isPda lawful)
  staker := not_isPda_of_head (by decide +kernel)
  votable _ _ := trivial
  votes v hv := by
    have hp (vote : Reference.Key) (h : vote.head? ≠ some 1) : ¬ runtime.StakePda vote :=
      fun hp => not_isPda_of_head h (hp.isPda lawful)
    have hr : lopsided.stakePool.reserveStake = reserve := by decide +kernel
    rw [lopsided_entries] at hv
    rw [hr]
    rcases List.mem_pair.1 hv with rfl | rfl <;> exact ⟨by decide, hp _ (by decide)⟩

theorem lopsided_increasable : Increasable runtime lopsided lightEntry 2994434240 1 where
  fresh := by decide +kernel
  status := rfl
  idle := rfl
  delegated := by
    have h : (lopsided.accounts (runtime.validatorStake lightEntry)).data = settlingStake vote' 1000000 epochMax := by
      decide +kernel
    exact ⟨_, _, h⟩
  unused := by decide +kernel
  maximum := by
    have h : lopsided.stakePool.maxValidatorStake = none := by decide +kernel
    intro M hM
    rw [h] at hM
    cases hM
  minimum := by decide +kernel
  funded := by
    rw [lopsided_reserve]
    decide

theorem increase_succeeds_iff_lopsided : ∃ w',
    (increaseOf runtime lopsided (wallet 9) (wallet 9) lightEntry 2994434240 1).execute runtime lopsided = .ok w' ∧
    Shifted runtime lopsided w' lightEntry (lightEntry.increased runtime 2994434240 1)
      (2994434240 + runtime.rentMinimumBalance stakeSpace) [] := by
  have hmem : lightEntry ∈ lopsided.validatorList.validators := by
    rw [lopsided_entries]
    exact List.mem_cons_of_mem _ List.mem_cons_self
  obtain ⟨w', h⟩ := (increase_succeeds_iff lawful rebalances lopsided_rebalanceable hmem).1.2 lopsided_increasable
  exact ⟨w', h, (increase_succeeds_iff lawful rebalances lopsided_rebalanceable hmem).2 w' h⟩

end

end SplStakePool
