import SplStakePool.Properties.StatusMachine

/-!
# The maximum stake of a validator

The pool may limit what one validator holds. An increase is checked without the rent of the transient
account, which is recorded with it; stake deposits and additions are not checked at all. So the limit is
kept by exactly the instructions that stay below it with all that they record.

What an instruction records is computed from its accounts before it: the amount and the rent of an increase, what a
deposited account holds and what the merge adds. Each of the three replaces or adds one entry, and the maximum is kept
by the list exactly if it is by that entry.
-/

namespace SplStakePool
open Exec Machine System Function

variable {Key : Type} [DecidableEq Key] {rt : Runtime Key} {w w' : World Key} {M : Nat}
  {v v' : ValidatorStakeInfo Key}

/-- No entry is brought above the maximum; a new entry held nothing before. -/
def KeepsMax (M : Nat) (w w' : World Key) : Prop :=
  ∀ v' ∈ w'.validatorList.validators,
    (∀ v ∈ w.validatorList.validators, v.voteAccountAddress = v'.voteAccountAddress → v.recorded ≤ M) →
    v'.recorded ≤ M

/-- The stake delegated of an account. -/
def Account.delegated (a : Account Key) : Nat :=
  match a.data with
  | .stakeState (.stake _ s) => s.delegation.stake
  | _ => 0

/-- The stake that a merge adds to the delegation of the destination. -/
def Runtime.gained (rt : Runtime Key) (sys : Sysvars) (auth : Key) (dst src : Key × Account Key) : Nat :=
  match rt.merge sys auth dst src with
  | .ok (dst', _) => dst'.delegated - dst.2.delegated
  | .error _ => 0

/-- A stake account after both authorities were set. -/
def Account.handOver (a : Account Key) (new : Key) : Account Key :=
  match a.data with
  | .stakeState s => { a with data := .stakeState ((s.authorize new .staker).authorize new .withdrawer) }
  | _ => a

/-- What there is on the validator stake account after a deposit: what was there, and the stake that the merge
adds. What is deposited beyond that goes to the reserve. -/
def DepositStakeAccounts.activeAfter (rt : Runtime Key) (w : World Key) (a : DepositStakeAccounts Key) : Nat :=
  (w.accounts a.validatorStakeAccountInfo.key).lamports +
    rt.gained w.sysvars a.withdrawAuthorityInfo.key
      (a.validatorStakeAccountInfo.key, w.accounts a.validatorStakeAccountInfo.key)
      (a.stakeInfo.key, (w.accounts a.stakeInfo.key).handOver a.withdrawAuthorityInfo.key)

/-- An increase stays below the maximum, with the rent of the transient account. -/
def IncreaseStaysBelow (rt : Runtime Key) (M : Nat) (w : World Key) (accounts : List (AccountInfo Key))
    (lamports : Nat) (ephemeralStakeSeed : Option UInt64) : Prop :=
  ∀ a rest v, (IncreaseValidatorStakeAccounts.parse rt ephemeralStakeSeed).run accounts = .ok (a, rest) →
    w.validatorList.find a.validatorVoteAccountInfo.key = some v →
    v.recorded + increaseLamports rt lamports ≤ M

/-- A stake deposit stays below the maximum, or the validator is above it already. -/
def DepositStaysBelow (rt : Runtime Key) (M : Nat) (w : World Key) (accounts : List (AccountInfo Key)) : Prop :=
  ∀ a rest vote v, (DepositStakeAccounts.parse rt).run accounts = .ok (a, rest) →
    w.voter a.validatorStakeAccountInfo.key = some vote → w.validatorList.find vote = some v → v.recorded ≤ M →
    a.activeAfter rt w + v.transientStakeLamports ≤ M

/-- An instruction stays below the maximum with what it records. -/
def StaysBelow (rt : Runtime Key) (M : Nat) (w : World Key) : Label Key → Prop
  | .instruction accounts (.increaseValidatorStake lamports _) => IncreaseStaysBelow rt M w accounts lamports none
  | .instruction accounts (.increaseAdditionalValidatorStake lamports _ ephemeralStakeSeed) =>
    IncreaseStaysBelow rt M w accounts lamports (some ephemeralStakeSeed)
  | .instruction accounts .depositStake => DepositStaysBelow rt M w accounts
  | .instruction accounts (.depositStakeWithSlippage _) => DepositStaysBelow rt M w accounts
  | .instruction _ (.addValidatorToPool _) => addValidatorLamports rt w ≤ M
  | _ => True

/-- An instruction that raises what is recorded of a validator. -/
def Label.raisesStake : Label Key → Bool
  | .instruction _ (.increaseValidatorStake _ _) => true
  | .instruction _ (.increaseAdditionalValidatorStake _ _ _) => true
  | .instruction _ .depositStake => true
  | .instruction _ (.depositStakeWithSlippage _) => true
  | .instruction _ (.addValidatorToPool _) => true
  | _ => false

/-! ## The instructions -/

section
variable (hn : (w.validatorList.validators.map (·.voteAccountAddress)).Nodup)
include hn

/-- The maximum is kept when an entry is replaced exactly if it is kept by the entry. -/
theorem keepsMax_set {vote : Key} (hf : w.validatorList.find vote = some v)
    (hset : w'.validatorList = w.validatorList.set v')
    (hvote : v'.voteAccountAddress = v.voteAccountAddress) :
    KeepsMax M w w' ↔ (v.recorded ≤ M → v'.recorded ≤ M) := by
  obtain ⟨hv, pre, post, hlist, hwrite⟩ := ValidatorList.find_split hf
  have hlist' : w'.validatorList.validators = pre ++ v' :: post := by
    rw [hset, hwrite v' (hvote.trans hv)]
  have hmem : v ∈ w.validatorList.validators := by rw [hlist]; simp
  constructor
  · intro h hle
    refine h v' (by rw [hlist']; simp) fun u hu he => ?_
    rwa [entry_unique hn hmem hu (he.trans hvote)]
  · intro h u hu hbefore
    rw [hlist'] at hu
    simp only [List.mem_append, List.mem_cons] at hu
    rcases hu with hu | rfl | hu
    · exact hbefore u (by rw [hlist]; simp [hu]) rfl
    · exact h (hbefore v hmem hvote.symm)
    · exact hbefore u (by rw [hlist]; simp [hu]) rfl

theorem IncreaseValidatorStakeAccounts.Ok.keepsMax {a : IncreaseValidatorStakeAccounts Key} {lamports : Nat}
    {seed : UInt64} {acc₁ : Accounts Key} {src : AccountInfo Key} (hM : w.stakePool.maxValidatorStake = some M)
    (h : a.Ok rt w w' lamports seed v acc₁ src) :
    KeepsMax M w w' ↔ v.recorded + increaseLamports rt lamports ≤ M := by
  rw [keepsMax_set hn h.find (congrArg World.validatorList h.result) rfl]
  have := h.max M hM
  simp only [ValidatorStakeInfo.recorded] at this ⊢
  constructor
  · intro h'
    have := h' (by omega)
    omega
  · intro h' _
    omega

omit hn in
/-- An added entry keeps the maximum exactly if what it is created with does. -/
theorem AddValidatorToPoolAccounts.Ok.keepsMax {a : AddValidatorToPoolAccounts Key} {seed : UInt32} {m : Meta Key}
    {acc₁ acc₂ : Accounts Key} (h : a.Ok rt w w' seed m acc₁ acc₂) :
    KeepsMax M w w' ↔ addValidatorLamports rt w ≤ M := by
  have hlist : w'.validatorList.validators = w.validatorList.validators ++
      [newEntry rt w a.validatorVoteInfo.key seed] := by rw [congrArg World.validatorList h.result]
  have hnew := ValidatorList.find_eq_none h.notFound
  constructor
  · intro hk
    refine hk (newEntry rt w a.validatorVoteInfo.key seed) (by rw [hlist]; simp) fun u hu he => ?_
    exact absurd (List.mem_map.2 ⟨u, hu, he⟩) hnew
  · intro hle u hu hbefore
    rw [hlist] at hu
    rcases List.mem_append.1 hu with hu | hu
    · exact hbefore u hu rfl
    · rw [List.mem_singleton.1 hu]
      exact hle

omit hn in
theorem DepositStakeAccounts.merge_gained [Inhabited Key] (hl : rt.Lawful) {a : DepositStakeAccounts Key}
    {m m' : Meta Key} {s s' : Stake Key} {acc₁ acc₂ : Accounts Key}
    (hd : (w.accounts a.validatorStakeAccountInfo.key).data = .stakeState (.stake m s))
    (hauth : a.authorizeDeposit rt w = .ok acc₁)
    (hmerge : stakeMerge rt w.sysvars acc₁ a.stakeInfo a.withdrawAuthorityInfo a.validatorStakeAccountInfo = .ok acc₂)
    (hd' : (acc₂ a.validatorStakeAccountInfo.key).data = .stakeState (.stake m' s')) :
    acc₁ a.validatorStakeAccountInfo.key = w.accounts a.validatorStakeAccountInfo.key ∧
    (acc₂ a.validatorStakeAccountInfo.key).lamports =
      (w.accounts a.validatorStakeAccountInfo.key).lamports + (w.accounts a.stakeInfo.key).lamports ∧
    s'.delegation.stake = s.delegation.stake + rt.gained w.sysvars a.withdrawAuthorityInfo.key
      (a.validatorStakeAccountInfo.key, w.accounts a.validatorStakeAccountInfo.key)
      (a.stakeInfo.key, (w.accounts a.stakeInfo.key).handOver a.withdrawAuthorityInfo.key) := by
  obtain ⟨-, st, mt, hst, -, -, hacc₁⟩ :=
    stakeAuthorizeSigned_ok hl (DepositStakeAccounts.authorizeDeposit_eq_ok hauth).2
  have hm := stakeMerge_spec hl hmerge
  have hva₁ : acc₁ a.validatorStakeAccountInfo.key = w.accounts a.validatorStakeAccountInfo.key := by
    rw [hacc₁, update_of_ne hm.ne]
  have hsrc₁ : acc₁ a.stakeInfo.key = (w.accounts a.stakeInfo.key).handOver a.withdrawAuthorityInfo.key := by
    rw [hacc₁, update_self, Account.handOver, hst]
  have hlam₁ : (acc₁ a.stakeInfo.key).lamports = (w.accounts a.stakeInfo.key).lamports := by
    rw [hacc₁, update_self]
  refine ⟨hva₁, by rw [hm.dst_lamports, hva₁, hlam₁], ?_⟩
  simp only [stakeMerge, bind_eq_ok, pure_eq_ok] at hmerge
  obtain ⟨⟨dst, src⟩, hmerge, rfl⟩ := hmerge
  rw [hva₁, hsrc₁] at hmerge
  rw [update_self] at hd'
  replace hd' : dst.data = .stakeState (.stake m' s') := hd'
  -- a merge only adds to the delegation of the destination
  have hle : s.delegation.stake ≤ s'.delegation.stake := by
    obtain ⟨-, -, -, d, _, d', _, _, hdd, -, -, -, -, -, hstate, rfl, -⟩ := hl.merge_ok _ _ _ _ _ _ _ _ hmerge
    rw [hd, AccountData.stakeState.injEq] at hdd
    subst hdd
    cases hstate with
    | stake m s gained credits =>
      cases hd'
      exact Nat.le_add_right _ _
  rw [Runtime.gained, hmerge]
  simp only [Account.delegated, hd', hd]
  omega

omit hn in
theorem DepositStakeAccounts.process_recorded [Inhabited Key] (hl : rt.Lawful) {a : DepositStakeAccounts Key}
    {minimum : Option Nat} (hc : Core rt w.stakePool.reserveStake w.validatorList.validators w.accounts)
    (h : a.process rt w minimum = .ok w') :
    ∃ vote v, w.voter a.validatorStakeAccountInfo.key = some vote ∧ w.validatorList.find vote = some v ∧
      w'.validatorList = w.validatorList.set { v with activeStakeLamports := a.activeAfter rt w } := by
  obtain ⟨s, v, t, acc₁, acc₂, acc₃, total, stake, h, md, s', hs', hstake⟩ := a.process_gained h
  obtain ⟨m, hd⟩ := h.stakeState
  refine ⟨_, v, by rw [World.voter_eq hd]; rfl, h.find, ?_⟩
  rw [congrArg World.validatorList h.result]
  dsimp only
  have hactive : (w'.accounts a.validatorStakeAccountInfo.key).lamports = a.activeAfter rt w := by
    have hv : EntryOk rt w.accounts v := by
      obtain ⟨-, pre, post, hlist, -⟩ := ValidatorList.find_split h.find
      exact hc.entries v (by rw [hlist]; simp)
    have hcv : Controlled rt (w.accounts a.validatorStakeAccountInfo.key) :=
      h.validatorKey_eq ▸ hv.of_active h.status
    have hm := stakeMerge_spec hl h.merge
    obtain ⟨hva₁, -, hgained⟩ := a.merge_gained hl hd h.authorize h.merge hs'
    -- what is deposited as stake is what the merge has added
    replace hgained : rt.gained w.sysvars a.withdrawAuthorityInfo.key
        (a.validatorStakeAccountInfo.key, w.accounts a.validatorStakeAccountInfo.key)
        (a.stakeInfo.key, (w.accounts a.stakeInfo.key).handOver a.withdrawAuthorityInfo.key) = stake := by
      omega
    -- minting does not touch the account, and what is left over goes to the reserve
    have hva₃ : acc₃ a.validatorStakeAccountInfo.key = acc₂ a.validatorStakeAccountInfo.key :=
      (mintDepositTokens_only hl h.mint).eq (hm.dst_controlled (by rwa [hva₁])).notToken
    have htotal := h.total_eq
    have hle := h.stake_le
    rw [DepositStakeAccounts.activeAfter, hgained]
    rcases h.withdraw with ⟨hpos, hw⟩ | ⟨he, hw⟩
    · have hres : a.validatorStakeAccountInfo.key ≠ a.reserveStakeAccountInfo.key := by
        rw [h.validatorKey_eq, h.reserveKey]
        exact fun he => hc.reserve_pda (he ▸ .validator v)
      rw [(stakeWithdraw_spec hl hw).src_lamports hres, hva₃]
      omega
    · rw [← hw, hva₃]
      omega
  rw [hactive]

theorem DepositStakeAccounts.keepsMax [Inhabited Key] (hl : rt.Lawful) {a : DepositStakeAccounts Key}
    {minimum : Option Nat} (hc : Core rt w.stakePool.reserveStake w.validatorList.validators w.accounts)
    (h : a.process rt w minimum = .ok w') {accounts rest : List (AccountInfo Key)}
    (hp : (DepositStakeAccounts.parse rt).run accounts = .ok (a, rest)) :
    KeepsMax M w w' ↔ DepositStaysBelow rt M w accounts := by
  obtain ⟨vote, v, hvote, hv, hset⟩ := DepositStakeAccounts.process_recorded hl hc h
  rw [keepsMax_set hn hv hset rfl]
  constructor
  · intro hk a' rest' vote' v' hp' hvote' hv' hle
    rw [hp] at hp'
    cases hp'
    rw [hvote] at hvote'
    cases hvote'
    rw [hv] at hv'
    cases hv'
    exact hk hle
  · intro hb hle
    exact hb a rest vote v hp hvote hv hle

theorem processDepositStake_keepsMax [Inhabited Key] (hl : rt.Lawful) {minimum : Option Nat}
    {accounts : List (AccountInfo Key)}
    (hc : Core rt w.stakePool.reserveStake w.validatorList.validators w.accounts)
    (h : processDepositStake rt w accounts minimum = .ok w') :
    KeepsMax M w w' ↔ DepositStaysBelow rt M w accounts := by
  simp only [processDepositStake, bind_eq_ok] at h
  obtain ⟨⟨a, rest⟩, hp, h⟩ := h
  exact DepositStakeAccounts.keepsMax hn hl hc h hp

theorem processIncreaseValidatorStake_keepsMax {accounts : List (AccountInfo Key)} {lamports : Nat}
    {seed : UInt64} {ephemeralStakeSeed : Option UInt64} (hM : w.stakePool.maxValidatorStake = some M)
    (h : processIncreaseValidatorStake rt w accounts lamports seed ephemeralStakeSeed = .ok w') :
    KeepsMax M w w' ↔ IncreaseStaysBelow rt M w accounts lamports ephemeralStakeSeed := by
  obtain ⟨a, rest, hp, v, acc₁, src, h⟩ := processIncreaseValidatorStake_ok h
  rw [h.keepsMax hn hM]
  constructor
  · intro hle a' rest' v' hp' hv'
    rw [hp] at hp'
    cases hp'
    rw [h.find] at hv'
    cases hv'
    exact hle
  · intro hb
    exact hb a rest v hp h.find

end

variable [Inhabited Key]

/-- What keeps the maximum in one step. -/
theorem Step.keepsMax_iff (hl : rt.Lawful) (hi : Inv rt w) {l : Label Key} (hs : Step rt w l w')
    (hM : w.stakePool.maxValidatorStake = some M) (hr : l.raisesStake) :
    KeepsMax M w w' ↔ StaysBelow rt M w l := by
  have hn := hi.core.votes
  cases hs with
  | env h => cases h <;> cases hr
  | @instruction accounts i _ _ h =>
    cases i with
    | increaseValidatorStake lamports seed => exact processIncreaseValidatorStake_keepsMax hn hM h
    | increaseAdditionalValidatorStake lamports seed ephemeral =>
      exact processIncreaseValidatorStake_keepsMax hn hM h
    | depositStake => exact processDepositStake_keepsMax hn hl hi.core h
    | depositStakeWithSlippage minimum => exact processDepositStake_keepsMax hn hl hi.core h
    | addValidatorToPool seed =>
      obtain ⟨a, m, acc₁, acc₂, h⟩ := processAddValidatorToPool_ok h
      exact h.keepsMax
    | _ => cases hr

/-- In a run, an increase, a stake deposit or an addition keeps the maximum stake of the validators exactly if
it stays below it with all that it records. -/
theorem max_validator_stake_iff (hl : rt.Lawful) {s : World Key} {es : List (Event (World Key) (Label Key))}
    (hs : Initialized rt s) (h : (poolSystem rt).Run s es w) :
    ∀ e ∈ es, ∀ M, e.source.stakePool.maxValidatorStake = some M → e.label.raisesStake →
      (KeepsMax M e.source e.target ↔ StaysBelow rt M e.source e.label) := by
  intro e he M hM hr
  obtain ⟨es₁, es₂, rfl⟩ := List.append_of_mem he
  obtain ⟨h₁, hstep, -⟩ := h.cut _ _ _ rfl
  exact hstep.keepsMax_iff hl (Inv.of_reach hl (h₁.reachable hs)) hM hr

section
open Reference

/-- A pool with a validator, and a maximum stake. -/
def capped (M : Nat) : World Reference.Key := next joined (setMaxValidatorStake (some M))

theorem max_validator_stake_iff_capped :
    KeepsMax 20000000 (capped 20000000) (next (capped 20000000) (increase vote 5000000 7)) := by
  have hpath : (poolSystem runtime).Path (fun _ _ => True) (opened noFee noFee noFee) joined :=
    after_path (fun _ _ _ _ => trivial) (by decide +kernel)
  obtain ⟨es, hr⟩ := Run.of_path hpath
  have hr := (hr.snoc (next_step (l := setMaxValidatorStake (some 20000000)) (by decide +kernel))).snoc
    (next_step (l := increase vote 5000000 7) (by decide +kernel))
  refine (max_validator_stake_iff lawful (initialized_opened (by decide +kernel)) hr
    _ (List.mem_append_right _ (List.mem_singleton_self _)) 20000000 (by decide +kernel) rfl).2 ?_
  intro a rest v hp hv
  have hrec : ∀ u ∈ (capped 20000000).validatorList.validators,
      u.recorded + increaseLamports runtime 5000000 ≤ 20000000 := by decide +kernel
  exact hrec v (List.mem_of_find?_eq_some hv)

/-- The maximum is what the validator holds and an increase by 5000000: it is passed by the rent. A new
validator passes a maximum of one lamport. -/
theorem max_validator_stake_passed :
    (poolSystem runtime).Reachable (capped 8282880) ∧
    Step runtime (capped 8282880) (increase vote 5000000 7) (next (capped 8282880) (increase vote 5000000 7)) ∧
    (capped 8282880).stakePool.maxValidatorStake = some 8282880 ∧
    ¬ KeepsMax 8282880 (capped 8282880) (next (capped 8282880) (increase vote 5000000 7)) ∧
    (poolSystem runtime).Reachable (capped 1) ∧
    Step runtime (capped 1) (addValidator vote') (next (capped 1) (addValidator vote')) ∧
    ¬ KeepsMax 1 (capped 1) (next (capped 1) (addValidator vote')) := by
  have hreach : ∀ M, (exec joined (setMaxValidatorStake (some M))).isSome → (poolSystem runtime).Reachable (capped M) :=
    fun M h => (reachable_after (initialized_opened (by decide +kernel)) (by decide +kernel)).step trivial (next_step h)
  refine ⟨hreach _ (by decide +kernel), next_step (by decide +kernel), by decide +kernel, ?_,
    hreach _ (by decide +kernel), next_step (by decide +kernel), ?_⟩
  · unfold KeepsMax
    decide +kernel
  · unfold KeepsMax
    decide +kernel

end

end SplStakePool
