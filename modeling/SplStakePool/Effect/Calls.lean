import Mathlib.Logic.Relation
import SplStakePool.Effect.Process

/-!
# Instructions as runs of calls

Whatever an instruction does to accounts, it does by calls into other programs. The stake and token calls that need an
authority are made with an authority of the pool or with one that has signed, and accounts are only created at the
pool's own derived addresses.

A relation that every call keeps is so kept by every instruction, in any state of the pool, initialized or not. Only
`Initialize` succeeds where it is not.
-/

namespace SplStakePool
open Exec Machine Function Relation

variable {Key : Type} [DecidableEq Key] {rt : Runtime Key} {w w' : World Key} {sys : Sysvars}
  {accounts : List (AccountInfo Key)} {i : StakePoolInstruction Key} {out : Option Key} {acc acc' acc'' : Accounts Key}

/-- An authority that has signed, or that the pool signs for: what a stake is taken over with in a deposit. -/
def Runtime.SignsFor (rt : Runtime Key) (accounts : List (AccountInfo Key)) (k : Key) : Prop :=
  k = rt.withdrawAuthority ∨ k = rt.depositAuthority ∨ Signed accounts k

/-- A call that an instruction of the pool can make. -/
inductive Call (rt : Runtime Key) (sys : Sysvars) (accounts : List (AccountInfo Key)) (acc acc' : Accounts Key) : Prop
  | create {dst} (hk : rt.StakePda dst.key) (h : createStakeAccount rt acc dst = .ok acc')
  | delegate {dst vote auth} (ha : auth.key = rt.withdrawAuthority) (h : stakeDelegate rt sys acc dst vote auth = .ok acc')
  | deactivate {dst auth} (h : stakeDeactivate rt sys acc dst auth = .ok acc')
  | split {src auth n dst} (ha : auth.key = rt.withdrawAuthority) (h : stakeSplit rt sys acc src auth n dst = .ok acc')
  | merge {src auth dst} (ha : auth.key = rt.withdrawAuthority) (h : stakeMerge rt sys acc src auth dst = .ok acc')
  | withdraw {src auth dst n} (ha : auth.key = rt.withdrawAuthority)
      (h : stakeWithdraw rt sys acc src auth dst n = .ok acc')
  | authorize {stake auth new} (ha : rt.SignsFor accounts auth.key)
      (h : stakeAuthorizeSigned rt sys acc stake auth new = .ok acc')
  | mintTo {mint dst auth n} (ha : auth.key = rt.withdrawAuthority) (h : tokenMintTo rt acc mint dst auth n = .ok acc')
  | burn {src mint auth n} (h : tokenBurn rt acc src mint auth n = .ok acc')
  | transfer {src mint dst auth n decimals} (h : tokenTransfer rt acc src mint dst auth n decimals = .ok acc')
  | pay {src dst n} (h : solTransfer rt acc src dst n = .ok acc')
  /-- The payer for the metadata account has signed, and is an account of the system program. -/
  | metadata {mint poolMint auth payer key : Key} {name symbol uri : String} {a b : Account Key}
      (hs : Signed accounts payer) (ho : rt.systemProgramId = ownerOf rt acc payer)
      (hk : key = (findMetadataAccount rt poolMint).1)
      (h : rt.createMetadataAccountsV3 mint auth name symbol uri (acc key) (acc payer) = .ok (a, b))
      (he : acc' = update (update acc payer b) key a)

/-- A run of calls. -/
abbrev Calls (rt : Runtime Key) (sys : Sysvars) (accounts : List (AccountInfo Key)) :
    Accounts Key → Accounts Key → Prop := ReflTransGen (Call rt sys accounts)

section
variable {mint user manager referrer auth src : AccountInfo Key}

theorem mintDepositTokens_calls {t : DepositTokens} (ha : auth.key = rt.withdrawAuthority)
    (h : mintDepositTokens rt acc t mint user manager referrer auth = .ok acc') : Calls rt sys accounts acc acc' := by
  obtain ⟨acc₁, acc₂, h₁, h₂, h₃⟩ := mintDepositTokens_eq_ok h
  have h₂ : Calls rt sys accounts acc₁ acc₂ := by
    rcases h₂ with ⟨-, h₂⟩ | ⟨-, rfl⟩
    · exact .single (.mintTo ha h₂)
    · exact .refl
  have h₃ : Calls rt sys accounts acc₂ acc' := by
    rcases h₃ with ⟨-, h₃⟩ | ⟨-, rfl⟩
    · exact .single (.mintTo ha h₃)
    · exact .refl
  exact ((ReflTransGen.single (.mintTo ha h₁)).trans h₂).trans h₃

theorem transferFee_calls {fee decimals : Nat}
    (h : 0 < fee ∧ tokenTransfer rt acc src mint manager auth fee decimals = .ok acc' ∨ fee = 0 ∧ acc = acc') :
    Calls rt sys accounts acc acc' := by
  rcases h with ⟨-, h⟩ | ⟨-, rfl⟩
  · exact .single (.transfer h)
  · exact .refl

theorem maybeDeactivate_calls (h : stakeDeactivate rt sys acc src auth = .ok acc' ∨ acc = acc') :
    Calls rt sys accounts acc acc' := by
  rcases h with h | rfl
  · exact .single (.deactivate h)
  · exact .refl

end

namespace UpdateValidatorListBalanceAccounts
variable {a : UpdateValidatorListBalanceAccounts Key} {noMerge : Bool} {v v' : ValidatorStakeInfo Key}
  {va ta : AccountInfo Key} {status status' : PodStakeStatus} {t n : Nat}

section
variable (ha : a.withdrawAuthorityInfo.key = rt.withdrawAuthority)
include ha

theorem updateTransient_calls (h : a.updateTransient rt w noMerge acc v va ta = .ok (acc', status, t)) :
    Calls rt w.sysvars accounts acc acc' := by
  simp only [updateTransient] at h
  split at h
  · split at h
    · cases h
      exact .refl
    · cases h
      exact .refl
    · simp only [bind_eq_ok, pure_eq_ok, Prod.mk.injEq] at h
      obtain ⟨_, hm, _, -, rfl, -⟩ := h
      exact .single (.merge ha hm)
    · simp only [bind_eq_ok, pure_eq_ok, Prod.mk.injEq] at h
      obtain ⟨_, hm, _, -, rfl, -⟩ := h
      exact .single (.merge ha hm)
    · simp only [bind_eq_ok, pure_eq_ok, Prod.mk.injEq] at h
      obtain ⟨_, hm, rfl, -⟩ := h
      exact .single (.merge ha hm)
    · simp only [bind_eq_ok, pure_eq_ok, Prod.mk.injEq] at h
      obtain ⟨_, hd, rfl, -⟩ := h
      exact .single (.deactivate hd)
  · cases h
    exact .refl

theorem withdrawAdditional_calls {m : Meta Key} {s : Stake Key}
    (h : a.withdrawAdditional rt w acc m s va = .ok acc') : Calls rt w.sysvars accounts acc acc' := by
  rcases ite_pure_eq_ok.1 h with ⟨-, h⟩ | ⟨-, rfl⟩
  · exact .single (.withdraw ha h)
  · exact .refl

theorem updateDelegated_calls {s : Stake Key}
    (h : a.updateDelegated rt w noMerge acc status s va = .ok (acc', status', n)) :
    Calls rt w.sysvars accounts acc acc' := by
  simp only [updateDelegated, bind_eq_ok] at h
  obtain ⟨s, -, h⟩ := h
  cases s with
  | active | deactivatingTransient | readyForRemoval =>
    cases h
    exact .refl
  | deactivatingValidator | deactivatingAll =>
    dsimp only at h
    split at h
    · cases h
      exact .refl
    split at h
    · simp only [bind_eq_ok, pure_eq_ok, Prod.mk.injEq] at h
      obtain ⟨_, hm, _, -, rfl, -⟩ := h
      exact .single (.merge ha hm)
    · cases h
      exact .refl

theorem updateValidator_calls (h : a.updateValidator rt w noMerge acc status t va = .ok (acc', status', n)) :
    Calls rt w.sysvars accounts acc acc' := by
  simp only [updateValidator] at h
  split at h
  · split at h
    · simp only [bind_eq_ok] at h
      obtain ⟨acc₁, hw, h⟩ := h
      exact (withdrawAdditional_calls ha hw).trans (updateDelegated_calls ha h)
    · cases h
      exact .refl
  · split at h
    · simp only [bind_eq_ok, pure_eq_ok, Prod.mk.injEq] at h
      obtain ⟨_, hm, rfl, -⟩ := h
      exact .single (.merge ha hm)
    · cases h
      exact .refl
  all_goals
    cases h
    exact .refl

theorem updateEntry_calls (h : a.updateEntry rt w noMerge acc v va ta = .ok (acc', v')) :
    Calls rt w.sysvars accounts acc acc' := by
  simp only [updateEntry] at h
  split at h
  · cases h
    exact .refl
  split at h
  · cases h
    exact .refl
  simp only [bind_eq_ok, pure_eq_ok, Prod.mk.injEq] at h
  obtain ⟨⟨acc₁, _, _⟩, ht, ⟨acc₂, _, _⟩, hva, rfl, -⟩ := h
  exact (updateTransient_calls ha ht).trans (updateValidator_calls ha hva)

theorem updateEntries_calls {vs vs' : List (ValidatorStakeInfo Key)} {infos : List (AccountInfo Key × AccountInfo Key)}
    (h : a.updateEntries rt w noMerge acc vs infos = .ok (acc', vs')) : Calls rt w.sysvars accounts acc acc' := by
  induction vs generalizing acc infos vs' with
  | nil =>
    cases h
    exact .refl
  | cons v vs ih =>
    cases infos with
    | nil =>
      cases h
      exact .refl
    | cons info infos =>
      simp only [updateEntries, bind_eq_ok, pure_eq_ok, Prod.mk.injEq] at h
      obtain ⟨⟨acc₁, v'⟩, hv, ⟨acc₂, vs''⟩, h, rfl, rfl⟩ := h
      exact (updateEntry_calls ha hv).trans (ih h)

end
end UpdateValidatorListBalanceAccounts

/-! ## Handlers -/

section
variable {n : Nat}

theorem AddValidatorToPoolAccounts.Ok.calls {a : AddValidatorToPoolAccounts Key} {seed : UInt32} {m : Meta Key}
    {acc₁ acc₂ : Accounts Key} (h : a.Ok rt w w' seed m acc₁ acc₂)
    (ha : a.withdrawAuthorityInfo.key = rt.withdrawAuthority) :
    Calls rt w.sysvars accounts w.accounts w'.accounts := by
  have hk : rt.StakePda a.stakeInfo.key := by
    rw [rt.validatorStake_eq (v := newEntry rt w a.validatorVoteInfo.key seed) rfl h.poolKey h.stakeKey]
    exact .validator _
  exact ((ReflTransGen.single (.create hk h.create)).tail (.split ha h.split)).tail (.delegate ha h.delegate)

theorem RemoveValidatorFromPoolAccounts.Ok.calls {a : RemoveValidatorFromPoolAccounts Key} {s : Stake Key}
    {v : ValidatorStakeInfo Key} {acc₁ : Accounts Key} (h : a.Ok rt w w' s v acc₁) :
    Calls rt w.sysvars accounts w.accounts w'.accounts := by
  have h₁ : Calls rt w.sysvars accounts w.accounts acc₁ := by
    rcases h.transient with ⟨-, -, h⟩ | ⟨-, rfl⟩
    · exact maybeDeactivate_calls h
    · exact .refl
  exact h₁.trans (maybeDeactivate_calls h.deactivate)

theorem IncreaseValidatorStakeAccounts.Ok.calls {a : IncreaseValidatorStakeAccounts Key} {lamports : Nat} {seed : UInt64}
    {v : ValidatorStakeInfo Key} {acc₁ : Accounts Key} {info : AccountInfo Key}
    (h : a.Ok rt w w' lamports seed v acc₁ info) (ha : a.withdrawAuthorityInfo.key = rt.withdrawAuthority) :
    Calls rt w.sysvars accounts w.accounts w'.accounts := by
  have h₁ : Calls rt w.sysvars accounts w.accounts acc₁ := by
    cases h.source with
    | reserve => exact .refl
    | ephemeral _ hke create split delegate =>
      have hk : rt.StakePda info.key := by
        rw [rt.ephemeralStake_eq h.poolKey hke]
        exact .ephemeral _
      exact ((ReflTransGen.single (.create hk create)).tail (.split ha split)).tail (.delegate ha delegate)
  rcases h.transient with ⟨-, -, -, h⟩ | ⟨-, create, split, -, delegate⟩
  · exact h₁.tail (.merge ha h)
  · have hk : rt.StakePda a.transientStakeAccountInfo.key := by
      rw [rt.transientStake_eq (v := { v with transientSeedSuffix := seed }) (ValidatorList.find_split h.find).1 h.poolKey
        rfl h.transientKey]
      exact .transient _
    have h₂ := (h₁.tail (.create hk create)).tail (.split ha split)
    rcases delegate with ⟨-, rfl⟩ | ⟨-, h⟩
    · exact h₂
    · exact h₂.tail (.delegate ha h)

theorem DecreaseValidatorStakeAccounts.Funded.calls {a : DecreaseValidatorStakeAccounts Key} {info : AccountInfo Key}
    (h : Funded rt w a acc info acc') (ha : a.withdrawAuthorityInfo.key = rt.withdrawAuthority) :
    Calls rt w.sysvars accounts acc acc' := by
  rcases h with rfl | ⟨_, _, -, -, h⟩
  · exact .refl
  · exact .single (.withdraw ha h)

theorem DecreaseValidatorStakeAccounts.Ok.calls {a : DecreaseValidatorStakeAccounts Key} {lamports : Nat} {seed : UInt64}
    {m : Meta Key} {st : Stake Key} {v : ValidatorStakeInfo Key} {acc₁ : Accounts Key} {info : AccountInfo Key}
    (h : a.Ok rt w w' lamports seed m st v acc₁ info n) (ha : a.withdrawAuthorityInfo.key = rt.withdrawAuthority) :
    Calls rt w.sysvars accounts w.accounts w'.accounts := by
  have h₁ : Calls rt w.sysvars accounts w.accounts acc₁ := by
    cases h.source with
    | validator => exact .refl
    | ephemeral _ hke create fund split deactivate =>
      have hk : rt.StakePda info.key := by
        rw [rt.ephemeralStake_eq h.poolKey hke]
        exact .ephemeral _
      exact (((ReflTransGen.single (.create hk create)).trans (fund.calls ha)).tail (.split ha split)).tail
        (.deactivate deactivate)
  rcases h.transient with ⟨-, -, -, h⟩ | ⟨-, create, fund, split, -, deactivate⟩
  · exact h₁.tail (.merge ha h)
  · have hk : rt.StakePda a.transientStakeAccountInfo.key := by
      rw [rt.transientStake_eq (v := { v with transientSeedSuffix := seed }) (ValidatorList.find_split h.find).1 h.poolKey
        rfl h.transientKey]
      exact .transient _
    have h₂ := ((h₁.tail (.create hk create)).trans (fund.calls ha)).tail (.split ha split)
    rcases deactivate with ⟨-, h⟩ | rfl
    · exact h₂.tail (.deactivate h)
    · exact h₂

theorem UpdateStakePoolBalanceAccounts.Ok.calls {a : UpdateStakePoolBalanceAccounts Key} {m : Meta Key} {fee : Nat}
    {mint : Mint Key} (h : a.Ok rt w w' m fee mint) (ha : a.withdrawInfo.key = rt.withdrawAuthority) :
    Calls rt w.sysvars accounts w.accounts w'.accounts := by
  rcases h.mintTo with ⟨-, h⟩ | ⟨-, h⟩
  · exact .single (.mintTo ha h)
  · rw [h]

theorem DepositSolAccounts.Ok.calls {a : DepositSolAccounts Key} {minimum : Option Nat} {t : DepositTokens}
    {acc₁ : Accounts Key} (h : a.Ok rt w w' n minimum t acc₁) (ha : a.withdrawAuthorityInfo.key = rt.withdrawAuthority) :
    Calls rt w.sysvars accounts w.accounts w'.accounts :=
  (ReflTransGen.single (.pay h.transfer)).trans (mintDepositTokens_calls ha h.mint)

theorem DepositStakeAccounts.Ok.calls {a : DepositStakeAccounts Key} {minimum : Option Nat} {st : Stake Key}
    {v : ValidatorStakeInfo Key} {t : DepositTokens} {acc₁ acc₂ acc₃ : Accounts Key} {total stake : Nat}
    (h : a.Ok rt w w' minimum st v t acc₁ acc₂ acc₃ total stake) (hm : a.stakeDepositAuthorityInfo ∈ accounts)
    (ha : a.withdrawAuthorityInfo.key = rt.withdrawAuthority) :
    Calls rt w.sysvars accounts w.accounts w'.accounts := by
  obtain ⟨hsigned, hauth⟩ := DepositStakeAccounts.authorizeDeposit_eq_ok h.authorize
  have hsigns : rt.SignsFor accounts a.stakeDepositAuthorityInfo.key := by
    rcases hsigned with hsigned | hk
    · exact .inr (.inr ⟨_, hm, rfl, hsigned⟩)
    · rw [h.poolKey] at hk
      exact .inr (.inl hk)
  have h₁ : Calls rt w.sysvars accounts w.accounts acc₂ :=
    (ReflTransGen.single (.authorize hsigns hauth)).tail (.merge ha h.merge)
  have h₂ := h₁.trans (mintDepositTokens_calls ha h.mint)
  rcases h.withdraw with ⟨-, hw⟩ | ⟨-, he⟩
  · exact h₂.tail (.withdraw ha hw)
  · rw [← he]
    exact h₂

theorem WithdrawSolAccounts.Ok.calls {a : WithdrawSolAccounts Key} {tokens fee decimals : Nat} {minimum : Option Nat}
    {acc₁ acc₂ : Accounts Key} (h : a.Ok rt w w' tokens minimum fee decimals n acc₁ acc₂)
    (ha : a.withdrawAuthorityInfo.key = rt.withdrawAuthority) : Calls rt w.sysvars accounts w.accounts w'.accounts :=
  ((ReflTransGen.single (.burn h.burn)).trans (transferFee_calls h.transfer)).tail (.withdraw ha h.withdraw)

theorem WithdrawStakeAccounts.Ok.calls {a : WithdrawStakeAccounts Key} {tokens fee decimals : Nat}
    {minimum : Option Nat} {plan : WithdrawPlan Key} {acc₁ acc₂ acc₃ : Accounts Key}
    (h : a.Ok rt w w' tokens minimum fee decimals n plan acc₁ acc₂ acc₃)
    (ha : a.withdrawAuthorityInfo.key = rt.withdrawAuthority) : Calls rt w.sysvars accounts w.accounts w'.accounts :=
  (((ReflTransGen.single (.burn h.burn)).tail (.split ha h.split)).tail (.authorize (.inl ha) h.authorize)).trans
    (transferFee_calls h.transfer)

end

/-! ## Every instruction -/

variable [Inhabited Key]

theorem Executed.calls (hl : rt.Lawful) (hp : PoolOk rt w.stakePool) (h : Executed rt w w' accounts i out) :
    Calls rt w.sysvars accounts w.accounts w'.accounts := by
  have auth : ∀ {k pool : Key} {u : Unit}, pool = rt.stakePoolAddress →
      w.stakePool.checkAuthorityWithdraw rt k rt.programId pool = .ok u → k = rt.withdrawAuthority := by
    rintro k pool u rfl ha
    exact (StakePool.checkAuthorityWithdraw_eq_ok hl hp.bump).1 ha
  cases h with
  | add _ _ h => exact h.calls (auth h.poolKey h.authority)
  | remove _ h => exact h.calls
  | decrease _ h => exact h.calls (auth h.poolKey h.authority)
  | increase _ h => exact h.calls (auth h.poolKey h.authority)
  | updateList _ _ h =>
    exact UpdateValidatorListBalanceAccounts.updateEntries_calls (auth h.poolKey h.authority) h.entries
  | updatePool _ h => exact h.calls (auth h.poolKey h.authority)
  | depositStake hm h => exact h.calls hm (auth h.poolKey h.authority)
  | depositSol _ h => exact h.calls (auth h.poolKey h.authority)
  | withdrawSol h => exact h.calls (auth h.poolKey h.authority)
  | withdrawStake h => exact h.calls (auth h.poolKey h.authority)
  | setPreferred _ _ h | cleanup _ h | setFee _ _ _ _ _ h | manage _ _ h =>
    subst h
    exact .refl
  | createMetadata hm hs ho hc h =>
    subst h
    exact .single (.metadata ⟨_, hm, rfl, hs⟩ ho rfl hc rfl)
  | updateMetadata hc h =>
    subst h
    obtain ⟨-, rfl⟩ := hl.updateMetadataAccountsV2_ok _ _ _ _ _ _ hc
    dsimp only
    rw [update_eq_self]

theorem InitializeAccounts.Ok.calls {a : InitializeAccounts Key} {fee withdrawalFee depositFee : Fee}
    {referralFee : UInt8} {maxValidators : Nat} {m : Meta Key} {mint : Mint Key} {total : Nat}
    (h : a.Ok rt w w' fee withdrawalFee depositFee referralFee maxValidators m mint total) :
    Calls rt w.sysvars accounts w.accounts w'.accounts := by
  rcases h.mintTo with ⟨-, h'⟩ | ⟨-, h⟩
  · exact .single (.mintTo h.authorityKey h')
  · rw [h]

omit [Inhabited Key] in
theorem World.validStakePool_requires {info : AccountInfo Key} :
    Requires w.stakePool.isValid (w.validStakePool rt info) := by
  intro p h
  exact (World.validStakePool_eq_ok.1 h).2.1

/-- Only `Initialize` succeeds on a pool that is not initialized. -/
theorem process_requires (hi : ¬ i.isInitialize) : Requires w.stakePool.isValid (process rt w accounts i) := by
  cases i with
  | initializePool => exact absurd rfl hi
  | redelegate => exact .error
  | setManager =>
    -- the pool is checked after the fee account
    intro w' h
    simp only [process, processSetManager, SetManagerAccounts.process, bind_eq_ok, ensure_eq_ok,
      World.readStakePool_eq_ok] at h
    obtain ⟨_, -, -, -, p, ⟨-, rfl⟩, -, -, -, hv, -⟩ := h
    exact hv
  | setFee | setMaxValidatorStake | setFundingAuthority =>
    exact .next fun _ => .first (.first World.validStakePool_requires)
  | _ =>
    refine .next fun _ => ?_
    repeat' first
      | exact .first World.validStakePool_requires
      | refine .next fun _ => ?_

theorem process_calls (hl : rt.Lawful) (hp : w.stakePool.isValid → PoolOk rt w.stakePool)
    (h : process rt w accounts i = .ok w') : Calls rt w.sysvars accounts w.accounts w'.accounts := by
  by_cases hi : i.isInitialize
  · cases i with
    | initializePool =>
      obtain ⟨_, _, _, _, h⟩ := processInitialize_ok hl h
      exact h.calls
    | _ => cases hi
  · exact (process_executed hi h).calls hl (hp (process_requires hi _ h))

end SplStakePool
