import SplStakePool.Effect.Process

/-!
# The supply of the pool's mint

What an instruction has done to the supply of the mint and to the pool's counter of tokens. The handlers
that move stake only leave mints and token accounts alone.

The others change both in one of four ways (`SupplyStep`): they mint what they add to the counter, burn what they
subtract from it, set the counter to the mint after minting a fee, or change nothing.
-/

namespace SplStakePool
open Exec Machine Function

variable {Key : Type} [DecidableEq Key] {rt : Runtime Key} {w w' : World Key} {sys : Sysvars}
  {accounts : List (AccountInfo Key)} {i : StakePoolInstruction Key} {out : Option Key} {acc acc' : Accounts Key}
  {src dst auth mint : AccountInfo Key} {n s : Nat}

/-- The supply of a mint account. -/
def Account.supply? (a : Account Key) : Option Nat := a.mint?.map (·.supply)

omit [DecidableEq Key] in
theorem Account.supply?_of_mint {a : Account Key} {m : Mint Key} (h : a.data = .mint m) :
    a.supply? = some m.supply := by simp [supply?, mint?, h]

omit [DecidableEq Key] in
theorem SameTokens.supply (h : SameTokens acc acc') (k : Key) : (acc' k).supply? = (acc k).supply? := by
  rw [Account.supply?, (h k).1, Account.supply?]

theorem tokenMintTo_supply (hl : rt.Lawful) (h : tokenMintTo rt acc mint dst auth n = .ok acc')
    (hs : (acc mint.key).supply? = some s) : (acc' mint.key).supply? = some (s + n) := by
  obtain ⟨hne, m, t, hm, -, -, -, -, rfl⟩ := tokenMintTo_ok hl h
  rw [Account.supply?_of_mint hm, Option.some.injEq] at hs
  rw [update_of_ne hne, update_self, Account.supply?_of_mint rfl, ← hs]

theorem tokenBurn_supply (hl : rt.Lawful) (h : tokenBurn rt acc src mint auth n = .ok acc')
    (hs : (acc mint.key).supply? = some s) : n ≤ s ∧ (acc' mint.key).supply? = some (s - n) := by
  obtain ⟨-, -, t, m, -, hm, -, -, hn, rfl⟩ := tokenBurn_ok hl h
  rw [Account.supply?_of_mint hm, Option.some.injEq] at hs
  rw [update_self, Account.supply?_of_mint rfl, ← hs]
  exact ⟨hn, rfl⟩

theorem tokenTransfer_supply (hl : rt.Lawful) {decimals : Nat}
    (h : tokenTransfer rt acc src mint dst auth n decimals = .ok acc') {k : Key}
    (hs : (acc k).supply? = some s) : (acc' k).supply? = some s := by
  obtain ⟨-, t, u, r, ht, hu, -, -, -, -, rfl⟩ := tokenTransfer_ok hl h
  have hne : ∀ {j v}, (acc j).data = .token v → k ≠ j := by
    rintro j v hd rfl
    simp [Account.supply?, Account.mint?, hd] at hs
  rw [update_of_ne (hne hu), update_of_ne (hne ht), hs]

theorem mintDepositTokens_supply (hl : rt.Lawful) {user manager referrer : AccountInfo Key}
    {t : DepositTokens} (h : mintDepositTokens rt acc t mint user manager referrer auth = .ok acc')
    (hs : (acc mint.key).supply? = some s) :
    (acc' mint.key).supply? = some (s + (t.user + t.managerFee + t.referralFee)) := by
  obtain ⟨acc₁, acc₂, h₁, h₂, h₃⟩ := mintDepositTokens_eq_ok h
  have h₁ := tokenMintTo_supply hl h₁ hs
  have h₂ : (acc₂ mint.key).supply? = some (s + t.user + t.managerFee) := by
    rcases h₂ with ⟨-, h₂⟩ | ⟨h0, rfl⟩
    · exact tokenMintTo_supply hl h₂ h₁
    · rw [h₁, h0, Nat.add_zero]
  have h₃ : (acc' mint.key).supply? = some (s + t.user + t.managerFee + t.referralFee) := by
    rcases h₃ with ⟨-, h₃⟩ | ⟨h0, rfl⟩
    · exact tokenMintTo_supply hl h₃ h₂
    · rw [h₂, h0, Nat.add_zero]
  rw [h₃]
  congr 1
  omega

/-! ## Handlers that move stake only -/

theorem AddValidatorToPoolAccounts.Ok.tokens (hl : rt.Lawful) {a : AddValidatorToPoolAccounts Key}
    {seed : UInt32} {m : Meta Key} {acc₁ acc₂ : Accounts Key} (h : a.Ok rt w w' seed m acc₁ acc₂) :
    SameTokens w.accounts w'.accounts :=
  ((createStakeAccount_tokens hl h.create).trans (stakeSplit_tokens hl h.split)).trans
    (stakeDelegate_tokens hl h.delegate)

theorem RemoveValidatorFromPoolAccounts.Ok.tokens (hl : rt.Lawful)
    {a : RemoveValidatorFromPoolAccounts Key} {s : Stake Key} {v : ValidatorStakeInfo Key}
    {acc₁ : Accounts Key} (h : a.Ok rt w w' s v acc₁) : SameTokens w.accounts w'.accounts := by
  have maybe : ∀ {acc acc' : Accounts Key} {info : AccountInfo Key},
      stakeDeactivate rt w.sysvars acc info a.withdrawAuthorityInfo = .ok acc' ∨ acc = acc' →
      SameTokens acc acc' := by
    rintro acc acc' info (h | rfl)
    · exact stakeDeactivate_tokens hl h
    · exact .refl _
  have h₁ : SameTokens w.accounts acc₁ := by
    rcases h.transient with ⟨-, -, h⟩ | ⟨-, rfl⟩
    · exact maybe h
    · exact .refl _
  exact h₁.trans (maybe h.deactivate)

section
variable {a : IncreaseValidatorStakeAccounts Key} {lamports total : Nat} {seed : UInt64}
  {v : ValidatorStakeInfo Key} {acc₁ : Accounts Key} {info : AccountInfo Key}

theorem IncreaseValidatorStakeAccounts.Ok.tokens (hl : rt.Lawful)
    (h : a.Ok rt w w' lamports seed v acc₁ info) : SameTokens w.accounts w'.accounts := by
  have h₁ : SameTokens w.accounts acc₁ := by
    cases h.source with
    | reserve => exact .refl _
    | ephemeral _ _ create split delegate =>
      exact ((createStakeAccount_tokens hl create).trans (stakeSplit_tokens hl split)).trans
        (stakeDelegate_tokens hl delegate)
  rcases h.transient with ⟨-, -, -, h⟩ | ⟨-, create, split, -, delegate⟩
  · exact h₁.trans (stakeMerge_tokens hl h)
  · have h₂ := (h₁.trans (createStakeAccount_tokens hl create)).trans (stakeSplit_tokens hl split)
    rcases delegate with ⟨-, rfl⟩ | ⟨-, h⟩
    · exact h₂
    · exact h₂.trans (stakeDelegate_tokens hl h)

end

section
variable {a : DecreaseValidatorStakeAccounts Key} {lamports : Nat} {seed : UInt64} {m : Meta Key}
  {st : Stake Key} {v : ValidatorStakeInfo Key} {acc₁ : Accounts Key} {info : AccountInfo Key}

theorem DecreaseValidatorStakeAccounts.Funded.tokens (hl : rt.Lawful) (h : Funded rt w a acc info acc') :
    SameTokens acc acc' := by
  rcases h with rfl | ⟨_, _, -, -, h⟩
  · exact .refl _
  · exact stakeWithdraw_tokens hl h

theorem DecreaseValidatorStakeAccounts.Ok.tokens (hl : rt.Lawful)
    (h : a.Ok rt w w' lamports seed m st v acc₁ info n) : SameTokens w.accounts w'.accounts := by
  have h₁ : SameTokens w.accounts acc₁ := by
    cases h.source with
    | validator => exact .refl _
    | ephemeral _ _ create fund split deactivate =>
      exact (((createStakeAccount_tokens hl create).trans (fund.tokens hl)).trans
        (stakeSplit_tokens hl split)).trans (stakeDeactivate_tokens hl deactivate)
  rcases h.transient with ⟨-, -, -, h⟩ | ⟨-, create, fund, split, -, deactivate⟩
  · exact h₁.trans (stakeMerge_tokens hl h)
  · have h₂ := ((h₁.trans (createStakeAccount_tokens hl create)).trans (fund.tokens hl)).trans
      (stakeSplit_tokens hl split)
    rcases deactivate with ⟨-, h⟩ | rfl
    · exact h₂.trans (stakeDeactivate_tokens hl h)
    · exact h₂

end

namespace UpdateValidatorListBalanceAccounts
variable {a : UpdateValidatorListBalanceAccounts Key} {noMerge : Bool} {v v' : ValidatorStakeInfo Key}
  {va ta : AccountInfo Key} {status status' : PodStakeStatus} {t : Nat}

/-- A relation between accounts that every call of an update is in. -/
structure KeptByCalls (rt : Runtime Key) (sys : Sysvars) (R : Accounts Key → Accounts Key → Prop) : Prop where
  refl : ∀ acc, R acc acc
  trans : ∀ {acc acc' acc''}, R acc acc' → R acc' acc'' → R acc acc''
  merge : ∀ {acc acc' src auth dst}, stakeMerge rt sys acc src auth dst = .ok acc' → R acc acc'
  deactivate : ∀ {acc acc' dst auth}, stakeDeactivate rt sys acc dst auth = .ok acc' → R acc acc'
  withdraw : ∀ {acc acc' src auth dst n}, stakeWithdraw rt sys acc src auth dst n = .ok acc' → R acc acc'

section
variable {R : Accounts Key → Accounts Key → Prop} (hR : KeptByCalls rt w.sysvars R)
include hR

theorem updateTransient_kept (h : a.updateTransient rt w noMerge acc v va ta = .ok (acc', status, t)) : R acc acc' := by
  simp only [updateTransient] at h
  split at h
  · split at h
    · cases h; exact hR.refl _
    · cases h; exact hR.refl _
    · simp only [bind_eq_ok, pure_eq_ok, Prod.mk.injEq] at h
      obtain ⟨_, hm, _, -, rfl, -⟩ := h
      exact hR.merge hm
    · simp only [bind_eq_ok, pure_eq_ok, Prod.mk.injEq] at h
      obtain ⟨_, hm, _, -, rfl, -⟩ := h
      exact hR.merge hm
    · simp only [bind_eq_ok, pure_eq_ok, Prod.mk.injEq] at h
      obtain ⟨_, hm, rfl, -⟩ := h
      exact hR.merge hm
    · simp only [bind_eq_ok, pure_eq_ok, Prod.mk.injEq] at h
      obtain ⟨_, hd, rfl, -⟩ := h
      exact hR.deactivate hd
  · cases h; exact hR.refl _

theorem withdrawAdditional_kept {m : Meta Key} {s : Stake Key}
    (h : a.withdrawAdditional rt w acc m s va = .ok acc') : R acc acc' := by
  rcases ite_pure_eq_ok.1 h with ⟨-, h⟩ | ⟨-, rfl⟩
  · exact hR.withdraw h
  · exact hR.refl _

theorem updateDelegated_kept {s : Stake Key}
    (h : a.updateDelegated rt w noMerge acc status s va = .ok (acc', status', n)) :
    R acc acc' := by
  simp only [updateDelegated, bind_eq_ok] at h
  obtain ⟨s, -, h⟩ := h
  cases s with
  | active | deactivatingTransient | readyForRemoval => cases h; exact hR.refl _
  | deactivatingValidator | deactivatingAll =>
    dsimp only at h
    split at h
    · cases h; exact hR.refl _
    split at h
    · simp only [bind_eq_ok, pure_eq_ok, Prod.mk.injEq] at h
      obtain ⟨_, hm, _, -, rfl, -⟩ := h
      exact hR.merge hm
    · cases h; exact hR.refl _

theorem updateValidator_kept (h : a.updateValidator rt w noMerge acc status t va = .ok (acc', status', n)) :
    R acc acc' := by
  simp only [updateValidator] at h
  split at h
  · split at h
    · simp only [bind_eq_ok] at h
      obtain ⟨acc₁, hw, h⟩ := h
      exact hR.trans (withdrawAdditional_kept hR hw) (updateDelegated_kept hR h)
    · cases h; exact hR.refl _
  · split at h
    · simp only [bind_eq_ok, pure_eq_ok, Prod.mk.injEq] at h
      obtain ⟨_, hm, rfl, -⟩ := h
      exact hR.merge hm
    · cases h; exact hR.refl _
  all_goals cases h; exact hR.refl _

theorem updateEntries_kept {vs vs' : List (ValidatorStakeInfo Key)}
    {infos : List (AccountInfo Key × AccountInfo Key)}
    (h : a.updateEntries rt w noMerge acc vs infos = .ok (acc', vs')) : R acc acc' := by
  induction vs generalizing acc infos vs' with
  | nil => cases h; exact hR.refl _
  | cons v vs ih =>
    cases infos with
    | nil => cases h; exact hR.refl _
    | cons info infos =>
      simp only [updateEntries, bind_eq_ok, pure_eq_ok, Prod.mk.injEq] at h
      obtain ⟨⟨acc₁, v'⟩, hv, ⟨acc₂, vs''⟩, h, rfl, rfl⟩ := h
      refine hR.trans ?_ (ih h)
      simp only [updateEntry] at hv
      split at hv
      · cases hv; exact hR.refl _
      split at hv
      · cases hv; exact hR.refl _
      simp only [bind_eq_ok, pure_eq_ok, Prod.mk.injEq] at hv
      obtain ⟨⟨acc₃, _, _⟩, ht, ⟨acc₄, _, _⟩, hva, rfl, -⟩ := hv
      exact hR.trans (updateTransient_kept hR ht) (updateValidator_kept hR hva)

end

theorem updateEntries_tokens (hl : rt.Lawful) {vs vs' : List (ValidatorStakeInfo Key)}
    {infos : List (AccountInfo Key × AccountInfo Key)}
    (h : a.updateEntries rt w noMerge acc vs infos = .ok (acc', vs')) : SameTokens acc acc' :=
  updateEntries_kept ⟨.refl, .trans, stakeMerge_tokens hl, stakeDeactivate_tokens hl, stakeWithdraw_tokens hl⟩ h

end UpdateValidatorListBalanceAccounts

/-! ## Handlers that mint or burn -/

/-- The supply of the pool's mint. -/
def World.supply? (w : World Key) : Option Nat := (w.accounts w.stakePool.poolMint).supply?

theorem DepositSolAccounts.Ok.supply (hl : rt.Lawful) {a : DepositSolAccounts Key} {minimum : Option Nat}
    {t : DepositTokens} {acc₁ : Accounts Key} (h : a.Ok rt w w' n minimum t acc₁)
    (hs : w.supply? = some s) : w'.supply? = some (s + t.newPoolTokens) ∧
      w'.stakePool.poolTokenSupply = w.stakePool.poolTokenSupply + t.newPoolTokens := by
  have hp := congrArg World.stakePool h.result
  have he := (StakePool.solDepositTokens_eq_some h.tokens).2
  have hmint := mintDepositTokens_supply hl h.mint
    (by rw [(solTransfer_tokens hl h.transfer).supply, h.mintKey]; exact hs)
  rw [h.mintKey, he] at hmint
  refine ⟨?_, by rw [hp]⟩
  rw [World.supply?, hp]
  exact hmint

theorem DepositStakeAccounts.Ok.supply (hl : rt.Lawful) {a : DepositStakeAccounts Key}
    {minimum : Option Nat} {st : Stake Key} {v : ValidatorStakeInfo Key} {t : DepositTokens}
    {acc₁ acc₂ acc₃ : Accounts Key} {total stake : Nat}
    (h : a.Ok rt w w' minimum st v t acc₁ acc₂ acc₃ total stake) (hs : w.supply? = some s) :
    w'.supply? = some (s + t.newPoolTokens) ∧
      w'.stakePool.poolTokenSupply = w.stakePool.poolTokenSupply + t.newPoolTokens := by
  have hp := congrArg World.stakePool h.result
  have he := (StakePool.stakeDepositTokens_eq_some h.tokens).2
  have h₁ := stakeAuthorizeSigned_tokens hl (DepositStakeAccounts.authorizeDeposit_eq_ok h.authorize).2
  have h₂ := h₁.trans (stakeMerge_tokens hl h.merge)
  have hmint := mintDepositTokens_supply hl h.mint (by rw [h₂.supply, h.mintKey]; exact hs)
  rw [h.mintKey, he] at hmint
  refine ⟨?_, by rw [hp]⟩
  rw [World.supply?, hp]
  rcases h.withdraw with ⟨-, hw⟩ | ⟨-, he⟩
  · exact ((stakeWithdraw_tokens hl hw).supply _).trans hmint
  · rw [← he]; exact hmint

theorem burn_transfer_supply (hl : rt.Lawful) {acc₁ acc₂ acc₃ : Accounts Key} {manager : AccountInfo Key}
    {fee decimals : Nat} (hs : (acc mint.key).supply? = some s)
    (hb : tokenBurn rt acc src mint auth n = .ok acc₁) (ht : SameTokens acc₁ acc₂)
    (hf : 0 < fee ∧ tokenTransfer rt acc₂ src mint manager auth fee decimals = .ok acc₃ ∨
      fee = 0 ∧ acc₂ = acc₃) : n ≤ s ∧ (acc₃ mint.key).supply? = some (s - n) := by
  obtain ⟨hle, hb⟩ := tokenBurn_supply hl hb hs
  have h₂ := (ht.supply _).trans hb
  refine ⟨hle, ?_⟩
  rcases hf with ⟨-, hf⟩ | ⟨-, rfl⟩
  · exact tokenTransfer_supply hl hf h₂
  · exact h₂

theorem WithdrawSolAccounts.Ok.supply (hl : rt.Lawful) {a : WithdrawSolAccounts Key}
    {tokens fee decimals : Nat} {minimum : Option Nat} {acc₁ acc₂ : Accounts Key}
    (h : a.Ok rt w w' tokens minimum fee decimals n acc₁ acc₂) (hs : w.supply? = some s) :
    tokens - fee ≤ s ∧ w'.supply? = some (s - (tokens - fee)) ∧
      w'.stakePool.poolTokenSupply = w.stakePool.poolTokenSupply - (tokens - fee) := by
  have hp := congrArg World.stakePool h.result
  obtain ⟨hle, hb⟩ := burn_transfer_supply hl (by rw [h.mintKey]; exact hs) h.burn (.refl _) h.transfer
  refine ⟨hle, ?_, by rw [hp]⟩
  rw [h.mintKey] at hb
  rw [World.supply?, hp]
  exact ((stakeWithdraw_tokens hl h.withdraw).supply _).trans hb

theorem WithdrawStakeAccounts.Ok.supply (hl : rt.Lawful) {a : WithdrawStakeAccounts Key}
    {tokens fee decimals : Nat} {minimum : Option Nat} {plan : WithdrawPlan Key}
    {acc₁ acc₂ acc₃ : Accounts Key}
    (h : a.Ok rt w w' tokens minimum fee decimals n plan acc₁ acc₂ acc₃) (hs : w.supply? = some s) :
    tokens - fee ≤ s ∧ w'.supply? = some (s - (tokens - fee)) ∧
      w'.stakePool.poolTokenSupply = w.stakePool.poolTokenSupply - (tokens - fee) := by
  have hp := congrArg World.stakePool h.result
  obtain ⟨d, x, he⟩ := WithdrawStakeAccounts.stakePool_eq plan w.stakePool
  rw [he] at hp
  obtain ⟨hle, hb⟩ := burn_transfer_supply hl (by rw [h.mintKey]; exact hs) h.burn
    ((stakeSplit_tokens hl h.split).trans (stakeAuthorizeSigned_tokens hl h.authorize)) h.transfer
  refine ⟨hle, ?_, by rw [hp]⟩
  rw [h.mintKey] at hb
  rw [World.supply?, hp]
  exact hb

theorem UpdateStakePoolBalanceAccounts.Ok.minted (hl : rt.Lawful) {a : UpdateStakePoolBalanceAccounts Key}
    {m : Meta Key} {fee : Nat} {mint : Mint Key} (h : a.Ok rt w w' m fee mint)
    (hs : w.supply? = some s) :
    w'.supply? = some (s + fee) ∧ w'.stakePool.poolTokenSupply = s + fee := by
  have hp := congrArg World.stakePool h.result
  have hm := h.mint_eq
  rw [h.mintKey] at hm
  have hfee : (w'.accounts w.stakePool.poolMint).supply? = some (s + fee) := by
    rcases h.mintTo with ⟨-, hmint⟩ | ⟨h0, he⟩
    · have := tokenMintTo_supply hl hmint (by rw [h.mintKey]; exact hs)
      rwa [h.mintKey] at this
    · rw [← he, h0]; exact hs
  have hsup : mint.supply = s + fee := by
    rw [Account.supply?_of_mint hm] at hfee
    exact Option.some.inj hfee
  refine ⟨?_, by rw [hp]; exact hsup⟩
  have hk : w'.stakePool.poolMint = w.stakePool.poolMint := by
    rw [hp]
    simp only [StakePool.updateEpoch]
    split <;> rfl
  rw [World.supply?, hk]
  exact hfee

/-- How the supply `s` of the mint and the pool's counter have changed. -/
inductive SupplyStep (rt : Runtime Key) (w w' : World Key) (s : Nat) : Prop
  | kept (h : w'.supply? = some s) (hc : w'.stakePool.poolTokenSupply = w.stakePool.poolTokenSupply)
      (ht : w'.stakePool.totalLamports = w.stakePool.totalLamports)
  | minted {n lamports : Nat} (h : w'.supply? = some (s + n))
      (hc : w'.stakePool.poolTokenSupply = w.stakePool.poolTokenSupply + n)
      (ht : w'.stakePool.totalLamports = w.stakePool.totalLamports + lamports)
      (hn : w.stakePool.calcPoolTokensForDeposit lamports = some n)
  | burnt {n lamports : Nat} (hs : n ≤ s) (h : w'.supply? = some (s - n))
      (hle : n ≤ w.stakePool.poolTokenSupply)
      (hc : w'.stakePool.poolTokenSupply = w.stakePool.poolTokenSupply - n)
      (hlt : lamports ≤ w.stakePool.totalLamports)
      (ht : w'.stakePool.totalLamports = w.stakePool.totalLamports - lamports)
      (hn : lamports * w.stakePool.poolTokenSupply ≤ n * w.stakePool.totalLamports)
  | balanced {a : UpdateStakePoolBalanceAccounts Key} {m : Meta Key} {fee : Nat} {mint : Mint Key}
      (hu : a.Ok rt w w' m fee mint) (h : w'.supply? = some (s + fee))
      (hc : w'.stakePool.poolTokenSupply = s + fee)

theorem SupplyStep.of_same (hs : w.supply? = some s)
    (ha : (w'.accounts w.stakePool.poolMint).supply? = (w.accounts w.stakePool.poolMint).supply?)
    (hm : w'.stakePool.poolMint = w.stakePool.poolMint)
    (hc : w'.stakePool.poolTokenSupply = w.stakePool.poolTokenSupply)
    (ht : w'.stakePool.totalLamports = w.stakePool.totalLamports) : SupplyStep rt w w' s :=
  .kept (by rw [World.supply?, hm, ha]; exact hs) hc ht

omit [DecidableEq Key] in
theorem StakePool.updateFee_supply {p p' : StakePool Key} {fee : FeeType} (h : p.updateFee fee = .ok p') :
    p'.poolTokenSupply = p.poolTokenSupply ∧ p'.poolMint = p.poolMint := by
  cases fee with
  | stakeWithdrawal | solWithdrawal =>
    simp only [updateFee, bind_eq_ok, exists_unit, pure_eq_ok] at h
    obtain ⟨-, rfl⟩ := h
    exact ⟨rfl, rfl⟩
  | _ => cases h; exact ⟨rfl, rfl⟩

theorem Executed.supply (hl : rt.Lawful) (hs : w.supply? = some s) (h : Executed rt w w' accounts i out) :
    SupplyStep rt w w' s := by
  cases h with
  | add _ _ h =>
    have hp := congrArg World.stakePool h.result
    exact .of_same hs ((h.tokens hl).supply _) (by rw [hp]) (by rw [hp]) (by rw [hp])
  | remove _ h =>
    have hp := congrArg World.stakePool h.result
    exact .of_same hs ((h.tokens hl).supply _) (by rw [hp]; rfl) (by rw [hp]; rfl) (by rw [hp]; rfl)
  | decrease _ h =>
    have hp := congrArg World.stakePool h.result
    exact .of_same hs ((h.tokens hl).supply _) (by rw [hp]) (by rw [hp]) (by rw [hp])
  | increase _ h =>
    have hp := congrArg World.stakePool h.result
    exact .of_same hs ((h.tokens hl).supply _) (by rw [hp]) (by rw [hp]) (by rw [hp])
  | updateList _ _ h =>
    have hp := congrArg World.stakePool h.result
    have ht := UpdateValidatorListBalanceAccounts.updateEntries_tokens hl h.entries
    exact .of_same hs (ht.supply _) (by rw [hp]) (by rw [hp]) (by rw [hp])
  | @setPreferred validatorType _ _ _ h =>
    subst h
    cases validatorType <;> exact .of_same hs rfl rfl rfl rfl
  | cleanup _ h =>
    subst h
    split <;> exact .of_same hs rfl rfl rfl rfl
  | setFee _ _ _ _ hp h =>
    obtain ⟨hc, hm⟩ := StakePool.updateFee_supply hp
    have ht := StakePool.updateFee_total hp
    subst h
    exact .of_same hs rfl hm hc ht
  | manage _ _ h =>
    subst h
    exact .of_same hs rfl rfl rfl rfl
  | @createMetadata mint auth payer name symbol uri a b _ _ _ hcr h =>
    subst h
    obtain ⟨-, had, -, -, n, -, hb⟩ := hl.createMetadataAccountsV3_ok _ _ _ _ _ _ _ _ _ hcr
    refine .of_same hs ?_ rfl rfl rfl
    -- the metadata account was not there before, and the payer only pays
    have hne : w.stakePool.poolMint ≠ (findMetadataAccount rt w.stakePool.poolMint).1 := fun he => by
      rw [World.supply?, he, Account.supply?, Account.mint?, had] at hs
      cases hs
    dsimp only
    rw [update_of_ne hne]
    by_cases hk : w.stakePool.poolMint = payer.key
    · rw [hk, update_self, hb]
      rfl
    · rw [update_of_ne hk]
  | updateMetadata hup h =>
    subst h
    obtain ⟨-, rfl⟩ := hl.updateMetadataAccountsV2_ok _ _ _ _ _ _ hup
    exact .of_same hs (by rw [update_eq_self]) rfl rfl rfl
  | depositStake _ h =>
    obtain ⟨hsup, hc⟩ := h.supply hl hs
    exact .minted hsup hc (by rw [congrArg World.stakePool h.result])
      (StakePool.stakeDepositTokens_eq_some h.tokens).1
  | depositSol _ h =>
    obtain ⟨hsup, hc⟩ := h.supply hl hs
    exact .minted hsup hc (by rw [congrArg World.stakePool h.result])
      (StakePool.solDepositTokens_eq_some h.tokens).1
  | @withdrawStake a tokens minimum fee decimals n plan acc₁ acc₂ acc₃ h =>
    obtain ⟨hle, hsup, hc⟩ := h.supply hl hs
    refine .burnt hle hsup h.burnt_le hc h.lamports_le (by rw [congrArg World.stakePool h.result]) ?_
    calc plan.withdrawLamports * w.stakePool.poolTokenSupply
        ≤ n * w.stakePool.poolTokenSupply := Nat.mul_le_mul_right _ h.planned.le
      _ ≤ (tokens - fee) * w.stakePool.totalLamports := h.lamports.share
  | withdrawSol h =>
    obtain ⟨hle, hsup, hc⟩ := h.supply hl hs
    exact .burnt hle hsup h.burnt_le hc h.lamports_le (by rw [congrArg World.stakePool h.result])
      h.lamports.share
  | updatePool _ h =>
    obtain ⟨hsup, hc⟩ := h.minted hl hs
    exact .balanced h hsup hc

end SplStakePool
