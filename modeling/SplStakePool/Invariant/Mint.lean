import SplStakePool.Invariant.Backing

/-!
# The authority over the mint of runs

Calls change the supply of a mint and never the authority over it, so the pool's withdraw authority keeps the
authority that `Initialize` has checked.

The accounts are compared by their mint authorities alone. Every call keeps these, and a handler is a run of calls, so
that there is nothing to say about a handler beyond its calls.
-/

namespace SplStakePool
open Exec Machine Function System

variable {Key : Type} [DecidableEq Key] {rt : Runtime Key} {w w' : World Key} {acc acc' acc'' : Accounts Key}
  {src dst auth mintInfo : AccountInfo Key} {accounts : List (AccountInfo Key)} {i : StakePoolInstruction Key}
  {out : Option Key} {l : Label Key} {n : Nat}

/-- The authority over a mint. -/
def Account.mintAuthority? (a : Account Key) : Option Key := a.mint?.bind (·.mintAuthority)

/-- Mints keep their authorities. -/
def SameAuthorities (acc acc' : Accounts Key) : Prop := ∀ k, (acc' k).mintAuthority? = (acc k).mintAuthority?

omit [DecidableEq Key] in
theorem Account.mintAuthority?_of_mint {a : Account Key} {m : Mint Key} (h : a.data = .mint m) :
    a.mintAuthority? = m.mintAuthority := by
  rw [mintAuthority?, Account.mint?_eq_some.2 h, Option.bind_some]

omit [DecidableEq Key] in
theorem Account.mintAuthority?_of_token {a : Account Key} {t : TokenAccount Key} (h : a.data = .token t) :
    a.mintAuthority? = none := by
  rw [mintAuthority?, Account.mint?, h, Option.bind_none]

namespace SameAuthorities

omit [DecidableEq Key] in
theorem refl (acc : Accounts Key) : SameAuthorities acc acc := fun _ => rfl

omit [DecidableEq Key] in
theorem trans (h₁ : SameAuthorities acc acc') (h₂ : SameAuthorities acc' acc'') : SameAuthorities acc acc'' :=
  fun k => (h₂ k).trans (h₁ k)

theorem update {k : Key} {a : Account Key} (h : SameAuthorities acc acc')
    (ha : a.mintAuthority? = (acc k).mintAuthority?) : SameAuthorities acc (update acc' k a) := by
  intro j
  by_cases hj : j = k
  · subst hj
    rw [update_self]
    exact ha
  · rw [update_of_ne hj]
    exact h j

theorem update_supply {k : Key} {m : Mint Key} (n : Nat) (h : SameAuthorities acc acc') (hm : (acc k).data = .mint m) :
    SameAuthorities acc (Function.update acc' k { acc k with data := .mint { m with supply := n } }) :=
  h.update (by rw [Account.mintAuthority?_of_mint rfl, Account.mintAuthority?_of_mint hm])

theorem update_amount {k : Key} {t : TokenAccount Key} (n : Nat) (h : SameAuthorities acc acc')
    (ht : (acc k).data = .token t) :
    SameAuthorities acc (Function.update acc' k { acc k with data := .token { t with amount := n } }) :=
  h.update (by rw [Account.mintAuthority?_of_token rfl, Account.mintAuthority?_of_token ht])

end SameAuthorities

omit [DecidableEq Key] in
theorem SameTokens.authorities (h : SameTokens acc acc') : SameAuthorities acc acc' := fun k => by
  rw [Account.mintAuthority?, (h k).1, Account.mintAuthority?]

theorem tokenMintTo_authorities (hl : rt.Lawful) (h : tokenMintTo rt acc mintInfo dst auth n = .ok acc') :
    SameAuthorities acc acc' := by
  obtain ⟨-, m, t, hm, ht, -, -, -, rfl⟩ := tokenMintTo_ok hl h
  exact ((SameAuthorities.refl acc).update_supply _ hm).update_amount _ ht

theorem tokenBurn_authorities (hl : rt.Lawful) (h : tokenBurn rt acc src mintInfo auth n = .ok acc') :
    SameAuthorities acc acc' := by
  obtain ⟨-, -, t, m, ht, hm, -, -, -, rfl⟩ := tokenBurn_ok hl h
  exact ((SameAuthorities.refl acc).update_amount _ ht).update_supply _ hm

theorem tokenTransfer_authorities (hl : rt.Lawful) {decimals : Nat}
    (h : tokenTransfer rt acc src mintInfo dst auth n decimals = .ok acc') : SameAuthorities acc acc' := by
  obtain ⟨-, t, u, r, ht, hu, -, -, -, -, rfl⟩ := tokenTransfer_ok hl h
  exact ((SameAuthorities.refl acc).update_amount _ ht).update_amount _ hu

theorem mintDepositTokens_authorities (hl : rt.Lawful) {user manager referrer : AccountInfo Key}
    {t : DepositTokens} (h : mintDepositTokens rt acc t mintInfo user manager referrer auth = .ok acc') :
    SameAuthorities acc acc' := by
  obtain ⟨acc₁, acc₂, h₁, h₂, h₃⟩ := mintDepositTokens_eq_ok h
  have h₂ : SameAuthorities acc₁ acc₂ := by
    rcases h₂ with ⟨-, h₂⟩ | ⟨-, rfl⟩
    · exact tokenMintTo_authorities hl h₂
    · exact .refl _
  have h₃ : SameAuthorities acc₂ acc' := by
    rcases h₃ with ⟨-, h₃⟩ | ⟨-, rfl⟩
    · exact tokenMintTo_authorities hl h₃
    · exact .refl _
  exact ((tokenMintTo_authorities hl h₁).trans h₂).trans h₃

theorem burn_transfer_authorities (hl : rt.Lawful) {acc₁ acc₂ acc₃ : Accounts Key} {manager : AccountInfo Key}
    {fee decimals : Nat} (hb : tokenBurn rt acc src mintInfo auth n = .ok acc₁) (ht : SameTokens acc₁ acc₂)
    (hf : 0 < fee ∧ tokenTransfer rt acc₂ src mintInfo manager auth fee decimals = .ok acc₃ ∨
      fee = 0 ∧ acc₂ = acc₃) : SameAuthorities acc acc₃ := by
  have h₂ := (tokenBurn_authorities hl hb).trans ht.authorities
  rcases hf with ⟨-, hf⟩ | ⟨-, rfl⟩
  · exact h₂.trans (tokenTransfer_authorities hl hf)
  · exact h₂

theorem UpdateStakePoolBalanceAccounts.Ok.authorities (hl : rt.Lawful) {a : UpdateStakePoolBalanceAccounts Key}
    {m : Meta Key} {fee : Nat} {mint : Mint Key} (h : a.Ok rt w w' m fee mint) :
    SameAuthorities w.accounts w'.accounts := by
  rcases h.mintTo with ⟨-, h⟩ | ⟨-, h⟩
  · exact tokenMintTo_authorities hl h
  · rw [h]
    exact .refl _

theorem Executed.authorities (hl : rt.Lawful) (h : Executed rt w w' accounts i out) :
    SameAuthorities w.accounts w'.accounts := by
  cases h with
  | add _ _ h => exact (h.tokens hl).authorities
  | remove _ h => exact (h.tokens hl).authorities
  | decrease _ h => exact (h.tokens hl).authorities
  | increase _ h => exact (h.tokens hl).authorities
  | updateList _ _ h => exact (UpdateValidatorListBalanceAccounts.updateEntries_tokens hl h.entries).authorities
  | updatePool _ h => exact h.authorities hl
  | setPreferred _ _ h | cleanup _ h | setFee _ _ _ _ _ h | manage _ _ h =>
    subst h
    exact .refl _
  | @createMetadata mint auth payer name symbol uri a b _ _ _ hcr h =>
    subst h
    obtain ⟨-, hd, hd', -, n, -, hb⟩ := hl.createMetadataAccountsV3_ok _ _ _ _ _ _ _ _ _ hcr
    have hpay : SameAuthorities w.accounts (update w.accounts payer.key b) :=
      (SameAuthorities.refl _).update (by rw [hb]; rfl)
    refine hpay.update ?_
    simp only [Account.mintAuthority?, Account.mint?, hd, hd']
  | updateMetadata hup h =>
    subst h
    obtain ⟨-, rfl⟩ := hl.updateMetadataAccountsV2_ok _ _ _ _ _ _ hup
    dsimp only
    rw [update_eq_self]
    exact .refl _
  | depositStake _ h =>
    have h₁ := stakeAuthorizeSigned_tokens hl (DepositStakeAccounts.authorizeDeposit_eq_ok h.authorize).2
    have h₂ := (h₁.trans (stakeMerge_tokens hl h.merge)).authorities.trans (mintDepositTokens_authorities hl h.mint)
    rcases h.withdraw with ⟨-, hw⟩ | ⟨-, he⟩
    · exact h₂.trans (stakeWithdraw_tokens hl hw).authorities
    · rw [← he]
      exact h₂
  | depositSol _ h =>
    exact (solTransfer_tokens hl h.transfer).authorities.trans (mintDepositTokens_authorities hl h.mint)
  | withdrawStake h =>
    exact burn_transfer_authorities hl h.burn
      ((stakeSplit_tokens hl h.split).trans (stakeAuthorizeSigned_tokens hl h.authorize)) h.transfer
  | withdrawSol h =>
    exact (burn_transfer_authorities hl h.burn (.refl _) h.transfer).trans
      (stakeWithdraw_tokens hl h.withdraw).authorities

variable [Inhabited Key]

/-- The withdraw authority can mint pool tokens. -/
def World.Mintable (rt : Runtime Key) (w : World Key) : Prop :=
  (w.accounts w.stakePool.poolMint).mintAuthority? = some rt.withdrawAuthority

omit [DecidableEq Key] [Inhabited Key] in
theorem World.Mintable.mint (h : w.Mintable rt) :
    ∃ m, (w.accounts w.stakePool.poolMint).data = .mint m ∧ m.mintAuthority = some rt.withdrawAuthority := by
  obtain ⟨m, hm, ha⟩ := Option.bind_eq_some_iff.1 h
  exact ⟨m, Account.mint?_eq_some.1 hm, ha⟩

omit [Inhabited Key] in
theorem Executed.mintable (hl : rt.Lawful) (hm : w.Mintable rt) (h : Executed rt w w' accounts i out) :
    w'.Mintable rt := by
  rw [World.Mintable, h.statics.mint, h.authorities hl]
  exact hm

theorem EnvStep.mintable (hm : w.Mintable rt) (h : EnvStep rt w l w') : w'.Mintable rt := by
  have hpool := h.ambient.pool
  rw [World.Mintable, hpool]
  -- other accounts, and what keeps the authority
  have other : ∀ {k : Key} {a : Account Key}, w.stakePool.poolMint ≠ k →
      (update w.accounts k a w.stakePool.poolMint).mintAuthority? = some rt.withdrawAuthority := fun hk => by
    rw [update_of_ne hk]
    exact hm
  have same : ∀ {k : Key} {a : Account Key}, a.mintAuthority? = (w.accounts k).mintAuthority? →
      (update w.accounts k a w.stakePool.poolMint).mintAuthority? = some rt.withdrawAuthority := fun ha =>
    ((SameAuthorities.refl w.accounts).update ha _).trans hm
  have stake : ∀ {k : Key} {a : Account Key} {s t : StakeStateV2 Key}, (w.accounts k).data = .stakeState s →
      a.data = .stakeState t → a.mintAuthority? = (w.accounts k).mintAuthority? := fun hs ht => by
    rw [Account.mintAuthority?, Account.mintAuthority?, (notToken_of_stake hs ht).1]
  cases h with
  | donate k n => exact same rfl
  | reward k n credits m st hd => exact same (stake hd rfl)
  | deactivateDelinquent k m st hd => exact same (stake hd rfl)
  | forceDestake k m st hd => exact same (stake hd rfl)
  | advanceEpoch | completeRewards | setMinimumDelegation => exact hm
  | foreign _ _ _ hne | purge _ _ hne => exact other hne.symm
  | burn k n t m ht hd hn hns =>
    exact (((SameAuthorities.refl w.accounts).update_amount _ ht).update_supply _ hd _).trans hm

theorem Initialized.mintable (hl : rt.Lawful) (h : Initialized rt w) : w.Mintable rt := by
  obtain ⟨w₀, accounts, fee, withdrawalFee, depositFee, referralFee, maxValidators, -, h⟩ := h
  obtain ⟨a, m, mint, total, h⟩ := processInitialize_ok hl h
  obtain ⟨authorities, hw⟩ := h.result
  have hmint : (w₀.accounts a.poolMintInfo.key).mintAuthority? = some rt.withdrawAuthority := by
    rw [Account.mintAuthority?_of_mint h.mint_eq, h.mintAuthority]
  have hsame : SameAuthorities w₀.accounts w.accounts := by
    rcases h.mintTo with ⟨-, hm⟩ | ⟨-, he⟩
    · exact tokenMintTo_authorities hl hm
    · rw [he]
      exact .refl _
  rw [World.Mintable, congrArg World.stakePool hw]
  exact (hsame _).trans hmint

/-- The authority over the mint is never given away. -/
theorem World.Mintable.of_reach (hl : rt.Lawful) {ok : World Key → Label Key → Prop}
    (h : (poolSystem rt).Reach ok w) : w.Mintable rt := by
  refine h.invariant (fun _ h => h.mintable hl) fun t l u ht hm _ hs => ?_
  cases hs with
  | instruction _ hp =>
    exact (process_executed (not_isInitialize hl (Inv.of_reach hl ht).pool.valid hp) hp).mintable hl hm
  | env he => exact he.mintable hm

end SplStakePool
