import SplStakePool.Effect.Supply
import SplStakePool.Invariant.Run

/-!
# What the validator stakes are delegated to

The stake account of an active entry is delegated to the vote account of the entry, if it is delegated. Only a
split and a delegation change what an account is delegated to, and only of the account that they name; the
accounts that the handlers name there are new ones, never the validator stake account of an entry.

So a call keeps the voter of an account that it does not name (`KeepsVoter`), and so does a run of calls. What is left
is which entries are active: an entry is active after a step only if it was before, or if the staker has just added
it, in which case its account was delegated by the handler.
-/

namespace SplStakePool
open Exec Machine Function System

variable {Key : Type} [DecidableEq Key] {rt : Runtime Key} {w w' : World Key} {sys : Sysvars}
  {accounts : List (AccountInfo Key)} {i : StakePoolInstruction Key} {out : Option Key} {acc acc' acc'' : Accounts Key}
  {src dst auth vote mint : AccountInfo Key} {n : Nat} {l : Label Key}

/-- The account is a stake that is delegated to a vote account. -/
def Account.DelegatedTo (a : Account Key) (vote : Key) : Prop :=
  ∃ m s, a.data = .stakeState (.stake m s) ∧ s.delegation.voterPubkey = vote

/-- An account is delegated to nothing new. -/
def KeepsVoter (a a' : Account Key) : Prop := ∀ vote, a'.DelegatedTo vote → a.DelegatedTo vote

namespace KeepsVoter
variable {a b c : Account Key}

omit [DecidableEq Key]

theorem refl (a : Account Key) : KeepsVoter a a := fun _ h => h

theorem trans (h₁ : KeepsVoter a b) (h₂ : KeepsVoter b c) : KeepsVoter a c := fun vote h => h₁ vote (h₂ vote h)

theorem of_not (h : ∀ m s, b.data ≠ .stakeState (.stake m s)) : KeepsVoter a b := by
  rintro vote ⟨m, s, hd, -⟩
  exact absurd hd (h m s)

theorem of_data (h : b.data = a.data) : KeepsVoter a b := by
  rintro vote ⟨m, s, hd, hv⟩
  exact ⟨m, s, h ▸ hd, hv⟩

theorem of_stake {m m' : Meta Key} {s s' : Stake Key} (h : a.data = .stakeState (.stake m s))
    (h' : b.data = .stakeState (.stake m' s')) (hv : s'.delegation.voterPubkey = s.delegation.voterPubkey) :
    KeepsVoter a b := by
  rintro vote ⟨m₁, s₁, hd, hvote⟩
  rw [h', AccountData.stakeState.injEq, StakeStateV2.stake.injEq] at hd
  obtain ⟨-, rfl⟩ := hd
  exact ⟨m, s, h, hv.symm.trans hvote⟩

end KeepsVoter

theorem KeepsVoter.update {k j : Key} {a : Account Key} (h : KeepsVoter (acc k) (acc' k))
    (ha : k = j → KeepsVoter (acc j) a) : KeepsVoter (acc k) (update acc' j a k) := by
  by_cases hk : k = j
  · rw [hk, update_self]
    exact ha hk
  · rw [update_of_ne hk]
    exact h

/-! ## Calls -/

section
variable {k : Key}

theorem createStakeAccount_voter (hl : rt.Lawful) (h : createStakeAccount rt acc dst = .ok acc') :
    KeepsVoter (acc k) (acc' k) := by
  obtain ⟨-, -, rfl⟩ := createStakeAccount_ok hl h
  exact (KeepsVoter.refl (acc k)).update fun _ => .of_not fun m s hd => by cases hd

theorem stakeDelegate_voter (hl : rt.Lawful) (h : stakeDelegate rt sys acc dst vote auth = .ok acc')
    (hk : k ≠ dst.key) : KeepsVoter (acc k) (acc' k) := by
  obtain ⟨-, s, m, st, hd, -, -, -, -, -, rfl⟩ := stakeDelegate_ok hl h
  exact (KeepsVoter.refl (acc k)).update fun hk' => absurd hk' hk

theorem stakeDeactivate_voter (hl : rt.Lawful) (h : stakeDeactivate rt sys acc dst auth = .ok acc') :
    KeepsVoter (acc k) (acc' k) := by
  obtain ⟨-, m, s, hd, -, rfl⟩ := stakeDeactivate_ok hl h
  exact (KeepsVoter.refl (acc k)).update fun _ => .of_stake hd rfl rfl

theorem stakeSplit_voter (hl : rt.Lawful) (h : stakeSplit rt sys acc src auth n dst = .ok acc')
    (hk : k ≠ dst.key) : KeepsVoter (acc k) (acc' k) := by
  obtain ⟨-, -, -, -, -, s, t, u, hs, hsp, -, rfl⟩ := stakeSplit_ok hl h
  refine ((KeepsVoter.refl (acc k)).update fun _ => ?_).update fun hk' => absurd hk' hk
  -- the source keeps its state, unless all of it is taken
  split
  · exact .of_not fun m s hd => by cases hd
  · cases hsp with
    | initialized m => exact .of_not fun m s hd => by cases hd
    | stake m st left => exact .of_stake hs rfl rfl

theorem stakeMerge_voter (hl : rt.Lawful) (h : stakeMerge rt sys acc src auth dst = .ok acc') :
    KeepsVoter (acc k) (acc' k) := by
  obtain ⟨hne, -, -, d, s, d', md, ms, hd, hs, -, -, -, -, hm, rfl⟩ := stakeMerge_ok hl h
  refine ((KeepsVoter.refl (acc k)).update fun _ => .of_not fun m s hd => by cases hd).update fun _ => ?_
  cases hm with
  | initialized m => exact .of_not fun m s hd => by cases hd
  | stake m st gained credits => exact .of_stake hd rfl rfl

theorem stakeAuthorizeSigned_voter (hl : rt.Lawful) {new : Key}
    (h : stakeAuthorizeSigned rt sys acc dst auth new = .ok acc') : KeepsVoter (acc k) (acc' k) := by
  obtain ⟨-, s, m, hd, hm, -, rfl⟩ := stakeAuthorizeSigned_ok hl h
  refine (KeepsVoter.refl (acc k)).update fun _ => ?_
  cases s with
  | stake m st => exact .of_stake hd rfl rfl
  | _ => exact .of_not fun m s hd => by cases hd

theorem stakeWithdraw_voter (hl : rt.Lawful) (h : stakeWithdraw rt sys acc src auth dst n = .ok acc') :
    KeepsVoter (acc k) (acc' k) := by
  obtain ⟨-, -, s, m, hs, -, -, -, a, ha, rfl⟩ := stakeWithdraw_ok hl h
  have h₁ : ∀ k, KeepsVoter (acc k) (update acc src.key a k) := fun k => (KeepsVoter.refl (acc k)).update fun _ => by
    rw [ha]
    split
    · exact .of_not fun m s hd => by cases hd
    · exact .of_data hs.symm
  exact (h₁ k).update fun _ => (h₁ dst.key).trans (.of_data rfl)

theorem solTransfer_voter (hl : rt.Lawful) (h : solTransfer rt acc src dst n = .ok acc') :
    KeepsVoter (acc k) (acc' k) := by
  obtain ⟨-, -, -, -, a, ha, rfl⟩ := solTransfer_ok hl h
  have h₁ : ∀ k, KeepsVoter (acc k) (update acc src.key a k) :=
    fun k => (KeepsVoter.refl (acc k)).update fun _ => .of_data (by rw [ha])
  exact (h₁ k).update fun _ => (h₁ dst.key).trans (.of_data rfl)

theorem tokenMintTo_voter (hl : rt.Lawful) (h : tokenMintTo rt acc mint dst auth n = .ok acc') :
    KeepsVoter (acc k) (acc' k) := by
  obtain ⟨-, m, t, -, -, -, -, -, rfl⟩ := tokenMintTo_ok hl h
  exact ((KeepsVoter.refl (acc k)).update fun _ => .of_not fun m s hd => by cases hd).update
    fun _ => .of_not fun m s hd => by cases hd

theorem tokenBurn_voter (hl : rt.Lawful) (h : tokenBurn rt acc src mint auth n = .ok acc') :
    KeepsVoter (acc k) (acc' k) := by
  obtain ⟨-, -, t, m, -, -, -, -, -, rfl⟩ := tokenBurn_ok hl h
  exact ((KeepsVoter.refl (acc k)).update fun _ => .of_not fun m s hd => by cases hd).update
    fun _ => .of_not fun m s hd => by cases hd

theorem tokenTransfer_voter (hl : rt.Lawful) {decimals : Nat}
    (h : tokenTransfer rt acc src mint dst auth n decimals = .ok acc') : KeepsVoter (acc k) (acc' k) := by
  obtain ⟨-, t, u, r, -, -, -, -, -, -, rfl⟩ := tokenTransfer_ok hl h
  exact ((KeepsVoter.refl (acc k)).update fun _ => .of_not fun m s hd => by cases hd).update
    fun _ => .of_not fun m s hd => by cases hd

theorem mintDepositTokens_voter (hl : rt.Lawful) {user manager referrer : AccountInfo Key}
    {t : DepositTokens} (h : mintDepositTokens rt acc t mint user manager referrer auth = .ok acc') :
    KeepsVoter (acc k) (acc' k) := by
  obtain ⟨acc₁, acc₂, h₁, h₂, h₃⟩ := mintDepositTokens_eq_ok h
  have h₂ : KeepsVoter (acc₁ k) (acc₂ k) := by
    rcases h₂ with ⟨-, h₂⟩ | ⟨-, rfl⟩
    · exact tokenMintTo_voter hl h₂
    · exact .refl _
  have h₃ : KeepsVoter (acc₂ k) (acc' k) := by
    rcases h₃ with ⟨-, h₃⟩ | ⟨-, rfl⟩
    · exact tokenMintTo_voter hl h₃
    · exact .refl _
  exact ((tokenMintTo_voter hl h₁).trans h₂).trans h₃

end

/-! ## Handlers -/

section
variable {k : Key}

theorem AddValidatorToPoolAccounts.Ok.voter (hl : rt.Lawful) {a : AddValidatorToPoolAccounts Key}
    {seed : UInt32} {m : Meta Key} {acc₁ acc₂ : Accounts Key} (h : a.Ok rt w w' seed m acc₁ acc₂)
    (hk : k ≠ a.stakeInfo.key) : KeepsVoter (w.accounts k) (w'.accounts k) :=
  ((createStakeAccount_voter hl h.create).trans (stakeSplit_voter hl h.split hk)).trans
    (stakeDelegate_voter hl h.delegate hk)

theorem RemoveValidatorFromPoolAccounts.Ok.voter (hl : rt.Lawful)
    {a : RemoveValidatorFromPoolAccounts Key} {s : Stake Key} {v : ValidatorStakeInfo Key}
    {acc₁ : Accounts Key} (h : a.Ok rt w w' s v acc₁) : KeepsVoter (w.accounts k) (w'.accounts k) := by
  have maybe : ∀ {acc acc' : Accounts Key} {info : AccountInfo Key},
      stakeDeactivate rt w.sysvars acc info a.withdrawAuthorityInfo = .ok acc' ∨ acc = acc' →
      KeepsVoter (acc k) (acc' k) := by
    rintro acc acc' info (h | rfl)
    · exact stakeDeactivate_voter hl h
    · exact .refl _
  have h₁ : KeepsVoter (w.accounts k) (acc₁ k) := by
    rcases h.transient with ⟨-, -, h⟩ | ⟨-, rfl⟩
    · exact maybe h
    · exact .refl _
  exact h₁.trans (maybe h.deactivate)

section
variable {a : IncreaseValidatorStakeAccounts Key} {lamports : Nat} {seed : UInt64} {v : ValidatorStakeInfo Key}
  {acc₁ : Accounts Key} {info : AccountInfo Key}

theorem IncreaseValidatorStakeAccounts.Ok.voter (hl : rt.Lawful)
    (h : a.Ok rt w w' lamports seed v acc₁ info) (he : ∀ seed, k ≠ rt.ephemeralStake seed)
    (hk : k ≠ a.transientStakeAccountInfo.key) : KeepsVoter (w.accounts k) (w'.accounts k) := by
  have h₁ : KeepsVoter (w.accounts k) (acc₁ k) := by
    cases h.source with
    | reserve => exact .refl _
    | ephemeral _ hke create split delegate =>
      have hne : k ≠ info.key := fun hk => he _ (hk.trans (rt.ephemeralStake_eq h.poolKey hke))
      exact ((createStakeAccount_voter hl create).trans (stakeSplit_voter hl split hne)).trans
        (stakeDelegate_voter hl delegate hne)
  rcases h.transient with ⟨-, -, -, h⟩ | ⟨-, create, split, -, delegate⟩
  · exact h₁.trans (stakeMerge_voter hl h)
  · have h₂ := (h₁.trans (createStakeAccount_voter hl create)).trans (stakeSplit_voter hl split hk)
    rcases delegate with ⟨-, rfl⟩ | ⟨-, h⟩
    · exact h₂
    · exact h₂.trans (stakeDelegate_voter hl h hk)

end

section
variable {a : DecreaseValidatorStakeAccounts Key} {lamports : Nat} {seed : UInt64} {m : Meta Key}
  {st : Stake Key} {v : ValidatorStakeInfo Key} {acc₁ : Accounts Key} {info : AccountInfo Key}

theorem DecreaseValidatorStakeAccounts.Funded.voter (hl : rt.Lawful) (h : Funded rt w a acc info acc') :
    KeepsVoter (acc k) (acc' k) := by
  rcases h with rfl | ⟨_, _, -, -, h⟩
  · exact .refl _
  · exact stakeWithdraw_voter hl h

theorem DecreaseValidatorStakeAccounts.Ok.voter (hl : rt.Lawful)
    (h : a.Ok rt w w' lamports seed m st v acc₁ info n) (he : ∀ seed, k ≠ rt.ephemeralStake seed)
    (hk : k ≠ a.transientStakeAccountInfo.key) : KeepsVoter (w.accounts k) (w'.accounts k) := by
  have h₁ : KeepsVoter (w.accounts k) (acc₁ k) := by
    cases h.source with
    | validator => exact .refl _
    | ephemeral _ hke create fund split deactivate =>
      have hne : k ≠ info.key := fun hk => he _ (hk.trans (rt.ephemeralStake_eq h.poolKey hke))
      exact (((createStakeAccount_voter hl create).trans (fund.voter hl)).trans
        (stakeSplit_voter hl split hne)).trans (stakeDeactivate_voter hl deactivate)
  rcases h.transient with ⟨-, -, -, h⟩ | ⟨-, create, fund, split, -, deactivate⟩
  · exact h₁.trans (stakeMerge_voter hl h)
  · have h₂ := ((h₁.trans (createStakeAccount_voter hl create)).trans (fund.voter hl)).trans
      (stakeSplit_voter hl split hk)
    rcases deactivate with ⟨-, h⟩ | rfl
    · exact h₂.trans (stakeDeactivate_voter hl h)
    · exact h₂

end

theorem UpdateValidatorListBalanceAccounts.Ok.voter (hl : rt.Lawful)
    {a : UpdateValidatorListBalanceAccounts Key} {start : Nat} {noMerge : Bool}
    {pre slice post slice' : List (ValidatorStakeInfo Key)} (h : a.Ok rt w w' start noMerge pre slice post slice') :
    KeepsVoter (w.accounts k) (w'.accounts k) :=
  updateEntries_kept (R := fun acc acc' => KeepsVoter (acc k) (acc' k)) ⟨fun _ => .refl _, .trans,
    stakeMerge_voter hl, stakeDeactivate_voter hl, stakeWithdraw_voter hl⟩ h.entries

theorem UpdateStakePoolBalanceAccounts.Ok.voter (hl : rt.Lawful) {a : UpdateStakePoolBalanceAccounts Key}
    {m : Meta Key} {fee : Nat} {mint : Mint Key} (h : a.Ok rt w w' m fee mint) :
    KeepsVoter (w.accounts k) (w'.accounts k) := by
  rcases h.mintTo with ⟨-, h⟩ | ⟨-, h⟩
  · exact tokenMintTo_voter hl h
  · rw [h]
    exact .refl _

theorem DepositSolAccounts.Ok.voter (hl : rt.Lawful) {a : DepositSolAccounts Key} {minimum : Option Nat}
    {t : DepositTokens} {acc₁ : Accounts Key} (h : a.Ok rt w w' n minimum t acc₁) :
    KeepsVoter (w.accounts k) (w'.accounts k) :=
  (solTransfer_voter hl h.transfer).trans (mintDepositTokens_voter hl h.mint)

theorem DepositStakeAccounts.Ok.voter (hl : rt.Lawful) {a : DepositStakeAccounts Key} {minimum : Option Nat}
    {st : Stake Key} {v : ValidatorStakeInfo Key} {t : DepositTokens} {acc₁ acc₂ acc₃ : Accounts Key}
    {total stake : Nat} (h : a.Ok rt w w' minimum st v t acc₁ acc₂ acc₃ total stake) :
    KeepsVoter (w.accounts k) (w'.accounts k) := by
  have h₁ : KeepsVoter (w.accounts k) (acc₁ k) :=
    stakeAuthorizeSigned_voter hl (DepositStakeAccounts.authorizeDeposit_eq_ok h.authorize).2
  have h₂ := (h₁.trans (stakeMerge_voter hl h.merge)).trans (mintDepositTokens_voter hl h.mint)
  rcases h.withdraw with ⟨-, hw⟩ | ⟨-, he⟩
  · exact h₂.trans (stakeWithdraw_voter hl hw)
  · rw [← he]
    exact h₂

theorem transferFee_voter (hl : rt.Lawful) {fee decimals : Nat}
    (h : 0 < fee ∧ tokenTransfer rt acc src mint dst auth fee decimals = .ok acc' ∨ fee = 0 ∧ acc = acc') :
    KeepsVoter (acc k) (acc' k) := by
  rcases h with ⟨-, h⟩ | ⟨-, rfl⟩
  · exact tokenTransfer_voter hl h
  · exact .refl _

theorem WithdrawSolAccounts.Ok.voter (hl : rt.Lawful) {a : WithdrawSolAccounts Key}
    {tokens fee decimals : Nat} {minimum : Option Nat} {acc₁ acc₂ : Accounts Key}
    (h : a.Ok rt w w' tokens minimum fee decimals n acc₁ acc₂) : KeepsVoter (w.accounts k) (w'.accounts k) :=
  ((tokenBurn_voter hl h.burn).trans (transferFee_voter hl h.transfer)).trans (stakeWithdraw_voter hl h.withdraw)

theorem WithdrawStakeAccounts.Ok.voter (hl : rt.Lawful) {a : WithdrawStakeAccounts Key}
    {tokens fee decimals : Nat} {minimum : Option Nat} {plan : WithdrawPlan Key} {acc₁ acc₂ acc₃ : Accounts Key}
    (h : a.Ok rt w w' tokens minimum fee decimals n plan acc₁ acc₂ acc₃) (hk : k ≠ a.stakeSplitTo.key) :
    KeepsVoter (w.accounts k) (w'.accounts k) :=
  (((tokenBurn_voter hl h.burn).trans (stakeSplit_voter hl h.split hk)).trans
    (stakeAuthorizeSigned_voter hl h.authorize)).trans (transferFee_voter hl h.transfer)

end

/-! ## Every step -/

section
variable [Inhabited Key] {v : ValidatorStakeInfo Key}

/-- No instruction delegates the validator stake account of an active entry. -/
theorem Executed.voter (hl : rt.Lawful) (hs : NoPdaSigner rt accounts) (hi : Inv rt w)
    (h : Executed rt w w' accounts i out) (hc : Controlled rt (w.accounts (rt.validatorStake v))) :
    KeepsVoter (w.accounts (rt.validatorStake v)) (w'.accounts (rt.validatorStake v)) := by
  have heph : ∀ seed, rt.validatorStake v ≠ rt.ephemeralStake seed := validatorStake_ne_ephemeralStake hl v
  have htransient : ∀ {u}, rt.validatorStake v ≠ rt.transientStake u := validatorStake_ne_transientStake hl v _
  cases h with
  | add _ _ h =>
    refine h.voter hl fun hk => ?_
    -- the account is created
    have hd := (createStakeAccount_ok hl h.create).2.1
    rw [← hk] at hd
    exact not_controlled_of_none hd hc
  | remove _ h => exact h.voter hl
  | @decrease _ _ seed _ _ u _ _ _ _ h =>
    refine h.voter hl heph fun hk => ?_
    obtain ⟨hvote, -⟩ := ValidatorList.find_split h.find
    exact htransient (hk.trans (rt.transientStake_eq (v := { u with transientSeedSuffix := seed }) hvote h.poolKey rfl
      h.transientKey))
  | @increase _ _ seed u _ _ _ h =>
    refine h.voter hl heph fun hk => ?_
    obtain ⟨hvote, -⟩ := ValidatorList.find_split h.find
    exact htransient (hk.trans (rt.transientStake_eq (v := { u with transientSeedSuffix := seed }) hvote h.poolKey rfl
      h.transientKey))
  | updateList _ _ h => exact h.voter hl
  | updatePool _ h => exact h.voter hl
  | depositStake _ h => exact h.voter hl
  | depositSol _ h => exact h.voter hl
  | withdrawSol h => exact h.voter hl
  | withdrawStake h =>
    refine h.voter hl fun hk => ?_
    -- what is split off goes to an account that is not used
    obtain ⟨-, -, -, hd, -⟩ := stakeSplit_ok hl h.split
    rw [← hk, (tokenBurn_only hl h.burn).eq hc.notToken] at hd
    obtain ⟨m, hm, -⟩ := hc.poolState hd
    cases hm
  | createMetadata hm hsig ho hcr h =>
    subst h
    have hsame := createMetadata_same hl hi.pool hi.core (hs _ hm hsig) ho hcr _ (.inl (.validator v))
    exact .of_data (congrArg Account.data hsame)
  | updateMetadata hup h =>
    subst h
    obtain ⟨-, rfl⟩ := hl.updateMetadataAccountsV2_ok _ _ _ _ _ _ hup
    rw [update_eq_self]
    exact .refl _
  | setPreferred _ _ h | cleanup _ h | setFee _ _ _ _ _ h | manage _ _ h =>
    subst h
    exact .refl _

omit [DecidableEq Key] in
theorem EntryStep.active {reserve : Key} {u : ValidatorStakeInfo Key} (h : EntryStep rt reserve acc acc' u v)
    (hu : EntryOk rt acc u) (hv : v.status = StakeStatus.active.pod) : u.status = StakeStatus.active.pod := by
  obtain ⟨s, hs, -⟩ := hu.status
  obtain ⟨t, ht, hdown⟩ := h.down s hs
  obtain rfl := StakeStatus.pod_inj (hv.symm.trans ht)
  cases s with
  | active => exact hs
  | _ => exact absurd hdown (by decide)

/-- Among the entries of a list there is an active one with the same stake account. -/
def ActiveIn (rt : Runtime Key) (vs : List (ValidatorStakeInfo Key)) (v : ValidatorStakeInfo Key) : Prop :=
  ∃ u ∈ vs, u.status = StakeStatus.active.pod ∧ u.voteAccountAddress = v.voteAccountAddress ∧
    rt.validatorStake u = rt.validatorStake v

omit [DecidableEq Key] in
theorem EntryStep.activeIn {reserve : Key} {u u' : ValidatorStakeInfo Key} {pre post : List (ValidatorStakeInfo Key)}
    (h : EntryStep rt reserve acc acc' u u') (hseed : u'.validatorSeedSuffix = u.validatorSeedSuffix)
    (hc : Core rt reserve (pre ++ u :: post) acc) (hv : v ∈ pre ++ u' :: post)
    (hs : v.status = StakeStatus.active.pod) : ActiveIn rt (pre ++ u :: post) v := by
  rcases List.mem_append.1 hv with hv | hv
  · exact ⟨v, List.mem_append_left _ hv, hs, rfl, rfl⟩
  · rcases List.mem_cons.1 hv with rfl | hv
    · exact ⟨u, List.mem_append_right _ List.mem_cons_self, h.active hc.mem hs, h.vote.symm,
        (rt.validatorStake_congr h.vote hseed).symm⟩
    · exact ⟨v, List.mem_append_right _ (List.mem_cons_of_mem _ hv), hs, rfl, rfl⟩

omit [DecidableEq Key] [Inhabited Key] in
theorem ActiveIn.trans {vs vs' : List (ValidatorStakeInfo Key)}
    (hstep : ∀ u ∈ vs', u.status = StakeStatus.active.pod → ActiveIn rt vs u) (h : ActiveIn rt vs' v) :
    ActiveIn rt vs v := by
  obtain ⟨u, hu, hs, hvote, hk⟩ := h
  obtain ⟨t, ht, hs', hvote', hk'⟩ := hstep u hu hs
  exact ⟨t, ht, hs', hvote'.trans hvote, hk'.trans hk⟩

omit [DecidableEq Key] in
theorem Refresh.activeIn (hl : rt.Lawful) {reserve : Key} {epoch : Nat}
    {s s' : Accounts Key × List (ValidatorStakeInfo Key)}
    (h : Relation.ReflTransGen (Refresh rt reserve epoch) s s') (hc : Core rt reserve s.2 s.1) (hv : v ∈ s'.2)
    (hs : v.status = StakeStatus.active.pod) : ActiveIn rt s.2 v := by
  induction h generalizing v with
  | refl => exact ⟨v, hv, hs, rfl, rfl⟩
  | tail hrun h ih =>
    have hc' := (Refresh.run hl hrun hc).1
    cases h with
    | mk pre post h _ => exact (h.toEntryStep.activeIn h.seed hc' hv hs).trans fun u hu hsu => ih hu hsu

omit [DecidableEq Key] in
theorem EntryEffect.activeIn {pre post : List (ValidatorStakeInfo Key)} {u u' : ValidatorStakeInfo Key}
    (h : EntryEffect rt out w w' pre u u' post)
    (hc : Core rt w.stakePool.reserveStake w.validatorList.validators w.accounts)
    (hv : v ∈ w'.validatorList.validators) (hs : v.status = StakeStatus.active.pod) :
    ActiveIn rt w.validatorList.validators v := by
  rw [h.list'] at hv
  rw [h.list] at hc ⊢
  exact h.moved.toEntryStep.activeIn h.moved.seed hc hv hs

/-- An active entry was active before, or it is the one that the staker has added. -/
theorem Executed.activeIn (hl : rt.Lawful) (hsig : NoPdaSigner rt accounts) (hi : Inv rt w)
    (h : Executed rt w w' accounts i out) (hv : v ∈ w'.validatorList.validators)
    (hs : v.status = StakeStatus.active.pod) : ActiveIn rt w.validatorList.validators v ∨
      ∃ a seed m acc₁ acc₂, AddValidatorToPoolAccounts.Ok rt w w' a seed m acc₁ acc₂ ∧
        v = newEntry rt w a.validatorVoteInfo.key seed := by
  have hc := hi.core
  have same : w'.validatorList = w.validatorList → ActiveIn rt w.validatorList.validators v :=
    fun he => ⟨v, he ▸ hv, hs, rfl, rfl⟩
  cases h with
  | add _ _ h =>
    rw [congrArg World.validatorList h.result] at hv
    rcases List.mem_append.1 hv with hv | hv
    · exact .inl ⟨v, hv, hs, rfl, rfl⟩
    · exact .inr ⟨_, _, _, _, _, h, List.mem_singleton.1 hv⟩
  | remove _ h =>
    obtain ⟨_, _, _, h⟩ := h.effect hl hc
    exact .inl (h.activeIn hc hv hs)
  | decrease _ h =>
    obtain ⟨_, _, _, h⟩ := h.effect hl hc
    exact .inl (h.activeIn hc hv hs)
  | increase _ h =>
    obtain ⟨_, _, _, h⟩ := h.effect hl hc
    exact .inl (h.activeIn hc hv hs)
  | depositStake hm h =>
    obtain ⟨_, _, _, h⟩ := h.effect hl (fun hsig' => hsig _ hm hsig') hc
    exact .inl (h.activeIn hc hv hs)
  | withdrawStake h =>
    rcases h.effect hl hc with h | ⟨_, _, _, _, h⟩
    · exact .inl (same h.list)
    · exact .inl (h.activeIn hc hv hs)
  | updateList _ _ h =>
    have hw := congrArg World.validatorList h.result
    rw [hw] at hv
    exact .inl (Refresh.activeIn hl (h.refreshes hl hi.pool hc) hc hv hs)
  | cleanup hl h =>
    subst h hl
    exact .inl ⟨v, List.mem_of_mem_filter hv, hs, rfl, rfl⟩
  | setPreferred _ _ h | setFee _ _ _ _ _ h | manage _ _ h | createMetadata _ _ _ _ h | updateMetadata _ h =>
    subst h
    exact .inl (same rfl)
  | updatePool _ h | depositSol _ h | withdrawSol h =>
    exact .inl (same (by rw [congrArg World.validatorList h.result]))

/-- The stake accounts of the active entries are delegated to nothing but the vote accounts of the entries. -/
def VotersOk (rt : Runtime Key) (w : World Key) : Prop :=
  ∀ v ∈ w.validatorList.validators, v.status = StakeStatus.active.pod →
    ∀ vote, (w.accounts (rt.validatorStake v)).DelegatedTo vote → vote = v.voteAccountAddress

theorem Executed.voters (hl : rt.Lawful) (hsig : NoPdaSigner rt accounts) (hi : Inv rt w) (hw : VotersOk rt w)
    (h : Executed rt w w' accounts i out) : VotersOk rt w' := by
  intro v hv hs vote hd
  rcases h.activeIn hl hsig hi hv hs with ⟨u, hu, hsu, hvote, hk⟩ | ⟨a, seed, m, acc₁, acc₂, hadd, rfl⟩
  · rw [← hk] at hd
    rw [← hvote]
    exact hw u hu hsu vote (h.voter hl hsig hi ((hi.core.entries u hu).of_active hsu) vote hd)
  · obtain ⟨m', s, hd, rfl⟩ := hd
    obtain ⟨-, _, m₁, st, -, -, -, hst, -, -, he⟩ := stakeDelegate_ok hl hadd.delegate
    have hkey : a.stakeInfo.key = rt.validatorStake (newEntry rt w a.validatorVoteInfo.key seed) :=
      rt.validatorStake_eq (v := newEntry rt w a.validatorVoteInfo.key seed) rfl hadd.poolKey hadd.stakeKey
    rw [← hkey, he, update_self, AccountData.stakeState.injEq, StakeStateV2.stake.injEq] at hd
    rw [← hd.2]
    exact hst

/-- The environment delegates no account that the pool controls. -/
theorem EnvStep.voter (h : EnvStep rt w l w') {k : Key} (hc : Controlled rt (w.accounts k)) :
    KeepsVoter (w.accounts k) (w'.accounts k) := by
  have set : ∀ {w : World Key} {j : Key} {a : Account Key}, (k = j → KeepsVoter (w.accounts j) a) →
      KeepsVoter (w.accounts k) ((w.setAccount j a).accounts k) := fun h => (KeepsVoter.refl _).update h
  cases h with
  | donate j n => exact set fun _ => .of_data rfl
  | reward j n credits m s hd => exact set fun _ => .of_stake hd rfl rfl
  | deactivateDelinquent j m s hd => exact set fun _ => .of_stake hd rfl rfl
  | forceDestake j m s hd => exact set fun _ => .of_not fun m' s' hd' => by cases hd'
  | foreign j a hj => exact set fun hk => absurd (hk ▸ hc) hj
  | purge j h0 => exact set fun _ => .of_not fun m' s' hd' => by cases hd'
  | burn j n t m =>
    exact (set fun _ => .of_not fun m' s' hd' => by cases hd').trans
      (set fun _ => .of_not fun m' s' hd' => by cases hd')
  | advanceEpoch | completeRewards | setMinimumDelegation => exact .refl _

theorem Step.voters (hl : rt.Lawful) (hi : Inv rt w) (hw : VotersOk rt w) (h : Step rt w l w') :
    VotersOk rt w' := by
  cases h with
  | instruction hs h =>
    exact (process_executed (not_isInitialize hl hi.pool.valid h) h).voters hl hs hi hw
  | env h =>
    intro v hv hs vote hd
    rw [h.ambient.list] at hv
    exact hw v hv hs vote (h.voter ((hi.core.entries v hv).of_active hs) vote hd)

theorem VotersOk.of_reach (hl : rt.Lawful) {ok : World Key → Label Key → Prop}
    (h : (poolSystem rt).Reach ok w) : VotersOk rt w := by
  refine h.invariant (fun w h v hv => ?_) fun w l w' hr hw _ hs => hs.voters hl (Inv.of_reach hl hr) hw
  obtain ⟨w₀, accounts, fee, withdrawalFee, depositFee, referralFee, maxValidators, -, h⟩ := h
  obtain ⟨_, _, _, _, h⟩ := processInitialize_ok hl h
  obtain ⟨_, hw⟩ := h.result
  rw [hw] at hv
  cases hv

end

end SplStakePool
