import SplStakePool.Effect.Process

/-!
# The accounts that an instruction pays into

In every state, reachable or not, an instruction that the staker has not signed adds lamports only to the
reserve, to validator stake accounts, to a metadata account, and to the account that a withdrawal pays out
to. A call adds lamports to its destination at most, so `PaysOnly` is closed under runs of calls, and the
handlers are gone through call by call.
-/

namespace SplStakePool
open Exec Function

variable {Key : Type} [DecidableEq Key] {rt : Runtime Key} {w w' : World Key} {sys : Sysvars}
  {acc acc' acc'' : Accounts Key} {P Q : Key → Prop}

/-- Only the accounts with the property have more lamports than before. -/
def PaysOnly (P : Key → Prop) (acc acc' : Accounts Key) : Prop :=
  ∀ k, ¬ P k → (acc' k).lamports ≤ (acc k).lamports

namespace PaysOnly
variable {j k : Key} {a b : Account Key}

omit [DecidableEq Key] in
theorem refl (P : Key → Prop) (acc : Accounts Key) : PaysOnly P acc acc := fun _ _ => le_rfl

omit [DecidableEq Key] in
theorem trans (h : PaysOnly P acc acc') (h' : PaysOnly P acc' acc'') : PaysOnly P acc acc'' :=
  fun k hk => (h' k hk).trans (h k hk)

omit [DecidableEq Key] in
theorem mono (h : PaysOnly P acc acc') (hPQ : ∀ k, P k → Q k) : PaysOnly Q acc acc' :=
  fun k hk => h k fun hP => hk (hPQ k hP)

theorem update_of (hk : P k) : PaysOnly P acc (update acc k a) := fun j hj => by
  rw [update_of_ne (show j ≠ k from fun h => hj (h ▸ hk))]

theorem update_le (h : a.lamports ≤ (acc k).lamports) : PaysOnly P acc (update acc k a) := by
  intro j _
  by_cases hj : j = k
  · rw [hj, update_self]
    exact h
  · rw [update_of_ne hj]

theorem update_same (ha : a.lamports = (acc j).lamports) (hb : b.lamports = (acc k).lamports) :
    PaysOnly P acc (update (update acc j a) k b) := by
  refine (update_le ha.le).trans (update_le ?_)
  by_cases hk : k = j
  · subst hk
    rw [update_self, hb, ha]
  · rw [update_of_ne hk, hb]

end PaysOnly

section
variable {src dst auth vote mint : AccountInfo Key} {new : Key} {n decimals : Nat} (hl : rt.Lawful)
include hl

theorem stakeDeactivate_pays (h : stakeDeactivate rt sys acc dst auth = .ok acc') : PaysOnly P acc acc' := by
  obtain ⟨-, _, _, -, -, rfl⟩ := stakeDeactivate_ok hl h
  exact .update_le le_rfl

theorem stakeAuthorizeSigned_pays (h : stakeAuthorizeSigned rt sys acc dst auth new = .ok acc') :
    PaysOnly P acc acc' := by
  obtain ⟨-, _, _, -, -, -, rfl⟩ := stakeAuthorizeSigned_ok hl h
  exact .update_le le_rfl

theorem stakeSplit_pays (hk : P dst.key) (h : stakeSplit rt sys acc src auth n dst = .ok acc') :
    PaysOnly P acc acc' := by
  obtain ⟨-, -, -, -, -, _, _, _, -, -, -, rfl⟩ := stakeSplit_ok hl h
  exact (PaysOnly.update_le (Nat.sub_le _ _)).trans (.update_of hk)

theorem stakeMerge_pays (hk : P dst.key) (h : stakeMerge rt sys acc src auth dst = .ok acc') :
    PaysOnly P acc acc' := by
  obtain ⟨-, -, -, _, _, _, _, _, -, -, -, -, -, -, -, rfl⟩ := stakeMerge_ok hl h
  exact (PaysOnly.update_le (Nat.zero_le _)).trans (.update_of hk)

theorem stakeWithdraw_pays (hk : P dst.key) (h : stakeWithdraw rt sys acc src auth dst n = .ok acc') :
    PaysOnly P acc acc' := by
  obtain ⟨-, -, _, _, -, -, -, -, _, rfl, rfl⟩ := stakeWithdraw_ok hl h
  exact (PaysOnly.update_le (Nat.sub_le _ _)).trans (.update_of hk)

theorem solTransfer_pays (hk : P dst.key) (h : solTransfer rt acc src dst n = .ok acc') : PaysOnly P acc acc' := by
  obtain ⟨-, -, -, -, _, rfl, rfl⟩ := solTransfer_ok hl h
  exact (PaysOnly.update_le (Nat.sub_le _ _)).trans (.update_of hk)

theorem tokenMintTo_pays (h : tokenMintTo rt acc mint dst auth n = .ok acc') : PaysOnly P acc acc' := by
  obtain ⟨-, _, _, -, -, -, -, -, rfl⟩ := tokenMintTo_ok hl h
  exact .update_same rfl rfl

theorem tokenBurn_pays (h : tokenBurn rt acc src mint auth n = .ok acc') : PaysOnly P acc acc' := by
  obtain ⟨-, -, _, _, -, -, -, -, -, rfl⟩ := tokenBurn_ok hl h
  exact .update_same rfl rfl

theorem transferFee_pays {fee : Nat}
    (h : 0 < fee ∧ tokenTransfer rt acc src mint dst auth fee decimals = .ok acc' ∨ fee = 0 ∧ acc = acc') :
    PaysOnly P acc acc' := by
  rcases h with ⟨-, h⟩ | ⟨-, rfl⟩
  · obtain ⟨-, _, _, _, -, -, -, -, -, -, rfl⟩ := tokenTransfer_ok hl h
    exact .update_same rfl rfl
  · exact .refl _ _

theorem mintDepositTokens_pays {t : DepositTokens} {user manager referrer : AccountInfo Key}
    (h : mintDepositTokens rt acc t mint user manager referrer auth = .ok acc') : PaysOnly P acc acc' := by
  obtain ⟨acc₁, acc₂, h₁, h₂, h₃⟩ := mintDepositTokens_eq_ok h
  have hmanager : PaysOnly P acc₁ acc₂ := by
    rcases h₂ with ⟨-, h₂⟩ | ⟨-, rfl⟩
    · exact tokenMintTo_pays hl h₂
    · exact .refl _ _
  have hreferrer : PaysOnly P acc₂ acc' := by
    rcases h₃ with ⟨-, h₃⟩ | ⟨-, rfl⟩
    · exact tokenMintTo_pays hl h₃
    · exact .refl _ _
  exact (tokenMintTo_pays hl h₁).trans (hmanager.trans hreferrer)

end

namespace UpdateValidatorListBalanceAccounts
variable {a : UpdateValidatorListBalanceAccounts Key} {noMerge : Bool} {v v' : ValidatorStakeInfo Key}
  {va ta : AccountInfo Key} {status status' : PodStakeStatus} {t n : Nat}

section
variable (hl : rt.Lawful) (hr : P a.reserveStakeInfo.key)
include hl hr

theorem updateTransient_pays (hv : P va.key) (h : a.updateTransient rt w noMerge acc v va ta = .ok (acc', status, t)) :
    PaysOnly P acc acc' := by
  simp only [updateTransient] at h
  split at h
  · split at h
    · cases h
      exact .refl _ _
    · cases h
      exact .refl _ _
    · simp only [bind_eq_ok, pure_eq_ok, Prod.mk.injEq] at h
      obtain ⟨_, hm, _, -, rfl, -⟩ := h
      exact stakeMerge_pays hl hr hm
    · simp only [bind_eq_ok, pure_eq_ok, Prod.mk.injEq] at h
      obtain ⟨_, hm, _, -, rfl, -⟩ := h
      exact stakeMerge_pays hl hr hm
    · simp only [bind_eq_ok, pure_eq_ok, Prod.mk.injEq] at h
      obtain ⟨_, hm, rfl, -⟩ := h
      exact stakeMerge_pays hl hv hm
    · simp only [bind_eq_ok, pure_eq_ok, Prod.mk.injEq] at h
      obtain ⟨_, hd, rfl, -⟩ := h
      exact stakeDeactivate_pays hl hd
  · cases h
    exact .refl _ _

theorem updateDelegated_pays {s : Stake Key}
    (h : a.updateDelegated rt w noMerge acc status s va = .ok (acc', status', n)) : PaysOnly P acc acc' := by
  simp only [updateDelegated, bind_eq_ok] at h
  obtain ⟨s, -, h⟩ := h
  cases s with
  | active | deactivatingTransient | readyForRemoval =>
    cases h
    exact .refl _ _
  | deactivatingValidator | deactivatingAll =>
    dsimp only at h
    split at h
    · cases h
      exact .refl _ _
    split at h
    · simp only [bind_eq_ok, pure_eq_ok, Prod.mk.injEq] at h
      obtain ⟨_, hm, _, -, rfl, -⟩ := h
      exact stakeMerge_pays hl hr hm
    · cases h
      exact .refl _ _

theorem updateValidator_pays (h : a.updateValidator rt w noMerge acc status t va = .ok (acc', status', n)) :
    PaysOnly P acc acc' := by
  simp only [updateValidator] at h
  split at h
  · split at h
    · simp only [bind_eq_ok] at h
      obtain ⟨acc₁, hw, h⟩ := h
      refine PaysOnly.trans ?_ (updateDelegated_pays hl hr h)
      rcases ite_pure_eq_ok.1 hw with ⟨-, hw⟩ | ⟨-, rfl⟩
      · exact stakeWithdraw_pays hl hr hw
      · exact .refl _ _
    · cases h
      exact .refl _ _
  · split at h
    · simp only [bind_eq_ok, pure_eq_ok, Prod.mk.injEq] at h
      obtain ⟨_, hm, rfl, -⟩ := h
      exact stakeMerge_pays hl hr hm
    · cases h
      exact .refl _ _
  all_goals
    cases h
    exact .refl _ _

variable (hp : a.stakePoolInfo.key = rt.stakePoolAddress) (hP : ∀ v, P (rt.validatorStake v))
include hp hP

theorem updateEntry_pays (h : a.updateEntry rt w noMerge acc v va ta = .ok (acc', v')) : PaysOnly P acc acc' := by
  by_cases ho : Own rt v (va, ta)
  · rw [updateEntry_of_own hp ho] at h
    simp only [bind_eq_ok, pure_eq_ok, Prod.mk.injEq] at h
    obtain ⟨⟨acc₁, _, _⟩, ht, ⟨acc₂, _, _⟩, hva, rfl, -⟩ := h
    exact (updateTransient_pays hl hr (ho.1 ▸ hP v) ht).trans (updateValidator_pays hl hr hva)
  · rw [updateEntry_skip hp ho] at h
    cases h
    exact .refl _ _

theorem updateEntries_pays {vs vs' : List (ValidatorStakeInfo Key)} {infos : List (AccountInfo Key × AccountInfo Key)}
    (h : a.updateEntries rt w noMerge acc vs infos = .ok (acc', vs')) : PaysOnly P acc acc' := by
  induction vs generalizing acc infos vs' with
  | nil =>
    cases h
    exact .refl _ _
  | cons v vs ih =>
    cases infos with
    | nil =>
      cases h
      exact .refl _ _
    | cons info infos =>
      simp only [updateEntries, bind_eq_ok, pure_eq_ok, Prod.mk.injEq] at h
      obtain ⟨⟨acc₁, v'⟩, hv, ⟨acc₂, vs''⟩, h, rfl, rfl⟩ := h
      exact (updateEntry_pays hl hr hp hP hv).trans (ih h)

end
end UpdateValidatorListBalanceAccounts

/-- Where lamports go without the staker. -/
inductive Payee (rt : Runtime Key) (w : World Key) (out : Option Key) : Key → Prop
  | reserve : Payee rt w out w.stakePool.reserveStake
  | validatorStake (v : ValidatorStakeInfo Key) : Payee rt w out (rt.validatorStake v)
  | metadata (mint : Key) : Payee rt w out (findMetadataAccount rt mint).1
  | recipient {k : Key} (h : out = some k) : Payee rt w out k

variable [Inhabited Key] {accounts : List (AccountInfo Key)} {i : StakePoolInstruction Key} {out : Option Key}

omit [Inhabited Key] in
theorem Executed.pays (hl : rt.Lawful) (h : Executed rt w w' accounts i out) :
    Signed accounts w.stakePool.staker ∨ PaysOnly (Payee rt w out) w.accounts w'.accounts := by
  cases h with
  | add _ hs _ | remove hs _ | decrease hs _ | increase hs _ | setPreferred hs _ _ => exact .inl hs
  | updateList _ _ h =>
    exact .inr (UpdateValidatorListBalanceAccounts.updateEntries_pays hl (h.reserveKey ▸ .reserve) h.poolKey
      .validatorStake h.entries)
  | updatePool _ h =>
    rcases h.mintTo with ⟨-, h⟩ | ⟨-, h⟩
    · exact .inr (tokenMintTo_pays hl h)
    · exact .inr (h ▸ .refl _ _)
  | @depositStake a _ _ v _ _ _ _ _ _ _ h =>
    have hauth := (DepositStakeAccounts.authorizeDeposit_eq_ok h.authorize).2
    have hva : Payee rt w none a.validatorStakeAccountInfo.key := h.validatorKey_eq ▸ .validatorStake v
    have hmerged := ((stakeAuthorizeSigned_pays hl hauth).trans (stakeMerge_pays hl hva h.merge)).trans
      (mintDepositTokens_pays hl h.mint)
    rcases h.withdraw with ⟨-, hw⟩ | ⟨-, he⟩
    · exact .inr (hmerged.trans (stakeWithdraw_pays hl (h.reserveKey ▸ .reserve) hw))
    · exact .inr (he ▸ hmerged)
  | withdrawStake h =>
    exact .inr ((((tokenBurn_pays hl h.burn).trans (stakeSplit_pays hl (.recipient rfl) h.split)).trans
      (stakeAuthorizeSigned_pays hl h.authorize)).trans (transferFee_pays hl h.transfer))
  | depositSol _ h =>
    exact .inr ((solTransfer_pays hl (h.reserveKey ▸ .reserve) h.transfer).trans (mintDepositTokens_pays hl h.mint))
  | withdrawSol h =>
    exact .inr (((tokenBurn_pays hl h.burn).trans (transferFee_pays hl h.transfer)).trans
      (stakeWithdraw_pays hl (.recipient rfl) h.withdraw))
  | cleanup _ h | setFee _ _ _ _ _ h | manage _ _ h =>
    subst h
    exact .inr (.refl _ _)
  | createMetadata _ _ _ hc h =>
    subst h
    obtain ⟨-, -, -, -, n, -, hb⟩ := hl.createMetadataAccountsV3_ok _ _ _ _ _ _ _ _ _ hc
    exact .inr ((PaysOnly.update_le (by rw [hb]; exact Nat.sub_le _ _)).trans (.update_of (.metadata _)))
  | updateMetadata hu h =>
    subst h
    obtain ⟨-, rfl⟩ := hl.updateMetadataAccountsV2_ok _ _ _ _ _ _ hu
    exact .inr (.update_le le_rfl)

omit [DecidableEq Key] [Inhabited Key] in
/-- A transient account is none of these, unless it is the reserve or is paid out to. -/
theorem Payee.transientStake (hl : rt.Lawful) {v : ValidatorStakeInfo Key} (h : Payee rt w out (rt.transientStake v)) :
    rt.transientStake v = w.stakePool.reserveStake ∨ out = some (rt.transientStake v) := by
  generalize hk : rt.transientStake v = k at h
  cases h with
  | reserve => exact .inl rfl
  | validatorStake u => exact absurd hk.symm (validatorStake_ne_transientStake hl u v)
  | metadata mint =>
    have hpda : rt.StakePda (rt.transientStake v) := .transient v
    obtain ⟨seeds, hs⟩ := hpda.isPda hl
    rw [hk] at hs
    exact absurd (hl.create_inj _ _ _ _ _ hs (hl.create_find _ rt.mplTokenMetadataId)).2 hl.program_ne_metadata
  | recipient h => exact .inr h

end SplStakePool
