import Mathlib.Algebra.BigOperators.Group.Finset.Basic
import SplStakePool.Invariant.Cpi

/-!
# Tokens and lamports under calls

The calls of the stake and the system program leave mints and token accounts alone (`SameTokens`), the
calls of the token program leave lamports and all other accounts alone (`OnlyTokens`) and of token
accounts only change the balances (`SameReceivers`). `held` counts the tokens of a mint on a set of
accounts.
-/

namespace SplStakePool
open Exec Function

variable {Key : Type} [DecidableEq Key] {rt : Runtime Key} {sys : Sysvars}
  {acc acc' acc'' : Accounts Key} {src dst auth vote mint : AccountInfo Key} {n : Nat}

/-- The token program decodes the same of every account. -/
def SameTokens (acc acc' : Accounts Key) : Prop :=
  ∀ k, (acc' k).mint? = (acc k).mint? ∧ (acc' k).token? = (acc k).token?

/-- Lamports, and accounts that are not of the token program, are unchanged. -/
def OnlyTokens (acc acc' : Accounts Key) : Prop :=
  ∀ k, (acc' k).lamports = (acc k).lamports ∧
    ((acc k).mint? = none → (acc k).token? = none → acc' k = acc k)

namespace SameTokens

omit [DecidableEq Key] in
theorem refl (acc : Accounts Key) : SameTokens acc acc := fun _ => ⟨rfl, rfl⟩

omit [DecidableEq Key] in
theorem trans (h₁ : SameTokens acc acc') (h₂ : SameTokens acc' acc'') : SameTokens acc acc'' :=
  fun k => ⟨(h₂ k).1.trans (h₁ k).1, (h₂ k).2.trans (h₁ k).2⟩

theorem update {k : Key} {a : Account Key} (h : SameTokens acc acc')
    (ha : a.mint? = (acc k).mint? ∧ a.token? = (acc k).token?) : SameTokens acc (update acc' k a) := by
  intro j
  by_cases hj : j = k
  · subst hj; simpa using ha
  · simpa [hj] using h j

end SameTokens

omit [DecidableEq Key] in
theorem notToken_of_stake {a b : Account Key} {s t : StakeStateV2 Key} (ha : a.data = .stakeState s)
    (hb : b.data = .stakeState t) : b.mint? = a.mint? ∧ b.token? = a.token? := by
  simp [Account.mint?, Account.token?, ha, hb]

theorem createStakeAccount_tokens (hl : rt.Lawful) (h : createStakeAccount rt acc dst = .ok acc') :
    SameTokens acc acc' := by
  obtain ⟨-, hd, rfl⟩ := createStakeAccount_ok hl h
  exact (SameTokens.refl acc).update (by simp [Account.mint?, Account.token?, hd])

theorem stakeDelegate_tokens (hl : rt.Lawful) (h : stakeDelegate rt sys acc dst vote auth = .ok acc') :
    SameTokens acc acc' := by
  obtain ⟨-, s, m, st, hd, -, -, -, -, -, rfl⟩ := stakeDelegate_ok hl h
  exact (SameTokens.refl acc).update (notToken_of_stake hd rfl)

theorem stakeDeactivate_tokens (hl : rt.Lawful) (h : stakeDeactivate rt sys acc dst auth = .ok acc') :
    SameTokens acc acc' := by
  obtain ⟨-, m, s, hd, -, rfl⟩ := stakeDeactivate_ok hl h
  exact (SameTokens.refl acc).update (notToken_of_stake hd rfl)

theorem stakeSplit_tokens (hl : rt.Lawful) (h : stakeSplit rt sys acc src auth n dst = .ok acc') :
    SameTokens acc acc' := by
  obtain ⟨-, -, -, hd, -, s, t, u, hs, -, -, rfl⟩ := stakeSplit_ok hl h
  exact ((SameTokens.refl acc).update (notToken_of_stake hs rfl)).update (notToken_of_stake hd rfl)

theorem stakeMerge_tokens (hl : rt.Lawful) (h : stakeMerge rt sys acc src auth dst = .ok acc') :
    SameTokens acc acc' := by
  obtain ⟨-, -, -, d, s, d', md, ms, hd, hs, -, -, -, -, -, rfl⟩ := stakeMerge_ok hl h
  exact ((SameTokens.refl acc).update (notToken_of_stake hs rfl)).update (notToken_of_stake hd rfl)

theorem stakeAuthorizeSigned_tokens (hl : rt.Lawful) {new : Key}
    (h : stakeAuthorizeSigned rt sys acc dst auth new = .ok acc') : SameTokens acc acc' := by
  obtain ⟨-, s, m, hd, -, -, rfl⟩ := stakeAuthorizeSigned_ok hl h
  exact (SameTokens.refl acc).update (notToken_of_stake hd rfl)

theorem stakeWithdraw_tokens (hl : rt.Lawful) (h : stakeWithdraw rt sys acc src auth dst n = .ok acc') :
    SameTokens acc acc' := by
  obtain ⟨-, -, s, m, hs, -, -, -, a, ha, rfl⟩ := stakeWithdraw_ok hl h
  have h₁ : SameTokens acc (update acc src.key a) :=
    (SameTokens.refl acc).update (notToken_of_stake hs (by rw [ha]))
  exact h₁.update (h₁ dst.key)

theorem solTransfer_tokens (hl : rt.Lawful) (h : solTransfer rt acc src dst n = .ok acc') :
    SameTokens acc acc' := by
  obtain ⟨-, -, -, -, a, ha, rfl⟩ := solTransfer_ok hl h
  have h₁ : SameTokens acc (update acc src.key a) :=
    (SameTokens.refl acc).update (by rw [ha]; exact ⟨rfl, rfl⟩)
  exact h₁.update (h₁ dst.key)

namespace OnlyTokens

omit [DecidableEq Key] in
theorem refl (acc : Accounts Key) : OnlyTokens acc acc := fun _ => ⟨rfl, fun _ _ => rfl⟩

omit [DecidableEq Key] in
theorem trans (h₁ : OnlyTokens acc acc') (h₂ : OnlyTokens acc' acc'') : OnlyTokens acc acc'' := by
  refine fun k => ⟨(h₂ k).1.trans (h₁ k).1, fun hm ht => ?_⟩
  have he := (h₁ k).2 hm ht
  exact ((h₂ k).2 (he ▸ hm) (he ▸ ht)).trans he

theorem update {k : Key} {d : AccountData Key} (h : OnlyTokens acc acc')
    (hd : (acc k).mint?.isSome ∨ (acc k).token?.isSome) :
    OnlyTokens acc (update acc' k { acc k with data := d }) := by
  intro j
  by_cases hj : j = k
  · subst hj
    refine ⟨by simp, fun hm ht => ?_⟩
    rw [hm, ht] at hd
    simp at hd
  · simpa [hj] using h j

end OnlyTokens

theorem tokenMintTo_only (hl : rt.Lawful) (h : tokenMintTo rt acc mint dst auth n = .ok acc') :
    OnlyTokens acc acc' := by
  obtain ⟨-, m, t, hm, ht, -, -, -, rfl⟩ := tokenMintTo_ok hl h
  exact ((OnlyTokens.refl acc).update (.inl (by simp [Account.mint?, hm]))).update
    (.inr (by simp [Account.token?, ht]))

theorem tokenBurn_only (hl : rt.Lawful) (h : tokenBurn rt acc src mint auth n = .ok acc') :
    OnlyTokens acc acc' := by
  obtain ⟨-, -, t, m, ht, hm, -, -, -, rfl⟩ := tokenBurn_ok hl h
  exact ((OnlyTokens.refl acc).update (.inr (by simp [Account.token?, ht]))).update
    (.inl (by simp [Account.mint?, hm]))

theorem tokenTransfer_only (hl : rt.Lawful) {decimals : Nat}
    (h : tokenTransfer rt acc src mint dst auth n decimals = .ok acc') : OnlyTokens acc acc' := by
  obtain ⟨-, t, u, r, ht, hu, -, -, -, -, rfl⟩ := tokenTransfer_ok hl h
  exact ((OnlyTokens.refl acc).update (.inr (by simp [Account.token?, ht]))).update
    (.inr (by simp [Account.token?, hu]))

/-! ## Token accounts apart from their balances -/

/-- What makes an account able to receive tokens: its owner and the token account without the balance. -/
def Account.receiver? (a : Account Key) : Option (Key × TokenAccount Key) :=
  a.token?.map fun t => (a.owner, { t with amount := 0 })

/-- Token accounts only change their balances. -/
def SameReceivers (acc acc' : Accounts Key) : Prop := ∀ k, (acc' k).receiver? = (acc k).receiver?

omit [DecidableEq Key] in
theorem Account.receiver?_of_token {a : Account Key} {t : TokenAccount Key} (h : a.data = .token t) :
    a.receiver? = some (a.owner, { t with amount := 0 }) := by
  rw [Account.receiver?, Account.token?_eq_some.2 h, Option.map_some]

omit [DecidableEq Key] in
theorem Account.receiver?_of_not_token {a : Account Key} (h : a.token? = none) : a.receiver? = none := by
  rw [Account.receiver?, h, Option.map_none]

namespace SameReceivers

omit [DecidableEq Key] in
theorem refl (acc : Accounts Key) : SameReceivers acc acc := fun _ => rfl

omit [DecidableEq Key] in
theorem trans (h₁ : SameReceivers acc acc') (h₂ : SameReceivers acc' acc'') : SameReceivers acc acc'' :=
  fun k => (h₂ k).trans (h₁ k)

theorem update {k : Key} {a : Account Key} (h : SameReceivers acc acc')
    (ha : a.receiver? = (acc k).receiver?) : SameReceivers acc (update acc' k a) := by
  intro j
  by_cases hj : j = k
  · subst hj; simpa using ha
  · simpa [hj] using h j

theorem update_stake {k : Key} {a : Account Key} {s t : StakeStateV2 Key} (h : SameReceivers acc acc')
    (hs : (acc k).data = .stakeState s) (ht : a.data = .stakeState t) : SameReceivers acc (Function.update acc' k a) :=
  h.update (by
    rw [Account.receiver?_of_not_token (by simp [Account.token?, ht]),
      Account.receiver?_of_not_token (by simp [Account.token?, hs])])

theorem update_amount {k : Key} {t : TokenAccount Key} (n : Nat) (h : SameReceivers acc acc')
    (ht : (acc k).data = .token t) :
    SameReceivers acc (Function.update acc' k { acc k with data := .token { t with amount := n } }) :=
  h.update (by rw [Account.receiver?_of_token ht, Account.receiver?_of_token rfl])

end SameReceivers

theorem tokenBurn_receivers (hl : rt.Lawful) (h : tokenBurn rt acc src mint auth n = .ok acc') :
    SameReceivers acc acc' := by
  obtain ⟨-, -, t, m, ht, hm, -, -, -, rfl⟩ := tokenBurn_ok hl h
  refine ((SameReceivers.refl acc).update_amount _ ht).update ?_
  rw [Account.receiver?_of_not_token (by simp [Account.token?]),
    Account.receiver?_of_not_token (by simp [Account.token?, hm])]

theorem tokenTransfer_receivers (hl : rt.Lawful) {decimals : Nat}
    (h : tokenTransfer rt acc src mint dst auth n decimals = .ok acc') : SameReceivers acc acc' := by
  obtain ⟨-, t, u, r, ht, hu, -, -, -, -, rfl⟩ := tokenTransfer_ok hl h
  exact ((SameReceivers.refl acc).update_amount _ ht).update_amount _ hu

theorem stakeSplit_receivers (hl : rt.Lawful) (h : stakeSplit rt sys acc src auth n dst = .ok acc') :
    SameReceivers acc acc' := by
  obtain ⟨-, -, -, hd, -, s, t, u, hs, -, -, rfl⟩ := stakeSplit_ok hl h
  exact ((SameReceivers.refl acc).update_stake hs rfl).update_stake hd rfl

theorem stakeAuthorizeSigned_receivers (hl : rt.Lawful) {new : Key}
    (h : stakeAuthorizeSigned rt sys acc dst auth new = .ok acc') : SameReceivers acc acc' := by
  obtain ⟨-, s, m, hd, -, -, rfl⟩ := stakeAuthorizeSigned_ok hl h
  exact (SameReceivers.refl acc).update_stake hd rfl

theorem stakeWithdraw_receivers (hl : rt.Lawful)
    (h : stakeWithdraw rt sys acc src auth dst n = .ok acc') : SameReceivers acc acc' := by
  obtain ⟨-, -, s, m, hs, -, -, -, a, ha, rfl⟩ := stakeWithdraw_ok hl h
  have h₁ : SameReceivers acc (update acc src.key a) :=
    (SameReceivers.refl acc).update_stake hs (by rw [ha])
  exact h₁.update (h₁ dst.key)

/-! ## Holdings -/

/-- The tokens of a mint on an account. -/
def Account.tokens (mint : Key) (a : Account Key) : Nat :=
  match a.token? with
  | some t => if t.mint = mint then t.amount else 0
  | none => 0

/-- The tokens of a mint on a set of accounts. -/
def held (owned : Finset Key) (mint : Key) (acc : Accounts Key) : Nat :=
  ∑ k ∈ owned, (acc k).tokens mint

section
variable {owned : Finset Key} {k m : Key} {a : Account Key} {t : TokenAccount Key}

theorem Account.tokens_of_token (ht : a.data = .token t) (hm : t.mint = m) : a.tokens m = t.amount := by
  simp [Account.tokens, Account.token?, ht, hm]

theorem Account.tokens_of_mint {m' : Mint Key} (h : a.data = .mint m') : a.tokens m = 0 := by
  simp [Account.tokens, Account.token?, h]

theorem SameTokens.held_eq (h : SameTokens acc acc') : held owned m acc' = held owned m acc :=
  Finset.sum_congr rfl fun k _ => by simp only [Account.tokens, (h k).2]

theorem held_update_of_notMem (h : k ∉ owned) : held owned m (update acc k a) = held owned m acc :=
  Finset.sum_congr rfl fun j hj => by rw [update_of_ne (ne_of_mem_of_not_mem hj h)]

theorem held_update_of_mem (h : k ∈ owned) :
    held owned m (update acc k a) + (acc k).tokens m = held owned m acc + a.tokens m := by
  have hrest : ∑ j ∈ owned.erase k, (update acc k a j).tokens m = ∑ j ∈ owned.erase k, (acc j).tokens m :=
    Finset.sum_congr rfl fun j hj => by rw [update_of_ne (Finset.ne_of_mem_erase hj)]
  rw [held, held, ← Finset.add_sum_erase _ _ h, ← Finset.add_sum_erase _ (fun j => (acc j).tokens m) h,
    hrest, update_self]
  omega

/-- The tokens on one of the accounts are set. -/
theorem held_setAmount {x : Nat} (h : k ∈ owned) (ht : (acc k).data = .token t) (hm : t.mint = m) :
    held owned m (update acc k { acc k with data := .token { t with amount := x } }) + t.amount =
      held owned m acc + x := by
  have ha : ∀ a : Account Key, held owned m (update acc k a) + (acc k).tokens m =
      held owned m acc + a.tokens m := fun a => held_update_of_mem h
  rw [← Account.tokens_of_token ht hm, ha]
  congr 1
  exact Account.tokens_of_token (t := { t with amount := x }) rfl hm

theorem held_update_of_tokens (h : a.tokens m = (acc k).tokens m) :
    held owned m (update acc k a) = held owned m acc := by
  by_cases hk : k ∈ owned
  · have ha : held owned m (update acc k a) + (acc k).tokens m = held owned m acc + a.tokens m :=
      held_update_of_mem hk
    omega
  · exact held_update_of_notMem hk

theorem tokenMintTo_held (hl : rt.Lawful) (h : tokenMintTo rt acc mint dst auth n = .ok acc') :
    held owned mint.key acc' = held owned mint.key acc + if dst.key ∈ owned then n else 0 := by
  obtain ⟨hne, m, t, hm, ht, hk, -, -, rfl⟩ := tokenMintTo_ok hl h
  generalize ha : ({ acc mint.key with data := .mint { m with supply := m.supply + n } } : Account Key) = a
  have hmint : held owned mint.key (update acc mint.key a) = held owned mint.key acc :=
    held_update_of_tokens (by rw [← ha, Account.tokens_of_mint rfl, Account.tokens_of_mint hm])
  have hdst : update acc mint.key a dst.key = acc dst.key := update_of_ne hne.symm _ _
  split
  · rename_i hmem
    have := held_setAmount (x := t.amount + n) hmem (hdst.symm ▸ ht) hk
    rw [hdst, hmint] at this
    omega
  · rename_i hmem
    rw [held_update_of_notMem hmem, hmint, Nat.add_zero]

theorem tokenBurn_held (hl : rt.Lawful) (h : tokenBurn rt acc src mint auth n = .ok acc')
    (hsrc : src.key ∈ owned) : held owned mint.key acc' + n = held owned mint.key acc := by
  obtain ⟨hne, -, t, m, ht, hm, hk, hn, -, rfl⟩ := tokenBurn_ok hl h
  have := held_setAmount (x := t.amount - n) hsrc ht hk
  rw [held_update_of_tokens]
  · omega
  · rw [update_of_ne hne.symm, Account.tokens_of_mint hm, Account.tokens_of_mint rfl]

theorem tokenTransfer_held (hl : rt.Lawful) {decimals : Nat}
    (h : tokenTransfer rt acc src mint dst auth n decimals = .ok acc') (hsrc : src.key ∈ owned)
    (hdst : dst.key ∉ owned) : held owned mint.key acc' + n = held owned mint.key acc := by
  obtain ⟨-, t, u, r, ht, -, hk, -, hn, -, rfl⟩ := tokenTransfer_ok hl h
  have := held_setAmount (x := t.amount - n) hsrc ht hk
  rw [held_update_of_notMem hdst]
  omega

end

section
variable {user manager referrer : AccountInfo Key} {t : DepositTokens} {owned : Finset Key}

theorem mintDepositTokens_eq_ok
    (h : mintDepositTokens rt acc t mint user manager referrer auth = .ok acc') :
    ∃ acc₁ acc₂, tokenMintTo rt acc mint user auth t.user = .ok acc₁ ∧
      (0 < t.managerFee ∧ tokenMintTo rt acc₁ mint manager auth t.managerFee = .ok acc₂ ∨
        t.managerFee = 0 ∧ acc₁ = acc₂) ∧
      (0 < t.referralFee ∧ tokenMintTo rt acc₂ mint referrer auth t.referralFee = .ok acc' ∨
        t.referralFee = 0 ∧ acc₂ = acc') := by
  simp only [mintDepositTokens, bind_eq_ok, ite_pure_eq_ok, gt_iff_lt, Nat.not_lt, Nat.le_zero] at h
  obtain ⟨acc₁, h₁, acc₂, h₂, h₃⟩ := h
  exact ⟨acc₁, acc₂, h₁, h₂, h₃⟩

theorem mintDepositTokens_only (hl : rt.Lawful)
    (h : mintDepositTokens rt acc t mint user manager referrer auth = .ok acc') : OnlyTokens acc acc' := by
  obtain ⟨acc₁, acc₂, h₁, h₂, h₃⟩ := mintDepositTokens_eq_ok h
  have h₂ : OnlyTokens acc₁ acc₂ := by
    rcases h₂ with ⟨-, h₂⟩ | ⟨-, rfl⟩
    · exact tokenMintTo_only hl h₂
    · exact .refl _
  have h₃ : OnlyTokens acc₂ acc' := by
    rcases h₃ with ⟨-, h₃⟩ | ⟨-, rfl⟩
    · exact tokenMintTo_only hl h₃
    · exact .refl _
  exact ((tokenMintTo_only hl h₁).trans h₂).trans h₃

/-- The minted tokens that a set of accounts receives. -/
theorem mintDepositTokens_held_eq (hl : rt.Lawful)
    (h : mintDepositTokens rt acc t mint user manager referrer auth = .ok acc') :
    held owned mint.key acc' = held owned mint.key acc + (if user.key ∈ owned then t.user else 0) +
      (if manager.key ∈ owned then t.managerFee else 0) +
      (if referrer.key ∈ owned then t.referralFee else 0) := by
  obtain ⟨acc₁, acc₂, h₁, h₂, h₃⟩ := mintDepositTokens_eq_ok h
  have h₁ : held owned mint.key acc₁ = _ := tokenMintTo_held hl h₁
  have h₂ : held owned mint.key acc₂ =
      held owned mint.key acc₁ + (if manager.key ∈ owned then t.managerFee else 0) := by
    rcases h₂ with ⟨-, h₂⟩ | ⟨h0, rfl⟩
    · exact tokenMintTo_held hl h₂
    · rw [h0, ite_self, Nat.add_zero]
  have h₃ : held owned mint.key acc' =
      held owned mint.key acc₂ + (if referrer.key ∈ owned then t.referralFee else 0) := by
    rcases h₃ with ⟨-, h₃⟩ | ⟨h0, rfl⟩
    · exact tokenMintTo_held hl h₃
    · rw [h0, ite_self, Nat.add_zero]
  rw [h₃, h₂, h₁]

theorem mintDepositTokens_held_le (hl : rt.Lawful)
    (h : mintDepositTokens rt acc t mint user manager referrer auth = .ok acc') (hu : user.key ∈ owned) :
    held owned mint.key acc + t.user ≤ held owned mint.key acc' := by
  rw [mintDepositTokens_held_eq hl h, if_pos hu]
  omega

theorem mintDepositTokens_held (hl : rt.Lawful)
    (h : mintDepositTokens rt acc t mint user manager referrer auth = .ok acc')
    (hu : user.key ∈ owned) (hm : manager.key ∉ owned) (hr : referrer.key ∉ owned) :
    held owned mint.key acc' = held owned mint.key acc + t.user := by
  rw [mintDepositTokens_held_eq hl h, if_pos hu, if_neg hm, if_neg hr, Nat.add_zero]

end
end SplStakePool
