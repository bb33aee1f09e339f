import SplStakePool.Effect.Fees
import SplStakePool.Effect.Supply
import SplStakePool.Invariant.Run

/-!
# Tokens and lamports of runs

The pool counts at least the tokens that the mint has issued, and has at least a lamport for each that it
counts. Holders can burn tokens without the pool, nobody else can mint.

The second part is a bound on the price, and every handler keeps it by a move of the share vault: tokens are issued
at the price rounded down, and the epoch fee is covered by the reward.
-/

namespace SplStakePool
open Exec Machine Function System ShareVault

variable {Key : Type} [DecidableEq Key] {rt : Runtime Key} {w w' : World Key}
  {accounts : List (AccountInfo Key)} {i : StakePoolInstruction Key} {out : Option Key} {l : Label Key} {s : Nat}

/-- The tokens of a pool against the mint and the total. -/
structure Backing (w : World Key) : Prop where
  supply : ∃ s, w.supply? = some s ∧ s ≤ w.stakePool.poolTokenSupply
  backed : Backed w.stakePool.vault
  fees : FeesOk w.stakePool

omit [DecidableEq Key] in
theorem backed_minted {p : StakePool Key} {n lamports : Nat} (hb : Backed p.vault)
    (hn : p.calcPoolTokensForDeposit lamports = some n) :
    Backed ⟨p.totalLamports + lamports, p.poolTokenSupply + n⟩ := by
  by_cases h0 : p.totalLamports = 0 ∨ p.poolTokenSupply = 0
  · rw [(StakePool.calcPoolTokensForDeposit_le hn).1 h0]
    exact hb.enter_empty lamports
  · rw [not_or] at h0
    exact (StakePool.vault_enter hn (Nat.pos_of_ne_zero h0.1) (Nat.pos_of_ne_zero h0.2)).backed
      (Nat.pos_of_ne_zero h0.2) hb

/-- The fee of an update on a reward is covered by the reward. -/
theorem backed_balanced {p : StakePool Key} {info : AccountInfo Key} {acc : Accounts Key}
    {reward fee : Nat} (hb : Backed p.vault) (hs : s ≤ p.poolTokenSupply) (hfee : p.epochFee.atMostOne)
    (hf : p.epochFeeToMint rt acc info reward = .ok fee) : Backed ⟨p.totalLamports + reward, s + fee⟩ := by
  have hle : p.poolTokenSupply ≤ p.totalLamports := hb
  by_cases h0 : p.poolTokenSupply = 0
  · -- all of the reward may be taken
    have hfr : fee ≤ reward := by
      simp only [StakePool.epochFeeToMint] at hf
      split at hf
      · rcases StakePool.calcEpochFeeAmount_le (orErr_eq_ok.1 hf) with ⟨-, rfl⟩ | ⟨n, hn, ⟨-, rfl⟩ | ⟨h, -⟩⟩
        · exact Nat.zero_le _
        · exact Nat.le_refl _
        · exact absurd h0 h
      · cases hf
        exact Nat.zero_le _
    show s + fee ≤ p.totalLamports + reward
    omega
  · have hS := Nat.pos_of_ne_zero h0
    obtain ⟨n, hn, hshares⟩ := StakePool.epochFeeToMint_le hfee (by omega) hS hf
    exact (Move.gain (v := p.vault) hn hs hshares).backed hS hb

theorem UpdateStakePoolBalanceAccounts.Ok.total_le [Inhabited Key] {a : UpdateStakePoolBalanceAccounts Key}
    {m : Meta Key} {fee : Nat} {mint : Mint Key} (h : a.Ok rt w w' m fee mint) (hi : Inv rt w) :
    w.stakePool.totalLamports ≤ w'.stakePool.totalLamports := by
  have hr := h.reserve
  have hle := h.reserve_le
  have ht := h.total
  rw [h.reserveKey] at hr hle ht
  have := hi.solvent m hr
  omega

theorem Executed.backing [Inhabited Key] (hl : rt.Lawful) (hi : Inv rt w) (hb : Backing w)
    (h : Executed rt w w' accounts i out) : Backing w' := by
  obtain ⟨s, hs, hle⟩ := hb.supply
  have hbacked := hb.backed
  have hf : FeesOk w'.stakePool := by
    cases h.fees with
    | kept h => exact hb.fees.same h
    | set _ _ hc hp => exact hb.fees.updateFee hc hp
    | balanced _ h => exact (hb.fees.updateEpoch _).same h
  cases h.supply hl hs with
  | kept h hc ht =>
    refine ⟨⟨s, h, by omega⟩, ?_, hf⟩
    rw [StakePool.vault, hc, ht]
    exact hbacked
  | @minted n lamports h hc ht hn =>
    refine ⟨⟨s + n, h, by omega⟩, ?_, hf⟩
    rw [StakePool.vault, hc, ht]
    exact backed_minted hbacked hn
  | @burnt n lamports hns h hnc hc hlt ht hn =>
    refine ⟨⟨s - n, h, by omega⟩, ?_, hf⟩
    rw [StakePool.vault, hc, ht]
    by_cases h0 : w.stakePool.poolTokenSupply = 0
    · show _ - n ≤ _ - lamports
      omega
    · exact (Move.leave (v := w.stakePool.vault) hn hlt hnc).backed (Nat.pos_of_ne_zero h0) hbacked
  | @balanced _ _ fee _ hu h hc =>
    refine ⟨⟨s + fee, h, hc.ge⟩, ?_, hf⟩
    have hb' := backed_balanced hbacked hle (hb.fees.active .epoch) hu.fee_eq
    rw [Nat.add_sub_cancel' (hu.total_le hi)] at hb'
    rw [StakePool.vault, hc]
    exact hb'

theorem World.supply?_setAccount {k : Key} {a : Account Key} (hk : w.stakePool.poolMint ≠ k) :
    (w.setAccount k a).supply? = w.supply? := by
  show (update w.accounts k a w.stakePool.poolMint).supply? = _
  rw [update_of_ne hk]
  rfl

/-- The environment can only burn tokens of the pool. -/
theorem EnvStep.supply [Inhabited Key] (hs : w.supply? = some s) (h : EnvStep rt w l w') :
    ∃ s', w'.supply? = some s' ∧ s' ≤ s := by
  -- an account that is not a mint is not the mint
  have other : ∀ {k : Key} {a : Account Key}, (w.accounts k).mint? = none →
      (w.setAccount k a).supply? = some s := by
    intro k a hk
    rw [World.supply?_setAccount, hs]
    rintro rfl
    simp [World.supply?, Account.supply?, hk] at hs
  have stake : ∀ {k : Key} {st : StakeStateV2 Key}, (w.accounts k).data = .stakeState st →
      (w.accounts k).mint? = none := fun hd => by rw [Account.mint?, hd]
  cases h with
  | donate k n =>
    refine ⟨s, ?_, le_rfl⟩
    by_cases hk : w.stakePool.poolMint = k
    · subst hk
      show (update w.accounts w.stakePool.poolMint _ w.stakePool.poolMint).supply? = some s
      rw [update_self, ← hs]
      rfl
    · rw [World.supply?_setAccount hk, hs]
  | reward k n credits m st hd => exact ⟨s, other (stake hd), le_rfl⟩
  | deactivateDelinquent k m st hd => exact ⟨s, other (stake hd), le_rfl⟩
  | forceDestake k m st hd => exact ⟨s, other (stake hd), le_rfl⟩
  | advanceEpoch | completeRewards | setMinimumDelegation => exact ⟨s, hs, le_rfl⟩
  | foreign _ _ _ hm | purge _ _ hm =>
    exact ⟨s, by rw [World.supply?_setAccount hm.symm, hs], le_rfl⟩
  | burn k n t m ht hm hn hns =>
    rw [World.supply?, Account.supply?_of_mint hm, Option.some.injEq] at hs
    refine ⟨s - n, ?_, Nat.sub_le _ _⟩
    simp only [World.supply?, World.setAccount, update_self]
    rw [Account.supply?_of_mint rfl, ← hs]

theorem EnvStep.backing [Inhabited Key] (hb : Backing w) (h : EnvStep rt w l w') : Backing w' := by
  obtain ⟨s, hs, hle⟩ := hb.supply
  obtain ⟨s', hs', hle'⟩ := h.supply hs
  have hp := h.ambient.pool
  exact ⟨⟨s', hs', by rw [hp]; omega⟩, by rw [hp]; exact hb.backed, by rw [hp]; exact hb.fees⟩

variable [Inhabited Key]

theorem Initialized.backing (hl : rt.Lawful) (h : Initialized rt w) : Backing w := by
  obtain ⟨w₀, accounts, fee, withdrawalFee, depositFee, referralFee, maxValidators, hg, h⟩ := h
  obtain ⟨a, m, mint, total, h⟩ := processInitialize_ok hl h
  obtain ⟨authorities, hw⟩ := h.result
  have hp := congrArg World.stakePool hw
  obtain ⟨h₁, h₂, h₃, h₄⟩ := h.feesAdmitted
  have hs : (w₀.accounts a.poolMintInfo.key).supply? = some 0 := by
    rw [Account.supply?_of_mint h.mint_eq, h.supply]
  have hsup : (w.accounts a.poolMintInfo.key).supply? = some total := by
    rcases h.mintTo with ⟨-, h⟩ | ⟨h0, he⟩
    · rw [tokenMintTo_supply hl h hs, Nat.zero_add]
    · rw [← he, hs, h0]
  refine ⟨⟨total, ?_, ?_⟩, ?_, ?_⟩
  · rw [World.supply?, hp]
    exact hsup
  · rw [hp]
    exact Nat.le_refl _
  · rw [hp]
    exact Nat.le_refl _
  · rw [hp]
    refine ⟨fun k => ?_, fun k fee hk => ?_, h₃, h₃, h₄, h₄⟩
    · cases k with
      | epoch => exact h₁
      | _ => exact h₂
    · cases k <;> cases hk

theorem Step.backing (hl : rt.Lawful) (hi : Inv rt w) (hb : Backing w) (h : Step rt w l w') :
    Backing w' := by
  cases h with
  | instruction _ h => exact (process_executed (not_isInitialize hl hi.pool.valid h) h).backing hl hi hb
  | env h => exact h.backing hb

theorem Backing.of_reach (hl : rt.Lawful) {ok : World Key → Label Key → Prop}
    (h : (poolSystem rt).Reach ok w) : Backing w :=
  (h.invariant (I := fun w => Inv rt w ∧ Backing w) (fun _ h => ⟨h.inv hl, h.backing hl⟩)
    fun _ _ _ _ hi _ hs => ⟨hs.inv hl hi.1, hs.backing hl hi.1 hi.2⟩).2

end SplStakePool
