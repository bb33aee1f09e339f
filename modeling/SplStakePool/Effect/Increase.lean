import SplStakePool.Invariant.Entry
import SplStakePool.Spec.Increase

/-!
# The effect of an `IncreaseValidatorStake`

The lamports go from the reserve to the transient stake account, perhaps through an ephemeral account
that is empty again afterwards.

Source and transient account are treated apart: `Source.landed` is about where the lamports are after the split, and
`NewTransient.landed` about their way from there, whichever source it was. The stake is activating all along, so that
it is due no rewards in the epoch and the record stays exact.
-/

namespace SplStakePool
open Machine

variable {Key : Type} [DecidableEq Key] [Inhabited Key] {rt : Runtime Key} {w w' : World Key}

omit [DecidableEq Key] [Inhabited Key] in
theorem increaseLamports_pos (hl : rt.Lawful) (n : Nat) : 0 < increaseLamports rt n := by
  have := hl.rent_pos
  simp only [increaseLamports, saturatingAdd, maxValue]
  omega

namespace IncreaseValidatorStakeAccounts
variable {a : IncreaseValidatorStakeAccounts Key} {lamports total : Nat} {seed : UInt64}
  {v : ValidatorStakeInfo Key} {src : AccountInfo Key} {acc acc' acc₁ : Accounts Key}

/-- The new transient account is not the source, which is left without the amount. -/
theorem NewTransient.landed (hl : rt.Lawful) (h : NewTransient rt w a total acc src acc')
    (hc : Controlled rt (acc src.key)) (htot : 0 < total) :
    Landed rt acc acc' src.key a.transientStakeAccountInfo.key total := by
  obtain ⟨create, split, -, delegate⟩ := h
  have hcr := createStakeAccount_spec hl create
  have hne : src.key ≠ a.transientStakeAccountInfo.key := fun he => hcr.fresh (he ▸ hc)
  have hsp := stakeSplit_spec hl split (by rw [hcr.frame _ (by simpa using hne)]; exact hc) htot
  rcases delegate with ⟨-, rfl⟩ | ⟨-, hd⟩
  · exact (Landed.of_split hsp).create hcr
  · exact ((Landed.of_split hsp).delegate (stakeDelegate_spec hl hd)).create hcr

/-- The transient account is activating, if the source is not delegated or is activating. -/
theorem NewTransient.young (hl : rt.Lawful) (h : NewTransient rt w a total acc src acc')
    (hc : Controlled rt (acc src.key)) (htot : 0 < total)
    (hs : (∃ m, (acc src.key).data = .stakeState (.initialized m)) ∨
      ∃ m s, (acc src.key).data = .stakeState (.stake m s) ∧
        s.delegation.activationEpoch = w.sysvars.epoch) :
    Young w.sysvars.epoch (acc' a.transientStakeAccountInfo.key) := by
  obtain ⟨create, split, state, delegate⟩ := h
  have hcr := createStakeAccount_spec hl create
  have hne : src.key ≠ a.transientStakeAccountInfo.key := fun he => hcr.fresh (he ▸ hc)
  have hsrc := hcr.frame _ (by simpa using hne)
  have hsp := stakeSplit_spec hl split (by rw [hsrc]; exact hc) htot
  rcases hs with ⟨m, hm⟩ | ⟨m, s, hm, hae⟩
  · obtain ⟨m', hm'⟩ := hsp.initialized m (by rw [hsrc]; exact hm)
    rw [hm', AccountData.stakeState.injEq] at state
    subst state
    rcases delegate with ⟨hd, -⟩ | ⟨-, hd⟩
    · cases hd
    · obtain ⟨m'', s'', hs'', hae⟩ := stakeDelegate_delegation hl hd hm'
      intro m₀ s₀ h₀
      rw [hs''] at h₀
      cases h₀
      exact hae.ge
  · obtain ⟨m', s', hm', hae', -⟩ := hsp.delegated m s (by rw [hsrc]; exact hm)
    rw [hm', AccountData.stakeState.injEq] at state
    subst state
    rcases delegate with ⟨-, rfl⟩ | ⟨hd, -⟩
    · intro m₀ s₀ h₀
      rw [hm'] at h₀
      cases h₀
      exact (hae'.trans hae).ge
    · simp [StakeStateV2.delegation?, hae', hae] at hd

/-- The source is the reserve itself, or an activating ephemeral account with the lamports. -/
theorem Source.landed (hl : rt.Lawful) (h : Source rt w a total acc₁ src)
    (hk : a.stakePoolInfo.key = rt.stakePoolAddress)
    (hr : Reserve rt (w.accounts a.reserveStakeAccountInfo.key)) (htot : 0 < total) :
    (acc₁ = w.accounts ∧ src = a.reserveStakeAccountInfo ∧ a.maybeEphemeral = none) ∨
    ∃ seed, src.key = rt.ephemeralStake seed ∧ ¬ Controlled rt (w.accounts src.key) ∧
      Landed rt w.accounts acc₁ a.reserveStakeAccountInfo.key src.key total ∧
      ∃ m s, (acc₁ src.key).data = .stakeState (.stake m s) ∧
        s.delegation.activationEpoch = w.sysvars.epoch := by
  cases h with
  | reserve he => exact .inl ⟨rfl, rfl, he⟩
  | ephemeral he hek create split delegate =>
    have hcr := createStakeAccount_spec hl create
    have hne : a.reserveStakeAccountInfo.key ≠ src.key := fun h => hcr.fresh (h ▸ hr.controlled)
    have hres := hcr.frame _ (by simpa using hne)
    have hsp := stakeSplit_spec hl split (by rw [hres]; exact hr.controlled) htot
    obtain ⟨m, hm, -⟩ := hr.state
    obtain ⟨m', hm'⟩ := hsp.initialized m (by rw [hres]; exact hm)
    exact .inr ⟨_, rt.ephemeralStake_eq hk hek, hcr.fresh,
      ((Landed.of_split hsp).delegate (stakeDelegate_spec hl delegate)).create hcr,
      stakeDelegate_delegation hl delegate hm'⟩

/-- The lamports of an increase are on the transient stake account. -/
structure Planted (rt : Runtime Key) (epoch : Nat) (acc acc' : Accounts Key) (reserve k : Key)
    (n : Nat) : Prop where
  reserve_lamports : (acc' reserve).lamports + n = (acc reserve).lamports
  reserve_step : ReserveStep rt (acc reserve) (acc' reserve)
  lamports : (acc k).lamports + n ≤ (acc' k).lamports
  clean : EphemeralsEmpty rt acc → (acc k).lamports + n = (acc' k).lamports
  controlled : Controlled rt (acc' k)
  young : Quiet epoch (acc k) → Young epoch (acc' k)
  frame : ∀ j, j ≠ reserve → j ≠ k → acc' j = acc j ∨
    (∃ seed, j = rt.ephemeralStake seed) ∧ ¬ Controlled rt (acc j) ∧
      ((acc j).lamports = 0 → (acc' j).lamports = 0)
  pda : AllPda rt acc acc'

omit [Inhabited Key] in
theorem Ok.transientKey_eq (h : a.Ok rt w w' lamports seed v acc₁ src) :
    a.transientStakeAccountInfo.key = rt.transientStake { v with transientSeedSuffix := seed } :=
  rt.transientStake_eq (ValidatorList.find_split h.find).1 h.poolKey rfl h.transientKey

theorem Ok.planted (hl : rt.Lawful) (h : a.Ok rt w w' lamports seed v acc₁ src)
    (hr : Reserve rt (w.accounts w.stakePool.reserveStake))
    (hn : ¬ rt.StakePda w.stakePool.reserveStake) (hv : EntryOk rt w.accounts v) :
    Planted rt w.sysvars.epoch w.accounts w'.accounts w.stakePool.reserveStake
      a.transientStakeAccountInfo.key (increaseLamports rt lamports) := by
  have htot := increaseLamports_pos hl lamports
  have hpos := hl.rent_pos
  have hk := h.reserveKey
  have hle := h.reserve_le
  have htk := h.transientKey_eq
  have hne : w.stakePool.reserveStake ≠ a.transientStakeAccountInfo.key :=
    fun he => hn (he ▸ htk ▸ .transient _)
  rw [hk] at hle
  rw [← hk] at hr
  rcases h.source.landed hl h.poolKey hr htot with ⟨rfl, rfl, hnone⟩ | ⟨s, hs, hfresh, hland, hstake⟩
  · -- off the reserve
    have hnew : NewTransient rt w a (increaseLamports rt lamports) w.accounts
        a.reserveStakeAccountInfo w'.accounts := by
      rcases h.transient with ⟨-, -, he, -⟩ | ⟨-, h⟩
      · rw [hnone] at he; cases he
      · exact h
    have hland := hnew.landed hl hr.controlled htot
    have hlam := hland.src_lamports
    have hdst := hland.dst_lamports
    rw [hk] at hland hlam hr
    refine ⟨hlam, hland.reserve (by omega) hr, by omega, fun _ => by omega, hland.controlled,
      fun _ => hnew.young hl (by rw [hk]; exact hr.controlled) htot (.inl ?_), ?_, hland.pda⟩
    · obtain ⟨m, hm, -⟩ := hr.state
      exact ⟨m, by rw [hk]; exact hm⟩
    · intro j hj hj'
      exact .inl (hland.frame j (by simp [hj, hj']))
  · -- through the ephemeral account
    rw [hk] at hland hr
    have htne : a.transientStakeAccountInfo.key ≠ src.key := by
      rw [htk, hs]; exact transientStake_ne_ephemeralStake hl _ _
    have hta : acc₁ a.transientStakeAccountInfo.key = w.accounts a.transientStakeAccountInfo.key :=
      hland.frame _ (by simp [hne.symm, htne])
    have hlam := hland.src_lamports
    have heph := hland.dst_lamports
    obtain ⟨n, hland₂, hn, hy⟩ : ∃ n, Landed rt acc₁ w'.accounts src.key
        a.transientStakeAccountInfo.key n ∧
        (n = increaseLamports rt lamports ∨ n = (acc₁ src.key).lamports) ∧
        (Quiet w.sysvars.epoch (w.accounts a.transientStakeAccountInfo.key) →
          Young w.sysvars.epoch (w'.accounts a.transientStakeAccountInfo.key)) := by
      rcases h.transient with ⟨h0, hseed, -, hm⟩ | ⟨-, h⟩
      · have hc : Controlled rt (acc₁ a.transientStakeAccountInfo.key) := by
          rw [hta, htk, hseed]
          exact hv.transient h0
        have hm := stakeMerge_spec hl hm
        exact ⟨_, .of_merge hm hc, .inr rfl, fun hq => hm.dst_young _ (by
          rw [hta] at hc ⊢; exact hq hc.lamports)⟩
      · exact ⟨_, h.landed hl hland.controlled htot, .inl rfl,
          fun _ => h.young hl hland.controlled htot (.inr hstake)⟩
    have hlam₂ := hland₂.src_lamports
    have hdst := hland₂.dst_lamports
    have hres : w'.accounts w.stakePool.reserveStake = acc₁ w.stakePool.reserveStake :=
      hland₂.frame _ (by simp [hne, hland.ne])
    rw [hta] at hdst
    refine ⟨by rw [hres]; exact hlam, by rw [hres]; exact hland.reserve (by omega) hr, by omega, ?_,
      hland₂.controlled, hy, ?_, hland.pda.trans hland₂.pda⟩
    · intro hclean
      have h0 := hclean s
      rw [← hs] at h0
      omega
    · intro j hj hj'
      by_cases hjs : j = src.key
      · subst hjs
        exact .inr ⟨⟨s, hs⟩, hfresh, fun h0 => by omega⟩
      · rw [hland₂.frame j (by simp [hjs, hj']), hland.frame j (by simp [hjs, hj])]
        exact .inl rfl

theorem Ok.effect (hl : rt.Lawful) (h : a.Ok rt w w' lamports seed v acc₁ src)
    (hc : Core rt w.stakePool.reserveStake w.validatorList.validators w.accounts) :
    ∃ pre v' post, EntryEffect rt none w w' pre v v' post := by
  obtain ⟨-, pre, post, hlist, -⟩ := ValidatorList.find_split h.find
  have hv : EntryOk rt w.accounts v := hc.entries v (by rw [hlist]; simp)
  have hp := h.planted hl hc.reserve_ok hc.reserve_pda hv
  have hva : w'.accounts (rt.validatorStake v) = w.accounts (rt.validatorStake v) := by
    rcases hp.frame (rt.validatorStake v) (fun he => hc.reserve_pda (he ▸ .validator v))
      (by rw [h.transientKey_eq]; exact validatorStake_ne_transientStake hl _ _) with h | ⟨⟨s, hs⟩, -⟩
    · exact h
    · exact absurd hs (validatorStake_ne_ephemeralStake hl _ _)
  have hle := hp.lamports
  have hclean := hp.clean
  have hr := hp.reserve_lamports
  have htotal := congrArg (·.stakePool.totalLamports) h.result
  dsimp only at htotal
  refine EntryEffect.of_revise v _ v.activeStakeLamports
    (v.transientStakeLamports + increaseLamports rt lamports) seed .active hc h.find h.status ?_ hp.reserve_step
    hp.pda h.transientKey_eq ?_ ?_ ?_ ?_ ?_ (fun _ => hp.controlled) (fun h => absurd rfl h) ?_ (.inl h.fresh) (by omega)
  · rw [congrArg World.validatorList h.result, ValidatorStakeInfo.revise, ← h.status]
  · intro k hk hkv hkt
    rcases hp.frame k (fun he => hc.reserve_pda (he ▸ hk)) hkt with h | ⟨⟨s, rfl⟩, hnc, hz⟩
    · rw [h]; exact ⟨.refl _, fun _ _ => rfl⟩
    · exact ⟨.of_not hnc, fun hcl h0 => by have := hz (hcl.ephemerals s); omega⟩
  · intro h0
    rcases h.transient with ⟨-, hs, -⟩ | ⟨h0', -⟩
    · exact hs
    · exact absurd h0' h0
  · rw [hva]; exact .of_add rfl
  · exact .inr ⟨by omega, fun hcl => by have := hclean hcl.ephemerals; omega⟩
  · intro _
    rw [hva]; exact hv.of_active h.status
  · exact fun _ hqv hqt => ⟨by rw [hva]; exact hqv, fun _ => hp.young hqt⟩

end IncreaseValidatorStakeAccounts
end SplStakePool
