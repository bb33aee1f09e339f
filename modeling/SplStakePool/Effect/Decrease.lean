import SplStakePool.Invariant.Entry
import SplStakePool.Spec.Decrease

/-!
# The effect of a `DecreaseValidatorStake`

The lamports go from the validator stake account to the transient one, perhaps through an ephemeral
account that is empty again afterwards. Rent may come from the reserve on the way.

The two ways to end on the transient account, a split onto a new one and a merge into one that exists, are
`placed_of_create` and `placed_of_merge`; in both the record grows by the amount and by the rent that was needed.
-/

namespace SplStakePool

variable {Key : Type} [DecidableEq Key] [Inhabited Key] {rt : Runtime Key} {w w' : World Key}

/-- Lamports of `src` are on `k`, with rent from the reserve. -/
structure Placed (rt : Runtime Key) (acc acc' : Accounts Key) (reserve src k : Key) (n : Nat) : Prop where
  ne : src ≠ k
  src_lamports : (acc' src).lamports + n = (acc src).lamports
  balance : (acc' reserve).lamports + (acc' k).lamports = (acc reserve).lamports + (acc k).lamports + n
  reserve_step : ReserveStep rt (acc reserve) (acc' reserve)
  src_controlled : 0 < (acc' src).lamports → Controlled rt (acc' src)
  controlled : Controlled rt (acc' k)
  src_young : ∀ epoch, Young epoch (acc src) → Young epoch (acc' src)
  frame : Frame acc acc' [src, k, reserve]
  pda : AllPda rt acc acc'

namespace DecreaseValidatorStakeAccounts
variable {a : DecreaseValidatorStakeAccounts Key} {lamports n : Nat} {seed : UInt64}
  {m : Meta Key} {s : Stake Key} {v : ValidatorStakeInfo Key} {info src : AccountInfo Key}
  {acc acc' acc'' acc₁ acc₂ : Accounts Key} {k : Key}

/-- What funding an account with rent from the reserve does. -/
structure FundSpec (rt : Runtime Key) (acc acc' : Accounts Key) (reserve k : Key) : Prop where
  balance : (acc' reserve).lamports + (acc' k).lamports = (acc reserve).lamports + (acc k).lamports
  reserve_step : ReserveStep rt (acc reserve) (acc' reserve)
  frame : Frame acc acc' [reserve, k]
  pda : AllPda rt acc acc'

theorem Funded.spec (hl : rt.Lawful) (h : Funded rt w a acc info acc')
    (hr : Reserve rt (acc w.stakePool.reserveStake)) (hne : w.stakePool.reserveStake ≠ info.key) :
    FundSpec rt acc acc' w.stakePool.reserveStake info.key := by
  rcases h with rfl | ⟨reserve, n, hk, hlt, h⟩
  · exact ⟨rfl, .refl hr, fun _ _ => rfl, .refl _⟩
  · have hw := stakeWithdraw_spec hl h
    rw [hk] at hw hlt
    have hlam := hw.src_lamports hne
    have hdst := congrArg Account.lamports (hw.dst_eq hne)
    rw [Account.credit_lamports] at hdst
    exact ⟨by omega, hw.reserve hlt hr, hw.frame, hw.pda⟩

omit [DecidableEq Key] in
/-- Creating and funding an account, and splitting stake off onto it. -/
theorem placed_of_create (hc : CreateSpec rt acc acc₁ k)
    (hf : FundSpec rt acc₁ acc₂ w.stakePool.reserveStake k) (hland : Landed rt acc₂ acc' src.key k n)
    (hne : w.stakePool.reserveStake ≠ k) (hsrc : src.key ≠ w.stakePool.reserveStake) :
    Placed rt acc acc' w.stakePool.reserveStake src.key k n := by
  have hs : acc₂ src.key = acc src.key := by
    rw [hf.frame _ (by simp [hsrc, hland.ne]), hc.frame _ (by simpa using hland.ne)]
  have hr₁ : acc₁ w.stakePool.reserveStake = acc w.stakePool.reserveStake :=
    hc.frame _ (by simpa using hne)
  have hr : acc' w.stakePool.reserveStake = acc₂ w.stakePool.reserveStake :=
    hland.frame _ (by simp [hsrc.symm, hne])
  have hbal := hf.balance
  have hlam := hland.src_lamports
  have hdst := hland.dst_lamports
  have hck := hc.lamports
  rw [hr₁] at hbal
  rw [hs] at hlam
  refine ⟨hland.ne, hlam, by rw [hr]; omega, ?_, hland.src_controlled, hland.controlled, ?_, ?_,
    (hc.pda.trans hf.pda).trans hland.pda⟩
  · rw [hr, ← hr₁]; exact hf.reserve_step
  · rw [← hs]; exact hland.src_young
  · exact ((hc.frame.trans hf.frame).trans hland.frame).mono (by simp)

omit [DecidableEq Key] in
/-- Merging into an account without rent from the reserve. -/
theorem placed_of_merge (h : MergeSpec rt acc acc' src.key k) (hk : Controlled rt (acc k))
    (hr : Reserve rt (acc w.stakePool.reserveStake)) (hne : w.stakePool.reserveStake ≠ k)
    (hsrc : src.key ≠ w.stakePool.reserveStake) :
    Placed rt acc acc' w.stakePool.reserveStake src.key k (acc src.key).lamports := by
  have hland := Landed.of_merge h hk
  have hres : acc' w.stakePool.reserveStake = acc w.stakePool.reserveStake :=
    hland.frame _ (by simp [hsrc.symm, hne])
  have hdst := hland.dst_lamports
  exact ⟨hland.ne, hland.src_lamports, by rw [hres]; omega, by rw [hres]; exact .refl hr,
    hland.src_controlled, hland.controlled, hland.src_young, hland.frame.mono (by simp), hland.pda⟩

theorem NewTransient.placed (hl : rt.Lawful) (h : NewTransient rt w a acc src n acc')
    (hr : Reserve rt (acc w.stakePool.reserveStake))
    (hne : w.stakePool.reserveStake ≠ a.transientStakeAccountInfo.key)
    (hsrc : src.key ≠ w.stakePool.reserveStake) (hc : Controlled rt (acc src.key)) (hn : 0 < n) :
    Placed rt acc acc' w.stakePool.reserveStake src.key a.transientStakeAccountInfo.key n ∧
      ∀ epoch, Young epoch (acc src.key) → Young epoch (acc' a.transientStakeAccountInfo.key) := by
  obtain ⟨create, fund, split, state, deactivate⟩ := h
  have hcr := createStakeAccount_spec hl create
  have hst : src.key ≠ a.transientStakeAccountInfo.key := fun he => hcr.fresh (he ▸ hc)
  have hf := fund.spec hl (by rw [hcr.frame _ (by simpa using hne)]; exact hr) hne
  have hs : _ = acc src.key :=
    (hf.frame _ (by simp [hsrc, hst])).trans (hcr.frame _ (by simpa using hst))
  have hsp := stakeSplit_spec hl split (by rw [hs]; exact hc) hn
  have hyoung := hsp.young
  rw [hs] at hyoung
  rcases deactivate with ⟨-, hd⟩ | rfl
  · exact ⟨placed_of_create hcr hf ((Landed.of_split hsp).delegate (stakeDeactivate_spec hl hd)) hne hsrc,
      fun epoch hy => stakeDeactivate_young hl hd (hyoung epoch hy).2⟩
  · exact ⟨placed_of_create hcr hf (.of_split hsp) hne hsrc, fun epoch hy => (hyoung epoch hy).2⟩

/-- The source is the validator stake account itself, or all of an ephemeral account. -/
theorem Source.placed (hl : rt.Lawful) (h : Source rt w a lamports acc₁ src n)
    (hk : a.stakePoolInfo.key = rt.stakePoolAddress)
    (hr : Reserve rt (w.accounts w.stakePool.reserveStake))
    (hn : ¬ rt.StakePda w.stakePool.reserveStake)
    (hva : rt.StakePda a.validatorStakeAccountInfo.key)
    (hc : Controlled rt (w.accounts a.validatorStakeAccountInfo.key)) (hpos : 0 < lamports) :
    (acc₁ = w.accounts ∧ src = a.validatorStakeAccountInfo ∧ n = lamports ∧ a.maybeEphemeral = none) ∨
    ∃ seed, src.key = rt.ephemeralStake seed ∧ n = (acc₁ src.key).lamports ∧
      ¬ Controlled rt (w.accounts src.key) ∧
      Placed rt w.accounts acc₁ w.stakePool.reserveStake a.validatorStakeAccountInfo.key src.key
        lamports ∧
      ∀ epoch, Young epoch (w.accounts a.validatorStakeAccountInfo.key) →
        Young epoch (acc₁ src.key) := by
  cases h with
  | validator he => exact .inl ⟨rfl, rfl, rfl, he⟩
  | ephemeral he hek create fund split deactivate =>
    have hkey := rt.ephemeralStake_eq hk hek
    have hne : w.stakePool.reserveStake ≠ src.key := fun he => hn (he ▸ hkey ▸ .ephemeral _)
    have hsrc : a.validatorStakeAccountInfo.key ≠ w.stakePool.reserveStake := fun he => hn (he ▸ hva)
    have hcr := createStakeAccount_spec hl create
    have hst : a.validatorStakeAccountInfo.key ≠ src.key := fun he => hcr.fresh (he ▸ hc)
    have hf := fund.spec hl (by rw [hcr.frame _ (by simpa using hne)]; exact hr) hne
    have hs : _ = w.accounts a.validatorStakeAccountInfo.key :=
      (hf.frame _ (by simp [hsrc, hst])).trans (hcr.frame _ (by simpa using hst))
    have hsp := stakeSplit_spec hl split (by rw [hs]; exact hc) hpos
    have hyoung := hsp.young
    rw [hs] at hyoung
    exact .inr ⟨_, hkey, rfl, hcr.fresh,
      placed_of_create hcr hf ((Landed.of_split hsp).delegate (stakeDeactivate_spec hl deactivate)) hne
        hsrc, fun epoch hy => stakeDeactivate_young hl deactivate (hyoung epoch hy).2⟩

/-- The lamports of a decrease are on the transient stake account. -/
structure Lowered (rt : Runtime Key) (acc acc' : Accounts Key) (reserve va ta : Key) (n : Nat) : Prop where
  lamports : (acc' va).lamports + n = (acc va).lamports
  balance : (acc reserve).lamports + (acc ta).lamports + n ≤
    (acc' reserve).lamports + (acc' ta).lamports
  reserve_step : ReserveStep rt (acc reserve) (acc' reserve)
  va_controlled : 0 < (acc' va).lamports → Controlled rt (acc' va)
  controlled : Controlled rt (acc' ta)
  va_young : ∀ epoch, Young epoch (acc va) → Young epoch (acc' va)
  young : ∀ epoch, Young epoch (acc va) → Quiet epoch (acc ta) → Young epoch (acc' ta)
  frame : ∀ j, j ≠ reserve → j ≠ va → j ≠ ta → acc' j = acc j ∨
    ¬ Controlled rt (acc j) ∧ (acc' j).lamports = 0
  pda : AllPda rt acc acc'

omit [Inhabited Key] in
theorem Ok.validatorKey_eq (h : a.Ok rt w w' lamports seed m s v acc₁ src n) :
    a.validatorStakeAccountInfo.key = rt.validatorStake v :=
  rt.validatorStake_eq (ValidatorList.find_split h.find).1 h.poolKey h.validatorKey

omit [Inhabited Key] in
theorem Ok.transientKey_eq (h : a.Ok rt w w' lamports seed m s v acc₁ src n) :
    a.transientStakeAccountInfo.key = rt.transientStake { v with transientSeedSuffix := seed } :=
  rt.transientStake_eq (ValidatorList.find_split h.find).1 h.poolKey rfl h.transientKey

theorem Ok.lowered (hl : rt.Lawful) (h : a.Ok rt w w' lamports seed m s v acc₁ src n)
    (hr : Reserve rt (w.accounts w.stakePool.reserveStake))
    (hn : ¬ rt.StakePda w.stakePool.reserveStake) (hv : EntryOk rt w.accounts v) :
    Lowered rt w.accounts w'.accounts w.stakePool.reserveStake (rt.validatorStake v)
      a.transientStakeAccountInfo.key lamports := by
  have htk := h.transientKey_eq
  have hvk := h.validatorKey_eq
  have hpos : 0 < lamports := by
    have := h.minimum
    simp only [minimumDelegation, minimumActiveStake] at this
    omega
  have hva : rt.StakePda a.validatorStakeAccountInfo.key := hvk ▸ .validator v
  have hrv : a.validatorStakeAccountInfo.key ≠ w.stakePool.reserveStake := fun he => hn (he ▸ hva)
  have hrt : w.stakePool.reserveStake ≠ a.transientStakeAccountInfo.key :=
    fun he => hn (he ▸ htk ▸ .transient _)
  have hvt : a.validatorStakeAccountInfo.key ≠ a.transientStakeAccountInfo.key := by
    rw [hvk, htk]; exact validatorStake_ne_transientStake hl _ _
  have hc : Controlled rt (w.accounts a.validatorStakeAccountInfo.key) := by
    rw [hvk]; exact hv.of_active h.status
  rw [← hvk]
  rcases h.source.placed hl h.poolKey hr hn hva hc hpos with
    ⟨rfl, rfl, rfl, hnone⟩ | ⟨e, hs, rfl, hfresh, hp, hyoung⟩
  · -- straight from the validator stake account
    have hnew : NewTransient rt w a w.accounts a.validatorStakeAccountInfo n w'.accounts := by
      rcases h.transient with ⟨-, -, he, -⟩ | ⟨-, h⟩
      · rw [hnone] at he; cases he
      · exact h
    obtain ⟨hp, hy⟩ := hnew.placed hl hr hrt hrv hc hpos
    exact ⟨hp.src_lamports, hp.balance.ge, hp.reserve_step, hp.src_controlled, hp.controlled,
      hp.src_young, fun e he _ => hy e he, fun j h₁ h₂ h₃ => .inl (hp.frame j (by simp [h₁, h₂, h₃])),
      hp.pda⟩
  · -- through the ephemeral account, all of which is taken
    have hse : rt.StakePda src.key := hs ▸ .ephemeral e
    have hsr : src.key ≠ w.stakePool.reserveStake := fun he => hn (he ▸ hse)
    have hst : a.transientStakeAccountInfo.key ≠ src.key := by
      rw [htk, hs]; exact transientStake_ne_ephemeralStake hl _ _
    have hta : acc₁ a.transientStakeAccountInfo.key = w.accounts a.transientStakeAccountInfo.key :=
      hp.frame _ (by simp [hvt.symm, hst, hrt.symm])
    have hr₁ := hp.reserve_step.reserve
    obtain ⟨hp₂, hy₂⟩ : Placed rt acc₁ w'.accounts w.stakePool.reserveStake src.key
        a.transientStakeAccountInfo.key (acc₁ src.key).lamports ∧
        ∀ epoch, Young epoch (acc₁ src.key) →
          Quiet epoch (w.accounts a.transientStakeAccountInfo.key) →
          Young epoch (w'.accounts a.transientStakeAccountInfo.key) := by
      rcases h.transient with ⟨h0, hseed, -, hm⟩ | ⟨-, h⟩
      · have hct : Controlled rt (acc₁ a.transientStakeAccountInfo.key) := by
          rw [hta, htk, hseed]
          exact hv.transient h0
        have hm := stakeMerge_spec hl hm
        refine ⟨placed_of_merge hm hct hr₁ hrt hsr, fun epoch _ hq => hm.dst_young _ ?_⟩
        rw [hta] at hct ⊢
        exact hq hct.lamports
      · obtain ⟨hp₂, hy₂⟩ := h.placed hl hr₁ hrt hsr hp.controlled hp.controlled.lamports
        exact ⟨hp₂, fun epoch hy _ => hy₂ epoch hy⟩
    have hva' : w'.accounts a.validatorStakeAccountInfo.key = acc₁ a.validatorStakeAccountInfo.key :=
      hp₂.frame _ (by simp [hp.ne, hvt, hrv])
    have hlam := hp₂.src_lamports
    have hbal := hp.balance
    have hbal₂ := hp₂.balance
    rw [hta] at hbal₂
    refine ⟨by rw [hva']; exact hp.src_lamports, by omega, hp.reserve_step.trans hp₂.reserve_step,
      by rw [hva']; exact hp.src_controlled, hp₂.controlled, by rw [hva']; exact hp.src_young,
      fun epoch hy hq => hy₂ epoch (hyoung epoch hy) hq, ?_, hp.pda.trans hp₂.pda⟩
    intro j h₁ h₂ h₃
    by_cases hj : j = src.key
    · subst hj
      exact .inr ⟨hfresh, by omega⟩
    · rw [hp₂.frame j (by simp [hj, h₁, h₃]), hp.frame j (by simp [hj, h₁, h₂])]
      exact .inl rfl

theorem Ok.effect (hl : rt.Lawful) (h : a.Ok rt w w' lamports seed m s v acc₁ src n)
    (hc : Core rt w.stakePool.reserveStake w.validatorList.validators w.accounts) :
    ∃ pre v' post, EntryEffect rt none w w' pre v v' post := by
  obtain ⟨-, pre, post, hlist, -⟩ := ValidatorList.find_split h.find
  have hv : EntryOk rt w.accounts v := hc.entries v (by rw [hlist]; simp)
  have hp := h.lowered hl hc.reserve_ok hc.reserve_pda hv
  have hlam := hp.lamports
  have hbal := hp.balance
  have htotal := congrArg (·.stakePool.totalLamports) h.result
  have hle := h.active_le
  have hrem := h.remaining
  have hcv : Controlled rt (w.accounts (rt.validatorStake v)) := hv.of_active h.status
  have hpos : 0 < (w'.accounts (rt.validatorStake v)).lamports := by
    rw [h.validatorKey_eq] at hrem
    have := minimumStakeLamports_pos m w.sysvars.minimumDelegation
    omega
  have ht : v.transientStakeLamports ≤ (w.accounts a.transientStakeAccountInfo.key).lamports := by
    rw [h.transientKey_eq]
    rcases h.transient with ⟨-, hs, -⟩ | ⟨h0, -⟩
    · rw [hs]; exact hv.transient_le
    · omega
  dsimp only at htotal
  refine EntryEffect.of_revise v _ (v.activeStakeLamports - lamports)
    (w'.accounts a.transientStakeAccountInfo.key).lamports seed .active
    hc h.find h.status ?_ hp.reserve_step hp.pda h.transientKey_eq ?_ ?_ ?_ (.of_eq rfl)
    (fun _ => hp.va_controlled hpos) (fun _ => hp.controlled) (fun h => absurd rfl h) ?_
    (.inl h.fresh) (by omega)
  · rw [congrArg World.validatorList h.result, ValidatorStakeInfo.revise, ← h.status]
  · intro k hk hkv hkt
    rcases hp.frame k (fun he => hc.reserve_pda (he ▸ hk)) hkv hkt with h | ⟨hnc, hz⟩
    · rw [h]; exact ⟨.refl _, fun _ _ => rfl⟩
    · exact ⟨.of_not hnc, fun _ h0 => by omega⟩
  · intro h0
    rcases h.transient with ⟨-, hs, -⟩ | ⟨h0', -⟩
    · exact hs
    · exact absurd h0' h0
  · exact .of_add (by omega)
  · intro _ hqv hqt
    exact ⟨fun _ => hp.va_young _ (hqv hcv.lamports), fun _ => hp.young _ (hqv hcv.lamports) hqt⟩

end DecreaseValidatorStakeAccounts
end SplStakePool
