import SplStakePool.Invariant.Entry
import SplStakePool.Spec.Deposit
import SplStakePool.Spec.Withdraw

/-!
# The effect of deposits and withdrawals

A stake deposit replaces the entry of its validator, a withdrawal of stake the entry it takes from. Sol
deposits, sol withdrawals and withdrawals of the reserve's stake only touch the reserve.

The deposit authority is not the withdraw authority of the pool, because its address is derived from another seed or
it has signed; so a user cannot hand the pool a stake account that it already has.
-/

namespace SplStakePool
open Exec Machine Function

variable {Key : Type} [DecidableEq Key] [Inhabited Key] {rt : Runtime Key} {sys : Sysvars}
  {w w' : World Key} {acc acc' : Accounts Key} {minimum : Option Nat} {n : Nat}

theorem solTransfer_reserve (hl : rt.Lawful) {src dst : AccountInfo Key}
    (h : solTransfer rt acc src dst n = .ok acc') (hs : src.isSigner → ¬ rt.IsPda src.key)
    (hr : Reserve rt (acc dst.key)) (hn : ¬ rt.StakePda dst.key) :
    acc' dst.key = (acc dst.key).credit n ∧ (∀ k, rt.StakePda k → acc' k = acc k) ∧ AllPda rt acc acc' := by
  obtain ⟨hsig, -, hd, -, b, hb, rfl⟩ := solTransfer_ok hl h
  have hne : dst.key ≠ src.key := fun he => not_controlled_of_none hd (he ▸ hr.controlled)
  refine ⟨by rw [update_self, update_of_ne hne], fun k hk => ?_, ?_⟩
  · have h₁ : k ≠ dst.key := fun he => hn (he ▸ hk)
    have h₂ : k ≠ src.key := fun he => hs hsig (he ▸ hk.isPda hl)
    rw [update_of_ne h₁, update_of_ne h₂]
  · have h₁ : AllPda rt acc (update acc src.key b) := (AllPda.refl acc).update fun hp => by
      rw [hb]; exact hp
    exact h₁.update fun hp => (h₁ _ hp).credit n

theorem DepositSolAccounts.Ok.effect (hl : rt.Lawful) {a : DepositSolAccounts Key} {t : DepositTokens}
    {acc₁ : Accounts Key} (h : a.Ok rt w w' n minimum t acc₁)
    (hs : a.fromUserLamportsInfo.isSigner → ¬ rt.IsPda a.fromUserLamportsInfo.key)
    (hc : Core rt w.stakePool.reserveStake w.validatorList.validators w.accounts) :
    EvolveEffect rt none w w' := by
  have honly := mintDepositTokens_only hl h.mint
  have hr := hc.reserve_ok
  have htr := solTransfer_reserve hl h.transfer hs (by rw [h.reserveKey]; exact hr)
    (by rw [h.reserveKey]; exact hc.reserve_pda)
  rw [h.reserveKey] at htr
  obtain ⟨hres, hpdas, hpda⟩ := htr
  have hev : Evolves rt (w.accounts w.stakePool.reserveStake) (acc₁ w.stakePool.reserveStake) := by
    rw [hres]; exact .credit _ _
  have hres' : w'.accounts w.stakePool.reserveStake = acc₁ w.stakePool.reserveStake :=
    honly.eq (hev.controlled hr.controlled).notToken
  have hsame : ∀ k, rt.StakePda k → w'.accounts k = w.accounts k := fun k hk => by
    rw [honly.eq (by rw [hpdas k hk]; exact (hc.pdas k hk).notToken), hpdas k hk]
  refine ⟨by rw [h.result], by rw [hres']; exact (hr.evolves hev).1,
    fun k _ => (hpda.trans honly.pda) k, fun k hk => by rw [hsame k hk]; exact .refl _, fun k hk _ => hsame k hk, ?_⟩
  rw [hres', hres, Account.credit_lamports, congrArg World.stakePool h.result]
  dsimp only
  omega

omit [Inhabited Key] in
theorem transferFee_only (hl : rt.Lawful) {src mint dst auth : AccountInfo Key} {fee decimals : Nat}
    (h : 0 < fee ∧ tokenTransfer rt acc src mint dst auth fee decimals = .ok acc' ∨
      fee = 0 ∧ acc = acc') : OnlyTokens acc acc' := by
  rcases h with ⟨-, h⟩ | ⟨-, rfl⟩
  · exact tokenTransfer_only hl h
  · exact .refl _

theorem WithdrawSolAccounts.Ok.effect (hl : rt.Lawful) {a : WithdrawSolAccounts Key}
    {tokens fee decimals : Nat} {acc₁ acc₂ : Accounts Key}
    (h : a.Ok rt w w' tokens minimum fee decimals n acc₁ acc₂)
    (hc : Core rt w.stakePool.reserveStake w.validatorList.validators w.accounts) :
    EvolveEffect rt (some a.destinationLamportsInfo.key) w w' := by
  have honly := (tokenBurn_only hl h.burn).trans (transferFee_only hl h.transfer)
  have hr := hc.reserve_ok
  have hres : acc₂ w.stakePool.reserveStake = w.accounts w.stakePool.reserveStake :=
    honly.eq hr.controlled.notToken
  have hpdas : ∀ k, rt.StakePda k → acc₂ k = w.accounts k :=
    fun k hk => honly.eq (hc.pdas k hk).notToken
  have hw := stakeWithdraw_spec hl h.withdraw
  rw [h.reserveKey] at hw
  have hle := hw.le
  have hsrc := hw.src_le
  have hstep := hw.reserve
  rw [hres] at hle hsrc hstep
  have hlt : n < (w.accounts w.stakePool.reserveStake).lamports := by
    obtain ⟨m, hm, hle'⟩ := h.reserve
    obtain ⟨m', hm', hp, -⟩ := hr.state
    rw [h.reserveKey] at hm hle'
    rw [hm, AccountData.stakeState.injEq, StakeStateV2.initialized.injEq] at hm'
    subst hm'
    have := hp.rent
    simp only [minimumReserveLamports, minimumReserve, saturatingAdd, maxValue] at hle'
    omega
  have hdst : ∀ k, k ≠ w.stakePool.reserveStake → k = a.destinationLamportsInfo.key →
      w'.accounts k = (acc₂ k).credit n := by
    rintro k hk rfl
    exact hw.dst_eq hk.symm
  have hother : ∀ k, k ≠ w.stakePool.reserveStake → k ≠ a.destinationLamportsInfo.key →
      w'.accounts k = acc₂ k := fun k h₁ h₂ => hw.frame k (by simp [h₁, h₂])
  refine ⟨by rw [h.result], hstep hlt hr, fun k _ => (honly.pda.trans hw.pda) k, ?_, ?_, ?_⟩
  · intro k hk
    have hkr : k ≠ w.stakePool.reserveStake := fun he => hc.reserve_pda (he ▸ hk)
    by_cases hkd : k = a.destinationLamportsInfo.key
    · rw [hdst k hkr hkd, hpdas k hk]; exact .credit _ _
    · rw [hother k hkr hkd, hpdas k hk]; exact .refl _
  · intro k hk ho
    have hkr : k ≠ w.stakePool.reserveStake := fun he => hc.reserve_pda (he ▸ hk)
    rw [hother k hkr fun he => ho (by rw [he]), hpdas k hk]
  · rw [congrArg World.stakePool h.result]
    have := h.lamports_le
    dsimp only
    omega

/-! ## Deposits of stake -/

omit [Inhabited Key] in
/-- The authority over deposited stake is not the pool's withdraw authority. -/
theorem DepositStakeAccounts.depositAuthority_ne (hl : rt.Lawful) {a : DepositStakeAccounts Key}
    (hk : a.stakePoolInfo.key = rt.stakePoolAddress) (h : a.authorizeDeposit rt w = .ok acc)
    (hs : a.stakeDepositAuthorityInfo.isSigner → ¬ rt.IsPda a.stakeDepositAuthorityInfo.key) :
    a.stakeDepositAuthorityInfo.key ≠ rt.withdrawAuthority := by
  rcases (DepositStakeAccounts.authorizeDeposit_eq_ok h).1 with hsig | he
  · exact fun he => hs hsig (he ▸ hl.isPda_withdrawAuthority)
  · rw [he, hk]
    exact depositAuthority_ne_withdrawAuthority hl

/-- What a stake deposit has done to the accounts of the validator `va` and the deposited `src`. -/
structure Deposited (rt : Runtime Key) (acc acc' : Accounts Key) (reserve va src : Key) (n : Nat) :
    Prop where
  ne : va ≠ src
  fresh : ¬ Controlled rt (acc src)
  src_lamports : (acc' src).lamports = 0
  balance : (acc' reserve).lamports + (acc' va).lamports =
    (acc reserve).lamports + (acc va).lamports + n
  reserve_step : ReserveStep rt (acc reserve) (acc' reserve)
  controlled : Controlled rt (acc' va)
  young : ∀ epoch, Young epoch (acc va) → Young epoch (acc' va)
  frame : ∀ k, rt.StakePda k → k ≠ va → k ≠ src → acc' k = acc k
  pda : AllPda rt acc acc'

section
variable {a : DepositStakeAccounts Key} {s : Stake Key} {v : ValidatorStakeInfo Key} {t : DepositTokens}
  {acc₁ acc₂ acc₃ : Accounts Key} {total stake : Nat}

omit [Inhabited Key] in
theorem DepositStakeAccounts.Ok.validatorKey_eq
    (h : a.Ok rt w w' minimum s v t acc₁ acc₂ acc₃ total stake) :
    a.validatorStakeAccountInfo.key = rt.validatorStake v :=
  rt.validatorStake_eq (ValidatorList.find_split h.find).1 h.poolKey h.validatorKey

theorem DepositStakeAccounts.Ok.deposited (hl : rt.Lawful)
    (h : a.Ok rt w w' minimum s v t acc₁ acc₂ acc₃ total stake)
    (hs : a.stakeDepositAuthorityInfo.isSigner → ¬ rt.IsPda a.stakeDepositAuthorityInfo.key)
    (hc : Core rt w.stakePool.reserveStake w.validatorList.validators w.accounts)
    (hv : Controlled rt (w.accounts (rt.validatorStake v))) :
    Deposited rt w.accounts w'.accounts w.stakePool.reserveStake (rt.validatorStake v) a.stakeInfo.key
      total := by
  have hvk := h.validatorKey_eq
  have hr := hc.reserve_ok
  have hau := stakeAuthorizeSigned_spec hl (DepositStakeAccounts.authorizeDeposit_eq_ok h.authorize).2
  have hfresh : ¬ Controlled rt (w.accounts a.stakeInfo.key) := fun hcs =>
    DepositStakeAccounts.depositAuthority_ne hl h.poolKey h.authorize hs (hau.authority hcs)
  have hm := stakeMerge_spec hl h.merge
  have hone := mintDepositTokens_only hl h.mint
  have htot := h.total_eq
  rw [hvk] at hm htot
  have hrs : w.stakePool.reserveStake ≠ a.stakeInfo.key := fun he => hfresh (he ▸ hr.controlled)
  have hrv : w.stakePool.reserveStake ≠ rt.validatorStake v :=
    fun he => hc.reserve_pda (he ▸ .validator v)
  have hva₁ : acc₁ (rt.validatorStake v) = w.accounts (rt.validatorStake v) :=
    hau.frame _ (by simpa using hm.ne)
  have hcv₂ := hm.dst_controlled (by rw [hva₁]; exact hv)
  have hyoung := hm.dst_young
  have hsrc := hm.src_lamports
  rw [hva₁] at hyoung
  have hres₂ : acc₂ w.stakePool.reserveStake = w.accounts w.stakePool.reserveStake := by
    rw [hm.frame _ (by simp [hrs, hrv]), hau.frame _ (by simpa using hrs)]
  have hpda₂ := hau.pda.trans hm.pda
  -- minting touches none of the accounts
  have hva₃ : acc₃ (rt.validatorStake v) = acc₂ (rt.validatorStake v) := hone.eq hcv₂.notToken
  have hres₃ : acc₃ w.stakePool.reserveStake = w.accounts w.stakePool.reserveStake := by
    rw [hone.eq (by rw [hres₂]; exact hr.controlled.notToken), hres₂]
  have hsrc₃ : (acc₃ a.stakeInfo.key).lamports = 0 := by rw [(hone _).1]; exact hsrc
  have hframe : ∀ k, rt.StakePda k → k ≠ rt.validatorStake v → k ≠ a.stakeInfo.key →
      acc₃ k = w.accounts k := by
    intro k hk h₁ h₂
    rw [hone.eq (hpda₂ k (hc.pdas k hk)).notToken, hm.frame _ (by simp [h₁, h₂]),
      hau.frame _ (by simpa using h₂)]
  have hpos := hv.lamports
  rcases h.withdraw with ⟨h0, hw⟩ | ⟨h0, he⟩
  · -- the lamports beyond the stake go to the reserve
    have hw := stakeWithdraw_spec hl hw
    rw [hvk, h.reserveKey] at hw
    have hlt : total - stake < (acc₃ (rt.validatorStake v)).lamports := by rw [hva₃]; omega
    have hlam := hw.src_lamports hrv.symm
    have hdst := hw.dst_eq hrv.symm
    have hctl := hw.src_controlled hlt
    have hdat := hw.src_data hlt
    rw [hres₃] at hdst
    rw [hva₃] at hlam hlt hctl hdat
    refine ⟨hm.ne, hfresh, ?_, ?_, ?_, hctl hcv₂, ?_, ?_, (hpda₂.trans hone.pda).trans hw.pda⟩
    · rw [hw.frame _ (by simp [hm.ne.symm, hrs.symm])]; exact hsrc₃
    · rw [hdst, hlam, Account.credit_lamports]; omega
    · rw [hdst]; exact (hr.evolves (.credit _ _)).1
    · intro e hy m st hd
      exact hyoung e hy m st (hdat ▸ hd)
    · intro k hk h₁ h₂
      rw [hw.frame _ (by simp [h₁, show k ≠ w.stakePool.reserveStake from
        fun he => hc.reserve_pda (he ▸ hk)]), hframe k hk h₁ h₂]
  · rw [← he]
    exact ⟨hm.ne, hfresh, hsrc₃, by rw [hres₃, hva₃]; omega, by rw [hres₃]; exact .refl hr,
      by rw [hva₃]; exact hcv₂, by rw [hva₃]; exact hyoung, hframe, hpda₂.trans hone.pda⟩

theorem DepositStakeAccounts.Ok.effect (hl : rt.Lawful)
    (h : a.Ok rt w w' minimum s v t acc₁ acc₂ acc₃ total stake)
    (hs : a.stakeDepositAuthorityInfo.isSigner → ¬ rt.IsPda a.stakeDepositAuthorityInfo.key)
    (hc : Core rt w.stakePool.reserveStake w.validatorList.validators w.accounts) :
    ∃ pre v' post, EntryEffect rt none w w' pre v v' post := by
  obtain ⟨-, pre, post, hlist, -⟩ := ValidatorList.find_split h.find
  have hv : EntryOk rt w.accounts v := hc.entries v (by rw [hlist]; simp)
  have hcv : Controlled rt (w.accounts (rt.validatorStake v)) := hv.of_active h.status
  have hd := h.deposited hl hs hc hcv
  have hbal := hd.balance
  have hsrc := hd.src_lamports
  have htotal := congrArg (·.stakePool.totalLamports) h.result
  have hle := hv.active_le
  dsimp only at htotal
  -- the deposited account may only be the transient one if that has no record
  have hts : rt.transientStake v = a.stakeInfo.key → v.transientStakeLamports = 0 := fun he =>
    Nat.eq_zero_of_not_pos fun h0 => hd.fresh (he ▸ hv.transient h0)
  have hta : rt.transientStake v ≠ a.stakeInfo.key →
      w'.accounts (rt.transientStake v) = w.accounts (rt.transientStake v) :=
    hd.frame _ (.transient v) (validatorStake_ne_transientStake hl _ _).symm
  refine EntryEffect.of_revise v (rt.transientStake v) (w'.accounts (rt.validatorStake v)).lamports
    v.transientStakeLamports v.transientSeedSuffix .active
    hc h.find h.status ?_ hd.reserve_step hd.pda rfl ?_ (fun _ => rfl) (.of_eq rfl) ?_ (fun _ => hd.controlled)
    ?_ (fun h => absurd rfl h) ?_ (.inl h.fresh) (by omega)
  · rw [congrArg World.validatorList h.result, ValidatorStakeInfo.revise, ← h.status, h.validatorKey_eq]
  · intro k hk hkv hkt
    by_cases hks : k = a.stakeInfo.key
    · subst hks
      exact ⟨.of_not hd.fresh, fun _ h0 => by omega⟩
    · rw [hd.frame k hk hkv hks]; exact ⟨.refl _, fun _ _ => rfl⟩
  · by_cases he : rt.transientStake v = a.stakeInfo.key
    · have := hts he
      exact .of_eq (by rw [he, hsrc, this])
    · rw [hta he]; exact .of_add rfl
  · intro h0
    have he : rt.transientStake v ≠ a.stakeInfo.key := fun he => by have := hts he; omega
    rw [hta he]; exact hv.transient h0
  · refine fun _ hqv hqt => ⟨fun _ => hd.young _ (hqv hcv.lamports), ?_⟩
    by_cases he : rt.transientStake v = a.stakeInfo.key
    · rw [he]; intro h0; omega
    · rw [hta he]; exact hqt

end

/-! ## Withdrawals of stake -/

/-- What a withdrawal of stake from `src` to the user's `dst` has done to the accounts. -/
structure Handed (rt : Runtime Key) (acc acc' : Accounts Key) (src dst : Key) (n : Nat) : Prop where
  ne : src ≠ dst
  fresh : ¬ Controlled rt (acc dst)
  le : n ≤ (acc src).lamports
  lamports : (acc' src).lamports + n = (acc src).lamports
  dst_lamports : (acc' dst).lamports = (acc dst).lamports + n
  controlled : 0 < (acc' src).lamports → Controlled rt (acc' src)
  reserve : 0 < (acc' src).lamports → Reserve rt (acc src) → ReserveStep rt (acc src) (acc' src)
  young : ∀ epoch, Young epoch (acc src) → Young epoch (acc' src)
  frame : ∀ k, NotToken (acc k) → k ≠ src → k ≠ dst → acc' k = acc k
  pda : AllPda rt acc acc'

section
variable {a : WithdrawStakeAccounts Key} {tokens fee decimals : Nat} {plan : WithdrawPlan Key}
  {acc₁ acc₂ acc₃ : Accounts Key}

theorem WithdrawStakeAccounts.Ok.handed (hl : rt.Lawful)
    (h : a.Ok rt w w' tokens minimum fee decimals n plan acc₁ acc₂ acc₃)
    (hc : Controlled rt (w.accounts a.stakeSplitFrom.key)) (hpos : 0 < plan.withdrawLamports) :
    Handed rt w.accounts w'.accounts a.stakeSplitFrom.key a.stakeSplitTo.key plan.withdrawLamports := by
  have hb := tokenBurn_only hl h.burn
  have hbe := tokenBurn_evolve hl h.burn
  have hsrc : acc₁ a.stakeSplitFrom.key = w.accounts a.stakeSplitFrom.key := hb.eq hc.notToken
  have hsp := stakeSplit_spec hl h.split (by rw [hsrc]; exact hc) hpos
  have hau := stakeAuthorizeSigned_spec hl h.authorize
  have ht := transferFee_only hl h.transfer
  have hau₃ : acc₃ a.stakeSplitFrom.key = acc₂ a.stakeSplitFrom.key :=
    hau.frame _ (by simpa using hsp.ne)
  have hland := Landed.of_split hsp
  have hlam := hland.src_lamports
  have hctl := hland.src_controlled
  have hres := hland.reserve
  have hle := hsp.le
  have hyoung := hland.src_young
  rw [hsrc] at hlam hres hle hyoung
  -- the source is still no token account
  have hnt : NotToken (acc₃ a.stakeSplitFrom.key) := by
    obtain ⟨-, -, -, -, -, s, t, u, -, -, -, he⟩ := stakeSplit_ok hl h.split
    rw [hau₃, he, update_of_ne hsp.ne, update_self]
    exact .of_stake rfl
  have hsrc' : w'.accounts a.stakeSplitFrom.key = acc₂ a.stakeSplitFrom.key := by
    rw [ht.eq hnt, hau₃]
  have hdst : (w'.accounts a.stakeSplitTo.key).lamports =
      (w.accounts a.stakeSplitTo.key).lamports + plan.withdrawLamports := by
    rw [(ht _).1, hau.lamports, hsp.dst_lamports, (hb _).1]
  refine ⟨hsp.ne, fun hcd => hsp.dst_fresh ((hbe _).controlled hcd), hle, by rw [hsrc']; exact hlam,
    hdst, by rw [hsrc']; exact hctl, by rw [hsrc']; exact hres, by rw [hsrc']; exact hyoung, ?_,
    ((hb.pda.trans hsp.pda).trans hau.pda).trans ht.pda⟩
  intro k hk h₁ h₂
  have h₃ : acc₃ k = w.accounts k := by
    rw [hau.frame _ (by simpa using h₂), hsp.frame _ (by simp [h₁, h₂]), hb.eq hk]
  rw [ht.eq (by rw [h₃]; exact hk), h₃]

theorem WithdrawStakeAccounts.Ok.effect_reserve (hl : rt.Lawful) {m : Meta Key}
    (h : a.Ok rt w w' tokens minimum fee decimals n ⟨none, n⟩ acc₁ acc₂ acc₃)
    (hc : Core rt w.stakePool.reserveStake w.validatorList.validators w.accounts)
    (hk : a.stakeSplitFrom.key = w.stakePool.reserveStake)
    (hs : ∃ s, (w.accounts a.stakeSplitFrom.key).data = .stakeState s ∧ s.meta? = some m)
    (hle : minimumReserveLamports m ≤ (w.accounts a.stakeSplitFrom.key).lamports - n) :
    EvolveEffect rt (some a.stakeSplitTo.key) w w' := by
  have hr := hc.reserve_ok
  have hh := h.handed hl (by rw [hk]; exact hr.controlled) h.lamports.pos
  have hlam := hh.lamports
  dsimp only at hlam hh
  rw [hk] at hh hs hle hlam
  have hpos : 0 < (w'.accounts w.stakePool.reserveStake).lamports := by
    obtain ⟨s, hs, hm⟩ := hs
    have hp := (hr.controlled.poolState hs).poolMeta hm
    have := hp.rent
    simp only [minimumReserveLamports, minimumReserve, saturatingAdd, maxValue] at hle
    omega
  have hlist := h.list
  have hsame : ∀ k, rt.StakePda k → k ≠ a.stakeSplitTo.key → w'.accounts k = w.accounts k :=
    fun k hk' h₁ => hh.frame k (hc.pdas k hk').notToken (fun he => hc.reserve_pda (he ▸ hk')) h₁
  refine ⟨(Except.ok.inj hlist).symm, hh.reserve hpos hr, fun k _ => hh.pda k, ?_, ?_, ?_⟩
  · intro k hk'
    by_cases hkt : k = a.stakeSplitTo.key
    · subst hkt; exact .of_not hh.fresh
    · rw [hsame k hk' hkt]; exact .refl _
  · exact fun k hk' ho => hsame k hk' fun he => ho (by rw [he])
  · rw [congrArg World.stakePool h.result]
    have := h.lamports_le
    dsimp only at this ⊢
    omega

theorem WithdrawStakeAccounts.Ok.effect_active (hl : rt.Lawful) {v : ValidatorStakeInfo Key}
    (active : Nat) (status : StakeStatus)
    (h : a.Ok rt w w' tokens minimum fee decimals n plan acc₁ acc₂ acc₃)
    (hc : Core rt w.stakePool.reserveStake w.validatorList.validators w.accounts) {vote : Key}
    (hf : w.validatorList.find vote = some v) (hst : v.status = StakeStatus.active.pod)
    (hk : a.stakeSplitFrom.key = rt.validatorStake v)
    (hset : w'.validatorList = w.validatorList.set
      (v.revise active v.transientStakeLamports v.transientSeedSuffix status))
    (hactive : active + plan.withdrawLamports = v.activeStakeLamports)
    (hpos : 0 < plan.withdrawLamports)
    (hleft : 0 < active ∨ status = .active →
      plan.withdrawLamports < (w.accounts (rt.validatorStake v)).lamports)
    (hstatus : status ≠ .active → StatusOk rt w'.accounts
      (v.revise active v.transientStakeLamports v.transientSeedSuffix status) status) :
    ∃ pre v' post, EntryEffect rt (some a.stakeSplitTo.key) w w' pre v v' post := by
  obtain ⟨-, pre, post, hlist, -⟩ := ValidatorList.find_split hf
  have hv : EntryOk rt w.accounts v := hc.entries v (by rw [hlist]; simp)
  have hcv : Controlled rt (w.accounts (rt.validatorStake v)) := hv.of_active hst
  have hh := h.handed hl (by rw [hk]; exact hcv) hpos
  rw [hk] at hh
  have hlam := hh.lamports
  have hsame : ∀ k, rt.StakePda k → k ≠ rt.validatorStake v → k ≠ a.stakeSplitTo.key →
      w'.accounts k = w.accounts k := fun k hk' => hh.frame k (hc.pdas k hk').notToken
  have hres : w'.accounts w.stakePool.reserveStake = w.accounts w.stakePool.reserveStake :=
    hh.frame _ hc.reserve_ok.controlled.notToken (fun he => hc.reserve_pda (he ▸ .validator v))
      fun he => hh.fresh (he ▸ hc.reserve_ok.controlled)
  have hta : rt.transientStake v ≠ a.stakeSplitTo.key →
      w'.accounts (rt.transientStake v) = w.accounts (rt.transientStake v) :=
    hsame _ (.transient v) (validatorStake_ne_transientStake hl _ _).symm
  have htotal := congrArg (·.stakePool.totalLamports) h.result
  have hle := h.lamports_le
  dsimp only at htotal
  refine EntryEffect.of_revise v (rt.transientStake v) active v.transientStakeLamports v.transientSeedSuffix status
    hc hf hst hset (by rw [hres]; exact .refl hc.reserve_ok) hh.pda rfl ?_ (fun _ => rfl)
    (.of_add (by omega)) ?_ (fun h0 => hh.controlled (by have := hleft h0; omega)) ?_ hstatus ?_ (.inl h.fresh)
    (by rw [hres]; omega)
  · intro k hk' hkv hkt
    by_cases hko : k = a.stakeSplitTo.key
    · subst hko
      exact ⟨.of_not hh.fresh, fun hcl => absurd hk' (hcl.out _ rfl)⟩
    · rw [hsame k hk' hkv hko]; exact ⟨.refl _, fun _ _ => rfl⟩
  · by_cases he : rt.transientStake v = a.stakeSplitTo.key
    · -- then it has no record
      have h0 : v.transientStakeLamports = 0 :=
        Nat.eq_zero_of_not_pos fun h0 => hh.fresh (he ▸ hv.transient h0)
      have hdst := hh.dst_lamports
      rw [← he] at hdst
      exact .inr ⟨by omega, fun hcl => absurd (he ▸ .transient v) (hcl.out _ rfl)⟩
    · rw [hta he]; exact .of_add rfl
  · intro h0
    have he : rt.transientStake v ≠ a.stakeSplitTo.key := fun he => hh.fresh (he ▸ hv.transient h0)
    rw [hta he]; exact hv.transient h0
  · refine fun hcl hqv hqt => ⟨fun _ => hh.young _ (hqv hcv.lamports), ?_⟩
    rw [hta fun he => hcl.out _ rfl (he ▸ .transient v)]
    exact hqt

theorem WithdrawStakeAccounts.Ok.effect_transient (hl : rt.Lawful) {v : ValidatorStakeInfo Key}
    (transient : Nat) (h : a.Ok rt w w' tokens minimum fee decimals n plan acc₁ acc₂ acc₃)
    (hc : Core rt w.stakePool.reserveStake w.validatorList.validators w.accounts) {vote : Key}
    (hf : w.validatorList.find vote = some v) (hst : v.status = StakeStatus.active.pod)
    (hk : a.stakeSplitFrom.key = rt.transientStake v)
    (hset : w'.validatorList = w.validatorList.set
      (v.revise v.activeStakeLamports transient v.transientSeedSuffix .active))
    (htransient : transient + plan.withdrawLamports = v.transientStakeLamports)
    (hpos : 0 < plan.withdrawLamports)
    (hleft : plan.withdrawLamports < (w.accounts (rt.transientStake v)).lamports) :
    ∃ pre v' post, EntryEffect rt (some a.stakeSplitTo.key) w w' pre v v' post := by
  obtain ⟨-, pre, post, hlist, -⟩ := ValidatorList.find_split hf
  have hv : EntryOk rt w.accounts v := hc.entries v (by rw [hlist]; simp)
  have hcv : Controlled rt (w.accounts (rt.validatorStake v)) := hv.of_active hst
  have hct : Controlled rt (w.accounts (rt.transientStake v)) := hv.transient (by omega)
  have hh := h.handed hl (by rw [hk]; exact hct) hpos
  rw [hk] at hh
  have hlam := hh.lamports
  have hsame : ∀ k, rt.StakePda k → k ≠ rt.transientStake v → k ≠ a.stakeSplitTo.key →
      w'.accounts k = w.accounts k := fun k hk' => hh.frame k (hc.pdas k hk').notToken
  have hres : w'.accounts w.stakePool.reserveStake = w.accounts w.stakePool.reserveStake :=
    hh.frame _ hc.reserve_ok.controlled.notToken (fun he => hc.reserve_pda (he ▸ .transient v))
      fun he => hh.fresh (he ▸ hc.reserve_ok.controlled)
  have hva : w'.accounts (rt.validatorStake v) = w.accounts (rt.validatorStake v) :=
    hsame _ (.validator v) (validatorStake_ne_transientStake hl _ _) fun he => hh.fresh (he ▸ hcv)
  have htotal := congrArg (·.stakePool.totalLamports) h.result
  have hle := h.lamports_le
  dsimp only at htotal
  refine EntryEffect.of_revise v (rt.transientStake v) v.activeStakeLamports transient v.transientSeedSuffix .active
    hc hf hst hset (by rw [hres]; exact .refl hc.reserve_ok) hh.pda rfl ?_ (fun _ => rfl)
    (by rw [hva]; exact .of_add rfl) (.of_add (by omega)) (fun _ => by rw [hva]; exact hcv)
    (fun _ => hh.controlled (by omega)) (fun h => absurd rfl h) ?_ (.inl h.fresh) (by rw [hres]; omega)
  · intro k hk' hkv hkt
    by_cases hko : k = a.stakeSplitTo.key
    · subst hko
      exact ⟨.of_not hh.fresh, fun hcl => absurd hk' (hcl.out _ rfl)⟩
    · rw [hsame k hk' hkt hko]; exact ⟨.refl _, fun _ _ => rfl⟩
  · exact fun _ hqv hqt => ⟨by rw [hva]; exact hqv, fun _ => hh.young _ (hqt hct.lamports)⟩

/-- Stake is only withdrawn from an account of the pool. -/
theorem WithdrawStakeAccounts.Ok.source (h : a.Ok rt w w' tokens minimum fee decimals n plan acc₁ acc₂ acc₃)
    (hc : Core rt w.stakePool.reserveStake w.validatorList.validators w.accounts) :
    Controlled rt (w.accounts a.stakeSplitFrom.key) ∧ 0 < plan.withdrawLamports := by
  have hpos := h.lamports.pos
  have hlist := h.list
  have entry : ∀ {v m d}, FromEntry w a v m d →
      v.voteAccountAddress = d.voterPubkey ∧ EntryOk rt w.accounts v := by
    intro v m d he
    obtain ⟨hv, pre, post, hsplit, -⟩ := ValidatorList.find_split he.find
    exact ⟨hv, hc.entries v (by rw [hsplit]; simp)⟩
  cases h.planned with
  | reserve m hk hs hle => exact ⟨by rw [hk]; exact hc.reserve_ok.controlled, hpos⟩
  | active v m d he hk hle ha =>
    obtain ⟨hv, hok⟩ := entry he
    rw [rt.validatorStake_eq hv h.poolKey hk]
    exact ⟨hok.of_active he.status, hpos⟩
  | transient v m d he hk hle ht =>
    obtain ⟨hv, hok⟩ := entry he
    simp only [ValidatorList.withdraw, ValidatorStakeInfo.withdraw, bind_eq_ok, orErr_eq_ok,
      checkedSub_eq_some, pure_eq_ok] at hlist
    obtain ⟨_, ⟨_, ⟨hn, -⟩, -⟩, -⟩ := hlist
    rw [rt.transientStake_eq hv h.poolKey rfl hk]
    exact ⟨hok.transient (by omega), hpos⟩
  | removal v m d he hk hle ha ht hv =>
    obtain ⟨hv, hok⟩ := entry he
    have hcv := hok.of_active he.status
    rw [← rt.validatorStake_eq hv h.poolKey hk] at hcv
    exact ⟨hcv, hcv.lamports⟩

/-- A withdrawal of stake takes from the reserve, or replaces the entry that it takes from. -/
theorem WithdrawStakeAccounts.Ok.effect (hl : rt.Lawful)
    (h : a.Ok rt w w' tokens minimum fee decimals n plan acc₁ acc₂ acc₃)
    (hc : Core rt w.stakePool.reserveStake w.validatorList.validators w.accounts) :
    EvolveEffect rt (some a.stakeSplitTo.key) w w' ∨
      ∃ pre v v' post, EntryEffect rt (some a.stakeSplitTo.key) w w' pre v v' post := by
  have hlist := h.list
  have hpos := h.lamports.pos
  cases h.planned with
  | reserve m hk hs hle => exact .inl (h.effect_reserve hl hc hk hs hle)
  | active v m d he hk hle ha =>
    simp only [ValidatorList.withdraw, ValidatorStakeInfo.withdraw, bind_eq_ok, orErr_eq_ok,
      checkedSub_eq_some, pure_eq_ok] at hlist
    obtain ⟨_, ⟨_, ⟨hn, rfl⟩, rfl⟩, hlist⟩ := hlist
    have hkey := rt.validatorStake_eq (ValidatorList.find_split he.find).1 h.poolKey hk
    have hmin := minimumStakeLamports_pos m w.sysvars.minimumDelegation
    rw [hkey] at hle
    refine .inr ?_
    obtain ⟨pre, v', post, heff⟩ := WithdrawStakeAccounts.Ok.effect_active hl
      (v.activeStakeLamports - n) .active h hc he.find he.status hkey
      (by rw [← hlist, ValidatorStakeInfo.revise, ← he.status])
      (Nat.sub_add_cancel hn) hpos (fun _ => by dsimp only; omega) fun h => absurd rfl h
    exact ⟨pre, v, v', post, heff⟩
  | transient v m d he hk hle ht =>
    simp only [ValidatorList.withdraw, ValidatorStakeInfo.withdraw, bind_eq_ok, orErr_eq_ok,
      checkedSub_eq_some, pure_eq_ok] at hlist
    obtain ⟨_, ⟨_, ⟨hn, rfl⟩, rfl⟩, hlist⟩ := hlist
    have hkey := rt.transientStake_eq (ValidatorList.find_split he.find).1 h.poolKey rfl hk
    have hmin := minimumStakeLamports_pos m w.sysvars.minimumDelegation
    rw [hkey] at hle
    refine .inr ?_
    obtain ⟨pre, v', post, heff⟩ := WithdrawStakeAccounts.Ok.effect_transient hl
      (v.transientStakeLamports - n) h hc he.find he.status hkey
      (by rw [← hlist, ValidatorStakeInfo.revise, ← he.status])
      (Nat.sub_add_cancel hn) hpos (by dsimp only; omega)
    exact ⟨pre, v, v', post, heff⟩
  | removal v m d he hk hle ha ht hv =>
    simp only [ValidatorList.withdraw, ValidatorStakeInfo.withdraw, bind_eq_ok, orErr_eq_ok,
      checkedSub_eq_some, pure_eq_ok, ensure_eq_ok, exists_unit] at hlist
    obtain ⟨_, ⟨_, ⟨hn, rfl⟩, h0, rfl⟩, hlist⟩ := hlist
    have hkey := rt.validatorStake_eq (ValidatorList.find_split he.find).1 h.poolKey hk
    obtain ⟨-, pre, post, hsplit, -⟩ := ValidatorList.find_split he.find
    have hv' : EntryOk rt w.accounts v := hc.entries v (by rw [hsplit]; simp)
    have hcv := (hv'.of_active he.status).lamports
    rw [hkey] at hn h0 hlist
    refine .inr ?_
    obtain ⟨pre, v', post, heff⟩ := WithdrawStakeAccounts.Ok.effect_active hl 0 .readyForRemoval h hc he.find he.status hkey
      (by rw [← hlist, h0]; rfl)
      (by dsimp only; rw [hkey]; omega) (by dsimp only; rw [hkey]; exact hcv)
      (fun h => by simp at h) fun _ => ⟨rfl, hv⟩
    exact ⟨pre, v, v', post, heff⟩

end

end SplStakePool
