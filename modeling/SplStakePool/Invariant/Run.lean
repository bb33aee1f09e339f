import SplStakePool.Effect.Process

/-!
# The invariant of runs

`Inv` holds of a pool right after `Initialize` and is kept by every instruction and by every step of the
environment, so it holds in every state of a run.

Beside `Core` it has the solvency of the pool: the total and the minimum of the reserve are covered by the reserve and
the records. An instruction keeps it by its effect (`Effect.inv`), of which there are six; an update of the list, which
is a run of refreshes, loses nothing that was recorded. The environment keeps it because accounts only evolve.
-/

namespace SplStakePool
open Exec Machine Function System

variable {Key : Type} [DecidableEq Key] [Inhabited Key] {rt : Runtime Key} {w w' : World Key}
  {accounts : List (AccountInfo Key)} {out : Option Key} {l : Label Key}

/-- The reserve beyond its minimum, with what the entries record, covers the total. -/
def Solvent (p : StakePool Key) (vs : List (ValidatorStakeInfo Key)) (acc : Accounts Key) : Prop :=
  ∀ m, (acc p.reserveStake).data = .stakeState (.initialized m) →
    p.totalLamports + minimumReserveLamports m ≤ (acc p.reserveStake).lamports + recordedLamports vs

/-- The invariant of an initialized pool. -/
structure Inv (rt : Runtime Key) (w : World Key) : Prop where
  pool : PoolOk rt w.stakePool
  core : Core rt w.stakePool.reserveStake w.validatorList.validators w.accounts
  solvent : Solvent w.stakePool w.validatorList.validators w.accounts

/-! ## Instructions -/

omit [DecidableEq Key] [Inhabited Key] in
theorem ValidatorStakeInfo.recorded_of_removed {v : ValidatorStakeInfo Key} (h : v.isRemoved) :
    v.recorded = 0 := by
  simp only [isRemoved, Bool.decide_and, Bool.and_eq_true, decide_eq_true_eq] at h
  simp only [recorded]
  omega

omit [DecidableEq Key] [Inhabited Key] in
theorem recordedLamports_filter (vs : List (ValidatorStakeInfo Key)) :
    recordedLamports (vs.filter fun v => ¬ v.isRemoved) = recordedLamports vs := by
  induction vs with
  | nil => rfl
  | cons v vs ih =>
    by_cases hv : v.isRemoved
    · rw [List.filter_cons_of_neg (by simp [hv]), ih, recordedLamports_cons,
        ValidatorStakeInfo.recorded_of_removed hv, Nat.zero_add]
    · rw [List.filter_cons_of_pos (by simp [hv]), recordedLamports_cons, recordedLamports_cons, ih]

omit [DecidableEq Key] in
/-- A run of refreshes keeps the core invariant, and loses nothing. -/
theorem Refresh.run (hl : rt.Lawful) {reserve : Key} {epoch : Nat}
    {s s' : Accounts Key × List (ValidatorStakeInfo Key)}
    (h : Relation.ReflTransGen (Refresh rt reserve epoch) s s') (hc : Core rt reserve s.2 s.1) :
    Core rt reserve s'.2 s'.1 ∧ ReserveStep rt (s.1 reserve) (s'.1 reserve) ∧
      (s.1 reserve).lamports + recordedLamports s.2 ≤ (s'.1 reserve).lamports + recordedLamports s'.2 := by
  induction h with
  | refl => exact ⟨hc, .refl hc.reserve_ok, le_rfl⟩
  | tail _ h ih =>
    obtain ⟨hc', hr, hle⟩ := ih
    cases h with
    | mk pre post h _ =>
      refine ⟨hc'.entry hl h.toEntryStep, hr.trans h.reserve_step, ?_⟩
      have hcov := h.covered
      simp only [recordedLamports_append, recordedLamports_cons] at hle ⊢
      omega

omit [DecidableEq Key] [Inhabited Key] in
theorem Solvent.mono {p p' : StakePool Key} {vs vs' : List (ValidatorStakeInfo Key)}
    {acc acc' : Accounts Key} (h : Solvent p vs acc) (hr : p'.reserveStake = p.reserveStake)
    (hd : (acc' p.reserveStake).data = (acc p.reserveStake).data)
    (hle : p'.totalLamports + (acc p.reserveStake).lamports + recordedLamports vs ≤
      p.totalLamports + (acc' p.reserveStake).lamports + recordedLamports vs') : Solvent p' vs' acc' := by
  intro m hm
  rw [hr] at hm ⊢
  have := h m (hd ▸ hm)
  omega

/-- Appending an entry that was funded from the reserve. -/
theorem PushEffect.core {v : ValidatorStakeInfo Key} (h : PushEffect rt w w' v)
    (hc : Core rt w.stakePool.reserveStake w.validatorList.validators w.accounts) :
    Core rt w.stakePool.reserveStake (w.validatorList.validators ++ [v]) w'.accounts := by
  have hland := h.landed
  have hlam := hland.dst_lamports
  have hother : ∀ k, rt.StakePda k → k ≠ rt.validatorStake v → w'.accounts k = w.accounts k := by
    intro k hk hkv
    exact hland.frame k (by simp only [List.mem_cons, List.not_mem_nil, or_false, not_or]; exact
      ⟨fun he => hc.reserve_pda (he ▸ hk), hkv⟩)
  refine (hc.evolve h.reserve_step (fun k _ => hland.pda k) fun k hk => ?_).push h.vote ?_
  · by_cases hkv : k = rt.validatorStake v
    · subst hkv; exact .of_not h.unlisted
    · rw [hother k hk hkv]; exact .refl _
  · refine ⟨by omega, by rw [h.transient]; exact Nat.zero_le _, fun _ => hland.controlled, fun h0 => ?_,
      .active, h.status, hland.controlled⟩
    rw [h.transient] at h0
    exact absurd h0 (Nat.lt_irrefl 0)

omit [Inhabited Key] in
theorem UpdateStakePoolBalanceAccounts.Ok.only (hl : rt.Lawful) {a : UpdateStakePoolBalanceAccounts Key}
    {m : Meta Key} {fee : Nat} {mint : Mint Key} (h : a.Ok rt w w' m fee mint) :
    OnlyTokens w.accounts w'.accounts := by
  rcases h.mintTo with ⟨-, h⟩ | ⟨-, h⟩
  · exact tokenMintTo_only hl h
  · rw [h]; exact .refl _

theorem Effect.inv (hl : rt.Lawful) (hi : Inv rt w) (hs : Statics w w') (h : Effect rt out w w') :
    Inv rt w' := by
  have hc := hi.core
  have hsol := hi.solvent
  have hp : PoolOk rt w'.stakePool := by
    obtain ⟨hv, hb, hli, hlo, hr⟩ := hi.pool
    refine ⟨?_, hs.bump.trans hb, hs.list.trans hli, hs.lockup.trans hlo, by rw [hs.reserve]; exact hr⟩
    simp only [StakePool.isValid, hs.accountType] at hv ⊢
    exact hv
  refine ⟨hp, ?_, ?_⟩
  all_goals cases h
  -- the core
  case refine_1.evolve h =>
    rw [hs.reserve, h.list]
    exact hc.evolve h.reserve_step h.pda h.evolves
  case refine_1.entry h =>
    rw [h.list] at hc
    rw [hs.reserve, h.list']
    exact hc.entry hl h.moved.toEntryStep
  case refine_1.push h =>
    rw [hs.reserve, h.list']
    exact h.core hc
  case refine_1.refresh h hw =>
    rw [hs.reserve, hw]
    exact (Refresh.run hl h hc).1
  case refine_1.cleanup h ha ht =>
    rw [hs.reserve, h, ha]
    exact hc.sublist List.filter_sublist
  case refine_1.balance h =>
    have hres := (h.only hl).eq hc.reserve_ok.controlled.notToken
    rw [hs.reserve, congrArg World.validatorList h.result]
    refine hc.evolve (by rw [hres]; exact .refl hc.reserve_ok) (fun k _ => (h.only hl).pda k) fun k hk => ?_
    rw [(h.only hl).eq (hc.pdas k hk).notToken]
    exact .refl _
  -- the total
  case refine_2.evolve h =>
    have hcov := h.covered
    refine hsol.mono hs.reserve h.reserve_step.data ?_
    rw [h.list]
    omega
  case refine_2.entry h =>
    have hcov := h.covered
    refine hsol.mono hs.reserve h.moved.reserve_step.data ?_
    rw [h.list, h.list']
    simp only [recordedLamports_append, recordedLamports_cons]
    omega
  case refine_2.push h =>
    have hlam := h.landed.src_lamports
    have ht := h.transient
    refine hsol.mono hs.reserve h.reserve_step.data ?_
    rw [h.list', h.total]
    simp only [recordedLamports_append, recordedLamports_cons, recordedLamports_nil,
      ValidatorStakeInfo.recorded]
    omega
  case refine_2.refresh h hw =>
    obtain ⟨-, hr, hle⟩ := Refresh.run hl h hc
    refine hsol.mono hs.reserve hr.data ?_
    rw [congrArg World.validatorList hw, congrArg World.stakePool hw]
    dsimp only at hle ⊢
    omega
  case refine_2.cleanup h ha ht =>
    refine hsol.mono hs.reserve (by rw [ha]) ?_
    rw [h, ha, ht, recordedLamports_filter]
  case refine_2.balance h =>
    have hres := (h.only hl).eq hc.reserve_ok.controlled.notToken
    intro m' hm'
    rw [hs.reserve, hres] at hm' ⊢
    have hm := h.reserve
    have hle := h.reserve_le
    rw [h.reserveKey] at hm hle
    rw [hm] at hm'
    cases hm'
    rw [h.total, h.reserveKey, congrArg World.validatorList h.result]
    dsimp only
    omega

/-! ## The environment -/

/-- What a step of the environment has done. -/
structure Ambient (rt : Runtime Key) (w w' : World Key) : Prop where
  pool : w'.stakePool = w.stakePool
  list : w'.validatorList = w.validatorList
  poolLen : w'.stakePoolDataLen = w.stakePoolDataLen
  listLen : w'.validatorListDataLen = w.validatorListDataLen
  epoch : w.sysvars.epoch ≤ w'.sysvars.epoch
  evolves : AllEvolve rt w.accounts w'.accounts
  pda : ∀ k, rt.StakePda k → PdaOk rt (w.accounts k) → PdaOk rt (w'.accounts k)

theorem Ambient.setAccount {k : Key} {a : Account Key} (he : Evolves rt (w.accounts k) a)
    (hp : rt.StakePda k → PdaOk rt (w.accounts k) → PdaOk rt a) : Ambient rt w (w.setAccount k a) := by
  refine ⟨rfl, rfl, rfl, rfl, le_rfl, (AllEvolve.refl _).update he, fun j hj hpj => ?_⟩
  by_cases hjk : j = k
  · subst hjk
    simp only [World.setAccount, update_self]
    exact hp hj hpj
  · simp only [World.setAccount, update_of_ne hjk]
    exact hpj

theorem EnvStep.ambient (h : EnvStep rt w l w') : Ambient rt w w' := by
  cases h with
  | donate k n => exact .setAccount (.credit _ _) fun _ h => h.credit n
  | reward k n credits m s hd ho hr ha hpos =>
    refine .setAccount (fun hc => ?_) fun _ h => .stake ((h.rentExempt hd).of_meta rfl)
    exact ⟨ho.symm, Nat.le_add_right _ _, _, _, hd, rfl, rfl, fun h => by cases h⟩
  | advanceEpoch epoch active history h hlt =>
    exact ⟨rfl, rfl, rfl, rfl, h.le, .refl _, fun _ _ => id⟩
  | completeRewards => exact ⟨rfl, rfl, rfl, rfl, le_rfl, .refl _, fun _ _ => id⟩
  | setMinimumDelegation n h => exact ⟨rfl, rfl, rfl, rfl, le_rfl, .refl _, fun _ _ => id⟩
  | deactivateDelinquent k m s hd hde =>
    refine .setAccount (fun hc => ?_) fun _ h => .inr ⟨h.owner hd, _, rfl, (h.rentExempt hd).of_meta rfl⟩
    exact ⟨rfl, le_rfl, _, _, hd, rfl, rfl, fun h => by cases h⟩
  | forceDestake k m s hd =>
    refine .setAccount (fun hc => ?_) fun _ h => .inr ⟨h.owner hd, _, rfl, (h.rentExempt hd).of_meta rfl⟩
    exact ⟨rfl, le_rfl, _, _, hd, rfl, rfl, fun h => by cases h⟩
  | foreign k a hc hm hp => exact .setAccount (.of_not hc) fun hk _ => (hp hk).2.2.2.2
  | purge k h0 hm =>
    exact .setAccount (.of_not fun hc => by have := hc.lamports; omega) fun _ _ => .inl ⟨rfl, rfl⟩
  | burn k n t m ht hm hn hs =>
    have h₁ : Ambient rt w (w.setAccount k
        { w.accounts k with data := .token { t with amount := t.amount - n } }) :=
      .setAccount (.of_not (not_controlled_of_token ht)) fun _ h => by
        have := h.notToken.2
        simp [Account.token?, ht] at this
    have hne : w.stakePool.poolMint ≠ k := fun he => by rw [he, ht] at hm; cases hm
    have hsame : (w.setAccount k { w.accounts k with
        data := .token { t with amount := t.amount - n } }).accounts w.stakePool.poolMint =
        w.accounts w.stakePool.poolMint := by
      simp only [World.setAccount, update_of_ne hne]
    have h₂ : Ambient rt (w.setAccount k { w.accounts k with
        data := .token { t with amount := t.amount - n } }) (World.setAccount (w.setAccount k { w.accounts k with
        data := .token { t with amount := t.amount - n } }) w.stakePool.poolMint
          { w.accounts w.stakePool.poolMint with data := .mint { m with supply := m.supply - n } }) := by
      refine Ambient.setAccount (.of_not (by rw [hsame]; exact not_controlled_of_mint hm)) fun _ h => ?_
      rw [hsame] at h
      have := h.notToken.1
      simp [Account.mint?, hm] at this
    exact ⟨rfl, rfl, rfl, rfl, le_rfl, h₁.evolves.trans h₂.evolves,
      fun k hk hp => h₂.pda k hk (h₁.pda k hk hp)⟩

omit [DecidableEq Key] in
theorem Ambient.inv (hi : Inv rt w) (h : Ambient rt w w') : Inv rt w' := by
  have hr := hi.core.reserve_ok.evolves (h.evolves w.stakePool.reserveStake)
  refine ⟨by rw [h.pool]; exact hi.pool, ?_, ?_⟩
  · rw [h.pool, h.list]
    exact hi.core.evolve hr.1 h.pda fun k _ => h.evolves k
  · rw [h.list]
    refine hi.solvent.mono (by rw [h.pool]) hr.1.data ?_
    have := hr.2
    rw [h.pool]
    omega

/-! ## Runs -/

omit [DecidableEq Key] [Inhabited Key] in
theorem minimumReserveLamports_le (m : Meta Key) : minimumReserveLamports m ≤ m.rentExemptReserve := by
  simp only [minimumReserveLamports, minimumReserve, saturatingAdd, maxValue]
  omega

omit [DecidableEq Key] [Inhabited Key] in
theorem minimumReserveLamports_of_lt {m : Meta Key} (h : m.rentExemptReserve < 2 ^ 64) :
    minimumReserveLamports m = m.rentExemptReserve := by
  simp only [minimumReserveLamports, minimumReserve, saturatingAdd, maxValue]
  omega

theorem InitializeAccounts.Ok.only (hl : rt.Lawful) {a : InitializeAccounts Key} {fee withdrawalFee depositFee : Fee}
    {referralFee : UInt8} {maxValidators : Nat} {m : Meta Key} {mint : Mint Key} {total : Nat}
    (h : a.Ok rt w w' fee withdrawalFee depositFee referralFee maxValidators m mint total) :
    OnlyTokens w.accounts w'.accounts := by
  rcases h.mintTo with ⟨-, h⟩ | ⟨-, h⟩
  · exact tokenMintTo_only hl h
  · rw [h]; exact .refl _

theorem Initialized.inv (hl : rt.Lawful) (h : Initialized rt w) : Inv rt w := by
  obtain ⟨w₀, accounts, _, _, _, _, _, hg, h⟩ := h
  obtain ⟨a, m, mint, total, h⟩ := processInitialize_ok hl h
  have hrent := hg.rent _ _ h.reserve m rfl
  have hlt := hg.rent_lt _ _ m h.reserve rfl
  have hle := h.reserve_le
  rw [minimumReserveLamports_of_lt hlt] at hle
  have hres : Reserve rt (w₀.accounts a.reserveStakeInfo.key) :=
    ⟨h.reserveOwner, m, h.reserve, ⟨h.authorized, h.lockup, hrent⟩, hle⟩
  have honly := h.only hl
  have hsame := honly.eq hres.controlled.notToken
  have hpdas : ∀ k, rt.StakePda k → PdaOk rt (w₀.accounts k) := fun k hk => .inl (hg.pdas k hk)
  obtain ⟨authorities, hw⟩ := h.result
  have hpool := congrArg World.stakePool hw
  have hlist := congrArg World.validatorList hw
  refine ⟨?_, ?_, ?_⟩
  · rw [hpool]
    exact ⟨rfl, rfl, h.listKey, rfl, h.reserve_ne⟩
  · rw [hpool, hlist]
    refine ⟨by rw [StakePool.initialized]; dsimp only; rw [hsame]; exact hres, fun hk => ?_, fun k hk => ?_,
      List.nodup_nil, by simp⟩
    · have := (hg.pdas _ hk).2
      rw [StakePool.initialized] at this
      dsimp only at this
      rw [h.reserve] at this
      cases this
    · rw [honly.eq (hpdas k hk).notToken]
      exact hpdas k hk
  · rw [hpool, hlist]
    intro m' hm'
    rw [StakePool.initialized] at hm' ⊢
    dsimp only at hm' ⊢
    rw [hsame] at hm' ⊢
    rw [h.reserve] at hm'
    cases hm'
    have := h.total_eq
    have := h.reserve_le
    rw [recordedLamports_nil]
    omega

theorem Step.inv (hl : rt.Lawful) (hi : Inv rt w) (h : Step rt w l w') : Inv rt w' := by
  cases h with
  | instruction hs h =>
    have he := process_executed (not_isInitialize hl hi.pool.valid h) h
    exact (he.effect hl hs hi.pool hi.core).inv hl hi he.statics
  | env h => exact h.ambient.inv hi

theorem Inv.of_reach (hl : rt.Lawful) {ok : World Key → Label Key → Prop}
    (h : (poolSystem rt).Reach ok w) : Inv rt w :=
  h.invariant (fun _ h => h.inv hl) fun _ _ _ _ hi _ hs => hs.inv hl hi

end SplStakePool
