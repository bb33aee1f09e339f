import SplStakePool.Invariant.Run
import SplStakePool.Lib.Ledger
import SplStakePool.Runtime.Session

/-!
# The paths that stake is moved on

Stake is moved between a validator and the reserve directly or through an ephemeral account, into a new transient
account or one that exists. On every path the balances are those after the same moves of the ledger: the amount
from the validator and the rent from the reserve (`DecreaseValidatorStakeAccounts.process_moves`), or both from
the reserve (`IncreaseValidatorStakeAccounts.process_moves`), onto the transient account. Everything else
follows from the moves and from the record that is written.
-/

namespace SplStakePool
open Exec Machine Ledger

variable {Key : Type} [DecidableEq Key] {rt : Runtime Key} {w w' w₁ w₂ : World Key}

/-- The lamports of all accounts. -/
def balances (acc : Accounts Key) : Key → Nat := fun k => (acc k).lamports

section
variable {sys : Sysvars} {acc acc' : Accounts Key} {src dst auth vote : AccountInfo Key} {n : Nat}

theorem balances_update (k : Key) (a : Account Key) :
    balances (Function.update acc k a) = Function.update (balances acc) k a.lamports := by
  funext j
  rw [balances, Function.apply_update (fun _ => Account.lamports)]
  rfl

theorem balances_update_of_eq {k : Key} {a : Account Key} (h : a.lamports = (acc k).lamports) :
    balances (Function.update acc k a) = balances acc := by
  rw [balances_update, h]
  exact Function.update_eq_self k (balances acc)

theorem createStakeAccount_balances (hl : rt.Lawful) (h : createStakeAccount rt acc dst = .ok acc') :
    balances acc' = balances acc := by
  obtain ⟨-, -, rfl⟩ := createStakeAccount_ok hl h
  exact balances_update_of_eq rfl

theorem stakeDelegate_balances (hl : rt.Lawful) (h : stakeDelegate rt sys acc dst vote auth = .ok acc') :
    balances acc' = balances acc := by
  obtain ⟨-, _, _, _, -, -, -, -, -, -, rfl⟩ := stakeDelegate_ok hl h
  exact balances_update_of_eq rfl

theorem stakeDeactivate_balances (hl : rt.Lawful) (h : stakeDeactivate rt sys acc dst auth = .ok acc') :
    balances acc' = balances acc := by
  obtain ⟨-, _, _, -, -, rfl⟩ := stakeDeactivate_ok hl h
  exact balances_update_of_eq rfl

theorem stakeSplit_balances (hl : rt.Lawful) (h : stakeSplit rt sys acc src auth n dst = .ok acc') :
    balances acc' = move (balances acc) src.key dst.key n := by
  obtain ⟨-, -, -, -, -, _, _, _, -, -, -, rfl⟩ := stakeSplit_ok hl h
  rw [balances_update, balances_update]
  rfl

theorem stakeMerge_balances (hl : rt.Lawful) (h : stakeMerge rt sys acc src auth dst = .ok acc') :
    balances acc' = move (balances acc) src.key dst.key (balances acc src.key) := by
  obtain ⟨-, -, -, _, _, _, _, _, -, -, -, -, -, -, -, rfl⟩ := stakeMerge_ok hl h
  rw [balances_update, balances_update, move, Nat.sub_self]
  rfl

theorem stakeWithdraw_balances (hl : rt.Lawful) (h : stakeWithdraw rt sys acc src auth dst n = .ok acc')
    (hne : src.key ≠ dst.key) : balances acc' = move (balances acc) src.key dst.key n := by
  obtain ⟨-, -, _, _, -, -, -, -, a, rfl, rfl⟩ := stakeWithdraw_ok hl h
  rw [balances_update, balances_update, Account.credit_lamports, Function.update_of_ne hne.symm]
  rfl

end

/-- A state in which stake of the entry can be moved: the transient account that is used holds what is recorded,
the ephemeral account is empty, and the reserve is none of the stake accounts. -/
structure Movable (rt : Runtime Key) (w : World Key) (v : ValidatorStakeInfo Key) (seed : UInt64)
    (ephemeral : Option UInt64) : Prop where
  find : w.validatorList.find v.voteAccountAddress = some v
  reserve : ¬ rt.StakePda w.stakePool.reserveStake
  reserve_lt : (w.accounts w.stakePool.reserveStake).lamports < 2 ^ 64
  transient : (w.accounts (rt.transientStake { v with transientSeedSuffix := seed })).lamports =
    v.transientStakeLamports
  ephemeral : ∀ e ∈ ephemeral, (w.accounts (rt.ephemeralStake e)).lamports = 0

theorem Movable.none {v : ValidatorStakeInfo Key} {seed : UInt64} {ephemeral : Option UInt64}
    (h : Movable rt w v seed ephemeral) : Movable rt w v seed none :=
  ⟨h.find, h.reserve, h.reserve_lt, h.transient, fun _ he => by cases he⟩

/-- The record of an entry after lamports were taken from the validator and paid by the reserve. -/
def ValidatorStakeInfo.moved (v : ValidatorStakeInfo Key) (seed : UInt64) (taken paid : Nat) :
    ValidatorStakeInfo Key :=
  { v with
    activeStakeLamports := v.activeStakeLamports - taken
    transientStakeLamports := v.transientStakeLamports + (taken + paid)
    transientSeedSuffix := seed }

/-- What a move does to all balances and to the list. -/
structure Moves (rt : Runtime Key) (w w' : World Key) (v : ValidatorStakeInfo Key) (seed : UInt64)
    (taken paid : Nat) : Prop where
  taken_le : taken ≤ (w.accounts (rt.validatorStake v)).lamports
  paid_le : paid ≤ (w.accounts w.stakePool.reserveStake).lamports
  active_le : taken ≤ v.activeStakeLamports
  balances : balances w'.accounts =
    move (move (balances w.accounts) w.stakePool.reserveStake (rt.transientStake (v.moved seed taken paid)) paid)
      (rt.validatorStake v) (rt.transientStake (v.moved seed taken paid)) taken
  list : w'.validatorList = w.validatorList.set (v.moved seed taken paid)

/-! ## Decreases -/

namespace DecreaseValidatorStakeAccounts
variable {a : DecreaseValidatorStakeAccounts Key} {reserve info src : AccountInfo Key} {acc acc' acc₁ : Accounts Key}
  {lamports n : Nat} {seed e : UInt64} {v : ValidatorStakeInfo Key} {ephemeral : Option UInt64}

theorem parse_maybe {accounts rest : List (AccountInfo Key)}
    (h : (parse rt ephemeral true).run accounts = .ok (a, rest)) :
    (∃ reserve, a.maybeReserveStakeInfo = some reserve) ∧ a.maybeEphemeral.map Prod.fst = ephemeral := by
  have hparse : Yields (parse rt ephemeral true) fun a : DecreaseValidatorStakeAccounts Key =>
      (∃ reserve, a.maybeReserveStakeInfo = some reserve) ∧ a.maybeEphemeral.map Prod.fst = ephemeral := by
    refine .bind fun stakePool => .bind fun staker => .bind fun authority => .bind fun list => ?_
    refine .seq (Q := fun r => ∃ reserve, r = some reserve) (.map fun info => ⟨info, rfl⟩) fun reserve hr =>
      .bind fun validator => ?_
    cases ephemeral with
    | none =>
      exact .seq (Q := fun e => e.map Prod.fst = none) (.pure rfl) fun e he => .bind fun transient =>
        .bind fun clock => .bind fun history => .bind fun system => .bind fun stake => .pure ⟨hr, he⟩
    | some seed =>
      exact .seq (Q := fun e => e.map Prod.fst = some seed) (.map fun _ => rfl) fun e he => .bind fun transient =>
        .bind fun clock => .bind fun history => .bind fun system => .bind fun stake => .pure ⟨hr, he⟩
  exact hparse _ _ _ h

theorem fundEphemeralRent_balances (hl : rt.Lawful) (hr : a.maybeReserveStakeInfo = some reserve)
    (hne : reserve.key ≠ info.key) (h0 : balances acc info.key = 0)
    (h : a.fundEphemeralRent rt w acc info = .ok acc') :
    rt.rentMinimumBalance stakeSpace ≤ balances acc reserve.key ∧
      balances acc' = move (balances acc) reserve.key info.key (rt.rentMinimumBalance stakeSpace) := by
  have h0 : (acc info.key).lamports = 0 := h0
  simp only [fundEphemeralRent, hr, h0, saturatingSub, Nat.sub_zero, gt_iff_lt, if_pos hl.rent_pos, bind_eq_ok,
    ensure_eq_ok, exists_unit] at h
  exact ⟨h.1.le, stakeWithdraw_balances hl h.2.2 hne⟩

/-- Rent is paid for a new transient account, except when all of the source is taken. -/
theorem fundTransientRent_balances (hl : rt.Lawful) (hr : a.maybeReserveStakeInfo = some reserve)
    (hne : reserve.key ≠ a.transientStakeAccountInfo.key) (h0 : balances acc a.transientStakeAccountInfo.key = 0)
    (h : a.fundTransientRent rt w acc src n = .ok acc') :
    balances acc src.key = n ∧ balances acc' = balances acc ∨
      balances acc src.key ≠ n ∧ rt.rentMinimumBalance stakeSpace ≤ balances acc reserve.key ∧
        balances acc' = move (balances acc) reserve.key a.transientStakeAccountInfo.key
          (rt.rentMinimumBalance stakeSpace) := by
  have h0 : (acc a.transientStakeAccountInfo.key).lamports = 0 := h0
  simp only [fundTransientRent, hr, h0, saturatingSub, Nat.sub_zero, gt_iff_lt, if_pos hl.rent_pos] at h
  split at h <;> rename_i hn
  · simp only [bind_eq_ok, ensure_eq_ok, exists_unit] at h
    exact .inr ⟨hn, h.2.1.le, stakeWithdraw_balances hl h.2.2 hne⟩
  · exact .inl ⟨not_not.1 hn, by rw [pure_eq_ok.1 h]⟩

/-- All that is split off goes through the ephemeral account, with the rent. -/
theorem splitEphemeral_balances (hl : rt.Lawful) (hr : a.maybeReserveStakeInfo = some reserve)
    (he : a.maybeEphemeral = some (e, info)) (hne : reserve.key ≠ info.key) (h0 : balances w.accounts info.key = 0)
    (h : a.splitEphemeral rt w lamports = .ok (acc₁, src, n)) :
    src = info ∧ n = balances acc₁ info.key ∧
      rt.rentMinimumBalance stakeSpace ≤ balances w.accounts reserve.key ∧
      lamports ≤ move (balances w.accounts) reserve.key info.key (rt.rentMinimumBalance stakeSpace)
        a.validatorStakeAccountInfo.key ∧
      balances acc₁ = move (move (balances w.accounts) reserve.key info.key (rt.rentMinimumBalance stakeSpace))
        a.validatorStakeAccountInfo.key info.key lamports := by
  simp only [splitEphemeral, he, bind_eq_ok, pure_eq_ok, Prod.mk.injEq] at h
  obtain ⟨-, -, acc, hc, acc', hf, acc'', hs, acc₃, hd, rfl, rfl, rfl⟩ := h
  have hcb := createStakeAccount_balances hl hc
  obtain ⟨hle, hfb⟩ := fundEphemeralRent_balances hl hr hne (by rw [hcb, h0]) hf
  obtain ⟨-, -, -, -, hn, -⟩ := stakeSplit_ok hl hs
  have hn : lamports ≤ balances acc' a.validatorStakeAccountInfo.key := hn
  rw [hcb] at hfb hle
  rw [hfb] at hn
  refine ⟨rfl, rfl, hle, hn, ?_⟩
  rw [stakeDeactivate_balances hl hd, stakeSplit_balances hl hs, hfb]

theorem splitTransient_balances (hl : rt.Lawful) (hr : a.maybeReserveStakeInfo = some reserve)
    (hne : reserve.key ≠ a.transientStakeAccountInfo.key) (h0 : balances acc a.transientStakeAccountInfo.key = 0)
    (h : a.splitTransient rt w acc src n = .ok acc') :
    balances acc src.key = n ∧ balances acc' = move (balances acc) src.key a.transientStakeAccountInfo.key n ∨
      balances acc src.key ≠ n ∧ rt.rentMinimumBalance stakeSpace ≤ balances acc reserve.key ∧
        balances acc' = move (move (balances acc) reserve.key a.transientStakeAccountInfo.key
          (rt.rentMinimumBalance stakeSpace)) src.key a.transientStakeAccountInfo.key n := by
  simp only [splitTransient, bind_eq_ok] at h
  obtain ⟨acc₁, hc, acc₂, hf, acc₃, hs, ⟨m, s⟩, -, h⟩ := h
  have hd : balances acc' = balances acc₃ := by
    rcases ite_pure_eq_ok.1 h with ⟨-, h⟩ | ⟨-, rfl⟩
    · exact stakeDeactivate_balances hl h
    · rfl
  have hcb := createStakeAccount_balances hl hc
  rw [hd, stakeSplit_balances hl hs]
  rcases fundTransientRent_balances hl hr hne (by rw [hcb, h0]) hf with ⟨hn, hb⟩ | ⟨hn, hle, hb⟩
  · rw [hb, ← hcb]
    exact .inl ⟨hn, rfl⟩
  · rw [hb, ← hcb]
    exact .inr ⟨hn, hle, rfl⟩

/-- Whatever the path, the amount comes from the validator and the rent from the reserve. -/
theorem process_moves [Inhabited Key] (hl : rt.Lawful) (hr : a.maybeReserveStakeInfo = some reserve)
    (he : a.maybeEphemeral.map Prod.fst = ephemeral) (hm : Movable rt w v seed ephemeral)
    (hv : a.validatorStakeAccountInfo.key = rt.validatorStake v) (h : a.process rt w lamports seed = .ok w') :
    Moves rt w w' v seed lamports (rt.rentMinimumBalance stakeSpace) := by
  obtain ⟨m, s, u, acc₁, src, n, h, hcheck, hsrc, hnew⟩ := process_calls h
  have huv : u = v := by
    have hvote := validatorStake_inj hl (h.validatorKey_eq.symm.trans hv)
    have hfind := h.find
    rw [← (ValidatorList.find_split h.find).1, hvote, hm.find] at hfind
    exact (Option.some.inj hfind).symm
  subst huv
  have hrk : reserve.key = w.stakePool.reserveStake := by
    simp only [checkMaybeReserveStake, hr, StakePool.checkReserveStake, ensure_eq_ok] at hcheck
    exact hcheck
  have htk := h.transientKey_eq
  have hrt : reserve.key ≠ a.transientStakeAccountInfo.key :=
    fun hk => hm.reserve (hrk ▸ hk ▸ htk ▸ .transient _)
  have hrv : reserve.key ≠ a.validatorStakeAccountInfo.key := fun hk => hm.reserve (hrk ▸ hk ▸ hv ▸ .validator _)
  have hvt : a.validatorStakeAccountInfo.key ≠ a.transientStakeAccountInfo.key := by
    rw [hv, htk]; exact validatorStake_ne_transientStake hl _ _
  have htb : balances w.accounts a.transientStakeAccountInfo.key = u.transientStakeLamports := by
    rw [htk]; exact hm.transient
  suffices hb : rt.rentMinimumBalance stakeSpace ≤ balances w.accounts reserve.key ∧ balances w'.accounts =
      move (move (balances w.accounts) reserve.key a.transientStakeAccountInfo.key (rt.rentMinimumBalance stakeSpace))
        a.validatorStakeAccountInfo.key a.transientStakeAccountInfo.key lamports by
    have hto : (w'.accounts a.transientStakeAccountInfo.key).lamports =
        u.transientStakeLamports + (lamports + rt.rentMinimumBalance stakeSpace) := by
      rw [← htb]
      calc (w'.accounts a.transientStakeAccountInfo.key).lamports
          = balances w'.accounts a.transientStakeAccountInfo.key := rfl
        _ = _ := by rw [hb.2, move_dst, move_dst]; omega
    refine ⟨hv ▸ h.le, hrk ▸ hb.1, h.active_le, ?_, ?_⟩
    · rw [hb.2, hrk, hv, htk]
      rfl
    · rw [h.result, hto]
      rfl
  cases hme : a.maybeEphemeral with
  | none =>
    obtain ⟨rfl, rfl, rfl⟩ : w.accounts = acc₁ ∧ a.validatorStakeAccountInfo = src ∧ lamports = n := by
      simpa only [splitEphemeral, hme, pure_eq_ok, Prod.mk.injEq] using hsrc
    have h0 : u.transientStakeLamports = 0 := by
      rcases h.transient with ⟨-, -, hs, -⟩ | ⟨h0, -⟩
      · rw [hme] at hs; cases hs
      · exact h0
    -- a validator keeps its minimum, so that not all of it is taken
    have hrem := h.remaining
    have hpos := minimumStakeLamports_pos m w.sysvars.minimumDelegation
    rcases splitTransient_balances hl hr hrt (htb.trans h0) (hnew h0) with ⟨hall, -⟩ | ⟨-, hb⟩
    · have hall : (w.accounts a.validatorStakeAccountInfo.key).lamports = lamports := hall
      omega
    · exact hb
  | some p =>
    obtain ⟨e, info⟩ := p
    have hek : info.key = rt.ephemeralStake e := by
      cases h.source with
      | validator hn => rw [hn] at hme; cases hme
      | ephemeral hme' hk =>
        rw [hme] at hme'
        cases hme'
        exact rt.ephemeralStake_eq h.poolKey hk
    have he0 : balances w.accounts info.key = 0 := by
      rw [hek]
      exact hm.ephemeral e (by rw [← he, hme]; rfl)
    have hre : reserve.key ≠ info.key := fun hk => hm.reserve (hrk ▸ hk ▸ hek ▸ .ephemeral _)
    have hve : a.validatorStakeAccountInfo.key ≠ info.key := by
      rw [hv, hek]; exact validatorStake_ne_ephemeralStake hl _ _
    have het : info.key ≠ a.transientStakeAccountInfo.key := by
      rw [hek, htk]; exact (transientStake_ne_ephemeralStake hl _ _).symm
    obtain ⟨rfl, rfl, hle, -, hb₁⟩ := splitEphemeral_balances hl hr hme hre he0 hsrc
    -- all of the ephemeral account goes on, by a split or by a merge
    have hb : balances w'.accounts = move (balances acc₁) src.key a.transientStakeAccountInfo.key
        (balances acc₁ src.key) := by
      rcases h.transient with ⟨-, -, -, hmerge⟩ | ⟨h0, -⟩
      · exact stakeMerge_balances hl hmerge
      · have ht0 : balances acc₁ a.transientStakeAccountInfo.key = 0 := by
          rw [hb₁, move_of_ne hvt.symm het.symm, move_of_ne hrt.symm het.symm, htb, h0]
        rcases splitTransient_balances hl hr hrt ht0 (hnew h0) with ⟨-, hb⟩ | ⟨hne, -⟩
        · exact hb
        · exact absurd rfl hne
    rw [hb, hb₁, gather hrv hre hve hrt hvt het he0]
    exact ⟨hle, rfl⟩

end DecreaseValidatorStakeAccounts

/-! ## Increases -/

namespace IncreaseValidatorStakeAccounts
variable {a : IncreaseValidatorStakeAccounts Key} {info src : AccountInfo Key} {acc acc' acc₁ : Accounts Key}
  {lamports total : Nat} {seed : UInt64} {v : ValidatorStakeInfo Key} {ephemeral : Option UInt64}

theorem parse_maybe {accounts rest : List (AccountInfo Key)}
    (h : (parse rt ephemeral).run accounts = .ok (a, rest)) : a.maybeEphemeral.map Prod.fst = ephemeral := by
  have hparse : Yields (parse rt ephemeral) fun a : IncreaseValidatorStakeAccounts Key =>
      a.maybeEphemeral.map Prod.fst = ephemeral := by
    refine .bind fun stakePool => .bind fun staker => .bind fun authority => .bind fun list => .bind fun reserve => ?_
    cases ephemeral with
    | none =>
      -- the rent account is read only here
      exact .seq (Q := fun e => e.map Prod.fst = none) (.pure rfl) fun e he => .bind fun transient =>
        .bind fun validator => .bind fun vote => .bind fun clock => .bind fun rent => .bind fun history =>
        .bind fun config => .bind fun system => .bind fun stake => .pure he
    | some seed =>
      exact .seq (Q := fun e => e.map Prod.fst = some seed) (.map fun _ => rfl) fun e he => .bind fun transient =>
        .bind fun validator => .bind fun vote => .bind fun clock => .bind fun history => .bind fun config =>
        .bind fun system => .bind fun stake => .pure he
  exact hparse _ _ _ h

theorem newTransient_balances (hl : rt.Lawful) (h : NewTransient rt w a total acc src acc') :
    balances acc' = move (balances acc) src.key a.transientStakeAccountInfo.key total := by
  obtain ⟨create, split, -, delegate⟩ := h
  rw [← createStakeAccount_balances hl create, ← stakeSplit_balances hl split]
  rcases delegate with ⟨-, rfl⟩ | ⟨-, h⟩
  · rfl
  · exact stakeDelegate_balances hl h

/-- Whatever the path, the amount and the rent come from the reserve. -/
theorem process_moves [Inhabited Key] (hl : rt.Lawful) (he : a.maybeEphemeral.map Prod.fst = ephemeral)
    (hm : Movable rt w v seed ephemeral) (hv : a.validatorVoteAccountInfo.key = v.voteAccountAddress)
    (h : a.process rt w lamports seed = .ok w') :
    Moves rt w w' v seed 0 (lamports + rt.rentMinimumBalance stakeSpace) := by
  obtain ⟨u, acc₁, src, h⟩ := process_ok h
  have huv : u = v := by
    have hfind := h.find
    rw [hv, hm.find] at hfind
    exact (Option.some.inj hfind).symm
  subst huv
  have hrk := h.reserveKey
  have htk := h.transientKey_eq
  have hrt : a.reserveStakeAccountInfo.key ≠ a.transientStakeAccountInfo.key :=
    fun hk => hm.reserve (hrk ▸ hk ▸ htk ▸ .transient _)
  -- the reserve fits 64 bits, so that the sum of the amount and the rent is not capped
  have htotal : increaseLamports rt lamports = lamports + rt.rentMinimumBalance stakeSpace := by
    have hle := h.reserve_le
    have hlt := hm.reserve_lt
    have hpos := hl.rent_pos
    rw [hrk] at hle
    simp only [increaseLamports, saturatingAdd, maxValue] at hle ⊢
    omega
  have hle : lamports + rt.rentMinimumBalance stakeSpace ≤ (w.accounts w.stakePool.reserveStake).lamports := by
    have hle := h.reserve_le
    have hpos := hl.rent_pos
    rw [hrk, htotal] at hle
    omega
  suffices hb : balances w'.accounts = move (balances w.accounts) a.reserveStakeAccountInfo.key
      a.transientStakeAccountInfo.key (increaseLamports rt lamports) by
    refine ⟨Nat.zero_le _, hle, Nat.zero_le _, ?_, ?_⟩
    · rw [hb, htotal, hrk, htk, move_zero]
      rfl
    · rw [h.result, htotal, ValidatorStakeInfo.moved, Nat.sub_zero, Nat.zero_add]
  rcases h.source with he | ⟨hme, hk, create, split, delegate⟩
  · rcases h.transient with ⟨-, -, hs, -⟩ | ⟨-, hnew⟩
    · rw [he] at hs; cases hs
    · exact newTransient_balances hl hnew
  · rename_i e acc acc'
    have hek := rt.ephemeralStake_eq h.poolKey hk
    have he0 : balances w.accounts src.key = 0 := by
      rw [hek]
      exact hm.ephemeral e (by rw [← he, hme]; rfl)
    have hre : a.reserveStakeAccountInfo.key ≠ src.key := fun hk => hm.reserve (hrk ▸ hk ▸ hek ▸ .ephemeral _)
    have het : src.key ≠ a.transientStakeAccountInfo.key := by
      rw [hek, htk]; exact (transientStake_ne_ephemeralStake hl _ _).symm
    have hb₁ : balances acc₁ = move (balances w.accounts) a.reserveStakeAccountInfo.key src.key
        (increaseLamports rt lamports) := by
      rw [stakeDelegate_balances hl delegate, stakeSplit_balances hl split, createStakeAccount_balances hl create]
    -- the ephemeral account holds exactly the amount that goes on
    have hb : balances w'.accounts = move (balances acc₁) src.key a.transientStakeAccountInfo.key
        (increaseLamports rt lamports) := by
      rcases h.transient with ⟨-, -, -, hmerge⟩ | ⟨-, hnew⟩
      · rw [stakeMerge_balances hl hmerge, hb₁, move_dst, he0, Nat.zero_add]
      · exact newTransient_balances hl hnew
    rw [hb, hb₁, move_through hre het hrt]

end IncreaseValidatorStakeAccounts

/-! ## The paths agree -/

/-- The instruction that decreases a validator's stake with rent from the reserve, through an ephemeral account if
there is a seed for one. -/
def decreaseInstruction (lamports : Nat) (seed : UInt64) : Option UInt64 → StakePoolInstruction Key
  | none => .decreaseValidatorStakeWithReserve lamports seed
  | some e => .decreaseAdditionalValidatorStake lamports seed e

/-- The instruction that increases a validator's stake. -/
def increaseInstruction (lamports : Nat) (seed : UInt64) : Option UInt64 → StakePoolInstruction Key
  | none => .increaseValidatorStake lamports seed
  | some e => .increaseAdditionalValidatorStake lamports seed e

/-- A successful decrease of the entry. -/
def Decreases [Inhabited Key] (rt : Runtime Key) (w : World Key) (v : ValidatorStakeInfo Key) (lamports : Nat)
    (seed : UInt64) (ephemeral : Option UInt64) (w' : World Key) : Prop :=
  ∃ accounts a rest, (DecreaseValidatorStakeAccounts.parse rt ephemeral true).run accounts = .ok (a, rest) ∧
    a.validatorStakeAccountInfo.key = rt.validatorStake v ∧
    process rt w accounts (decreaseInstruction lamports seed ephemeral) = .ok w'

/-- A successful increase of the entry. -/
def Increases [Inhabited Key] (rt : Runtime Key) (w : World Key) (v : ValidatorStakeInfo Key) (lamports : Nat)
    (seed : UInt64) (ephemeral : Option UInt64) (w' : World Key) : Prop :=
  ∃ accounts a rest, (IncreaseValidatorStakeAccounts.parse rt ephemeral).run accounts = .ok (a, rest) ∧
    a.validatorVoteAccountInfo.key = v.voteAccountAddress ∧
    process rt w accounts (increaseInstruction lamports seed ephemeral) = .ok w'

/-- The same balances of all accounts, and the same list. -/
structure SameStake (w w' : World Key) : Prop where
  lamports : ∀ k, (w.accounts k).lamports = (w'.accounts k).lamports
  list : w.validatorList = w'.validatorList

/-- Lamports of the validator and of the reserve are on the transient account and in the record. -/
structure Rebalanced (rt : Runtime Key) (w w' : World Key) (v : ValidatorStakeInfo Key) (seed : UInt64)
    (ephemeral : Option UInt64) (taken paid : Nat) : Prop where
  validator : (w'.accounts (rt.validatorStake v)).lamports + taken = (w.accounts (rt.validatorStake v)).lamports
  reserve : (w'.accounts w.stakePool.reserveStake).lamports + paid = (w.accounts w.stakePool.reserveStake).lamports
  transient : (w'.accounts (rt.transientStake (v.moved seed taken paid))).lamports =
    (w.accounts (rt.transientStake (v.moved seed taken paid))).lamports + (taken + paid)
  conserved : (w'.accounts w.stakePool.reserveStake).lamports + (w'.accounts (rt.validatorStake v)).lamports +
      (w'.accounts (rt.transientStake (v.moved seed taken paid))).lamports =
    (w.accounts w.stakePool.reserveStake).lamports + (w.accounts (rt.validatorStake v)).lamports +
      (w.accounts (rt.transientStake (v.moved seed taken paid))).lamports
  ephemeral : ∀ e ∈ ephemeral, (w'.accounts (rt.ephemeralStake e)).lamports = 0
  frame : ∀ k, k ≠ w.stakePool.reserveStake → k ≠ rt.validatorStake v →
    k ≠ rt.transientStake (v.moved seed taken paid) → (w'.accounts k).lamports = (w.accounts k).lamports
  entry : w'.validatorList.find v.voteAccountAddress = some (v.moved seed taken paid)
  -- the record grows by what the reserve has paid
  record : (v.moved seed taken paid).activeStakeLamports + (v.moved seed taken paid).transientStakeLamports +
      (w'.accounts w.stakePool.reserveStake).lamports =
    v.activeStakeLamports + v.transientStakeLamports + (w.accounts w.stakePool.reserveStake).lamports

section
variable [Inhabited Key] {v : ValidatorStakeInfo Key} {seed : UInt64} {ephemeral : Option UInt64}
  {lamports taken paid : Nat}

theorem Decreases.moves (hl : rt.Lawful) (hm : Movable rt w v seed ephemeral)
    (h : Decreases rt w v lamports seed ephemeral w') :
    Moves rt w w' v seed lamports (rt.rentMinimumBalance stakeSpace) := by
  obtain ⟨accounts, a, rest, hp, hv, h⟩ := h
  obtain ⟨⟨reserve, hr⟩, he⟩ := DecreaseValidatorStakeAccounts.parse_maybe hp
  have h : processDecreaseValidatorStake rt w accounts lamports seed ephemeral true = .ok w' := by
    cases ephemeral <;> exact h
  rw [processDecreaseValidatorStake, hp] at h
  exact a.process_moves hl hr he hm hv h

theorem Increases.moves (hl : rt.Lawful) (hm : Movable rt w v seed ephemeral)
    (h : Increases rt w v lamports seed ephemeral w') :
    Moves rt w w' v seed 0 (lamports + rt.rentMinimumBalance stakeSpace) := by
  obtain ⟨accounts, a, rest, hp, hv, h⟩ := h
  have he := IncreaseValidatorStakeAccounts.parse_maybe hp
  have h : processIncreaseValidatorStake rt w accounts lamports seed ephemeral = .ok w' := by
    cases ephemeral <;> exact h
  rw [processIncreaseValidatorStake, hp] at h
  exact a.process_moves hl he hm hv h

omit [Inhabited Key] in
theorem Moves.same (h₁ : Moves rt w w₁ v seed taken paid) (h₂ : Moves rt w w₂ v seed taken paid) :
    SameStake w₁ w₂ :=
  ⟨congrFun (h₁.balances.trans h₂.balances.symm), h₁.list.trans h₂.list.symm⟩

omit [Inhabited Key] in
theorem Moves.rebalanced (hl : rt.Lawful) (hm : Movable rt w v seed ephemeral)
    (h : Moves rt w w' v seed taken paid) : Rebalanced rt w w' v seed ephemeral taken paid := by
  have hrv : w.stakePool.reserveStake ≠ rt.validatorStake v := fun hk => hm.reserve (hk ▸ .validator _)
  have hrt : w.stakePool.reserveStake ≠ rt.transientStake (v.moved seed taken paid) :=
    fun hk => hm.reserve (hk ▸ .transient _)
  have hvt := validatorStake_ne_transientStake hl v (v.moved seed taken paid)
  have hb : ∀ k, (w'.accounts k).lamports = _ := congrFun h.balances
  have hvalidator : (w'.accounts (rt.validatorStake v)).lamports + taken =
      (w.accounts (rt.validatorStake v)).lamports := by
    rw [hb, move_src hvt, move_of_ne hrv.symm hvt]
    exact Nat.sub_add_cancel h.taken_le
  have hreserve : (w'.accounts w.stakePool.reserveStake).lamports + paid =
      (w.accounts w.stakePool.reserveStake).lamports := by
    rw [hb, move_of_ne hrv hrt, move_src hrt]
    exact Nat.sub_add_cancel h.paid_le
  have htransient : (w'.accounts (rt.transientStake (v.moved seed taken paid))).lamports =
      (w.accounts (rt.transientStake (v.moved seed taken paid))).lamports + (taken + paid) := by
    rw [hb, move_dst, move_dst, Nat.add_assoc, Nat.add_comm paid]
    rfl
  have hframe : ∀ k, k ≠ w.stakePool.reserveStake → k ≠ rt.validatorStake v →
      k ≠ rt.transientStake (v.moved seed taken paid) → (w'.accounts k).lamports = (w.accounts k).lamports :=
    fun k h₁ h₂ h₃ => (hb k).trans ((move_of_ne h₂ h₃).trans (move_of_ne h₁ h₃))
  refine ⟨hvalidator, hreserve, htransient, by omega, fun e he => ?_, hframe, ?_, ?_⟩
  · rw [hframe _ (fun hk => hm.reserve (hk ▸ .ephemeral e)) (validatorStake_ne_ephemeralStake hl _ _).symm
      (transientStake_ne_ephemeralStake hl _ _).symm]
    exact hm.ephemeral e he
  · rw [h.list]
    exact ValidatorList.find_set hm.find
  · have hle := h.active_le
    simp only [ValidatorStakeInfo.moved]
    omega

/-- The paths with and without an ephemeral account end with the same balances and the same list, and each of them
moves the amount and the rent onto the transient account and into the record. -/
theorem stake_paths_agree (hl : rt.Lawful) {e : UInt64} (hm : Movable rt w v seed (some e)) (lamports : Nat) :
    (∀ w₁ w₂, Decreases rt w v lamports seed none w₁ → Decreases rt w v lamports seed (some e) w₂ →
      SameStake w₁ w₂) ∧
    (∀ w₁ w₂, Increases rt w v lamports seed none w₁ → Increases rt w v lamports seed (some e) w₂ →
      SameStake w₁ w₂) ∧
    (∀ ephemeral ∈ [none, some e], ∀ w', Decreases rt w v lamports seed ephemeral w' →
      Rebalanced rt w w' v seed ephemeral lamports (rt.rentMinimumBalance stakeSpace)) ∧
    (∀ ephemeral ∈ [none, some e], ∀ w', Increases rt w v lamports seed ephemeral w' →
      Rebalanced rt w w' v seed ephemeral 0 (lamports + rt.rentMinimumBalance stakeSpace)) := by
  have hms : ∀ ephemeral ∈ [none, some e], Movable rt w v seed ephemeral := by
    intro ephemeral he
    rcases List.mem_pair.1 he with rfl | rfl
    · exact hm.none
    · exact hm
  exact ⟨fun _ _ h₁ h₂ => (h₁.moves hl hm.none).same (h₂.moves hl hm),
    fun _ _ h₁ h₂ => (h₁.moves hl hm.none).same (h₂.moves hl hm),
    fun _ he _ h => (h.moves hl (hms _ he)).rebalanced hl (hms _ he),
    fun _ he _ h => (h.moves hl (hms _ he)).rebalanced hl (hms _ he)⟩

end

section
open Reference

/-- The steps after which the only validator of a pool has merged its transient stake. -/
def mergingSteps : List (Label Reference.Key) :=
  [depositSol 100000000 0, addValidator vote, increase vote 5000000 7, .advanceEpoch 11 false (fun _ => none),
    updateList [(vote, 7)] false, updatePool]

def merged : World Reference.Key := after (opened noFee noFee noFee) mergingSteps

/-- The entry of that validator. -/
def mergedEntry : ValidatorStakeInfo Reference.Key := (merged.validatorList.find vote).getD (entry vote 0)

/-- An instruction through the ephemeral account with the seed 3. -/
def decreaseAdditional (lamports : Nat) : Label Reference.Key :=
  .instruction [poolInfo, signer staker, authorityInfo, listInfo, reserveInfo,
    Reference.writable (Reference.validatorStake vote), Reference.writable (runtime.ephemeralStake 3),
    Reference.writable (Reference.transientStake vote 8), clock, Reference.unused, systemInfo, stakeInfo]
    (.decreaseAdditionalValidatorStake lamports 8 3)

def increaseAdditional (lamports : Nat) : Label Reference.Key :=
  .instruction [poolInfo, signer staker, authorityInfo, listInfo, reserveInfo,
    Reference.writable (runtime.ephemeralStake 3), Reference.writable (Reference.transientStake vote 8),
    Reference.writable (Reference.validatorStake vote), Reference.writable vote, clock, Reference.unused,
    Reference.unused, systemInfo, stakeInfo] (.increaseAdditionalValidatorStake lamports 8 3)

/-- The pool with transient stake that is activated in the epoch. -/
def increasing : World Reference.Key :=
  after (opened noFee noFee noFee) (mergingSteps ++ [increase vote 1000000 8])

/-- A pool whose only validator has transient stake that was taken back in the epoch of its delegation. -/
def decreasing : World Reference.Key :=
  after (opened noFee noFee noFee) [depositSol 100000000 0, .setMinimumDelegation 5000000, addValidator vote,
    .setMinimumDelegation 1, decrease vote 1000000 8]

/-- The entries of that validator with transient stake. -/
def increasingEntry : ValidatorStakeInfo Reference.Key := (increasing.validatorList.find vote).getD (entry vote 0)

def decreasingEntry : ValidatorStakeInfo Reference.Key := (decreasing.validatorList.find vote).getD (entry vote 0)

theorem movable_merged : Movable runtime merged mergedEntry 8 (some 3) where
  find := by decide +kernel
  reserve := (Inv.of_reach lawful (reachable_after (initialized_opened (by decide +kernel))
    (by decide +kernel))).core.reserve_pda
  reserve_lt := by decide +kernel
  transient := by decide +kernel
  ephemeral e he := by cases he; decide +kernel

theorem movable_increasing : Movable runtime increasing increasingEntry 8 (some 3) where
  find := by decide +kernel
  reserve := (Inv.of_reach lawful (reachable_after (initialized_opened (by decide +kernel))
    (by decide +kernel))).core.reserve_pda
  reserve_lt := by decide +kernel
  transient := by decide +kernel
  ephemeral e he := by cases he; decide +kernel

theorem movable_decreasing : Movable runtime decreasing decreasingEntry 8 (some 3) where
  find := by decide +kernel
  reserve := (Inv.of_reach lawful (reachable_after (initialized_opened (by decide +kernel))
    (by decide +kernel))).core.reserve_pda
  reserve_lt := by decide +kernel
  transient := by decide +kernel
  ephemeral e he := by cases he; decide +kernel

theorem stake_paths_agree_merged :
    SameStake (next merged (decrease vote 1000000 8)) (next merged (decreaseAdditional 1000000)) ∧
    SameStake (next merged (increase vote 1000000 8)) (next merged (increaseAdditional 1000000)) ∧
    Rebalanced runtime merged (next merged (decreaseAdditional 1000000)) mergedEntry 8 (some 3) 1000000
      (runtime.rentMinimumBalance stakeSpace) ∧
    Rebalanced runtime merged (next merged (increaseAdditional 1000000)) mergedEntry 8 (some 3) 0
      (1000000 + runtime.rentMinimumBalance stakeSpace) ∧
    Rebalanced runtime decreasing (next decreasing (decreaseAdditional 2000000)) decreasingEntry 8 (some 3) 2000000
      (runtime.rentMinimumBalance stakeSpace) ∧
    Rebalanced runtime increasing (next increasing (increaseAdditional 2000000)) increasingEntry 8 (some 3) 0
      (2000000 + runtime.rentMinimumBalance stakeSpace) := by
  have hd₁ : Decreases runtime merged mergedEntry 1000000 8 none (next merged (decrease vote 1000000 8)) :=
    ⟨_, _, _, rfl, by decide +kernel, next_process (by decide +kernel)⟩
  have hd₂ : Decreases runtime merged mergedEntry 1000000 8 (some 3) (next merged (decreaseAdditional 1000000)) :=
    ⟨_, _, _, rfl, by decide +kernel, next_process (by decide +kernel)⟩
  have hd₃ : Decreases runtime decreasing decreasingEntry 2000000 8 (some 3)
      (next decreasing (decreaseAdditional 2000000)) :=
    ⟨_, _, _, rfl, by decide +kernel, next_process (by decide +kernel)⟩
  have hi₁ : Increases runtime merged mergedEntry 1000000 8 none (next merged (increase vote 1000000 8)) :=
    ⟨_, _, _, rfl, by decide +kernel, next_process (by decide +kernel)⟩
  have hi₂ : Increases runtime merged mergedEntry 1000000 8 (some 3) (next merged (increaseAdditional 1000000)) :=
    ⟨_, _, _, rfl, by decide +kernel, next_process (by decide +kernel)⟩
  have hi₃ : Increases runtime increasing increasingEntry 2000000 8 (some 3)
      (next increasing (increaseAdditional 2000000)) :=
    ⟨_, _, _, rfl, by decide +kernel, next_process (by decide +kernel)⟩
  obtain ⟨hd, hi, hdr, hir⟩ := stake_paths_agree lawful movable_merged 1000000
  exact ⟨hd _ _ hd₁ hd₂, hi _ _ hi₁ hi₂, hdr _ (by simp) _ hd₂, hir _ (by simp) _ hi₂,
    (stake_paths_agree lawful movable_decreasing 2000000).2.2.1 _ (by simp) _ hd₃,
    (stake_paths_agree lawful movable_increasing 2000000).2.2.2 _ (by simp) _ hi₃⟩

end

end SplStakePool
