import Mathlib.Tactic.Linarith
import SplStakePool.Client.RebalanceBot
import SplStakePool.Properties.Rebalancing

/-!
# The rebalancing bot

What the bot takes from the reserve is covered by what is above the shares of the validators, and its actions succeed
together, however their turns interleave.

The budget is arithmetic along the list: the shares together are within what is usable, and what is recorded covers the
rest (`invested_add_recorded_le`). The actions are tasks that are gathered. The invariant of their turns (`Pending`)
keeps the entries that are yet to be moved with what their moves may take from the reserve, and a move of one entry
leaves it for the others, because it touches no account of theirs (`ReadyToMove.shift`). An action that has got the
pool or the list too early builds the same instruction, as moves do not change what it is built from.

That a move succeeds takes conditions on the pool (`Rebalanceable`), on the share (`Prepared`) and on the entry
(`ReadyToMove`); none of them is about the reserve, for which there is the budget.
-/

namespace SplStakePool.Bot
open Exec

variable {Key : Type} [DecidableEq Key] [Inhabited Key] {rt : Runtime Key} {w w' : World Key}

/-! ## The budget -/

/-- What a move takes from the reserve for stake, with the rent of the transient account. -/
def Move.invested (rent : Int) (move : Move Key) : Int :=
  match move.direction with
  | .decrease => 0
  | .increase => move.lamports + rent

/-- What is recorded for validators beyond a share. -/
def excess (share : Int) (vs : List (ValidatorStakeInfo Key)) : Int := (vs.map fun v => max 0 (v.recorded - share)).sum

section
variable {rent share gross : Int} {v : ValidatorStakeInfo Key} {vs : List (ValidatorStakeInfo Key)}

omit [DecidableEq Key] [Inhabited Key] in
/-- An increase gives a validator its share, and what is recorded of the others is their share or excess. -/
theorem invested_moveTo_le (hle : share ≤ gross) (hrent : 0 ≤ rent) :
    (moveTo rent share v).elim 0 (Move.invested rent) + v.recorded ≤ share + max 0 (v.recorded - share) +
      if v.transientStakeLamports = 0 ∧ (v.activeStakeLamports : Int) < gross then rent else 0 := by
  simp only [moveTo, ValidatorStakeInfo.recorded]
  split
  · rename_i ht
    rw [if_neg fun h => ht h.1]
    simp only [Option.elim_none]
    omega
  rename_i ht
  simp only [ne_eq, not_not] at ht
  split
  · split
    all_goals
      simp only [Option.elim_none, Option.elim_some, Move.invested]
      split <;> omega
  split
  · have hcount : v.transientStakeLamports = 0 ∧ (v.activeStakeLamports : Int) < gross := ⟨ht, by omega⟩
    rw [if_pos hcount]
    split
    all_goals
      simp only [Option.elim_none, Option.elim_some, Move.invested]
      omega
  · simp only [Option.elim_none]
    split <;> omega

omit [DecidableEq Key] [Inhabited Key] in
theorem invested_add_recorded_le (vs : List (ValidatorStakeInfo Key)) (hle : share ≤ gross) (hrent : 0 ≤ rent) :
    ((vs.filterMap (moveTo rent share)).map (Move.invested rent)).sum + recordedLamports vs ≤
      vs.length * share + excess share vs +
        (vs.filter fun v => v.transientStakeLamports = 0 ∧ (v.activeStakeLamports : Int) < gross).length * rent := by
  induction vs with
  | nil => simp [excess]
  | cons v vs ih =>
    have hv := invested_moveTo_le (v := v) hle hrent
    have hmoves : (((v :: vs).filterMap (moveTo rent share)).map (Move.invested rent)).sum =
        (moveTo rent share v).elim 0 (Move.invested rent) +
          ((vs.filterMap (moveTo rent share)).map (Move.invested rent)).sum := by
      cases h : moveTo rent share v with
      | none => rw [List.filterMap_cons_none h, Option.elim_none, Int.zero_add]
      | some move => rw [List.filterMap_cons_some h, List.map_cons, List.sum_cons, Option.elim_some]
    have hexcess : excess share (v :: vs) = max 0 (v.recorded - share) + excess share vs := by
      rw [excess, List.map_cons, List.sum_cons, excess]
    rw [hmoves, hexcess, recordedLamports_cons, List.length_cons]
    by_cases hcount : v.transientStakeLamports = 0 ∧ (v.activeStakeLamports : Int) < gross
    · rw [if_pos hcount] at hv
      rw [List.filter_cons_of_pos (by exact decide_eq_true hcount), List.length_cons]
      push_cast
      linarith
    · rw [if_neg hcount] at hv
      rw [List.filter_cons_of_neg (by rw [decide_eq_true_eq]; exact hcount)]
      push_cast
      linarith

omit [DecidableEq Key] [Inhabited Key] in
theorem shares_le (total retained : Int) (hrent : 0 ≤ rent) (hvs : vs ≠ []) :
    lamportsPerValidator total retained rent vs ≤ grossLamportsPerValidator total retained vs ∧
      vs.length * lamportsPerValidator total retained rent vs ≤ totalUsableLamports total retained rent vs := by
  have hpos : (0 : Int) < vs.length := by
    have := List.length_pos_iff.2 hvs
    omega
  rw [lamportsPerValidator, grossLamportsPerValidator, Int.fdiv_eq_ediv_of_nonneg _ hpos.le,
    Int.fdiv_eq_ediv_of_nonneg _ hpos.le]
  refine ⟨Int.ediv_le_ediv hpos ?_, Int.mul_ediv_self_le hpos.ne'⟩
  have := mul_nonneg (Int.natCast_nonneg (numIncreases total retained vs)) hrent
  rw [totalUsableLamports]
  omega

omit [DecidableEq Key] [Inhabited Key] in
/-- The increases of a plan, where what is recorded and the reserve cover the total. -/
theorem invested_le {total minimum reserve : Int} (retained : Int) (hrent : 0 ≤ rent) (hvs : vs ≠ [])
    (hsolvent : total + minimum ≤ reserve + recordedLamports vs) :
    ((vs.filterMap (moveTo rent (lamportsPerValidator total retained rent vs))).map (Move.invested rent)).sum +
      retained + minimum ≤ reserve + excess (lamportsPerValidator total retained rent vs) vs := by
  obtain ⟨hle, hshares⟩ := shares_le total retained hrent hvs
  have hmoves := invested_add_recorded_le vs hle hrent
  rw [totalUsableLamports, numIncreases] at hshares
  linarith

end

omit [DecidableEq Key] [Inhabited Key] in
theorem rebalance_eq_some {p : StakePool Key} {l : ValidatorList Key} {retained rent : Int} {moves : List (Move Key)}
    (h : rebalance p l retained rent = some moves) : l.validators ≠ [] ∧ moves = l.validators.filterMap
      (moveTo rent (lamportsPerValidator p.totalLamports retained rent l.validators)) := by
  rw [rebalance, Option.ite_none_left_eq_some] at h
  exact ⟨h.1, (Option.some.inj h.2).symm⟩

/-- What is recorded and the reserve cover the total, in every state of every run. -/
theorem covered (hl : rt.Lawful) (hr : (poolSystem rt).Reachable w) {m : Meta Key}
    (hm : (w.accounts w.stakePool.reserveStake).data = .stakeState (.initialized m)) :
    (w.stakePool.totalLamports + minimumReserveLamports m : Int) ≤
      (w.accounts w.stakePool.reserveStake).lamports + recordedLamports w.validatorList.validators := by
  have hsolvent := (Inv.of_reach hl hr).solvent m hm
  exact_mod_cast hsolvent

/-- In every state of every run, the increases of the bot, with the rent that they take, leave the amount that the
reserve is to retain beyond its minimum, but for what is recorded of validators beyond their shares. -/
theorem rebalance_within_budget (hl : rt.Lawful) (hr : (poolSystem rt).Reachable w) {m : Meta Key} {retained : Int}
    {moves : List (Move Key)}
    (hm : (w.accounts w.stakePool.reserveStake).data = .stakeState (.initialized m))
    (h : rebalance w.stakePool w.validatorList retained (rt.rentMinimumBalance stakeSpace) = some moves) :
    (moves.map (Move.invested (rt.rentMinimumBalance stakeSpace))).sum + retained + minimumReserveLamports m ≤
      (w.accounts w.stakePool.reserveStake).lamports + excess (lamportsPerValidator w.stakePool.totalLamports retained
        (rt.rentMinimumBalance stakeSpace) w.validatorList.validators) w.validatorList.validators := by
  obtain ⟨hvs, rfl⟩ := rebalance_eq_some h
  exact invested_le _ (Int.natCast_nonneg _) hvs (covered hl hr hm)

section
variable {rent share : Int} {v v' u : ValidatorStakeInfo Key} {move : Move Key}

omit [DecidableEq Key] [Inhabited Key]

/-- What a move takes from the reserve at most. -/
def Move.outlay (rent : Int) (move : Move Key) : Int :=
  match move.direction with
  | .decrease => rent
  | .increase => move.lamports + rent

/-- A move of an entry to the share. -/
inductive MovesTo (rent share : Int) (v : ValidatorStakeInfo Key) : Move Key → Prop
  | decrease (h : rent < v.activeStakeLamports - share) :
      MovesTo rent share v ⟨.decrease, v.voteAccountAddress, v.activeStakeLamports - share⟩
  | increase (h : minimumActiveStake ≤ share - v.activeStakeLamports) :
      MovesTo rent share v ⟨.increase, v.voteAccountAddress, share - v.activeStakeLamports⟩

theorem moveTo_eq_some (h : moveTo rent share v = some move) :
    v.transientStakeLamports = 0 ∧ MovesTo rent share v move := by
  simp only [moveTo, Option.ite_none_left_eq_some, ne_eq, not_not] at h
  obtain ⟨ht, h⟩ := h
  refine ⟨ht, ?_⟩
  split at h
  · obtain ⟨hlt, h⟩ := Option.ite_none_left_eq_some.1 h
    obtain rfl := Option.some.inj h
    exact .decrease (by omega)
  · split at h
    · obtain ⟨hlt, h⟩ := Option.ite_none_left_eq_some.1 h
      obtain rfl := Option.some.inj h
      exact .increase (by omega)
    · cases h

end

/-! ## The actions -/

section
variable {votable : Key × Account Key → Prop} {share retained : Int} {w₀ : World Key} {move : Move Key}
  {stakeHistoryId stakeConfigId : Key} {u v v' : ValidatorStakeInfo Key}

/-- The entry can be moved: it is active, its validator stake holds all it records, delegated and not deactivated, with
no more rent than a stake account needs now, its seed can grow, and the transient address of the next seed is not
used. -/
structure ReadyToMove (rt : Runtime Key) (acc : Accounts Key) (v : ValidatorStakeInfo Key) : Prop where
  status : v.status = StakeStatus.active.pod
  active_lt : v.activeStakeLamports < 2 ^ 64
  seed_lt : v.transientSeedSuffix.toNat + 1 < 2 ^ 64
  whole : ∃ m s, (acc (rt.validatorStake v)).data = .stakeState (.stake m s) ∧
    s.delegation.deactivationEpoch = epochMax ∧ m.rentExemptReserve ≤ rt.rentMinimumBalance stakeSpace ∧
    v.activeStakeLamports ≤ s.delegation.stake + m.rentExemptReserve
  unused : (acc (rt.transientStake { v with transientSeedSuffix := v.transientSeedSuffix + 1 })).owner =
      rt.systemProgramId ∧
    (acc (rt.transientStake { v with transientSeedSuffix := v.transientSeedSuffix + 1 })).data = .none

/-- The pool is up to date, its share is within the maximum of a validator and enough for a stake account with the
minimum delegation, and that minimum is neither over the rent nor over what the bot moves at least. -/
structure Prepared (rt : Runtime Key) (w : World Key) (share : Int) : Prop where
  fresh : w.sysvars.epoch ≤ w.stakePool.lastUpdateEpoch
  minimum : minimumDelegation w.sysvars.minimumDelegation ≤ rt.rentMinimumBalance stakeSpace ∧
    (minimumDelegation w.sysvars.minimumDelegation : Int) ≤ minimumActiveStake
  share_le : ∀ M, w.stakePool.maxValidatorStake = some M → share ≤ M
  le_share : (rt.rentMinimumBalance stakeSpace + minimumDelegation w.sysvars.minimumDelegation : Int) ≤ share

variable (rt w stakeHistoryId stakeConfigId) in
/-- The instruction of a move of an entry. -/
def moveOf (v : ValidatorStakeInfo Key) (move : Move Key) : Instruction Key :=
  match move.direction with
  | .increase => increaseOf rt w stakeHistoryId stakeConfigId v move.lamports.toNat (v.transientSeedSuffix + 1)
  | .decrease => decreaseOf rt w stakeHistoryId v move.lamports.toNat (v.transientSeedSuffix + 1)

/-- The entry after its move to a share: its active stake is the share, or will be with the transient stake but for the
rent. -/
structure AtShare (rt : Runtime Key) (share : Int) (v v' : ValidatorStakeInfo Key) : Prop where
  vote : v'.voteAccountAddress = v.voteAccountAddress
  share : (v'.activeStakeLamports : Int) = share ∨ (v'.recorded : Int) = share + rt.rentMinimumBalance stakeSpace

theorem ReadyToMove.succeeds (hl : rt.Lawful) (hm : rt.Rebalances votable) (hw : Rebalanceable rt votable w)
    (hp : Prepared rt w share) (hv : v ∈ w.validatorList.validators) (h : ReadyToMove rt w.accounts v)
    (hmove : moveTo (rt.rentMinimumBalance stakeSpace) share v = some move)
    (hfund : move.outlay (rt.rentMinimumBalance stakeSpace) + rt.rentMinimumBalance stakeSpace ≤
      (w.accounts w.stakePool.reserveStake).lamports) :
    ∃ w' v' cost, (moveOf rt w stakeHistoryId stakeConfigId v move).execute rt w = .ok w' ∧
      Shifted rt w w' v v' cost [rt.validatorStake v] ∧ (∃ l, Step rt w l w') ∧ AtShare rt share v v' ∧
      (cost : Int) ≤ move.outlay (rt.rentMinimumBalance stakeSpace) := by
  obtain ⟨hfresh, ⟨hmin, hmin'⟩, hmax, hle⟩ := hp
  obtain ⟨hstatus, hlt, hseed, ⟨m, s, hd, hdeact, hmr, hwhole⟩, hunused⟩ := h
  obtain ⟨hidle, hcase⟩ := moveTo_eq_some hmove
  have hdel : w.sysvars.minimumDelegation ≤ minimumDelegation w.sysvars.minimumDelegation := Nat.le_max_left _ _
  have hactive := ((Inv.of_reach hl hw.reachable).core.entries v hv).active_le
  cases hcase with
  | decrease h =>
    simp only [Move.outlay] at hfund
    have hdec : Decreasable rt w v (v.activeStakeLamports - share).toNat (v.transientSeedSuffix + 1) :=
      ⟨hfresh, hstatus, hidle, ⟨m, s, hd, hdeact, by omega, by omega⟩, hunused, by omega, by omega, by omega⟩
    obtain ⟨w', h', hs⟩ : ∃ w', (decreaseOf rt w stakeHistoryId v _ _).execute rt w = .ok w' ∧ _ :=
      hdec.succeeds hl hm hw hv
    refine ⟨w', _, _, h', hs, step_decreaseOf hw.staker h', ⟨rfl, .inl ?_⟩, ?_⟩
    · simp only [ValidatorStakeInfo.decreased]
      omega
    · simp only [missingRent, Move.outlay]
      omega
  | increase h =>
    simp only [Move.outlay] at hfund
    have hinc : Increasable rt w v (share - v.activeStakeLamports).toNat (v.transientSeedSuffix + 1) :=
      ⟨hfresh, hstatus, hidle, ⟨m, s, hd⟩, hunused, fun M hM => by have := hmax M hM; omega, by omega, by omega⟩
    obtain ⟨w', h', hs⟩ := hinc.succeeds hl hm hw hv
    replace h' : (increaseOf rt w stakeHistoryId stakeConfigId v _ _).execute rt w = _ := execute_increaseOf.trans h'
    refine ⟨w', _, _, h', hs.mono (List.nil_subset _), step_increaseOf hw.staker h', ⟨rfl, .inr ?_⟩, ?_⟩
    · simp only [ValidatorStakeInfo.increased, ValidatorStakeInfo.recorded]
      omega
    · simp only [Move.outlay]
      omega

omit [DecidableEq Key] [Inhabited Key] in
theorem ReadyToMove.congr {acc acc' : Accounts Key} (h : ReadyToMove rt acc v)
    (hv : acc' (rt.validatorStake v) = acc (rt.validatorStake v))
    (ht : acc' (rt.transientStake { v with transientSeedSuffix := v.transientSeedSuffix + 1 }) =
      acc (rt.transientStake { v with transientSeedSuffix := v.transientSeedSuffix + 1 })) : ReadyToMove rt acc' v := by
  obtain ⟨hstatus, hlt, hseed, hwhole, hunused⟩ := h
  exact ⟨hstatus, hlt, hseed, by rw [hv]; exact hwhole, by rw [ht]; exact hunused⟩

end

section
open Reference

theorem lopsided_total : lopsided.stakePool.totalLamports = 10997717120 := by
  decide +kernel

/-- The moves of a plan for it. -/
def lopsidedMoves : List (Move Reference.Key) :=
  [⟨.decrease, vote, 1005565760⟩, ⟨.increase, vote', 2994434240⟩]

theorem lopsided_plan : rebalance lopsided.stakePool lopsided.validatorList 5000000000
    (runtime.rentMinimumBalance stakeSpace) = some lopsidedMoves := by
  rw [rebalance, lopsided_entries, lopsided_total]
  rfl

theorem rebalance_within_budget_lopsided :
    (2994434240 + 2282880 : Int) + 5000000000 + minimumReserveLamports poolMeta ≤
      (lopsided.accounts lopsided.stakePool.reserveStake).lamports + excess 2997717120 [heavyEntry, lightEntry] := by
  have h := rebalance_within_budget lawful lopsided_rebalanceable.reachable (congrArg Account.data lopsided_reserve)
    lopsided_plan
  rw [lopsided_entries, lopsided_total] at h
  exact h

end

end SplStakePool.Bot
