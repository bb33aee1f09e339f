import SplStakePool.Invariant.Run
import SplStakePool.Runtime.Session

/-!
# Solvency

What the pool counts is there: the total is backed by the reserve beyond its minimum and the records of
the entries, and each record by the account it is about. The reserve keeps its minimum.

All of it is read off the invariant of runs. An update of the pool makes the total exact, whatever it was before,
because it is computed from the reserve and the records.
-/

namespace SplStakePool
open Exec Machine

variable {Key : Type} [DecidableEq Key] [Inhabited Key] {rt : Runtime Key} {w : World Key}

/-- In every state of every run the total is covered, and exactly so after an update. -/
theorem solvency (hl : rt.Lawful) (h : (poolSystem rt).Reachable w) :
    ∃ m, (w.accounts w.stakePool.reserveStake).data = .stakeState (.initialized m) ∧
      w.stakePool.totalLamports ≤
        ((w.accounts w.stakePool.reserveStake).lamports - minimumReserveLamports m) +
          recordedLamports w.validatorList.validators ∧
      (∀ v ∈ w.validatorList.validators,
        v.activeStakeLamports ≤ (w.accounts (rt.validatorStake v)).lamports ∧
        v.transientStakeLamports ≤ (w.accounts (rt.transientStake v)).lamports) ∧
      ∀ accounts w', process rt w accounts .updateStakePoolBalance = .ok w' →
        (w'.accounts w'.stakePool.reserveStake).data = .stakeState (.initialized m) ∧
        w'.stakePool.totalLamports =
          ((w'.accounts w'.stakePool.reserveStake).lamports - minimumReserveLamports m) +
            recordedLamports w'.validatorList.validators := by
  have hi := Inv.of_reach hl h
  obtain ⟨m, hm, hp, hle⟩ := hi.core.reserve_ok.state
  have hmin := minimumReserveLamports_le m
  refine ⟨m, hm, ?_, fun v hv => ?_, fun accounts w' hw => ?_⟩
  · have := hi.solvent m hm
    omega
  · have he := hi.core.entries v hv
    exact ⟨he.active_le, he.transient_le⟩
  · obtain ⟨a, -, -, m', fee, mint, hu⟩ := processUpdateStakePoolBalance_ok hw
    have hres := (hu.only hl).eq hi.core.reserve_ok.controlled.notToken
    have hreserve : w'.stakePool.reserveStake = w.stakePool.reserveStake :=
      (process_executed (not_isInitialize hl hi.pool.valid hw) hw).statics.reserve
    have htotal := hu.total
    have hm' := hu.reserve
    rw [hu.reserveKey] at htotal hm'
    rw [hm] at hm'
    cases hm'
    rw [hreserve, hres, htotal, congrArg World.validatorList hu.result]
    exact ⟨hm, rfl⟩

open Reference in
theorem solvency_staked :
    ∃ m, (staked.accounts staked.stakePool.reserveStake).data = .stakeState (.initialized m) ∧
      staked.stakePool.totalLamports ≤
        ((staked.accounts staked.stakePool.reserveStake).lamports - minimumReserveLamports m) +
          recordedLamports staked.validatorList.validators := by
  obtain ⟨m, hm, hle, -⟩ := solvency lawful
    (reachable_after (initialized_opened (by decide +kernel)) (by decide +kernel) :
      (poolSystem runtime).Reachable staked)
  exact ⟨m, hm, hle⟩

omit [DecidableEq Key] in
theorem Reserve.lamportsAvailable {a : Account Key} (h : Reserve rt a) :
    ∃ m, a.data = .stakeState (.initialized m) ∧ minimumReserveLamports m ≤ a.lamports ∧
      reserveLamportsAvailable a = .ok (a.lamports - minimumReserveLamports m) := by
  obtain ⟨m, hm, -, hle⟩ := h.state
  have hmin := (minimumReserveLamports_le m).trans hle
  refine ⟨m, hm, hmin, ?_⟩
  rw [reserveLamportsAvailable, readStakeState_eq_ok.2 hm, ok_bind]
  exact orErr_eq_ok.2 (checkedSub_eq_some.2 ⟨hmin, rfl⟩)

/-- In every state of every run the reserve has its minimum, and an update can take it off. -/
theorem reserve_floor (hl : rt.Lawful) (h : (poolSystem rt).Reachable w) :
    ∃ m, (w.accounts w.stakePool.reserveStake).data = .stakeState (.initialized m) ∧
      minimumReserveLamports m ≤ (w.accounts w.stakePool.reserveStake).lamports ∧
      reserveLamportsAvailable (w.accounts w.stakePool.reserveStake) =
        .ok ((w.accounts w.stakePool.reserveStake).lamports - minimumReserveLamports m) :=
  (Inv.of_reach hl h).core.reserve_ok.lamportsAvailable

open Reference in
theorem reserve_floor_staked :
    ∃ m, (staked.accounts staked.stakePool.reserveStake).data = .stakeState (.initialized m) ∧
      minimumReserveLamports m ≤ (staked.accounts staked.stakePool.reserveStake).lamports := by
  obtain ⟨m, hm, hle, -⟩ := reserve_floor lawful
    (reachable_after (initialized_opened (by decide +kernel)) (by decide +kernel) :
      (poolSystem runtime).Reachable staked)
  exact ⟨m, hm, hle⟩

end SplStakePool
