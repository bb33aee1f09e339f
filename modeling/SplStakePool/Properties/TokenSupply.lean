import SplStakePool.Invariant.Backing
import SplStakePool.Runtime.Session

/-!
# The supply of pool tokens

The pool's counter of tokens never falls below the supply of the mint, whatever holders burn, and an update
sets it to that supply.

The invariant of runs (`Backing`) has the inequality. A deposit mints what it adds and a withdrawal burns what it
subtracts, so that the distance between the two only grows when holders burn, and an update mints its fee and closes
it. After a burn the subtraction from the counter cannot fail, and that of the lamports cannot either, as the
lamports for tokens of the pool are no more than its total.
-/

namespace SplStakePool
open Exec Machine

variable {Key : Type} [DecidableEq Key] [Inhabited Key] {rt : Runtime Key} {w w' : World Key}
  {accounts : List (AccountInfo Key)} {i : StakePoolInstruction Key} {s n : Nat}

def StakePoolInstruction.isDeposit : StakePoolInstruction Key → Bool
  | .depositSol _ | .depositSolWithSlippage _ _ | .depositStake | .depositStakeWithSlippage _ => true
  | _ => false

def StakePoolInstruction.isWithdrawal : StakePoolInstruction Key → Bool
  | .withdrawSol _ | .withdrawSolWithSlippage _ _ | .withdrawStake _ | .withdrawStakeWithSlippage _ _ => true
  | _ => false

theorem deposit_supply (hl : rt.Lawful) (hi : i.isDeposit) (hs : w.supply? = some s)
    (h : process rt w accounts i = .ok w') : ∃ n, w'.supply? = some (s + n) ∧
      w'.stakePool.poolTokenSupply = w.stakePool.poolTokenSupply + n := by
  cases i with
  | depositSol | depositSolWithSlippage =>
    obtain ⟨_, _, -, t, _, h⟩ := processDepositSol_ok h
    exact ⟨_, h.supply hl hs⟩
  | depositStake | depositStakeWithSlippage =>
    obtain ⟨_, _, -, _, _, t, _, _, _, _, _, h⟩ := processDepositStake_ok h
    exact ⟨_, h.supply hl hs⟩
  | _ => cases hi

theorem withdrawal_supply (hl : rt.Lawful) (hi : i.isWithdrawal) (hs : w.supply? = some s)
    (h : process rt w accounts i = .ok w') : ∃ n, n ≤ s ∧ n ≤ w.stakePool.poolTokenSupply ∧
      w'.supply? = some (s - n) ∧
      w'.stakePool.poolTokenSupply = w.stakePool.poolTokenSupply - n := by
  cases i with
  | withdrawSol | withdrawSolWithSlippage =>
    obtain ⟨_, _, -, _, _, _, _, _, h⟩ := processWithdrawSol_ok h
    obtain ⟨hle, hsup, hc⟩ := h.supply hl hs
    exact ⟨_, hle, h.burnt_le, hsup, hc⟩
  | withdrawStake | withdrawStakeWithSlippage =>
    obtain ⟨_, _, -, _, _, _, _, _, _, _, h⟩ := processWithdrawStake_ok h
    obtain ⟨hle, hsup, hc⟩ := h.supply hl hs
    exact ⟨_, hle, h.burnt_le, hsup, hc⟩
  | _ => cases hi

omit [DecidableEq Key] [Inhabited Key] in
/-- The lamports for no more tokens than there are, are no more than there are. -/
theorem StakePool.calcLamportsWithdrawAmount_le_total {p : StakePool Key} {lamports : Nat}
    (h : p.calcLamportsWithdrawAmount n = some lamports) (hn : n ≤ p.poolTokenSupply) :
    lamports ≤ p.totalLamports := by
  rcases Nat.eq_zero_or_pos p.poolTokenSupply with h0 | h0
  · simp only [calcLamportsWithdrawAmount, h0, or_true, if_true, Option.bind_eq_bind,
      Option.bind_eq_some_iff, Option.pure_def, Option.some.injEq] at h
    obtain ⟨_, -, rfl⟩ := h
    exact Nat.zero_le _
  · have hle := calcLamportsWithdrawAmount_le h
    refine Nat.le_of_mul_le_mul_right (hle.trans ?_) h0
    rw [Nat.mul_comm p.totalLamports]
    exact Nat.mul_le_mul_right _ hn

omit [Inhabited Key] in
/-- After a burn, what is burnt and what is paid for it can be subtracted. -/
theorem subWithdrawal_isSome (hl : rt.Lawful) {src mint auth : AccountInfo Key} {acc' : Accounts Key}
    (hs : w.supply? = some s) (hle : s ≤ w.stakePool.poolTokenSupply)
    (hm : mint.key = w.stakePool.poolMint) (hb : tokenBurn rt w.accounts src mint auth n = .ok acc')
    {lamports x : Nat} (h : w.stakePool.calcLamportsWithdrawAmount n = some lamports) (hx : x ≤ lamports)
    (plan : WithdrawPlan Key) : ((plan.stakePool w.stakePool).subWithdrawal n x).isSome := by
  have hn := (tokenBurn_supply hl hb (by rw [hm]; exact hs)).1.trans hle
  have hT := hx.trans (StakePool.calcLamportsWithdrawAmount_le_total h hn)
  obtain ⟨d, y, he⟩ := WithdrawStakeAccounts.stakePool_eq plan w.stakePool
  rw [he]
  simp only [StakePool.subWithdrawal, checkedSub, if_pos hn, if_pos hT, Option.bind_eq_bind,
    Option.bind_some, Option.pure_def, Option.isSome_some]

/-- The counter and the mint in every state of every run, and under every instruction. -/
theorem token_supply (hl : rt.Lawful) (h : (poolSystem rt).Reachable w) :
    ∃ s, w.supply? = some s ∧ s ≤ w.stakePool.poolTokenSupply ∧
      (∀ accounts i w', process rt w accounts i = .ok w' → ∃ s', w'.supply? = some s' ∧
        (i = .updateStakePoolBalance → ∃ a rest fee,
          UpdateStakePoolBalanceAccounts.parse accounts = .ok (a, rest) ∧
          w.stakePool.epochFeeToMint rt w.accounts a.managerFeeInfo
            (w'.stakePool.totalLamports - w.stakePool.totalLamports) = .ok fee ∧
          s' = s + fee ∧ w'.stakePool.poolTokenSupply = s') ∧
        (i.isDeposit → ∃ n, s' = s + n ∧
          w'.stakePool.poolTokenSupply = w.stakePool.poolTokenSupply + n) ∧
        (i.isWithdrawal → ∃ n, n ≤ s ∧ n ≤ w.stakePool.poolTokenSupply ∧ s' = s - n ∧
          w'.stakePool.poolTokenSupply = w.stakePool.poolTokenSupply - n)) ∧
      (∀ (src mint auth : AccountInfo Key) (n : Nat) (acc' : Accounts Key) (lamports : Nat),
        mint.key = w.stakePool.poolMint → tokenBurn rt w.accounts src mint auth n = .ok acc' →
        w.stakePool.calcLamportsWithdrawAmount n = some lamports → ∀ x ≤ lamports,
        ∀ plan : WithdrawPlan Key, ((plan.stakePool w.stakePool).subWithdrawal n x).isSome) := by
  have hi := Inv.of_reach hl h
  obtain ⟨s, hs, hle⟩ := (Backing.of_reach hl h).supply
  refine ⟨s, hs, hle, fun accounts i w' hp => ?_, fun src mint auth n acc' lamports hm hb hn x hx plan =>
    subWithdrawal_isSome hl hs hle hm hb hn hx plan⟩
  have he := process_executed (not_isInitialize hl hi.pool.valid hp) hp
  obtain ⟨s', hs', -⟩ := (he.backing hl hi (Backing.of_reach hl h)).supply
  have heq : ∀ {x}, w'.supply? = some x → s' = x := fun hx => Option.some.inj (hs'.symm.trans hx)
  refine ⟨s', hs', ?_, fun hi => ?_, fun hi => ?_⟩
  · rintro rfl
    obtain ⟨a, rest, hparse, m, fee, mint, hu⟩ := processUpdateStakePoolBalance_ok hp
    obtain ⟨hsup, hc⟩ := hu.minted hl hs
    exact ⟨a, rest, fee, hparse, hu.fee_eq, heq hsup, hc.trans (heq hsup).symm⟩
  · obtain ⟨n, hsup, hc⟩ := deposit_supply hl hi hs hp
    exact ⟨n, heq hsup, hc⟩
  · obtain ⟨n, h₁, h₂, hsup, hc⟩ := withdrawal_supply hl hi hs hp
    exact ⟨n, h₁, h₂, heq hsup, hc⟩

section
open Reference

theorem reachable_endowed : (poolSystem runtime).Reachable endowed :=
  ⟨_, initialized_opened (by decide +kernel), .single trivial (next_step (by decide +kernel))⟩

theorem token_supply_endowed : ∃ s, endowed.supply? = some s ∧ s ≤ endowed.stakePool.poolTokenSupply := by
  obtain ⟨s, hs, hle, -⟩ := token_supply lawful reachable_endowed
  exact ⟨s, hs, hle⟩

/-- The pool after the manager has burnt a thousand tokens. -/
def scorched : World Reference.Key :=
  (endowed.setAccount managerFeeAccount { endowed.accounts managerFeeAccount with
    data := .token ⟨poolMint, manager, 997716120, .initialized, []⟩ }).setAccount
    endowed.stakePool.poolMint { endowed.accounts endowed.stakePool.poolMint with
      data := .mint ⟨some withdrawAuthority, 997716120, 9, none, []⟩ }

theorem scorched_step : Step runtime endowed (.burn managerFeeAccount 1000) scorched := by
  have ht : (endowed.accounts managerFeeAccount).token? =
      some ⟨poolMint, manager, 997717120, .initialized, []⟩ := by decide +kernel
  have hm : (endowed.accounts endowed.stakePool.poolMint).mint? =
      some ⟨some withdrawAuthority, 997717120, 9, none, []⟩ := by decide +kernel
  exact .env (.burn managerFeeAccount 1000 _ _ (Account.token?_eq_some.1 ht) (Account.mint?_eq_some.1 hm)
    (by decide) (by decide))

/-- An update mints a fee, but adds less to the counter: it takes off what holders have burnt. -/
theorem token_supply_scorched : ∃ w' accounts s s', (poolSystem runtime).Reachable scorched ∧
    process runtime scorched accounts .updateStakePoolBalance = .ok w' ∧
    scorched.supply? = some s ∧ w'.supply? = some s' ∧ s < s' ∧
    s' - s ≠ w'.stakePool.poolTokenSupply - scorched.stakePool.poolTokenSupply :=
  ⟨next scorched updatePool, _, 997716120, (next scorched updatePool).supply?.getD 0,
    reachable_endowed.step trivial scorched_step, next_process (by decide +kernel), by decide +kernel,
    by decide +kernel, by decide +kernel, by decide +kernel⟩

end

end SplStakePool
