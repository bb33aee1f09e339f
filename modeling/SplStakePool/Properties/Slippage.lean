import SplStakePool.Properties.NoExtraction

/-!
# Slippage protection

What the user's account gains by an instruction with a minimum. Taking a validator's whole account
truncates the amount after it was checked, and is the only way to fall below the minimum.

The tokens of a deposit are counted on the user's account, which may be that of the manager or of the referrer as well
and then gets more. The lamports of a withdrawal are those that its plan takes, which are the checked ones except for
the removal of a validator.
-/

namespace SplStakePool
open Exec Machine

variable {Key : Type} [DecidableEq Key] [Inhabited Key] {rt : Runtime Key} {w w' : World Key}
  {accounts : List (AccountInfo Key)}

variable (rt) in
/-- The user's account gains at least the minimum: tokens of a deposit, lamports of a withdrawal, which
leave the pool. Lamports withdrawn from the reserve to itself are not gained by anybody. -/
def SlippageKept (w w' : World Key) (accounts : List (AccountInfo Key)) :
    StakePoolInstruction Key → Prop
  | .depositSolWithSlippage _ minimum => ∀ a rest, DepositSolAccounts.parse accounts = .ok (a, rest) →
    w.heldBy {a.destUserPoolInfo.key} + minimum ≤ w'.heldBy {a.destUserPoolInfo.key}
  | .depositStakeWithSlippage minimum => ∀ a rest,
    (DepositStakeAccounts.parse rt).run accounts = .ok (a, rest) →
    w.heldBy {a.destUserPoolInfo.key} + minimum ≤ w'.heldBy {a.destUserPoolInfo.key}
  | .withdrawSolWithSlippage _ minimum => ∀ a rest, WithdrawSolAccounts.parse accounts = .ok (a, rest) →
    w'.stakePool.totalLamports + minimum ≤ w.stakePool.totalLamports ∧
    (a.destinationLamportsInfo.key ≠ w.stakePool.reserveStake →
      (w.accounts a.destinationLamportsInfo.key).lamports + minimum ≤
        (w'.accounts a.destinationLamportsInfo.key).lamports)
  | .withdrawStakeWithSlippage _ minimum => ∀ a rest,
    (WithdrawStakeAccounts.parse rt).run accounts = .ok (a, rest) →
    w'.stakePool.totalLamports + minimum ≤ w.stakePool.totalLamports ∧
    (w.accounts a.stakeSplitTo.key).lamports + minimum ≤ (w'.accounts a.stakeSplitTo.key).lamports
  | _ => True

variable (rt) in
/-- A withdrawal of a whole validator account that holds less than the minimum. -/
def TruncatesBelow (w : World Key) (accounts : List (AccountInfo Key)) :
    StakePoolInstruction Key → Prop
  | .withdrawStakeWithSlippage _ minimum => ∃ a rest,
    (WithdrawStakeAccounts.parse rt).run accounts = .ok (a, rest) ∧ a.takesWholeAccount w ∧
      (w.accounts a.stakeSplitFrom.key).lamports < minimum
  | _ => False

omit [Inhabited Key] in
theorem deposit_heldBy {acc acc' : Accounts Key} {t : DepositTokens} {minimum : Nat}
    {mint user manager referrer auth : AccountInfo Key} (hl : rt.Lawful) (hc : t.Checked (some minimum))
    (h : mintDepositTokens rt acc t mint user manager referrer auth = .ok acc') :
    held {user.key} mint.key acc + minimum ≤ held {user.key} mint.key acc' :=
  (Nat.add_le_add_left (hc.minimum _ rfl) _).trans
    (mintDepositTokens_held_le hl h (Finset.mem_singleton_self _))

theorem slippage_kept_iff (hl : rt.Lawful) {i : StakePoolInstruction Key}
    (h : process rt w accounts i = .ok w') :
    SlippageKept rt w w' accounts i ↔ ¬ TruncatesBelow rt w accounts i := by
  cases i with
  | depositSolWithSlippage n minimum =>
    refine ⟨fun _ => id, fun _ a rest hp => ?_⟩
    obtain ⟨a', rest', hp', t, acc₁, h⟩ := processDepositSol_ok h
    cases hp.symm.trans hp'
    have hm := deposit_heldBy hl h.checked h.mint
    rw [(solTransfer_tokens hl h.transfer).held_eq, h.mintKey] at hm
    rw [World.heldBy, World.heldBy, h.result]
    exact hm
  | depositStakeWithSlippage minimum =>
    refine ⟨fun _ => id, fun _ a rest hp => ?_⟩
    obtain ⟨a', rest', hp', s, v, t, acc₁, acc₂, acc₃, total, stake, h⟩ := processDepositStake_ok h
    cases hp.symm.trans hp'
    obtain ⟨-, hauth⟩ := DepositStakeAccounts.authorizeDeposit_eq_ok h.authorize
    have hm := deposit_heldBy hl h.checked h.mint
    have hlast : SameTokens acc₃ w'.accounts := by
      rcases h.withdraw with ⟨-, hw⟩ | ⟨-, hw⟩
      · exact stakeWithdraw_tokens hl hw
      · exact hw ▸ .refl _
    rw [(stakeMerge_tokens hl h.merge).held_eq, (stakeAuthorizeSigned_tokens hl hauth).held_eq,
      h.mintKey, ← hlast.held_eq] at hm
    rw [World.heldBy, World.heldBy, h.result]
    exact hm
  | withdrawSolWithSlippage tokens minimum =>
    refine ⟨fun _ => id, fun _ a rest hp => ?_⟩
    obtain ⟨a', rest', hp', fee, decimals, n, acc₁, acc₂, h⟩ := processWithdrawSol_ok h
    cases hp.symm.trans hp'
    have hn := h.lamports.minimum _ rfl
    refine ⟨?_, fun hne => ?_⟩
    · rw [h.result]
      have := h.lamports_le
      dsimp only
      omega
    · rw [h.received hl hne]
      omega
  | withdrawStakeWithSlippage tokens minimum =>
    obtain ⟨a, rest, hp, fee, decimals, n, plan, acc₁, acc₂, acc₃, h⟩ := processWithdrawStake_ok h
    have hn := h.lamports.minimum _ rfl
    have hgain := h.received hl
    have hT : w'.stakePool.totalLamports = w.stakePool.totalLamports - plan.withdrawLamports := by
      rw [h.result]
    have hle := h.lamports_le
    have hplan := h.planned.lamports_eq
    constructor
    · rintro hk ⟨a', rest', hp', hw, hlt⟩
      cases hp.symm.trans hp'
      obtain ⟨-, hk⟩ := hk a rest hp
      rw [if_pos hw] at hplan
      omega
    · intro hk a' rest' hp'
      cases hp.symm.trans hp'
      have hmin : minimum ≤ plan.withdrawLamports := by
        split at hplan
        · rename_i hw
          have hk : ¬ (w.accounts a.stakeSplitFrom.key).lamports < minimum := fun hlt =>
            hk ⟨a, rest, hp, hw, hlt⟩
          omega
        · omega
      exact ⟨by omega, by omega⟩
  | _ => exact ⟨fun _ => id, fun _ => trivial⟩

open Reference in
theorem slippage_kept_iff_thin :
    SlippageKept runtime thin (next thin (Reference.withdrawStake (validatorStake vote) userStake 2921391 3282880))
      [poolInfo, listInfo, authorityInfo, writable (validatorStake vote), writable userStake,
        writable user, signer user, tokensInfo, feeInfo, mintInfo, clock, tokenInfo, stakeInfo]
      (.withdrawStakeWithSlippage 2921391 3282880) :=
  (slippage_kept_iff lawful (next_process (by decide +kernel))).2 (by
    rintro ⟨a, rest, hp, -, hlt⟩
    cases hp
    revert hlt
    decide +kernel)

open Reference in
/-- One lamport more is promised by the check than the account holds. -/
theorem slippage_not_kept :
    (poolSystem runtime).Reachable thin ∧ ∃ w' accounts,
      process runtime thin accounts (.withdrawStakeWithSlippage 2921391 3282881) = .ok w' ∧
      ¬ SlippageKept runtime thin w' accounts (.withdrawStakeWithSlippage 2921391 3282881) := by
  refine ⟨⟨_, initialized_opened (by decide +kernel), after_path (fun _ _ _ _ => trivial)
    (by decide +kernel)⟩, next thin (Reference.withdrawStake (validatorStake vote) userStake 2921391 3282881), _,
    next_process (by decide +kernel), fun hk => ?_⟩
  obtain ⟨-, hk⟩ := hk _ _ rfl
  revert hk
  decide +kernel

end SplStakePool
