import SplStakePool.Effect.Process
import SplStakePool.Properties.SharePrice

/-!
# The fees of the pool

Three fees are scheduled: a `SetFee` requests them, and updates in later epochs advance the request until
it is active. The other fees are set at once.

A scheduled fee is an active value and a pending one, and there is one lemma for each operation on the two, with the
fee as a parameter. `FeesOk` bounds active and pending fees together, so that an update that activates a fee has
nothing to check.
-/

namespace SplStakePool
open Exec Machine

variable {Key : Type} {p p' : StakePool Key} {fee : FeeType} {epoch : Nat}

theorem Fee.apply_zero {z : Fee} (h : z.numerator = 0 ∨ z.denominator = 0) (n : Nat) : z.apply n = some 0 := by
  rw [Fee.apply]
  split
  · rfl
  · rename_i hd
    have hn : z.numerator.toNat = 0 := by
      rw [h.resolve_right hd]
      rfl
    have hd : z.denominator.toNat ≠ 0 := fun h => hd (UInt64.toNat_inj.1 h)
    have hlt := z.denominator.toNat_lt
    simp only [hn, Option.bind_eq_bind, checkedMul_of_lt (show n * 0 < 2 ^ 128 by omega), Option.bind_some,
      checkedAdd_of_lt (show n * 0 + z.denominator.toNat < 2 ^ 128 by omega),
      checkedSub_of_le (show 1 ≤ n * 0 + z.denominator.toNat by omega)]
    exact checkedDiv_eq_some.2 ⟨hd, Nat.div_eq_of_lt (by omega)⟩

theorem StakePool.calcPoolTokensFee_zero {z : Fee} (h : z.numerator = 0 ∨ z.denominator = 0) (n : Nat) :
    calcPoolTokensFee z n = some 0 := by
  rw [calcPoolTokensFee, Fee.apply_zero h]
  rfl

/-- A fee of nothing is not taken, whatever the fee account is. -/
theorem StakePool.withdrawalFee_of_zero [DecidableEq Key] {rt : Runtime Key} {p : StakePool Key} {acc : Accounts Key}
    {calcFee : Nat → Option Nat} {src info : AccountInfo Key} {n : Nat} (h : calcFee n = some 0) :
    p.withdrawalFee rt acc calcFee src info n = .ok 0 := by
  rw [StakePool.withdrawalFee, h]
  split
  · rfl
  · split <;> rfl

/-- The fees that change with the epochs. -/
inductive ScheduledFee
  | epoch | stakeWithdrawal | solWithdrawal
deriving DecidableEq, Repr

/-- The fee that is taken. -/
def StakePool.activeFee (p : StakePool Key) : ScheduledFee → Fee
  | .epoch => p.epochFee
  | .stakeWithdrawal => p.stakeWithdrawalFee
  | .solWithdrawal => p.solWithdrawalFee

/-- The fee that is requested. -/
def StakePool.pendingFee (p : StakePool Key) : ScheduledFee → FutureEpoch Fee
  | .epoch => p.nextEpochFee
  | .stakeWithdrawal => p.nextStakeWithdrawalFee
  | .solWithdrawal => p.nextSolWithdrawalFee

/-- The scheduled fee that a `SetFee` requests. -/
def FeeType.request : FeeType → Option (ScheduledFee × Fee)
  | .epoch fee => some (.epoch, fee)
  | .stakeWithdrawal fee => some (.stakeWithdrawal, fee)
  | .solWithdrawal fee => some (.solWithdrawal, fee)
  | _ => none

/-- The fees, and the epoch that they are for, are the same. -/
structure SameFees (p p' : StakePool Key) : Prop where
  active : ∀ k, p'.activeFee k = p.activeFee k
  pending : ∀ k, p'.pendingFee k = p.pendingFee k
  lastUpdateEpoch : p'.lastUpdateEpoch = p.lastUpdateEpoch
  stakeDepositFee : p'.stakeDepositFee = p.stakeDepositFee
  solDepositFee : p'.solDepositFee = p.solDepositFee
  stakeReferralFee : p'.stakeReferralFee = p.stakeReferralFee
  solReferralFee : p'.solReferralFee = p.solReferralFee

theorem SameFees.refl (p : StakePool Key) : SameFees p p :=
  ⟨fun _ => rfl, fun _ => rfl, rfl, rfl, rfl, rfl, rfl⟩

/-- How an instruction has changed the fees. -/
inductive FeesStep (epoch : Nat) (i : StakePoolInstruction Key) (p p' : StakePool Key) : Prop
  | kept (h : SameFees p p')
  | set {fee : FeeType} (hi : i = .setFee fee) (hf : fee.canOnlyChangeNextEpoch → epoch ≤ p.lastUpdateEpoch)
      (hc : fee.checkTooHigh = .ok ()) (hp : p.updateFee fee = .ok p')
  | balanced (hi : i = .updateStakePoolBalance) (h : SameFees (p.updateEpoch epoch) p')

theorem UpdateStakePoolBalanceAccounts.Ok.fees [DecidableEq Key] {rt : Runtime Key} {w w' : World Key}
    {a : UpdateStakePoolBalanceAccounts Key} {m : Meta Key} {n : Nat} {mint : Mint Key}
    (h : a.Ok rt w w' m n mint) : SameFees (w.stakePool.updateEpoch w.sysvars.epoch) w'.stakePool := by
  rw [congrArg World.stakePool h.result]
  constructor <;> intros <;> rfl

theorem Executed.fees [DecidableEq Key] {rt : Runtime Key} {w w' : World Key}
    {accounts : List (AccountInfo Key)} {i : StakePoolInstruction Key} {out : Option Key}
    (h : Executed rt w w' accounts i out) :
    FeesStep w.sysvars.epoch i w.stakePool w'.stakePool := by
  have same : ∀ {q : StakePool Key}, w'.stakePool = q → SameFees w.stakePool q →
      FeesStep w.sysvars.epoch i w.stakePool w'.stakePool := fun he h => .kept (he ▸ h)
  cases h with
  | add _ _ h | decrease _ h | increase _ h | updateList _ _ h | depositStake _ h | depositSol _ h
  | withdrawSol h | remove _ h =>
    exact same (congrArg World.stakePool h.result) (by constructor <;> intros <;> rfl)
  | @withdrawStake _ _ _ _ _ _ plan _ _ _ h =>
    have hp := congrArg World.stakePool h.result
    obtain ⟨d, x, he⟩ := WithdrawStakeAccounts.stakePool_eq plan w.stakePool
    rw [he] at hp
    exact same hp (by constructor <;> intros <;> rfl)
  | updatePool hi h => exact .balanced hi h.fees
  | cleanup _ h =>
    refine same (congrArg World.stakePool h) ?_
    dsimp only
    split
    · constructor <;> intros <;> rfl
    · exact .refl _
  | @setPreferred validatorType _ _ _ h =>
    refine same (congrArg World.stakePool h) ?_
    cases validatorType <;> constructor <;> intros <;> rfl
  | setFee hi _ hf hc hp h =>
    rw [h]
    exact .set hi hf hc hp
  | manage _ _ h => exact same (congrArg World.stakePool h) (by constructor <;> intros <;> rfl)
  | createMetadata _ _ _ _ h | updateMetadata _ h => exact same (congrArg World.stakePool h) (.refl _)

/-! ## What fees there can be -/

/-- The fees that are taken and those that are requested are at most one. -/
structure FeesOk (p : StakePool Key) : Prop where
  active : ∀ k, (p.activeFee k).atMostOne
  pending : ∀ k fee, (p.pendingFee k).toOption = some fee → fee.atMostOne
  stakeDepositFee : p.stakeDepositFee.atMostOne
  solDepositFee : p.solDepositFee.atMostOne
  stakeReferralFee : p.stakeReferralFee ≤ 100
  solReferralFee : p.solReferralFee ≤ 100

theorem FeesOk.same (h : FeesOk p) (hs : SameFees p p') : FeesOk p' := by
  refine ⟨fun k => ?_, fun k => ?_, ?_, ?_, ?_, ?_⟩
  · rw [hs.active]; exact h.active k
  · rw [hs.pending]; exact h.pending k
  · rw [hs.stakeDepositFee]; exact h.stakeDepositFee
  · rw [hs.solDepositFee]; exact h.solDepositFee
  · rw [hs.stakeReferralFee]; exact h.stakeReferralFee
  · rw [hs.solReferralFee]; exact h.solReferralFee

theorem StakePool.activeFee_updateEpoch (k : ScheduledFee) : (p.updateEpoch epoch).activeFee k =
    if p.lastUpdateEpoch < epoch then (p.pendingFee k).get.getD (p.activeFee k) else p.activeFee k := by
  simp only [updateEpoch]
  split <;> cases k <;> rfl

theorem StakePool.pendingFee_updateEpoch (k : ScheduledFee) : (p.updateEpoch epoch).pendingFee k =
    if p.lastUpdateEpoch < epoch then (p.pendingFee k).updateEpoch else p.pendingFee k := by
  simp only [updateEpoch]
  split <;> cases k <;> rfl

theorem StakePool.lastUpdateEpoch_updateEpoch : (p.updateEpoch epoch).lastUpdateEpoch =
    if p.lastUpdateEpoch < epoch then epoch else p.lastUpdateEpoch := by
  simp only [updateEpoch]
  split <;> rfl

theorem FutureEpoch.toOption_of_get {T : Type} {f : FutureEpoch T} {v : T} (h : f.get = some v) :
    f.toOption = some v := by
  cases f with
  | one => exact h
  | _ => cases h

theorem FutureEpoch.toOption_updateEpoch {T : Type} {f : FutureEpoch T} {v : T}
    (h : f.updateEpoch.toOption = some v) : f.toOption = some v := by
  cases f with
  | two u => exact h
  | _ => cases h

theorem FeesOk.updateEpoch (h : FeesOk p) (epoch : Nat) : FeesOk (p.updateEpoch epoch) := by
  refine ⟨fun k => ?_, fun k fee hk => ?_, ?_, ?_, ?_, ?_⟩
  · rw [StakePool.activeFee_updateEpoch]
    split
    · cases hg : (p.pendingFee k).get with
      | none => exact h.active k
      | some fee => exact h.pending k fee (FutureEpoch.toOption_of_get hg)
    · exact h.active k
  · rw [StakePool.pendingFee_updateEpoch] at hk
    split at hk
    · exact h.pending k fee (FutureEpoch.toOption_updateEpoch hk)
    · exact h.pending k fee hk
  all_goals simp only [StakePool.updateEpoch]; split
  · exact h.stakeDepositFee
  · exact h.stakeDepositFee
  · exact h.solDepositFee
  · exact h.solDepositFee
  · exact h.stakeReferralFee
  · exact h.stakeReferralFee
  · exact h.solReferralFee
  · exact h.solReferralFee

/-- The fees that pass the check. -/
def FeeType.Admitted : FeeType → Prop
  | .solReferral pct | .stakeReferral pct => pct ≤ 100
  | .epoch f | .stakeWithdrawal f | .solWithdrawal f | .solDeposit f | .stakeDeposit f => f.atMostOne

theorem FeeType.checkTooHigh_eq_ok (h : fee.checkTooHigh = .ok ()) : fee.Admitted := by
  cases fee <;> simpa [checkTooHigh, Admitted, Fee.atMostOne] using h

/-- What a `SetFee` of a scheduled fee has done: the fee is requested and due in two epochs. -/
theorem StakePool.updateFee_request {k : ScheduledFee} {f : Fee} (h : p.updateFee fee = .ok p')
    (hr : fee.request = some (k, f)) : p'.pendingFee k = .two f ∧ ∀ j, j ≠ k → p'.pendingFee j = p.pendingFee j := by
  cases fee with
  | epoch =>
    cases hr
    cases h
    exact ⟨rfl, fun j hj => by cases j <;> first | rfl | exact absurd rfl hj⟩
  | stakeWithdrawal | solWithdrawal =>
    cases hr
    simp only [updateFee, bind_eq_ok, exists_unit, pure_eq_ok] at h
    obtain ⟨-, rfl⟩ := h
    exact ⟨rfl, fun j hj => by cases j <;> first | rfl | exact absurd rfl hj⟩
  | _ => cases hr

theorem StakePool.updateFee_active (h : p.updateFee fee = .ok p') (k : ScheduledFee) :
    p'.activeFee k = p.activeFee k ∧ p'.lastUpdateEpoch = p.lastUpdateEpoch := by
  cases fee with
  | stakeWithdrawal | solWithdrawal =>
    simp only [updateFee, bind_eq_ok, exists_unit, pure_eq_ok] at h
    obtain ⟨-, rfl⟩ := h
    cases k <;> exact ⟨rfl, rfl⟩
  | _ => cases h; cases k <;> exact ⟨rfl, rfl⟩

theorem StakePool.updateFee_pending (h : p.updateFee fee = .ok p') (hr : fee.request = none)
    (k : ScheduledFee) : p'.pendingFee k = p.pendingFee k := by
  cases fee with
  | epoch | stakeWithdrawal | solWithdrawal => cases hr
  | _ => cases h; cases k <;> rfl

theorem FeeType.request_atMostOne {k : ScheduledFee} {f : Fee} (h : fee.Admitted)
    (hr : fee.request = some (k, f)) : f.atMostOne := by
  cases fee with
  | epoch | stakeWithdrawal | solWithdrawal => cases hr; exact h
  | _ => cases hr

/-- A fee that passes the check is admitted. -/
theorem FeesOk.updateFee (h : FeesOk p) (hc : fee.checkTooHigh = .ok ()) (hp : p.updateFee fee = .ok p') :
    FeesOk p' := by
  have hle := FeeType.checkTooHigh_eq_ok hc
  have hother : p'.stakeDepositFee.atMostOne ∧ p'.solDepositFee.atMostOne ∧ p'.stakeReferralFee ≤ 100 ∧
      p'.solReferralFee ≤ 100 := by
    obtain ⟨-, -, h₁, h₂, h₃, h₄⟩ := h
    cases fee with
    | stakeWithdrawal | solWithdrawal =>
      simp only [StakePool.updateFee, bind_eq_ok, exists_unit, pure_eq_ok] at hp
      obtain ⟨-, rfl⟩ := hp
      exact ⟨h₁, h₂, h₃, h₄⟩
    | _ =>
      cases hp
      exact ⟨by assumption, by assumption, by assumption, by assumption⟩
  refine ⟨fun k => ?_, fun k f hk => ?_, hother.1, hother.2.1, hother.2.2.1, hother.2.2.2⟩
  · rw [(StakePool.updateFee_active hp k).1]
    exact h.active k
  · cases hr : fee.request with
    | none =>
      rw [StakePool.updateFee_pending hp hr] at hk
      exact h.pending k f hk
    | some r =>
      obtain ⟨j, g⟩ := r
      obtain ⟨hj, hne⟩ := StakePool.updateFee_request hp hr
      by_cases hkj : k = j
      · subst hkj
        rw [hj] at hk
        cases hk
        exact FeeType.request_atMostOne hle hr
      · rw [hne k hkj] at hk
        exact h.pending k f hk

end SplStakePool
