import Mathlib.Algebra.Order.Field.Basic
import Mathlib.Data.Rat.Cast.Order
import SplStakePool.Properties.FeeSchedule

/-!
# The limit on increases of a withdrawal fee

`checkWithdrawal` compares two products that may overflow. A product that overflows counts as less than
everything, so that a fee whose own product overflows passes the check, however high it is. As long as that
product fits, no withdrawal fee is raised by more than the maximum factor.

The check is a comparison of two values that may be absent, with four cases. Along a run the fee that is active and the
one that is pending are each within the limit of the one before, because every request was checked against the active
one and none is activated without having been requested.
-/

namespace SplStakePool
open Exec Machine System

namespace Fee
variable {new old : Fee}

/-- A fee as a number, zero if it has no denominator. -/
def ratio (fee : Fee) : ℚ := fee.numerator.toNat / fee.denominator.toNat

/-- An increase by no more than the maximum factor. -/
def WithinLimit (new old : Fee) : Prop := new.ratio / old.baseline.ratio ≤ maxWithdrawalFeeIncrease.ratio

/-- The product of the new fee fits into 128 bits. -/
def Fits (new old : Fee) : Prop := new.numerator.toNat * old.baseline.denominator.toNat * 2 < 2 ^ 128

instance : Decidable (WithinLimit new old) := inferInstanceAs (Decidable (_ ≤ _))
instance : Decidable (Fits new old) := inferInstanceAs (Decidable (_ < _))

theorem baseline_pos (old : Fee) : 0 < old.baseline.numerator.toNat ∧ 0 < old.baseline.denominator.toNat := by
  unfold baseline
  split
  · decide
  · rename_i h
    rw [not_or] at h
    have pos : ∀ x : UInt64, x ≠ 0 → 0 < x.toNat := by
      intro x hx
      refine Nat.pos_of_ne_zero fun h0 => hx ?_
      rw [← UInt64.toNat_inj]
      exact h0
    exact ⟨pos _ h.2, pos _ h.1⟩

theorem withinLimit_iff (h : new.atMostOne) : new.WithinLimit old ↔
    new.numerator.toNat * old.baseline.denominator.toNat * 2 ≤
      old.baseline.numerator.toNat * new.denominator.toNat * 3 := by
  obtain ⟨hn, hd⟩ := baseline_pos old
  have hle : new.numerator.toNat ≤ new.denominator.toNat := by
    simpa [atMostOne, UInt64.le_iff_toNat_le] using h
  have hmax : maxWithdrawalFeeIncrease.ratio = 3 / 2 := rfl
  rw [WithinLimit, hmax, ratio, ratio]
  rcases Nat.eq_zero_or_pos new.denominator.toNat with h0 | h0
  · -- a fee without a denominator is zero
    have h0' : new.numerator.toNat = 0 := by omega
    norm_num [h0, h0']
  · rw [div_div_div_eq, div_le_div_iff₀ (by positivity) (by norm_num), ← Nat.cast_le (α := ℚ)]
    push_cast
    constructor <;> intro h <;> linarith

theorem mul_lt (x y : UInt64) : x.toNat * y.toNat < 2 ^ 128 :=
  calc x.toNat * y.toNat < 2 ^ 64 * 2 ^ 64 := Nat.mul_lt_mul'' x.toNat_lt y.toNat_lt
    _ = 2 ^ 128 := by norm_num

theorem checkWithdrawal_eq_ok : new.checkWithdrawal old = .ok () ↔ ¬ new.Fits old ∨
    new.numerator.toNat * old.baseline.denominator.toNat * 2 ≤
        old.baseline.numerator.toNat * new.denominator.toNat * 3 ∧
      old.baseline.numerator.toNat * new.denominator.toNat * 3 < 2 ^ 128 := by
  have hl := mul_lt old.baseline.numerator new.denominator
  have hr := mul_lt new.numerator old.baseline.denominator
  have h3 : maxWithdrawalFeeIncrease.numerator.toNat = 3 := rfl
  have h2 : maxWithdrawalFeeIncrease.denominator.toNat = 2 := rfl
  simp only [checkWithdrawal, checkedMul, if_pos hl, if_pos hr, Option.map_some, orErr, ok_bind, h3, h2, Fits]
  generalize old.baseline.numerator.toNat * new.denominator.toNat * 3 = a
  generalize new.numerator.toNat * old.baseline.denominator.toNat * 2 = b
  by_cases ha : a < 2 ^ 128
  · by_cases hb : b < 2 ^ 128
    · simp only [if_pos ha, if_pos hb, optionLt, decide_eq_true_eq, ite_eq_right_iff, reduceCtorEq, imp_false]
      omega
    · simp only [if_neg hb, optionLt, Bool.false_eq_true, if_false, true_iff]
      exact .inl hb
  · by_cases hb : b < 2 ^ 128
    · simp only [if_neg ha, if_pos hb, optionLt, if_true, reduceCtorEq, false_iff]
      omega
    · simp only [if_neg hb, optionLt, Bool.false_eq_true, if_false, true_iff]
      exact .inl hb

/-- The check keeps to the limit unless the product of the new fee overflows. -/
theorem checkWithdrawal_withinLimit_iff (h : new.atMostOne) :
    (new.checkWithdrawal old = .ok () → new.WithinLimit old) ↔ new.Fits old ∨ new.WithinLimit old := by
  rw [checkWithdrawal_eq_ok, withinLimit_iff h]
  constructor
  · intro hc
    by_cases hf : new.Fits old
    · exact .inl hf
    · exact .inr (hc (.inl hf))
  · rintro (hf | hw) hc
    · rcases hc with hc | hc
      · exact absurd hf hc
      · exact hc.1
    · exact hw

/-- For a new numerator and an old denominator, the check keeps to the limit exactly if their product fits. -/
theorem checkWithdrawal_keeps_iff (n d : UInt64) :
    (∀ new old : Fee, new.numerator = n → old.baseline.denominator = d → new.atMostOne → old.atMostOne →
      new.checkWithdrawal old = .ok () → new.WithinLimit old) ↔ n.toNat * d.toNat * 2 < 2 ^ 128 := by
  constructor
  · intro h
    by_contra hlt
    -- a fee of one is too much after a fee of `1 / d`
    have hd : 2 ≤ d.toNat := by
      by_contra hd
      have := Nat.mul_le_mul n.toNat_lt.le (Nat.le_of_lt_succ (Nat.lt_of_not_le hd))
      omega
    have hd0 : d ≠ 0 := fun h0 => by
      rw [h0] at hd
      exact absurd hd (by decide)
    have hb : Fee.baseline ⟨d, 1⟩ = ⟨d, 1⟩ := if_neg (by simp [hd0])
    have hone : (1 : UInt64) ≤ d := UInt64.le_iff_toNat_le.2 (le_trans (by decide) hd)
    have hself : Fee.atMostOne ⟨n, n⟩ := by simp [atMostOne]
    have hin := h ⟨n, n⟩ ⟨d, 1⟩ rfl (by rw [hb]) hself (by simpa [atMostOne] using hone)
      (checkWithdrawal_eq_ok.2 (.inl (by rw [Fits, hb]; exact hlt)))
    rw [withinLimit_iff hself, hb] at hin
    have h1 : (1 : UInt64).toNat = 1 := rfl
    dsimp only at hin
    rw [h1, Nat.one_mul] at hin
    have hn : 0 < n.toNat := by
      refine Nat.pos_of_ne_zero fun h0 => hlt ?_
      rw [h0]
      norm_num
    have := Nat.mul_le_mul_left n.toNat hd
    omega
  · rintro hf new old rfl rfl hle - hc
    exact (checkWithdrawal_withinLimit_iff hle).2 (.inl hf) hc

end Fee

/-! ## Runs -/

variable {Key : Type} {p p' : StakePool Key}

/-- Every request of a withdrawal fee in a step has a product that fits. -/
def WithdrawalFeeFits (w : World Key) (l : Label Key) : Prop :=
  ∀ r ∈ l.request, r.1 ≠ .epoch → r.2.Fits (w.stakePool.activeFee r.1)

/-- The withdrawal fees that are requested are within the limit. -/
def Limited (p : StakePool Key) : Prop :=
  ∀ k, k ≠ .epoch → ∀ fee, (p.pendingFee k).toOption = some fee → fee.WithinLimit (p.activeFee k)

theorem StakePool.updateFee_checked {fee : FeeType} {k : ScheduledFee} {f : Fee} (h : p.updateFee fee = .ok p')
    (hr : fee.request = some (k, f)) (hk : k ≠ .epoch) : f.checkWithdrawal (p.activeFee k) = .ok () := by
  cases fee with
  | epoch => cases hr; exact absurd rfl hk
  | stakeWithdrawal | solWithdrawal =>
    cases hr
    simp only [updateFee, bind_eq_ok, exists_unit] at h
    exact h.1
  | _ => cases hr

theorem Limited.same (h : Limited p) (hs : SameFees p p') : Limited p' := by
  intro k hk fee hf
  rw [hs.pending] at hf
  rw [hs.active]
  exact h k hk fee hf

theorem Limited.updateEpoch (h : Limited p) (epoch : Nat) : Limited (p.updateEpoch epoch) := by
  intro k hk fee hf
  rw [StakePool.pendingFee_updateEpoch] at hf
  rw [StakePool.activeFee_updateEpoch]
  split at hf
  · rename_i hlt
    rw [if_pos hlt]
    cases hp : p.pendingFee k with
    | none | one => rw [hp] at hf; cases hf
    | two f =>
      rw [hp] at hf
      cases hf
      exact h k hk fee (by rw [hp]; rfl)
  · rename_i hlt
    rw [if_neg hlt]
    exact h k hk fee hf

variable [DecidableEq Key] [Inhabited Key] {rt : Runtime Key} {w w' : World Key} {l : Label Key}

theorem Step.limited (hl : rt.Lawful) (hi : Inv rt w) (hok : WithdrawalFeeFits w l)
    (h : Limited w.stakePool) (hs : Step rt w l w') : Limited w'.stakePool := by
  cases hs with
  | env hs => rwa [hs.ambient.pool]
  | instruction _ hp =>
    cases (process_executed (not_isInitialize hl hi.pool.valid hp) hp).fees with
    | kept hs => exact h.same hs
    | balanced _ hs => exact (h.updateEpoch _).same hs
    | @set fee hi _ hc hu =>
      subst hi
      intro k hk f hf
      rw [(StakePool.updateFee_active hu k).1]
      cases hr : fee.request with
      | none =>
        rw [StakePool.updateFee_pending hu hr] at hf
        exact h k hk f hf
      | some r =>
        obtain ⟨j, g⟩ := r
        obtain ⟨hj, hne⟩ := StakePool.updateFee_request hu hr
        by_cases hkj : k = j
        · subst hkj
          rw [hj] at hf
          cases hf
          have hle := FeeType.request_atMostOne (FeeType.checkTooHigh_eq_ok hc) hr
          exact (Fee.checkWithdrawal_withinLimit_iff hle).2 (.inl (hok (k, f) hr hk))
            (StakePool.updateFee_checked hu hr hk)
        · rw [hne k hkj] at hf
          exact h k hk f hf

theorem Limited.of_reach (hl : rt.Lawful) (h : (poolSystem rt).Reach WithdrawalFeeFits w) :
    Limited w.stakePool := by
  refine h.invariant (I := fun w => Limited w.stakePool) (fun s hs => ?_) fun a l b ha hI hok hs =>
    hs.limited hl (.of_reach hl ha) hok hI
  obtain ⟨w₀, accounts, fee, withdrawalFee, depositFee, referralFee, maxValidators, -, h⟩ := hs
  obtain ⟨_, _, _, _, h⟩ := processInitialize_ok hl h
  obtain ⟨_, hw⟩ := h.result
  rw [hw]
  intro k _ f hf
  cases k <;> cases hf

/-- The limit on increases of a withdrawal fee: the check keeps to it exactly if the product of the new fee
fits or the increase is within the limit anyway, and for a given new numerator and old denominator exactly if
their product fits. In a run whose requests all have products that fit, a withdrawal fee only changes within
the limit. -/
theorem withdrawal_fee_limit (hl : rt.Lawful) :
    (∀ new old : Fee, new.atMostOne →
      ((new.checkWithdrawal old = .ok () → new.WithinLimit old) ↔ new.Fits old ∨ new.WithinLimit old)) ∧
    (∀ n d : UInt64, (∀ new old : Fee, new.numerator = n → old.baseline.denominator = d → new.atMostOne →
        old.atMostOne → new.checkWithdrawal old = .ok () → new.WithinLimit old) ↔
      n.toNat * d.toNat * 2 < 2 ^ 128) ∧
    ∀ w l w' k, (poolSystem rt).Reach WithdrawalFeeFits w → Step rt w l w' → k ≠ .epoch →
      w'.stakePool.activeFee k ≠ w.stakePool.activeFee k →
      (w'.stakePool.activeFee k).WithinLimit (w.stakePool.activeFee k) := by
  refine ⟨fun new old h => Fee.checkWithdrawal_withinLimit_iff h, Fee.checkWithdrawal_keeps_iff,
    fun w l w' k hr hs hk hne => ?_⟩
  cases hs.schedules hl (.of_reach hl hr) with
  | kept _ _ ha | requested _ _ ha => exact absurd (ha k) hne
  | updated _ h =>
    rw [h.active, StakePool.activeFee_updateEpoch] at hne ⊢
    split at hne
    · rename_i hlt
      rw [if_pos hlt]
      cases hp : w.stakePool.pendingFee k with
      | none | two => rw [hp] at hne; exact absurd rfl hne
      | one f => exact Limited.of_reach hl hr k hk f (by rw [hp]; rfl)
    · exact absurd rfl hne

section
open Reference

/-- A pool whose withdrawal fees are one third, of which the one for stake is raised to a half. -/
def raised : World Reference.Key :=
  next (next (next (next (opened ⟨10, 1⟩ ⟨3, 1⟩ ⟨7, 1⟩) (setFee (.stakeWithdrawal ⟨2, 1⟩)))
    (.advanceEpoch 11 false (fun _ => none))) updatePool) (.advanceEpoch 12 false (fun _ => none))

theorem withdrawal_fee_limit_raised :
    (next raised updatePool).stakePool.activeFee .stakeWithdrawal = ⟨2, 1⟩ ∧
      Fee.WithinLimit ⟨2, 1⟩ ⟨3, 1⟩ := by
  have hnone : ∀ (w : World Reference.Key) (l : Label Reference.Key), l.request = none → WithdrawalFeeFits w l := by
    intro w l h r hr
    rw [h] at hr
    cases hr
  have hr : (poolSystem runtime).Reach WithdrawalFeeFits raised := by
    refine (((((Reach.of_init (S := poolSystem runtime) (initialized_opened (by decide +kernel))).step ?_ (next_step ?_)).step
      (hnone _ _ rfl) (next_step ?_)).step (hnone _ _ rfl) (next_step ?_)).step (hnone _ _ rfl) (next_step ?_))
    · intro r hr _
      cases hr
      decide +kernel
    all_goals decide +kernel
  have h2 : (next raised updatePool).stakePool.activeFee .stakeWithdrawal = ⟨2, 1⟩ := by decide +kernel
  have h3 : raised.stakePool.activeFee .stakeWithdrawal = ⟨3, 1⟩ := by decide +kernel
  have h := (withdrawal_fee_limit lawful).2.2 raised updatePool _ .stakeWithdrawal hr (next_step (by decide +kernel))
    (by decide) (by rw [h2, h3]; decide)
  rw [h2, h3] at h
  exact ⟨h2, h⟩

/-- The smallest fee above zero. -/
def tiny : Fee := ⟨UInt64.ofNat (2 ^ 64 - 1), 1⟩

/-- All of the withdrawal. -/
def everything : Fee := ⟨UInt64.ofNat (2 ^ 64 - 1), UInt64.ofNat (2 ^ 64 - 1)⟩

/-- A pool whose withdrawal fees are as good as nothing, of which the one for stake is raised to everything. -/
def seized : World Reference.Key :=
  after (opened ⟨10, 1⟩ tiny ⟨7, 1⟩) [setFee (.stakeWithdrawal everything),
    .advanceEpoch 11 false (fun _ => none), updatePool, .advanceEpoch 12 false (fun _ => none)]

theorem withdrawal_fee_seized : (poolSystem runtime).Reachable seized ∧
    Step runtime seized updatePool (next seized updatePool) ∧
    seized.stakePool.activeFee .stakeWithdrawal = tiny ∧
    (next seized updatePool).stakePool.activeFee .stakeWithdrawal = everything ∧
    tiny.atMostOne ∧ everything.atMostOne ∧ everything.checkWithdrawal tiny = .ok () ∧
    ¬ everything.WithinLimit tiny := by
  refine ⟨reachable_after (initialized_opened (by decide +kernel)) (by decide +kernel), next_step (by decide +kernel),
    by decide +kernel, by decide +kernel, by decide, by decide, by decide +kernel, ?_⟩
  rw [Fee.withinLimit_iff (by decide)]
  decide +kernel

end

end SplStakePool
