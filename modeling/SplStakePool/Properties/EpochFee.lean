import SplStakePool.Properties.Arithmetic

/-!
# What the epoch fee is worth

The fee on a reward is rounded up in lamports and then down in tokens, and what these are redeemed for is
rounded down again. So the manager gets at most the fee rounded up, and all of it exactly when the tokens come
out even.

The remainder of the first division is the remainder of the redemption as well (`redeem_remainder`), so that both
roundings are decided by one divisibility. The bounds that a client may want to rely on are off by one lamport where
it does not hold.
-/

namespace SplStakePool
open Machine

variable {Key : Type} {p : StakePool Key} {T r : Nat}

/-- Tokens for `F` lamports of a total of `A`, against `T` tokens at the price net of these: what the floor cuts
off reappears as the remainder of the redemption. -/
theorem redeem_remainder {T A F : Nat} (hF : F ≤ A) :
    F * (T + T * F / (A - F)) = T * F / (A - F) * A + T * F % (A - F) := by
  have hdiv := Nat.div_add_mod (T * F) (A - F)
  generalize T * F / (A - F) = f at *
  generalize T * F % (A - F) = e at *
  obtain ⟨D, rfl⟩ := Nat.exists_eq_add_of_le hF
  rw [Nat.add_sub_cancel_left] at hdiv
  rw [Nat.mul_add, Nat.mul_add, Nat.mul_comm F T, ← hdiv, Nat.mul_comm D f, Nat.mul_comm F f]
  omega

theorem redeem_le {T A F : Nat} (hF : F ≤ A) :
    T * F / (A - F) * A / (T + T * F / (A - F)) ≤ F := by
  have h := redeem_remainder (T := T) hF
  refine Nat.div_le_of_le_mul ?_
  rw [Nat.mul_comm (T + T * F / (A - F)) F, h]
  omega

/-- All of the fee comes back exactly when the tokens come out even. -/
theorem redeem_eq_iff {T A F : Nat} (hT : 0 < T) (hF : F ≤ A) :
    T * F / (A - F) * A / (T + T * F / (A - F)) = F ↔ A - F ∣ T * F := by
  have h := redeem_remainder (T := T) hF
  have hpos : 0 < T + T * F / (A - F) := Nat.add_pos_left hT _
  rw [Nat.dvd_iff_mod_eq_zero]
  constructor
  · intro he
    have hmul := Nat.div_mul_le_self (T * F / (A - F) * A) (T + T * F / (A - F))
    rw [he] at hmul
    omega
  · intro he
    rw [he, Nat.add_zero] at h
    rw [← h]
    exact Nat.mul_div_cancel _ hpos

/-- At most two lamports are lost, and one for every time that the reward exceeds the total. -/
theorem le_redeem {T r F : Nat} (hT : 0 < T) (hF : F ≤ r) :
    F ≤ T * F / (T + r - F) * (T + r) / (T + T * F / (T + r - F)) + (2 + r / T) := by
  have h := redeem_remainder (T := T) (show F ≤ T + r by omega)
  have hrem := Nat.mod_lt (T * F) (show 0 < T + r - F by omega)
  have hr := Nat.div_add_mod r T
  have hrT := Nat.mod_lt r hT
  generalize T * F / (T + r - F) = f at *
  generalize T * F % (T + r - F) = e at *
  rw [← Nat.sub_le_iff_le_add]
  rw [Nat.le_div_iff_mul_le (by omega)]
  -- the remainder is less than the tokens cut off
  have hcut : e ≤ (2 + r / T) * (T + f) := by
    have hge : (2 + r / T) * T ≤ (2 + r / T) * (T + f) := Nat.mul_le_mul_left _ (by omega)
    have hex : (2 + r / T) * T = 2 * T + T * (r / T) := by rw [Nat.add_mul, Nat.mul_comm (r / T)]
    omega
  rw [Nat.sub_mul]
  omega

/-! ## The fee of the pool -/

theorem Fee.apply_eq {fee : Fee} (hd : 0 < fee.denominator.toNat) (hr : r < 2 ^ 64) :
    fee.apply r = some ((r * fee.numerator.toNat + fee.denominator.toNat - 1) / fee.denominator.toNat) := by
  have hlt := mul_add_lt hr fee.numerator.toNat_lt fee.denominator.toNat_lt
  have hne : ¬ fee.denominator = 0 := fun h => by rw [h] at hd; exact absurd hd (by decide)
  simp only [apply]
  rw [if_neg hne]
  simp only [Option.bind_eq_bind, checkedMul_of_lt (Nat.lt_of_le_of_lt (Nat.le_add_right _ _) hlt),
    Option.bind_some, checkedAdd_of_lt hlt,
    checkedSub_of_le (show 1 ≤ r * fee.numerator.toNat + fee.denominator.toNat by omega)]
  exact checkedDiv_eq_some.2 ⟨by omega, rfl⟩

/-- Rounding up adds one exactly if something is left. -/
theorem ceil_eq {n d : Nat} (hd : 0 < d) : (n + d - 1) / d = if d ∣ n then n / d else n / d + 1 := by
  have hdiv := Nat.div_add_mod n d
  have hlt := Nat.mod_lt n hd
  split
  · rename_i h0
    rw [Nat.dvd_iff_mod_eq_zero] at h0
    rw [show n + d - 1 = d - 1 + d * (n / d) by omega, Nat.add_mul_div_left _ _ hd,
      Nat.div_eq_of_lt (by omega)]
    omega
  · rename_i h0
    rw [Nat.dvd_iff_mod_eq_zero] at h0
    rw [show n + d - 1 = (n % d - 1) + d * (n / d + 1) by rw [Nat.mul_add]; omega, Nat.add_mul_div_left _ _ hd,
      Nat.div_eq_of_lt (by omega)]
    omega

theorem StakePool.calcEpochFeeAmount_eq (hT : p.totalLamports = T) (hS : p.poolTokenSupply = T) (hpos : 0 < T)
    (hr : 0 < r) (hlt : T + r < 2 ^ 64) {F : Nat} (hF : p.epochFee.apply r = some F) (hle : F ≤ r) :
    p.calcEpochFeeAmount r = some (T * F / (T + r - F)) := by
  have hmul := mul_add_lt (show T < 2 ^ 64 by omega) (show F < 2 ^ 64 by omega) (show 0 < 2 ^ 64 by decide)
  have hquot : T * F / (T + r - F) ≤ F := by
    refine Nat.div_le_of_le_mul ?_
    exact Nat.mul_le_mul_right F (by omega)
  simp only [calcEpochFeeAmount, hT, hS]
  rw [if_neg (by omega)]
  simp only [Option.bind_eq_bind, checkedAdd_of_lt (show T + r < 2 ^ 128 by omega), Option.bind_some, hF]
  rw [if_neg (by omega)]
  simp only [checkedMul_of_lt hmul, checkedSub_of_le (show F ≤ T + r by omega), Option.bind_some,
    checkedDiv_eq_some.2 ⟨show T + r - F ≠ 0 by omega, rfl⟩]
  exact tryFrom_of_lt (by omega)

theorem StakePool.calcLamportsWithdrawAmount_eq {t : Nat} (ht : t < 2 ^ 64) (hT : p.totalLamports < 2 ^ 64)
    (hS : 0 < p.poolTokenSupply) (hle : t * p.totalLamports / p.poolTokenSupply < 2 ^ 64) :
    p.calcLamportsWithdrawAmount t = some (t * p.totalLamports / p.poolTokenSupply) := by
  have hmul := mul_add_lt ht hT (show 0 < 2 ^ 64 by decide)
  simp only [calcLamportsWithdrawAmount, checkedMul_of_lt hmul, Option.bind_eq_bind, Option.bind_some]
  split
  · rename_i h
    rw [Nat.div_eq_of_lt (h.resolve_right (by omega))]
    rfl
  · rw [checkedDiv_eq_some.2 ⟨show p.poolTokenSupply ≠ 0 by omega, rfl⟩]
    exact tryFrom_of_lt hle

/-- The fee in lamports: rounded up. -/
def Fee.ceil (fee : Fee) (r : Nat) : Nat :=
  (r * fee.numerator.toNat + fee.denominator.toNat - 1) / fee.denominator.toNat

/-- What the fee tokens for a reward are worth lies between the bounds exactly if the fee comes out even in lamports,
or its tokens do not come out even. It never lies below them. -/
theorem epoch_fee_bound_iff (hT : p.totalLamports = T) (hS : p.poolTokenSupply = T) (hpos : 1 ≤ T)
    (hlt : T + r < 2 ^ 64) (hn : p.epochFee.numerator ≤ p.epochFee.denominator)
    (hd : 1 ≤ p.epochFee.denominator.toNat) :
    ∃ f lamports, p.calcEpochFeeAmount r = some f ∧
      StakePool.calcLamportsWithdrawAmount { p with totalLamports := T + r, poolTokenSupply := T + f } f =
        some lamports ∧
      (lamports ≤ r * p.epochFee.numerator.toNat / p.epochFee.denominator.toNat ∧
          r * p.epochFee.numerator.toNat / p.epochFee.denominator.toNat - (2 + r / T) ≤ lamports ↔
        p.epochFee.denominator.toNat ∣ r * p.epochFee.numerator.toNat ∨
          ¬ T + r - p.epochFee.ceil r ∣ T * p.epochFee.ceil r) ∧
      r * p.epochFee.numerator.toNat / p.epochFee.denominator.toNat - (2 + r / T) ≤ lamports := by
  have hF := Fee.apply_eq hd (show r < 2 ^ 64 by omega)
  have hle := Fee.apply_le (by simpa [Fee.atMostOne] using hn) hF
  have hceil := ceil_eq (n := r * p.epochFee.numerator.toNat) hd
  rcases Nat.eq_zero_or_pos r with rfl | hr
  · -- no reward, no fee
    refine ⟨0, 0, by rw [StakePool.calcEpochFeeAmount, if_pos rfl]; rfl, ?_, ?_, ?_⟩
    · have h := StakePool.calcLamportsWithdrawAmount_eq
        (p := { p with totalLamports := T + 0, poolTokenSupply := T + 0 }) (t := 0) (by decide) hlt hpos (by simp)
      simpa using h
    · simp
    · simp
  have hf := StakePool.calcEpochFeeAmount_eq hT hS hpos hr hlt hF hle
  have hw : p.epochFee.ceil r = (r * p.epochFee.numerator.toNat + p.epochFee.denominator.toNat - 1) /
    p.epochFee.denominator.toNat := rfl
  rw [← hw] at hf hle hceil
  generalize p.epochFee.ceil r = F at *
  have hdown := redeem_le (T := T) (show F ≤ T + r by omega)
  have hiff := redeem_eq_iff hpos (show F ≤ T + r by omega)
  have hup := le_redeem hpos hle
  have hquot : T * F / (T + r - F) ≤ F := Nat.div_le_of_le_mul (Nat.mul_le_mul_right F (by omega))
  refine ⟨_, _, hf, StakePool.calcLamportsWithdrawAmount_eq (by omega) hlt (Nat.add_pos_left hpos _)
    (Nat.lt_of_le_of_lt hdown (by omega)), ?_, ?_⟩
  · dsimp only
    generalize T * F / (T + r - F) * (T + r) / (T + T * F / (T + r - F)) = l at *
    by_cases hdvd : p.epochFee.denominator.toNat ∣ r * p.epochFee.numerator.toNat
    · -- the fee comes out even
      rw [if_pos hdvd] at hceil
      simp only [hdvd, true_or, iff_true]
      rw [Nat.sub_le_iff_le_add]
      exact ⟨hceil ▸ hdown, hceil ▸ hup⟩
    · rw [if_neg hdvd] at hceil
      rw [← hiff]
      simp only [hdvd, false_or]
      rw [Nat.sub_le_iff_le_add]
      constructor
      · intro h
        omega
      · intro h
        exact ⟨by omega, by omega⟩
  · dsimp only
    generalize T * F / (T + r - F) * (T + r) / (T + T * F / (T + r - F)) = l at *
    rw [Nat.sub_le_iff_le_add]
    refine Nat.le_trans ?_ hup
    split at hceil <;> omega

section
open Reference

/-- A pool with one token and one lamport, of which half of every reward goes to the manager. -/
def halved : StakePool Reference.Key :=
  { blankPool with totalLamports := 1, poolTokenSupply := 1, epochFee := ⟨2, 1⟩ }

/-- A pool that takes a tenth of its rewards. -/
def tithed : StakePool Reference.Key :=
  { blankPool with totalLamports := 100, poolTokenSupply := 100, epochFee := ⟨10, 1⟩ }

theorem epoch_fee_bound_iff_tithed : ∃ f lamports, tithed.calcEpochFeeAmount 7 = some f ∧
    StakePool.calcLamportsWithdrawAmount { tithed with totalLamports := 100 + 7, poolTokenSupply := 100 + f } f =
      some lamports ∧ lamports ≤ 7 * 1 / 10 := by
  obtain ⟨f, lamports, hf, hl, hiff, -⟩ := epoch_fee_bound_iff (p := tithed) (T := 100) (r := 7) rfl rfl (by decide)
    (by decide) (by decide) (by decide)
  exact ⟨f, lamports, hf, hl, (hiff.2 (.inr (by decide))).1⟩

/-- Half of a reward of one lamport is none, rounded down, but the manager gets all of it. -/
theorem epoch_fee_exceeds : halved.epochFee.numerator ≤ halved.epochFee.denominator ∧
    halved.calcEpochFeeAmount 1 = some 1 ∧
    StakePool.calcLamportsWithdrawAmount { halved with totalLamports := 1 + 1, poolTokenSupply := 1 + 1 } 1 =
      some 1 ∧ ¬ 1 ≤ 1 * halved.epochFee.numerator.toNat / halved.epochFee.denominator.toNat := by decide

end

end SplStakePool
