import SplStakePool.Client.Withdraw

/-!
# The plan of a withdrawal

The command line client goes through the accounts of the pool, the largest of the validators first, then the
transient ones and the reserve, and takes from each what it may give until the amount is met. What it takes and
what remains always make up the amount, by induction along the accounts, so that a plan, with which nothing
remains, is exact.

The client computes in unchecked machine integers. It panics or wraps on a fee of nothing or of everything, on a
product of an account's tokens and the denominator of the fee, and on a reserve that lacks its rent. When an
account is come to only depends on what the accounts before it may give, so that the inputs on which it returns can
be told from the accounts in their order, before the loop is run.
-/

namespace SplStakePool
open Exec Machine

variable {Key : Type}

section
variable {stakePool : StakePool Key} {skipFee : Bool} {minBalance remainingAmount : Nat}
  {accounts : List (Key × Nat × Option Key)} {plan : List (WithdrawAccount Key)}

theorem withdrawFromAccounts_filter (accounts : List (Key × Nat × Option Key)) (remainingAmount : Nat) :
    withdrawFromAccounts stakePool minBalance skipFee accounts remainingAmount =
      withdrawFromAccounts stakePool minBalance skipFee (accounts.filter fun c => minBalance < c.2.1)
        remainingAmount := by
  induction accounts generalizing remainingAmount with
  | nil => rfl
  | cons c accounts ih =>
    obtain ⟨stakeAddress, lamports, voteAddress⟩ := c
    by_cases h : lamports ≤ minBalance
    · rw [List.filter_cons_of_neg (by simpa using h), withdrawFromAccounts, if_pos h, ih]
    · rw [List.filter_cons_of_pos (by simpa using h), withdrawFromAccounts, withdrawFromAccounts, if_neg h, if_neg h]
      simp only [ih]

/-- The loop passes over an account or takes an amount from it, after which it stops or goes on. -/
theorem withdrawFromAccounts_cons {c : Key × Nat × Option Key} {remainingAmount' : Nat}
    (h : withdrawFromAccounts stakePool minBalance skipFee (c :: accounts) remainingAmount =
      some (plan, remainingAmount')) :
    withdrawFromAccounts stakePool minBalance skipFee accounts remainingAmount = some (plan, remainingAmount') ∨
      ∃ poolAmount ≤ remainingAmount, ∃ rest, plan = ⟨c.1, c.2.2, poolAmount⟩ :: rest ∧
        (rest = [] ∧ poolAmount = remainingAmount ∧ remainingAmount' = 0 ∨
          withdrawFromAccounts stakePool minBalance skipFee accounts (remainingAmount - poolAmount) =
            some (rest, remainingAmount')) := by
  obtain ⟨stakeAddress, lamports, voteAddress⟩ := c
  rw [withdrawFromAccounts] at h
  split at h
  · exact .inl h
  simp only [Option.bind_eq_bind, Option.bind_eq_some_iff] at h
  obtain ⟨available, -, h⟩ := h
  have hle : min available remainingAmount ≤ remainingAmount := Nat.min_le_right _ _
  refine .inr ⟨min available remainingAmount, hle, ?_⟩
  split at h
  next hmet =>
    cases h
    refine ⟨[], rfl, .inl ⟨rfl, ?_, rfl⟩⟩
    omega
  next =>
    obtain ⟨⟨rest, remaining⟩, hrest, h⟩ := Option.bind_eq_some_iff.1 h
    cases h
    exact ⟨rest, rfl, .inr hrest⟩

/-- The plan and what remains make up the amount. -/
theorem withdrawFromAccounts_sum {remainingAmount' : Nat}
    (h : withdrawFromAccounts stakePool minBalance skipFee accounts remainingAmount = some (plan, remainingAmount')) :
    (plan.map (·.poolAmount)).sum + remainingAmount' = remainingAmount := by
  induction accounts generalizing remainingAmount plan with
  | nil =>
    cases h
    exact Nat.zero_add _
  | cons c accounts ih =>
    rcases withdrawFromAccounts_cons h with h | ⟨poolAmount, hle, rest, rfl, ⟨rfl, rfl, rfl⟩ | h⟩
    · exact ih h
    · exact Nat.add_zero _
    · have := ih h
      rw [List.map_cons, List.sum_cons]
      dsimp only
      omega

/-- The pool tokens that an account may give, 0 where the client cannot compute them. -/
def capacity (stakePool : StakePool Key) (skipFee : Bool) (c : Key × Nat × Option Key) : ℕ :=
  (availableForWithdrawal stakePool skipFee c.2.1).getD 0

/-- What a list of accounts may give. -/
def capacities (stakePool : StakePool Key) (skipFee : Bool) (accounts : List (Key × Nat × Option Key)) : ℕ :=
  (accounts.map (capacity stakePool skipFee)).sum

theorem withdrawFromAccounts_cons_usable {c : Key × Nat × Option Key} {remainingAmount' : Nat}
    (husable : minBalance < c.2.1)
    (h : withdrawFromAccounts stakePool minBalance skipFee (c :: accounts) remainingAmount =
      some (plan, remainingAmount')) :
    ∃ rest, plan = ⟨c.1, c.2.2, min (capacity stakePool skipFee c) remainingAmount⟩ :: rest ∧
      (remainingAmount ≤ capacity stakePool skipFee c ∧ rest = [] ∧ remainingAmount' = 0 ∨
        capacity stakePool skipFee c < remainingAmount ∧
          withdrawFromAccounts stakePool minBalance skipFee accounts
            (remainingAmount - capacity stakePool skipFee c) = some (rest, remainingAmount')) := by
  obtain ⟨stakeAddress, lamports, voteAddress⟩ := c
  rw [withdrawFromAccounts, if_neg (Nat.not_le.2 husable)] at h
  simp only [Option.bind_eq_bind, Option.bind_eq_some_iff] at h
  obtain ⟨available, havailable, h⟩ := h
  have hcapacity : capacity stakePool skipFee (stakeAddress, lamports, voteAddress) = available := by
    rw [capacity, havailable]
    rfl
  rw [hcapacity]
  split at h
  next hmet =>
    cases h
    exact ⟨[], rfl, .inl ⟨by omega, rfl, rfl⟩⟩
  next hmet =>
    obtain ⟨⟨rest, remaining⟩, hrest, h⟩ := Option.bind_eq_some_iff.1 h
    cases h
    refine ⟨rest, rfl, .inr ⟨by omega, ?_⟩⟩
    rwa [show min available remainingAmount = available by omega] at hrest

theorem withdrawFromAccounts_remaining {remainingAmount' : Nat} (husable : ∀ c ∈ accounts, minBalance < c.2.1)
    (h : withdrawFromAccounts stakePool minBalance skipFee accounts remainingAmount = some (plan, remainingAmount')) :
    remainingAmount' = remainingAmount - capacities stakePool skipFee accounts := by
  induction accounts generalizing remainingAmount plan with
  | nil =>
    cases h
    rfl
  | cons c accounts ih =>
    obtain ⟨husable, hrest⟩ := List.forall_mem_cons.1 husable
    rw [capacities, List.map_cons, List.sum_cons]
    obtain ⟨rest, -, ⟨hle, -, rfl⟩ | ⟨-, h⟩⟩ := withdrawFromAccounts_cons_usable husable h
    · omega
    · rw [ih hrest h, capacities]
      omega

/-- The loop gets to its end exactly if it can compute what each account gives that it comes to: the first
one, and the ones before which the amount is not met. -/
theorem withdrawFromAccounts_isSome_iff (husable : ∀ c ∈ accounts, minBalance < c.2.1) :
    (withdrawFromAccounts stakePool minBalance skipFee accounts remainingAmount).isSome ↔
      ∀ before c after, accounts = before ++ c :: after →
        before = [] ∨ capacities stakePool skipFee before < remainingAmount →
        (availableForWithdrawal stakePool skipFee c.2.1).isSome := by
  induction accounts generalizing remainingAmount with
  | nil =>
    refine iff_of_true rfl fun before c after h => ?_
    cases before <;> cases h
  | cons c accounts ih =>
    obtain ⟨husable, hrest⟩ := List.forall_mem_cons.1 husable
    obtain ⟨stakeAddress, lamports, voteAddress⟩ := c
    dsimp only at husable
    rw [withdrawFromAccounts, if_neg (Nat.not_le.2 husable)]
    cases havailable : availableForWithdrawal stakePool skipFee lamports with
    | none =>
      refine iff_of_false (by simp) fun h => ?_
      have := h [] (stakeAddress, lamports, voteAddress) accounts rfl (.inl rfl)
      rw [havailable] at this
      cases this
    | some available =>
      have hcapacity : capacity stakePool skipFee (stakeAddress, lamports, voteAddress) = available := by
        rw [capacity, havailable]
        rfl
      simp only [Option.bind_eq_bind, Option.bind_some]
      split
      next hmet =>
        refine iff_of_true rfl fun before c after h hreached => ?_
        cases before with
        | nil =>
          cases h
          rw [havailable]
          rfl
        | cons b before =>
          cases h
          rcases hreached with h | h
          · cases h
          · rw [capacities, List.map_cons, List.sum_cons, hcapacity] at h
            omega
      next hmet =>
        rw [show min available remainingAmount = available by omega] at hmet ⊢
        have hsome : ((withdrawFromAccounts stakePool minBalance skipFee accounts (remainingAmount - available)).bind
            fun r => some ((⟨stakeAddress, voteAddress, available⟩ : WithdrawAccount Key) :: r.1, r.2)).isSome ↔
            (withdrawFromAccounts stakePool minBalance skipFee accounts (remainingAmount - available)).isSome := by
          cases withdrawFromAccounts stakePool minBalance skipFee accounts (remainingAmount - available) <;> rfl
        refine hsome.trans ((ih hrest).trans ?_)
        constructor
        · intro h before c after heq hreached
          cases before with
          | nil =>
            cases heq
            rw [havailable]
            rfl
          | cons b before =>
            cases heq
            refine h before c after rfl (.inr ?_)
            rcases hreached with hreached | hreached
            · cases hreached
            · rw [capacities, List.map_cons, List.sum_cons, hcapacity] at hreached
              rw [capacities]
              omega
        · intro h before c after heq hreached
          refine h ((stakeAddress, lamports, voteAddress) :: before) c after (by rw [heq]; rfl) (.inr ?_)
          rw [capacities, List.map_cons, List.sum_cons, hcapacity]
          rcases hreached with rfl | hreached
          · rw [List.map_nil, List.sum_nil]
            omega
          · rw [capacities] at hreached
            omega

end

section
variable [DecidableEq Key] (rt : Runtime Key) (w : World Key) (skipFee : Bool) (poolAmount : Nat)

/-- The lamports of the reserve that the client counts. -/
def reserveLamports : Nat :=
  (w.accounts w.stakePool.reserveStake).lamports - rt.rentMinimumBalance stakeSpace - minimumReserve

/-- The accounts that have more than must remain on them. -/
def usableAccounts : List (Key × Nat × Option Key) :=
  (withdrawableAccounts rt w (reserveLamports rt w)).filter fun c => minBalance rt w < c.2.1

variable {rt w} in
theorem minBalance_lt {c : Key × Nat × Option Key} (h : c ∈ usableAccounts rt w) : minBalance rt w < c.2.1 := by
  simpa using (List.mem_filter.1 h).2

/-- The client can compute with machine integers what it needs for the plan: the reserve has its rent, the fee
is at most all, and the pool tokens of each account that it comes to can be computed, with the fee added if
there is one. -/
structure Computable : Prop where
  reserve : rt.rentMinimumBalance stakeSpace + minimumReserve ≤ (w.accounts w.stakePool.reserveStake).lamports
  fee : w.stakePool.stakeWithdrawalFee.numerator.toNat ≤ w.stakePool.stakeWithdrawalFee.denominator.toNat
  accounts : ∀ before c after, usableAccounts rt w = before ++ c :: after →
    before = [] ∨ capacities w.stakePool skipFee before < poolAmount →
    ∃ poolTokens, w.stakePool.calcPoolTokensForDeposit c.2.1 = some poolTokens ∧
      (skipFee = true ∨ poolTokens * w.stakePool.stakeWithdrawalFee.denominator.toNat < 2 ^ 64 ∧
        w.stakePool.stakeWithdrawalFee.numerator ≠ w.stakePool.stakeWithdrawalFee.denominator)

/-- The accounts that the client needs can be read. -/
def Fetched : Prop :=
  (∃ m, (w.accounts w.stakePool.poolMint).data = .mint m) ∧ (w.accounts w.stakePool.reserveStake).lamports ≠ 0

end

section
variable [DecidableEq Key] {rt : Runtime Key} {w : World Key} {skipFee : Bool} {poolAmount : Nat}
  {plan : List (WithdrawAccount Key)}

theorem checkedMulDiv_isSome_iff (bits a b c : Nat) :
    ((checkedMul bits a b).bind fun n => checkedDiv n c).isSome ↔ a * b < 2 ^ bits ∧ c ≠ 0 := by
  rw [checkedMul]
  split
  next h =>
    rw [Option.bind_some, checkedDiv]
    split
    next hc => exact iff_of_false Bool.false_ne_true fun h => h.2 hc
    next hc => exact iff_of_true rfl ⟨h, hc⟩
  next h => exact iff_of_false Bool.false_ne_true fun h' => h h'.1

omit [DecidableEq Key] in
theorem availableForWithdrawal_isSome_iff {stakePool : StakePool Key} {lamports : Nat}
    (hfee : stakePool.stakeWithdrawalFee.numerator.toNat ≤ stakePool.stakeWithdrawalFee.denominator.toNat) :
    (availableForWithdrawal stakePool skipFee lamports).isSome ↔
      ∃ poolTokens, stakePool.calcPoolTokensForDeposit lamports = some poolTokens ∧
        (skipFee = true ∨ poolTokens * stakePool.stakeWithdrawalFee.denominator.toNat < 2 ^ 64 ∧
          stakePool.stakeWithdrawalFee.numerator ≠ stakePool.stakeWithdrawalFee.denominator) := by
  have hne : stakePool.stakeWithdrawalFee.numerator ≠ stakePool.stakeWithdrawalFee.denominator ↔
      stakePool.stakeWithdrawalFee.denominator.toNat - stakePool.stakeWithdrawalFee.numerator.toNat ≠ 0 := by
    rw [Ne, ← UInt64.toNat_inj]
    omega
  rw [availableForWithdrawal, checkedSub_of_le hfee]
  simp only [Option.bind_eq_bind, Option.bind_some, hne]
  cases stakePool.calcPoolTokensForDeposit lamports with
  | none => simp
  | some poolTokens =>
    cases skipFee with
    | true => simp
    | false =>
      have hmuldiv := checkedMulDiv_isSome_iff 64 poolTokens stakePool.stakeWithdrawalFee.denominator.toNat
        (stakePool.stakeWithdrawalFee.denominator.toNat - stakePool.stakeWithdrawalFee.numerator.toNat)
      simpa using hmuldiv

theorem prepareWithdrawAccounts_isSome_iff :
    (prepareWithdrawAccounts rt w poolAmount skipFee).isSome ↔
      (Fetched w → Computable rt w skipFee poolAmount) := by
  rw [prepareWithdrawAccounts]
  split
  next m hmint =>
    dsimp only
    split
    next hlamports => exact iff_of_true rfl fun h => absurd hlamports h.2
    next hlamports =>
      have hfetched : Fetched w := ⟨⟨m, hmint⟩, hlamports⟩
      have hloop : ∀ n, n = reserveLamports rt w → ((withdrawFromAccounts w.stakePool (minBalance rt w) skipFee
          (withdrawableAccounts rt w n) poolAmount).isSome ↔ ∀ before c after,
            usableAccounts rt w = before ++ c :: after →
            before = [] ∨ capacities w.stakePool skipFee before < poolAmount →
            (availableForWithdrawal w.stakePool skipFee c.2.1).isSome) := by
        rintro n rfl
        rw [withdrawFromAccounts_filter]
        exact withdrawFromAccounts_isSome_iff fun c hc => minBalance_lt hc
      constructor
      · intro h _
        obtain ⟨result, h⟩ := Option.isSome_iff_exists.1 h
        simp only [Option.bind_eq_bind, Option.bind_eq_some_iff, checkedSub_eq_some] at h
        obtain ⟨_, ⟨hrent, rfl⟩, n, ⟨hminimum, hn⟩, _, ⟨hfee, -⟩, r, hr, -⟩ := h
        refine ⟨by omega, hfee, fun before c after heq hreached => ?_⟩
        rw [← availableForWithdrawal_isSome_iff hfee]
        exact (hloop n hn.symm).1 (Option.isSome_iff_exists.2 ⟨r, hr⟩) before c after heq hreached
      · intro h
        obtain ⟨hreserve, hfee, haccounts⟩ := h hfetched
        have hsome := (hloop _ rfl).2 fun before c after heq hreached =>
          (availableForWithdrawal_isSome_iff hfee).2 (haccounts before c after heq hreached)
        obtain ⟨⟨withdrawFrom, remaining⟩, hr⟩ := Option.isSome_iff_exists.1 hsome
        rw [reserveLamports] at hr
        rw [checkedSub_of_le (by omega)]
        simp only [Option.bind_eq_bind, Option.bind_some]
        rw [checkedSub_of_le (by omega), checkedSub_of_le hfee]
        simp only [Option.bind_some, hr]
        split <;> rfl
  next hmint => exact iff_of_true rfl fun ⟨⟨m, h⟩, _⟩ => absurd h (hmint m)

/-- The client returns a plan exactly if the loop, which it comes to when the reserve has its rent and the fee is at
most all, leaves nothing. -/
theorem prepareWithdrawAccounts_eq_ok_iff :
    prepareWithdrawAccounts rt w poolAmount skipFee = some (.ok plan) ↔
      Fetched w ∧
        rt.rentMinimumBalance stakeSpace + minimumReserve ≤ (w.accounts w.stakePool.reserveStake).lamports ∧
        w.stakePool.stakeWithdrawalFee.numerator.toNat ≤ w.stakePool.stakeWithdrawalFee.denominator.toNat ∧
        withdrawFromAccounts w.stakePool (minBalance rt w) skipFee (usableAccounts rt w) poolAmount =
          some (plan, 0) := by
  rw [prepareWithdrawAccounts, usableAccounts, ← withdrawFromAccounts_filter, reserveLamports]
  split
  next m hmint =>
    dsimp only
    split
    next hlamports => exact iff_of_false (by simp) fun h => h.1.2 hlamports
    next hlamports =>
      simp only [Option.bind_eq_bind, Option.bind_eq_some_iff, checkedSub_eq_some]
      constructor
      · rintro ⟨_, ⟨hrent, rfl⟩, n, ⟨hminimum, rfl⟩, _, ⟨hfee, -⟩, ⟨withdrawFrom, remaining⟩, hloop, h⟩
        split at h
        · cases h
        next hremaining =>
          cases h
          obtain rfl := Nat.eq_zero_of_not_pos hremaining
          exact ⟨⟨⟨m, hmint⟩, hlamports⟩, by omega, hfee, hloop⟩
      · rintro ⟨-, hreserve, hfee, hloop⟩
        exact ⟨_, ⟨by omega, rfl⟩, _, ⟨by omega, rfl⟩, _, ⟨hfee, rfl⟩, _, hloop, rfl⟩
  next hmint => exact iff_of_false (by simp) fun ⟨⟨⟨m, h⟩, _⟩, _⟩ => absurd h (hmint m)

/-- A plan gives exactly the amount. -/
theorem sum_plan (h : prepareWithdrawAccounts rt w poolAmount skipFee = some (.ok plan)) :
    (plan.map (·.poolAmount)).sum = poolAmount := by
  obtain ⟨-, -, -, hloop⟩ := prepareWithdrawAccounts_eq_ok_iff.1 h
  have := withdrawFromAccounts_sum hloop
  omega

/-- There is a plan exactly if the accounts that the client reads can be computed with and give the amount. -/
theorem exists_plan_iff (hcomputable : Computable rt w skipFee poolAmount) :
    (∃ plan, prepareWithdrawAccounts rt w poolAmount skipFee = some (.ok plan)) ↔
      Fetched w ∧ poolAmount ≤ capacities w.stakePool skipFee (usableAccounts rt w) := by
  constructor
  · rintro ⟨plan, h⟩
    obtain ⟨hfetched, -, -, hloop⟩ := prepareWithdrawAccounts_eq_ok_iff.1 h
    have := withdrawFromAccounts_remaining (fun c hc => minBalance_lt hc) hloop
    exact ⟨hfetched, by omega⟩
  · rintro ⟨hfetched, hle⟩
    obtain ⟨hreserve, hfee, haccounts⟩ := hcomputable
    have hsome := (withdrawFromAccounts_isSome_iff (fun c hc => minBalance_lt hc)).2
      fun before c after heq hreached =>
        (availableForWithdrawal_isSome_iff hfee).2 (haccounts before c after heq hreached)
    obtain ⟨⟨plan, remaining⟩, hloop⟩ := Option.isSome_iff_exists.1 hsome
    obtain rfl : remaining = 0 := by
      rw [withdrawFromAccounts_remaining (fun c hc => minBalance_lt hc) hloop]
      omega
    exact ⟨plan, prepareWithdrawAccounts_eq_ok_iff.2 ⟨hfetched, hreserve, hfee, hloop⟩⟩

end

end SplStakePool
