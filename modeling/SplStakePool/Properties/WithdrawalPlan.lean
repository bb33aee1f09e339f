import SplStakePool.Client.JsWithdraw
import SplStakePool.Lib.Greedy
import SplStakePool.Properties.ClientAgreement

/-!
# What a withdrawal of the JavaScript client covers

The plan of a withdrawal meets the amount from the usable accounts one after the other. Only the first six of
the plan get an instruction, and a validator stake account is named as if its entry had no seed.

The plan is a greedy allocation in the sense of the library, and its first six accounts are the first six usable
ones, so that what the instructions withdraw is known from what these can give. That an account is one of the pool
depends on its type alone: the transient ones and the reserve always are, and a validator stake account is named
by an address that is its own only without a seed.
-/

namespace SplStakePool.Js
open Borsh

variable {Key : Type}

/-- The source and the pool tokens of a withdrawal. -/
def withdrawal : TransactionInstruction Key → Option (Key × Nat)
  | .stakePool ⟨_, _ :: _ :: _ :: validatorStake :: _, .withdrawStake poolTokens⟩ =>
    some (validatorStake.key, poolTokens)
  | _ => none

def withdrawals (instructions : List (TransactionInstruction Key)) : List (Key × Nat) :=
  instructions.filterMap withdrawal

/-- The amount that an instruction approves. -/
def approval : TransactionInstruction Key → Option Nat
  | .approve _ _ _ amount => some amount
  | _ => none

section
variable [DecidableEq Key] (rt : Runtime Key) (connection : Connection Key) (stakePool : StakePool Key)
  (stakePoolAddress : Key) (l : SplStakePool.ValidatorList Key)

/-- The stake accounts of a pool under the seeds of its list. -/
inductive PoolAccount : Key → Prop
  | reserve : PoolAccount stakePool.reserveStake
  | validator {v : SplStakePool.ValidatorStakeInfo Key} (hv : v ∈ l.validators) :
    PoolAccount (SplStakePool.findStakeProgramAddress rt connection.programId v.voteAccountAddress
      stakePoolAddress (nonZeroU32 v.validatorSeedSuffix)).1
  | transient {v : SplStakePool.ValidatorStakeInfo Key} (hv : v ∈ l.validators) :
    PoolAccount (SplStakePool.findTransientStakeProgramAddress rt connection.programId v.voteAccountAddress
      stakePoolAddress v.transientSeedSuffix).1

/-- The withdrawals take the amount, each from an account of the pool. -/
structure Covers (instructions : List (TransactionInstruction Key)) (poolAmount : Nat) : Prop where
  sum : ((withdrawals instructions).map Prod.snd).sum = poolAmount
  named : ∀ w ∈ withdrawals instructions, PoolAccount rt connection stakePool stakePoolAddress l w.1

/-! ## When they do it -/

/-- The validator is listed without a seed, or the reserve has the address that it has then. -/
def Unseeded (voteAccount : Key) : Prop :=
  (∃ v ∈ l.validators, v.voteAccountAddress = voteAccount ∧ v.validatorSeedSuffix = 0) ∨
    findStakeProgramAddress rt connection.programId voteAccount stakePoolAddress none = stakePool.reserveStake

/-- The pool tokens that an account may give. -/
def capacity (skipFee : Bool) (account : ValidatorAccount Key) : ℕ :=
  if account.lamports ≤ minBalance connection ∧ account.type = .transient then 0
  else (availableForWithdrawal stakePool skipFee account.lamports).toNat

/-- The accounts in the order of their use, with the pool tokens that they may give. -/
def sources (skipFee : Bool) (accounts : List (ValidatorAccount Key)) (types : List ValidatorAccountType) :
    List (ValidatorAccount Key × ℕ) :=
  (types.flatMap fun type => accounts.filter fun a => a.type = type).map fun a =>
    (a, capacity connection stakePool skipFee a)

/-- The accounts that may give some. -/
def usable (skipFee : Bool) (accounts : List (ValidatorAccount Key)) : List (ValidatorAccount Key × ℕ) :=
  (sources connection stakePool skipFee accounts withdrawalOrder).filter fun s => 0 < s.2

/-- What the client makes of the list. -/
def decoded : ValidatorList Key :=
  ⟨l.header.accountType.toU8.toNat, l.header.maxValidators % 2 ^ 32, l.validators.map .of⟩

/-- The first six usable accounts give the amount, and the validator stake accounts that are needed for it
have no seed. -/
structure PlanFits (skipFee : Bool) (accounts : List (ValidatorAccount Key)) (poolAmount : Nat) : Prop where
  sum : poolAmount ≤ Greedy.total ((usable connection stakePool skipFee accounts).take (maxWithdrawAccounts + 1))
  unseeded : ∀ before account after, usable connection stakePool skipFee accounts = before ++ account :: after →
    Greedy.total before < poolAmount → account.1.type = .preferred ∨ account.1.type = .active →
    ∀ voteAccount ∈ account.1.voteAddress, Unseeded rt connection stakePool stakePoolAddress l voteAccount

/-- Where the withdrawal takes its lamports from. -/
def RequestFits (sort : (ValidatorAccount Key → ValidatorAccount Key → Option Int) → Sorting (ValidatorAccount Key))
    (params : WithdrawStakeParams Key) (poolAmount : Nat) : Prop :=
  if params.useReserve then True
  else if (params.stakeReceiver.bind connection.stakeAccount).any (·.delegated) then
    ∀ voter ∈ (params.stakeReceiver.bind connection.stakeAccount).bind (·.voter),
      Unseeded rt connection stakePool stakePoolAddress l voter
  else
    match params.voteAccountAddress with
    | some voteAccountAddress => Unseeded rt connection stakePool stakePoolAddress l voteAccountAddress
    | none => ∀ accounts ∈ withdrawableAccounts rt sort connection stakePool stakePoolAddress
        params.validatorComparator (decoded l),
      PlanFits rt connection stakePool stakePoolAddress l (params.poolTokenAccount.getD
        (params.associatedTokenAddress stakePool.poolMint params.tokenOwner) = stakePool.managerFeeAccount)
        accounts poolAmount

end

/-! ## The plan -/

section
variable {connection : Connection Key} {stakePool : StakePool Key} {skipFee : Bool}

/-- What an account gives. -/
def withdrawFrom (s : ValidatorAccount Key × ℕ) : WithdrawAccount Key :=
  ⟨s.1.stakeAddress, s.1.voteAddress, s.2⟩

theorem withdrawFromAccounts_eq (accounts : List (ValidatorAccount Key)) (remainingAmount : Nat) :
    withdrawFromAccounts connection stakePool skipFee accounts remainingAmount =
      ((Greedy.allocate (accounts.map fun a => (a, capacity connection stakePool skipFee a)) remainingAmount).map
          withdrawFrom,
        remainingAmount - Greedy.total (accounts.map fun a => (a, capacity connection stakePool skipFee a))) := by
  induction accounts generalizing remainingAmount with
  | nil => rfl
  | cons a accounts ih =>
    rw [withdrawFromAccounts, List.map_cons, Greedy.total_cons]
    by_cases hskip : a.lamports ≤ minBalance connection ∧ a.type = .transient
    · have hcap : capacity connection stakePool skipFee a = 0 := if_pos hskip
      rw [if_pos hskip, ih, hcap, Greedy.allocate_skip (Nat.zero_min _), Nat.zero_add]
    · have hcap : capacity connection stakePool skipFee a =
          (availableForWithdrawal stakePool skipFee a.lamports).toNat := if_neg hskip
      rw [if_neg hskip, hcap]
      dsimp only
      generalize availableForWithdrawal stakePool skipFee a.lamports = available
      by_cases hpos : min available (remainingAmount : Int) ≤ 0
      · rw [if_pos hpos, ih, Greedy.allocate_skip (by omega)]
        congr 1
        omega
      · have hmin : (min available (remainingAmount : Int)).toNat = min available.toNat remainingAmount := by omega
        rw [if_neg hpos, hmin, Greedy.allocate_give (by omega)]
        by_cases hrest : remainingAmount - min available.toNat remainingAmount = 0
        · rw [if_pos hrest, hrest, Greedy.allocate_zero,
            show remainingAmount - (available.toNat + Greedy.total _) = 0 by omega]
          rfl
        · rw [if_neg hrest, ih]
          refine Prod.ext rfl ?_
          dsimp only
          omega

theorem withdrawFromTypes_eq (accounts : List (ValidatorAccount Key)) (types : List ValidatorAccountType)
    (remainingAmount : Nat) :
    withdrawFromTypes connection stakePool skipFee accounts types remainingAmount =
      ((Greedy.allocate (sources connection stakePool skipFee accounts types) remainingAmount).map withdrawFrom,
        remainingAmount - Greedy.total (sources connection stakePool skipFee accounts types)) := by
  induction types generalizing remainingAmount with
  | nil => rfl
  | cons type types ih =>
    have happ : sources connection stakePool skipFee accounts (type :: types) =
        (accounts.filter fun a => a.type = type).map (fun a => (a, capacity connection stakePool skipFee a)) ++
          sources connection stakePool skipFee accounts types := by
      rw [sources, List.flatMap_cons, List.map_append]
      rfl
    rw [withdrawFromTypes, withdrawFromAccounts_eq, happ, Greedy.allocate_append, List.map_append, Greedy.total_append]
    dsimp only
    generalize (accounts.filter fun a => a.type = type).map
      (fun a => (a, capacity connection stakePool skipFee a)) = first
    by_cases hrest : remainingAmount - Greedy.total first = 0
    · rw [if_pos hrest, hrest, Greedy.allocate_zero, List.map_nil, List.append_nil]
      refine Prod.ext rfl ?_
      dsimp only
      omega
    · rw [if_neg hrest, ih]
      refine Prod.ext rfl ?_
      dsimp only
      omega

end

section
variable [DecidableEq Key] {rt : Runtime Key} {newPublicKey : List UInt8 → Key} {keyBytes : Key → List UInt8}
  {sort : (ValidatorAccount Key → ValidatorAccount Key → Option Int) → Sorting (ValidatorAccount Key)}
  {connection : Connection Key} {stakePool : StakePool Key} {stakePoolAddress : Key}
  {l : SplStakePool.ValidatorList Key} {params : WithdrawStakeParams Key}
  {compareFn : Option (ValidatorAccount Key → ValidatorAccount Key → Option Int)} {skipFee : Bool}
  {accounts : List (ValidatorAccount Key)} {plan : List (WithdrawAccount Key)} {poolAmount : Nat}

/-- The plan is an allocation to the usable accounts. -/
theorem prepareWithdrawAccounts_eq_some
    (hlist : validatorListOf newPublicKey connection stakePool = some (decoded l))
    (h : prepareWithdrawAccounts rt newPublicKey sort connection stakePool stakePoolAddress poolAmount compareFn
      skipFee = some plan) :
    ∃ accounts, withdrawableAccounts rt sort connection stakePool stakePoolAddress compareFn (decoded l) =
        some accounts ∧
      plan = (Greedy.allocate (usable connection stakePool skipFee accounts) poolAmount).map withdrawFrom := by
  simp only [prepareWithdrawAccounts, Option.bind_eq_bind, hlist, Option.bind_some] at h
  split at h
  · cases h
  · obtain ⟨accounts, haccounts, h⟩ := Option.bind_eq_some_iff.1 h
    refine ⟨accounts, haccounts, ?_⟩
    rw [withdrawFromTypes_eq] at h
    dsimp only at h
    split at h
    · cases h
    · cases h
      rw [usable, Greedy.allocate_filter]

omit [DecidableEq Key] in
/-- Only the first accounts of a plan get an instruction. -/
theorem withdrawInstructions_eq_some {poolTokenAccount : Key} {stakeReceiverAccount : Option (StakeAccount Key)}
    {i : Nat} {instructions : List (TransactionInstruction Key)}
    (h : withdrawInstructions rt connection stakePool stakePoolAddress params poolTokenAccount
      stakeReceiverAccount i plan = some instructions) :
    withdrawals instructions =
        (plan.take (maxWithdrawAccounts + 1 - i)).map (fun a => (a.stakeAddress, a.poolAmount)) ∧
      instructions.filterMap approval = [] := by
  induction plan generalizing i instructions with
  | nil =>
    cases h
    rw [List.take_nil]
    exact ⟨rfl, rfl⟩
  | cons a plan ih =>
    rw [withdrawInstructions] at h
    split at h
    next hi =>
      cases h
      rw [show maxWithdrawAccounts + 1 - i = 0 by omega, List.take_zero]
      exact ⟨rfl, rfl⟩
    next hi =>
      simp only [Option.bind_eq_bind, Option.bind_eq_some_iff, Option.pure_def, Option.some.injEq] at h
      obtain ⟨_, -, poolTokens, htokens, rest, hrest, rfl⟩ := h
      have hpool : poolTokens.toNat = a.poolAmount := by
        rw [safe] at htokens
        split at htokens
        · cases htokens
          rfl
        · cases htokens
      obtain ⟨hplan, happroved⟩ := ih hrest
      rw [show maxWithdrawAccounts + 1 - i = maxWithdrawAccounts + 1 - (i + 1) + 1 by omega, List.take_succ_cons,
        List.map_cons, ← hplan, ← hpool, withdrawals, List.filterMap_append, List.filterMap_append,
        List.filterMap_cons_none (f := approval) rfl, happroved]
      constructor
      · split <;> rfl
      · split <;> rfl

/-! ## The names -/

omit [DecidableEq Key] in
theorem poolAccount_unseeded_iff (hl : rt.Lawful) (voteAccount : Key) :
    PoolAccount rt connection stakePool stakePoolAddress l
        (findStakeProgramAddress rt connection.programId voteAccount stakePoolAddress none) ↔
      Unseeded rt connection stakePool stakePoolAddress l voteAccount := by
  constructor
  · generalize hk : findStakeProgramAddress rt connection.programId voteAccount stakePoolAddress none = k
    intro h
    cases h with
    | reserve => exact .inr hk
    | validator hv =>
      obtain ⟨⟨b, b', hp⟩, -⟩ := hl.find_inj hk
      refine .inl ⟨_, hv, ?_⟩
      simp only [preimage, Seed.symbols, List.flatMap_cons, List.cons_append, List.nil_append, List.cons.injEq,
        Sum.inl.injEq, true_and] at hp
      refine ⟨hp.1.symm, ?_⟩
      by_contra hne
      simp [nonZeroU32, hne, Buffer.toLeBytes] at hp
    | transient hv =>
      obtain ⟨⟨b, b', hp⟩, -⟩ := hl.find_inj hk
      simp [preimage, Seed.symbols, transientStakeSeedPrefix] at hp
  · rintro (⟨v, hv, rfl, hseed⟩ | h)
    · have : PoolAccount rt connection stakePool stakePoolAddress l (SplStakePool.findStakeProgramAddress rt
          connection.programId v.voteAccountAddress stakePoolAddress (nonZeroU32 v.validatorSeedSuffix)).1 :=
        .validator hv
      rw [hseed] at this
      exact this
    · rw [h]
      exact .reserve

theorem mem_validatorAccounts {v : SplStakePool.ValidatorStakeInfo Key} {a : ValidatorAccount Key}
    (ha : a ∈ validatorAccounts rt connection stakePool stakePoolAddress (.of v)) :
    a.voteAddress = some v.voteAccountAddress ∧
      ((a.type = .preferred ∨ a.type = .active) ∧ a.stakeAddress =
          findStakeProgramAddress rt connection.programId v.voteAccountAddress stakePoolAddress none ∨
        a.type = .transient ∧ a.stakeAddress = findTransientStakeProgramAddress rt connection.programId
          v.voteAccountAddress stakePoolAddress v.transientSeedSuffix.toNat) := by
  rw [validatorAccounts] at ha
  split at ha
  · cases ha
  · rcases List.mem_append.1 ha with ha | ha
    · split at ha
      · cases ha
      · rw [List.mem_singleton.1 ha]
        refine ⟨rfl, .inl ⟨?_, rfl⟩⟩
        dsimp only
        split
        · exact .inl rfl
        · exact .inr rfl
    · split at ha
      · rw [List.mem_singleton.1 ha]
        exact ⟨rfl, .inr ⟨rfl, rfl⟩⟩
      · cases ha

/-- An account is one of the pool, unless it is a validator stake account named without its seed. -/
theorem poolAccount_iff (hl : rt.Lawful) {a : ValidatorAccount Key}
    (h : withdrawableAccounts rt sort connection stakePool stakePoolAddress compareFn (decoded l) = some accounts)
    (ha : a ∈ accounts) :
    PoolAccount rt connection stakePool stakePoolAddress l a.stakeAddress ↔
      (a.type = .preferred ∨ a.type = .active →
        ∀ voteAccount ∈ a.voteAddress, Unseeded rt connection stakePool stakePoolAddress l voteAccount) := by
  simp only [withdrawableAccounts, Option.bind_eq_bind, Option.bind_eq_some_iff, Option.pure_def,
    Option.some.injEq] at h
  obtain ⟨_, -, sorted, hsorted, balance, -, rfl⟩ := h
  have hmem : a ∈ sorted ∨ a.type = .reserve ∧ a.stakeAddress = stakePool.reserveStake := by
    split at ha
    · rcases List.mem_append.1 ha with ha | ha
      · exact .inl ha
      · rw [List.mem_singleton.1 ha]
        exact .inr ⟨rfl, rfl⟩
    · exact .inl ha
  rcases hmem with hmem | ⟨htype, haddress⟩
  · have hpushed := ((sort (compareFn.getD compareLamports)).perm hsorted).mem_iff.1 hmem
    obtain ⟨_, hdecoded, hpushed⟩ := List.mem_flatMap.1 hpushed
    obtain ⟨v, hv, rfl⟩ := List.mem_map.1 hdecoded
    obtain ⟨hvote, ⟨htype, haddress⟩ | ⟨htype, haddress⟩⟩ := mem_validatorAccounts hpushed
    · rw [haddress, poolAccount_unseeded_iff hl, hvote]
      constructor
      · intro h _ voteAccount hvoter
        cases hvoter
        exact h
      · intro h
        exact h htype _ rfl
    · rw [haddress, htype]
      constructor
      · rintro - (h | h) <;> cases h
      · rintro -
        exact .transient hv
  · rw [haddress, htype]
    constructor
    · rintro - (h | h) <;> cases h
    · rintro -
      exact .reserve

/-! ## The result -/

omit [DecidableEq Key] in
theorem mem_usable {s : ValidatorAccount Key × ℕ} (hs : s ∈ usable connection stakePool skipFee accounts) :
    s.1 ∈ accounts ∧ 0 < s.2 := by
  obtain ⟨hs, hpos⟩ := List.mem_filter.1 hs
  obtain ⟨a, ha, rfl⟩ := List.mem_map.1 hs
  obtain ⟨type, -, ha⟩ := List.mem_flatMap.1 ha
  exact ⟨(List.mem_filter.1 ha).1, by simpa using hpos⟩

omit [DecidableEq Key] in
theorem sum_planned (n : Nat) :
    ((((Greedy.allocate (usable connection stakePool skipFee accounts) poolAmount).map withdrawFrom).take n).map
        fun a => (a.stakeAddress, a.poolAmount)).map Prod.snd =
      (Greedy.allocate ((usable connection stakePool skipFee accounts).take n) poolAmount).map Prod.snd := by
  rw [← List.map_take, Greedy.take_allocate fun s hs => (mem_usable hs).2, List.map_map, List.map_map]
  rfl

omit [DecidableEq Key] in
theorem length_lt_of_total_lt {before after : List (ValidatorAccount Key × ℕ)} {n : Nat}
    (hsum : poolAmount ≤ Greedy.total ((before ++ after).take n)) (hlt : Greedy.total before < poolAmount) :
    before.length < n := by
  by_contra hge
  rw [List.take_append_of_le_length (by omega)] at hsum
  have hsplit := Greedy.total_append (before.take n) (before.drop n)
  rw [List.take_append_drop] at hsplit
  omega

/-- The first instructions of a plan cover the amount exactly if the plan fits. -/
theorem covers_plan_iff (hl : rt.Lawful) {instructions : List (TransactionInstruction Key)}
    (haccounts : withdrawableAccounts rt sort connection stakePool stakePoolAddress compareFn (decoded l) =
      some accounts)
    (hplan : plan = (Greedy.allocate (usable connection stakePool skipFee accounts) poolAmount).map withdrawFrom)
    (hinstructions : withdrawals instructions =
      (plan.take (maxWithdrawAccounts + 1)).map fun a => (a.stakeAddress, a.poolAmount)) :
    Covers rt connection stakePool stakePoolAddress l instructions poolAmount ↔
      PlanFits rt connection stakePool stakePoolAddress l skipFee accounts poolAmount := by
  have hpos : ∀ s ∈ usable connection stakePool skipFee accounts, 0 < s.2 := fun s hs => (mem_usable hs).2
  have hpos' : ∀ s ∈ (usable connection stakePool skipFee accounts).take (maxWithdrawAccounts + 1), 0 < s.2 :=
    fun s hs => hpos s (List.mem_of_mem_take hs)
  have hsum : ((withdrawals instructions).map Prod.snd).sum =
      min (Greedy.total ((usable connection stakePool skipFee accounts).take (maxWithdrawAccounts + 1)))
        poolAmount := by
    rw [hinstructions, hplan, sum_planned, ← Greedy.total_allocate]
    rfl
  have hnames : ∀ k, k ∈ (withdrawals instructions).map Prod.fst ↔ ∃ a, a ∈ (Greedy.allocate
      ((usable connection stakePool skipFee accounts).take (maxWithdrawAccounts + 1)) poolAmount).map Prod.fst ∧
        a.stakeAddress = k := by
    intro k
    rw [hinstructions, hplan, ← List.map_take, Greedy.take_allocate hpos, List.map_map, List.map_map, List.mem_map]
    constructor
    · rintro ⟨s, hs, rfl⟩
      exact ⟨s.1, List.mem_map.2 ⟨s, hs, rfl⟩, rfl⟩
    · rintro ⟨_, ha, rfl⟩
      obtain ⟨s, hs, rfl⟩ := List.mem_map.1 ha
      exact ⟨s, hs, rfl⟩
  constructor
  · rintro ⟨h, hnamed⟩
    have hfits : poolAmount ≤
        Greedy.total ((usable connection stakePool skipFee accounts).take (maxWithdrawAccounts + 1)) := by omega
    refine ⟨hfits, fun before s after hsplit hlt => ?_⟩
    have hmem : s ∈ usable connection stakePool skipFee accounts := by
      rw [hsplit]
      exact List.mem_append_right _ List.mem_cons_self
    rw [hsplit] at hfits
    have hlen := length_lt_of_total_lt hfits hlt
    refine (poolAccount_iff hl haccounts (mem_usable hmem).1).1 ?_
    have hused : s.1 ∈ (Greedy.allocate ((usable connection stakePool skipFee accounts).take
        (maxWithdrawAccounts + 1)) poolAmount).map Prod.fst := by
      refine (Greedy.mem_map_allocate hpos').2
        ⟨before, s, after.take (maxWithdrawAccounts + 1 - before.length - 1), ?_, rfl, hlt⟩
      rw [hsplit, List.take_append, List.take_of_length_le (by omega), List.take_cons (by omega)]
    obtain ⟨w, hw, hk⟩ := List.mem_map.1 ((hnames s.1.stakeAddress).2 ⟨s.1, hused, rfl⟩)
    rw [← hk]
    exact hnamed w hw
  · rintro ⟨hfits, hunseeded⟩
    refine ⟨by omega, fun w hw => ?_⟩
    obtain ⟨a, ha, hk⟩ := (hnames w.1).1 (List.mem_map.2 ⟨w, hw, rfl⟩)
    obtain ⟨before, s, after, hsplit, rfl, hlt⟩ := (Greedy.mem_map_allocate hpos').1 ha
    have husable : usable connection stakePool skipFee accounts = before ++ s :: (after ++
        (usable connection stakePool skipFee accounts).drop (maxWithdrawAccounts + 1)) := by
      rw [← List.cons_append, ← List.append_assoc, ← hsplit, List.take_append_drop]
    have hmem : s ∈ usable connection stakePool skipFee accounts := by
      rw [husable]
      exact List.mem_append_right _ List.mem_cons_self
    rw [← hk]
    exact (poolAccount_iff hl haccounts (mem_usable hmem).1).2 (hunseeded before s _ husable hlt)

omit [DecidableEq Key] in
theorem covers_single_iff {instructions : List (TransactionInstruction Key)} {k : Key}
    {voteAddress : Option Key} (hinstructions : withdrawals instructions =
      (([⟨k, voteAddress, poolAmount⟩] : List (WithdrawAccount Key)).take (maxWithdrawAccounts + 1)).map
        fun a => (a.stakeAddress, a.poolAmount)) :
    Covers rt connection stakePool stakePoolAddress l instructions poolAmount ↔
      PoolAccount rt connection stakePool stakePoolAddress l k := by
  have hone : withdrawals instructions = [(k, poolAmount)] := hinstructions
  constructor
  · intro h
    have := h.named (k, poolAmount)
    rw [hone] at this
    exact this (List.mem_singleton_self _)
  · intro h
    constructor
    · rw [hone]
      exact Nat.add_zero _
    · intro w hw
      rw [hone] at hw
      rw [List.mem_singleton.1 hw]
      exact h

omit [DecidableEq Key] in
theorem withdrawFromValidator_eq_some {voteAccount : Key} {availableLamports : Nat → Option Int}
    (h : withdrawFromValidator rt connection stakePool stakePoolAddress voteAccount availableLamports poolAmount =
      some plan) :
    plan = [⟨findStakeProgramAddress rt connection.programId voteAccount stakePoolAddress none, some voteAccount,
      poolAmount⟩] := by
  simp only [withdrawFromValidator, Option.bind_eq_bind, Option.bind_eq_some_iff] at h
  obtain ⟨_, -, _, -, _, -, h⟩ := h
  split at h
  · cases h
  · cases h
    rfl

omit [DecidableEq Key] in
theorem getStakeReceiver_eq_some {receiver : Option (StakeAccount Key)}
    (h : getStakeReceiver connection params = some receiver) :
    params.stakeReceiver.bind connection.stakeAccount = receiver := by
  rw [getStakeReceiver] at h
  split at h
  next heq =>
    rw [heq]
    exact Option.some.inj h
  next stakeReceiver heq =>
    obtain ⟨account, haccount, rfl⟩ := Option.map_eq_some_iff.1 h
    rw [heq]
    exact haccount

/-- Whatever the client returns, it approves the amount; the withdrawals cover it, each from an account of the
pool, exactly if the request fits. -/
theorem withdrawal_covers_iff (hl : rt.Lawful) (hlen : l.validators.length < 2 ^ 32)
    (hkeys : Decodable keyBytes newPublicKey l) {lamports : Nat} {rest : List UInt8}
    (hlist : connection.accountInfo stakePool.validatorList = some (lamports, l.serialize keyBytes ++ rest))
    {instructions : List (TransactionInstruction Key)}
    (h : withdrawStake rt newPublicKey sort connection stakePool stakePoolAddress params poolAmount =
      some instructions) :
    instructions.filterMap approval = [poolAmount] ∧
      (Covers rt connection stakePool stakePoolAddress l instructions poolAmount ↔
        RequestFits rt connection stakePool stakePoolAddress l sort params poolAmount) := by
  have hdecoded : validatorListOf newPublicKey connection stakePool = some (decoded l) := by
    rw [validatorListOf, hlist]
    exact decode_list hlen hkeys rest
  simp only [withdrawStake, Option.bind_eq_bind, Option.bind_eq_some_iff] at h
  obtain ⟨_, -, tokenAmount, -, h⟩ := h
  split at h
  · cases h
  simp only [Option.bind_eq_some_iff, Option.pure_def, Option.some.injEq] at h
  obtain ⟨receiver, hreceiver, plan, hplan, built, hbuilt, heq⟩ := h
  obtain ⟨hcovers, happroved⟩ := withdrawInstructions_eq_some hbuilt
  replace hcovers : withdrawals instructions =
      (plan.take (maxWithdrawAccounts + 1)).map fun a => (a.stakeAddress, a.poolAmount) := by
    rw [← heq]
    exact hcovers
  constructor
  · rw [← heq]
    exact congrArg (poolAmount :: ·) happroved
  · rw [RequestFits, getStakeReceiver_eq_some hreceiver]
    rw [withdrawAccounts] at hplan
    by_cases hreserve : params.useReserve
    · rw [if_pos hreserve] at hplan ⊢
      cases hplan
      exact (covers_single_iff hcovers).trans (iff_true_intro .reserve)
    rw [if_neg hreserve] at hplan ⊢
    by_cases hdelegated : receiver.any (·.delegated)
    · rw [if_pos hdelegated] at hplan ⊢
      simp only [Option.bind_eq_bind, Option.bind_eq_some_iff] at hplan
      obtain ⟨voteAccount, hvoter, _, -, hplan⟩ := hplan
      split at hplan
      · cases hplan
      split at hplan
      · cases withdrawFromValidator_eq_some hplan
        rw [covers_single_iff hcovers, poolAccount_unseeded_iff hl, Option.bind_eq_some_iff.2 hvoter]
        constructor
        · intro h voter hvoter
          cases hvoter
          exact h
        · intro h
          exact h _ rfl
      · cases hplan
    rw [if_neg hdelegated] at hplan ⊢
    cases hvote : params.voteAccountAddress with
    | some voteAccountAddress =>
      rw [hvote] at hplan
      cases withdrawFromValidator_eq_some hplan
      rw [covers_single_iff hcovers, poolAccount_unseeded_iff hl]
    | none =>
      rw [hvote] at hplan
      obtain ⟨accounts, haccounts, hplan⟩ := prepareWithdrawAccounts_eq_some hdecoded hplan
      rw [haccounts, covers_plan_iff hl haccounts hplan hcovers]
      constructor
      · intro h _ heq
        cases heq
        exact h
      · intro h
        exact h _ rfl

end

section
open Reference

/-- A list of validators without seeds, of 3000000000 lamports each. -/
def unseeded (votes : List Nat) : SplStakePool.ValidatorList Reference.Key where
  header := ⟨.validatorList, 10⟩
  validators := votes.map fun n => ⟨3000000000, 0, 10, 0, 0, StakeStatus.active.pod, wallet n⟩

/-- A pool without a fee, with a price of one lamport. -/
def stakedPool (votes : List Nat) : StakePool Reference.Key :=
  { joined.stakePool with
    totalLamports := 3000000000 * votes.length
    poolTokenSupply := 3000000000 * votes.length
    stakeWithdrawalFee := noFee }

/-- A cluster with the list and a reserve that has its rent, where a wallet holds all the tokens of the pool. -/
def cluster (votes : List Nat) : Connection Reference.Key where
  accountInfo k :=
    if k = joined.stakePool.validatorList then some (1000, (unseeded votes).serialize walletBytes ++ [])
    else if k = joined.stakePool.reserveStake then some (2282880, [])
    else none
  tokenAmount _ := some (3000000000 * votes.length)
  stakeAccount _ := none
  rentExemption := 2282880
  programId := runtime.programId

/-- Nothing but the owner of the tokens is given. -/
def plain : WithdrawStakeParams Reference.Key where
  tokenOwner := wallet 40
  useReserve := false
  voteAccountAddress := none
  stakeReceiver := none
  poolTokenAccount := none
  validatorComparator := none
  associatedTokenAddress mint owner := 2 :: (mint ++ owner)
  generate i := wallet (50 + i)

def built (votes : List Nat) (poolAmount : Nat) : Option (List (TransactionInstruction Reference.Key)) :=
  withdrawStake runtime walletOfBytes .stable (cluster votes) (stakedPool votes) runtime.stakePoolAddress plain
    poolAmount

theorem withdrawal_covers_iff_two :
    ∃ instructions, built [20, 21] 5000000000 = some instructions ∧ instructions.filterMap approval = [5000000000] ∧
      (Covers runtime (cluster [20, 21]) (stakedPool [20, 21]) runtime.stakePoolAddress (unseeded [20, 21])
          instructions 5000000000 ↔
        RequestFits runtime (cluster [20, 21]) (stakedPool [20, 21]) runtime.stakePoolAddress (unseeded [20, 21])
          .stable plain 5000000000) := by
  have hsome : (built [20, 21] 5000000000).isSome := by decide +kernel
  have hkeys : Decodable walletBytes walletOfBytes (unseeded [20, 21]) := by
    unfold Decodable
    decide
  have hlist : (cluster [20, 21]).accountInfo (stakedPool [20, 21]).validatorList =
      some (1000, (unseeded [20, 21]).serialize walletBytes ++ []) := by
    simp only [cluster, stakedPool, if_true]
  obtain ⟨instructions, h⟩ := Option.isSome_iff_exists.1 hsome
  exact ⟨instructions, h, withdrawal_covers_iff lawful (by decide) hkeys hlist h⟩

/-- The votes of seven validators. -/
def seven : List Nat := [20, 21, 22, 23, 24, 25, 26]

/-- Six of seven validators are used, and less than the approved amount is withdrawn. -/
theorem withdrawal_not_covers :
    ∃ instructions, built seven 20000000000 = some instructions ∧
      ¬ Covers runtime (cluster seven) (stakedPool seven) runtime.stakePoolAddress (unseeded seven) instructions
        20000000000 := by
  have hsum : (built seven 20000000000).map (fun instructions => ((withdrawals instructions).map Prod.snd).sum) =
      some 18000000000 := by decide +kernel
  obtain ⟨instructions, h, hless⟩ := Option.map_eq_some_iff.1 hsum
  refine ⟨instructions, h, fun hcovers => ?_⟩
  rw [hcovers.sum] at hless
  exact absurd hless (by decide)

end
end SplStakePool.Js
