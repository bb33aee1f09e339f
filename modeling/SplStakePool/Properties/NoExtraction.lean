import SplStakePool.Invariant.Stake
import SplStakePool.Invariant.Token
import SplStakePool.Properties.SharePrice

/-!
# No extraction

What one user can do with deposits and withdrawals, over the accounts that the user owns: each of
them is a step of a holder of the vault's shares, so that no run of them extracts value.

A position is the vault with the tokens on the user's accounts and what the user has paid and received. The user is
neither the manager nor a referrer, whose accounts are others; what a deposit of stake brings in is what the merge
adds, with the lamports that come with it.
-/

namespace SplStakePool
open Exec Machine ShareVault

variable {Key : Type} [DecidableEq Key] [Inhabited Key] {rt : Runtime Key} {w w' w'' : World Key}
  {minimum : Option Nat} {owned : Finset Key}

variable (rt) in
/-- A deposit or a withdrawal by the owner of a set of accounts, with the lamports that the user's
account pays and receives. The referrer is somebody else. -/
inductive UserStep (owned : Finset Key) (w w' : World Key) : Nat → Nat → Prop
  | depositSol {accounts rest : List (AccountInfo Key)} {minimum : Option Nat}
      {a : DepositSolAccounts Key} {n : Nat}
      (hp : DepositSolAccounts.parse accounts = .ok (a, rest))
      (h : processDepositSol rt w accounts n minimum = .ok w')
      (hfrom : a.fromUserLamportsInfo.key ∈ owned) (hdest : a.destUserPoolInfo.key ∈ owned)
      (href : a.referrerFeeInfo.key ∉ owned) :
      UserStep owned w w' ((w.accounts a.fromUserLamportsInfo.key).lamports -
        (w'.accounts a.fromUserLamportsInfo.key).lamports) 0
  | depositStake {accounts rest : List (AccountInfo Key)} {minimum : Option Nat}
      {a : DepositStakeAccounts Key}
      (hp : (DepositStakeAccounts.parse rt).run accounts = .ok (a, rest))
      (h : processDepositStake rt w accounts minimum = .ok w')
      (hstake : a.stakeInfo.key ∈ owned) (hdest : a.destUserPoolInfo.key ∈ owned)
      (href : a.referrerFeeInfo.key ∉ owned) :
      UserStep owned w w'
        ((w.accounts a.stakeInfo.key).lamports - (w'.accounts a.stakeInfo.key).lamports) 0
  | withdrawSol {accounts rest : List (AccountInfo Key)} {minimum : Option Nat}
      {a : WithdrawSolAccounts Key} {tokens : Nat}
      (hp : WithdrawSolAccounts.parse accounts = .ok (a, rest))
      (h : processWithdrawSol rt w accounts tokens minimum = .ok w')
      (hburn : a.burnFromPoolInfo.key ∈ owned) (hdest : a.destinationLamportsInfo.key ∈ owned) :
      UserStep owned w w' 0 ((w'.accounts a.destinationLamportsInfo.key).lamports -
        (w.accounts a.destinationLamportsInfo.key).lamports)
  | withdrawStake {accounts rest : List (AccountInfo Key)} {minimum : Option Nat}
      {a : WithdrawStakeAccounts Key} {tokens : Nat}
      (hp : (WithdrawStakeAccounts.parse rt).run accounts = .ok (a, rest))
      (h : processWithdrawStake rt w accounts tokens minimum = .ok w')
      (hburn : a.burnFromPoolInfo.key ∈ owned) (hto : a.stakeSplitTo.key ∈ owned) :
      UserStep owned w w' 0
        ((w'.accounts a.stakeSplitTo.key).lamports - (w.accounts a.stakeSplitTo.key).lamports)

variable (rt) in
/-- Any number of deposits and withdrawals, with the lamports paid and received in all. -/
inductive UserRun (owned : Finset Key) (w : World Key) : World Key → Nat → Nat → Prop
  | refl : UserRun owned w w 0 0
  | step {w' w'' : World Key} {paid received paid' received' : Nat}
      (h : UserRun owned w w' paid received) (hs : UserStep rt owned w' w'' paid' received') :
      UserRun owned w w'' (paid + paid') (received + received')

/-- The user owns neither the account of the manager's fees nor the reserve. -/
structure Outsider (owned : Finset Key) (w : World Key) : Prop where
  fee : w.stakePool.managerFeeAccount ∉ owned
  reserve : w.stakePool.reserveStake ∉ owned

/-- The pool tokens on the user's accounts. -/
def World.heldBy (w : World Key) (owned : Finset Key) : Nat :=
  held owned w.stakePool.poolMint w.accounts

/-- The user as a holder of the vault's shares. -/
def World.position (w : World Key) (owned : Finset Key) (paid received : Nat) : Position :=
  { w.stakePool.vault with held := w.heldBy owned, paid, received }

omit [Inhabited Key] in
theorem DepositSolAccounts.Ok.paid {a : DepositSolAccounts Key} {n : Nat} {t : DepositTokens}
    {acc₁ : Accounts Key} (h : a.Ok rt w w' n minimum t acc₁) (hl : rt.Lawful)
    (hr : a.fromUserLamportsInfo.key ≠ w.stakePool.reserveStake) :
    (w.accounts a.fromUserLamportsInfo.key).lamports -
      (w'.accounts a.fromUserLamportsInfo.key).lamports = n := by
  obtain ⟨-, -, -, hn, b, hb, hacc⟩ := solTransfer_ok hl h.transfer
  rw [← h.reserveKey] at hr
  rw [(mintDepositTokens_only hl h.mint _).1, hacc, Function.update_of_ne hr, Function.update_self, hb]
  exact Nat.sub_sub_self hn

theorem DepositStakeAccounts.Ok.paid {a : DepositStakeAccounts Key} {s : Stake Key}
    {v : ValidatorStakeInfo Key} {t : DepositTokens} {acc₁ acc₂ acc₃ : Accounts Key} {total stake : Nat}
    (h : a.Ok rt w w' minimum s v t acc₁ acc₂ acc₃ total stake) (hl : rt.Lawful)
    (hr : a.stakeInfo.key ≠ w.stakePool.reserveStake) :
    (w.accounts a.stakeInfo.key).lamports = total ∧ (w'.accounts a.stakeInfo.key).lamports = 0 := by
  obtain ⟨-, hauth⟩ := DepositStakeAccounts.authorizeDeposit_eq_ok h.authorize
  obtain ⟨-, _, _, -, -, -, hacc₁⟩ := stakeAuthorizeSigned_ok hl hauth
  have hlam : ∀ k, (acc₁ k).lamports = (w.accounts k).lamports := by
    intro k
    rw [hacc₁]
    by_cases hk : k = a.stakeInfo.key
    · rw [hk, Function.update_self]
    · rw [Function.update_of_ne hk]
  have hm := stakeMerge_spec hl h.merge
  have hmint := mintDepositTokens_only hl h.mint
  have htotal := h.total_eq
  rw [hm.dst_lamports, hlam, hlam] at htotal
  refine ⟨by omega, ?_⟩
  have h₃ : (acc₃ a.stakeInfo.key).lamports = 0 := by rw [(hmint _).1, hm.src_lamports]
  rcases h.withdraw with ⟨-, hw⟩ | ⟨-, hw⟩
  · rw [(stakeWithdraw_spec hl hw).frame _ (by simp [hm.ne.symm, h.reserveKey, hr]), h₃]
  · rw [← hw, h₃]

theorem WithdrawSolAccounts.Ok.received {a : WithdrawSolAccounts Key} {tokens fee decimals n : Nat}
    {acc₁ acc₂ : Accounts Key} (h : a.Ok rt w w' tokens minimum fee decimals n acc₁ acc₂)
    (hl : rt.Lawful) (hr : a.destinationLamportsInfo.key ≠ w.stakePool.reserveStake) :
    (w'.accounts a.destinationLamportsInfo.key).lamports =
      (w.accounts a.destinationLamportsInfo.key).lamports + n := by
  have h₂ : OnlyTokens acc₁ acc₂ := by
    rcases h.transfer with ⟨-, ht⟩ | ⟨-, rfl⟩
    · exact tokenTransfer_only hl ht
    · exact .refl _
  have hw := stakeWithdraw_spec hl h.withdraw
  rw [hw.dst_eq (by rw [h.reserveKey]; exact hr.symm), Account.credit_lamports, (h₂ _).1,
    (tokenBurn_only hl h.burn _).1]

omit [Inhabited Key] in
theorem WithdrawStakeAccounts.Ok.received {a : WithdrawStakeAccounts Key}
    {tokens fee decimals n : Nat} {plan : WithdrawPlan Key} {acc₁ acc₂ acc₃ : Accounts Key}
    (h : a.Ok rt w w' tokens minimum fee decimals n plan acc₁ acc₂ acc₃) (hl : rt.Lawful) :
    (w'.accounts a.stakeSplitTo.key).lamports =
      (w.accounts a.stakeSplitTo.key).lamports + plan.withdrawLamports := by
  obtain ⟨-, -, -, -, -, s, t, u, -, -, -, hacc₂⟩ := stakeSplit_ok hl h.split
  obtain ⟨-, s', m', -, -, -, hacc₃⟩ := stakeAuthorizeSigned_ok hl h.authorize
  have h₄ : (w'.accounts a.stakeSplitTo.key).lamports = (acc₃ a.stakeSplitTo.key).lamports := by
    rcases h.transfer with ⟨-, ht⟩ | ⟨-, he⟩
    · exact (tokenTransfer_only hl ht _).1
    · rw [he]
  rw [h₄, hacc₃, Function.update_self, hacc₂, Function.update_self, (tokenBurn_only hl h.burn _).1]

omit [Inhabited Key] in
/-- The user's tokens after the burn and the fee of a withdrawal. -/
theorem withdrawal_held {acc acc₁ acc₁' acc₂ : Accounts Key} {src mint auth manager : AccountInfo Key}
    {burnt fee decimals : Nat} (hl : rt.Lawful) (hsrc : src.key ∈ owned) (hm : manager.key ∉ owned)
    (hb : tokenBurn rt acc src mint auth burnt = .ok acc₁) (hs : SameTokens acc₁ acc₁')
    (ht : 0 < fee ∧ tokenTransfer rt acc₁' src mint manager auth fee decimals = .ok acc₂ ∨
      fee = 0 ∧ acc₁' = acc₂) :
    held owned mint.key acc₂ + (burnt + fee) = held owned mint.key acc := by
  have h₁ := tokenBurn_held hl hb hsrc
  have h₁' : held owned mint.key acc₁' = held owned mint.key acc₁ := hs.held_eq
  rcases ht with ⟨-, ht⟩ | ⟨rfl, rfl⟩
  · have h₂ := tokenTransfer_held hl ht hsrc hm
    omega
  · omega

/-! ## The holder -/

omit [Inhabited Key] in
theorem position_enter {paid received n user : Nat} {t : DepositTokens}
    (hu : user + t.managerFee + t.referralFee = t.newPoolTokens)
    (ht : w.stakePool.calcPoolTokensForDeposit n = some t.newPoolTokens)
    (hT : w'.stakePool.totalLamports = w.stakePool.totalLamports + n)
    (hS : w'.stakePool.poolTokenSupply = w.stakePool.poolTokenSupply + t.newPoolTokens)
    (hh : w'.heldBy owned = w.heldBy owned + user) :
    Position.Step (w.position owned paid received) (w'.position owned (paid + n) received) := by
  have hs : Position.Step (w.position owned paid received) ⟨⟨w.stakePool.totalLamports + n,
      w.stakePool.poolTokenSupply + t.newPoolTokens⟩, w.heldBy owned + user, paid + n, received⟩ :=
    .enter (by omega) (StakePool.calcPoolTokensForDeposit_le ht).2
  have he : w'.position owned (paid + n) received = ⟨⟨w.stakePool.totalLamports + n,
      w.stakePool.poolTokenSupply + t.newPoolTokens⟩, w.heldBy owned + user, paid + n, received⟩ := by
    rw [World.position, StakePool.vault, hT, hS, hh]
  exact he ▸ hs

omit [Inhabited Key] in
theorem position_leave (fee : Nat) {paid received n burnt : Nat}
    (hn : n * w.stakePool.poolTokenSupply ≤ burnt * w.stakePool.totalLamports)
    (hle : n ≤ w.stakePool.totalLamports)
    (hT : w'.stakePool.totalLamports = w.stakePool.totalLamports - n)
    (hS : w'.stakePool.poolTokenSupply = w.stakePool.poolTokenSupply - burnt)
    (hh : w'.heldBy owned + (burnt + fee) = w.heldBy owned) :
    Position.Step (w.position owned paid received) (w'.position owned paid (received + n)) := by
  have hs : Position.Step (w.position owned paid received) ⟨⟨w.stakePool.totalLamports - n,
      w.stakePool.poolTokenSupply - burnt⟩, w.heldBy owned - (burnt + fee), paid, received + n⟩ :=
    .leave (Nat.le_add_right _ _) (by rw [World.position, ← hh]; exact Nat.le_add_left _ _) hn hle
  have hh' : w'.heldBy owned = w.heldBy owned - (burnt + fee) := by omega
  have he : w'.position owned paid (received + n) = ⟨⟨w.stakePool.totalLamports - n,
      w.stakePool.poolTokenSupply - burnt⟩, w.heldBy owned - (burnt + fee), paid, received + n⟩ := by
    rw [World.position, StakePool.vault, hT, hS, hh']
  exact he ▸ hs

/-- Every operation of the user is a step of the holder. -/
theorem UserStep.position (hl : rt.Lawful) {paid received : Nat} (ho : Outsider owned w)
    (h : UserStep rt owned w w' paid received) (paid₀ received₀ : Nat) :
    Position.Step (w.position owned paid₀ received₀)
        (w'.position owned (paid₀ + paid) (received₀ + received)) ∧ Outsider owned w' := by
  cases h with
  | @depositSol accounts rest minimum a n hp h hfrom hdest href =>
    obtain ⟨a', rest', hp', t, acc₁, h⟩ := processDepositSol_ok h
    cases hp.symm.trans hp'
    obtain ⟨hn, ht⟩ := StakePool.solDepositTokens_eq_some h.tokens
    have hheld := mintDepositTokens_held hl h.mint hdest (h.feeKey ▸ ho.fee) href
    rw [(solTransfer_tokens hl h.transfer).held_eq, h.mintKey] at hheld
    have hr := h.result
    rw [h.paid hl (ne_of_mem_of_not_mem hfrom ho.reserve)]
    refine ⟨position_enter ht hn (by rw [hr]) (by rw [hr]) ?_, by rw [hr]; exact ⟨ho.fee, ho.reserve⟩⟩
    rw [World.heldBy, hr]
    exact hheld
  | @depositStake accounts rest minimum a hp h hstake hdest href =>
    obtain ⟨a', rest', hp', s, v, t, acc₁, acc₂, acc₃, total, stake, h⟩ := processDepositStake_ok h
    cases hp.symm.trans hp'
    obtain ⟨hn, ht⟩ := StakePool.stakeDepositTokens_eq_some h.tokens
    obtain ⟨hpaid, hzero⟩ := h.paid hl (ne_of_mem_of_not_mem hstake ho.reserve)
    obtain ⟨-, hauth⟩ := DepositStakeAccounts.authorizeDeposit_eq_ok h.authorize
    have hheld := mintDepositTokens_held hl h.mint hdest (h.feeKey ▸ ho.fee) href
    have hlast : held owned w.stakePool.poolMint w'.accounts = held owned w.stakePool.poolMint acc₃ := by
      rcases h.withdraw with ⟨-, hw⟩ | ⟨-, hw⟩
      · exact (stakeWithdraw_tokens hl hw).held_eq
      · rw [hw]
    rw [(stakeMerge_tokens hl h.merge).held_eq, (stakeAuthorizeSigned_tokens hl hauth).held_eq,
      h.mintKey, ← hlast] at hheld
    have hr := h.result
    rw [hpaid, hzero]
    refine ⟨position_enter ht hn (by rw [hr]; rfl) (by rw [hr]) ?_,
      by rw [hr]; exact ⟨ho.fee, ho.reserve⟩⟩
    rw [World.heldBy, hr]
    exact hheld
  | @withdrawSol accounts rest minimum a tokens hp h hburn hdest =>
    obtain ⟨a', rest', hp', fee, decimals, n, acc₁, acc₂, h⟩ := processWithdrawSol_ok h
    cases hp.symm.trans hp'
    have hheld := withdrawal_held hl hburn (h.feeKey ▸ ho.fee) h.burn (.refl _) h.transfer
    rw [← (stakeWithdraw_tokens hl h.withdraw).held_eq, h.mintKey] at hheld
    have hr := h.result
    rw [h.received hl (ne_of_mem_of_not_mem hdest ho.reserve), Nat.add_sub_cancel_left]
    refine ⟨position_leave fee h.lamports.share h.lamports_le (by rw [hr]) (by rw [hr]) ?_,
      by rw [hr]; exact ⟨ho.fee, ho.reserve⟩⟩
    rw [World.heldBy, hr]
    exact hheld
  | @withdrawStake accounts rest minimum a tokens hp h hburn hto =>
    obtain ⟨a', rest', hp', fee, decimals, n, plan, acc₁, acc₂, acc₃, h⟩ := processWithdrawStake_ok h
    cases hp.symm.trans hp'
    have hstake := (stakeSplit_tokens hl h.split).trans (stakeAuthorizeSigned_tokens hl h.authorize)
    have hheld := withdrawal_held hl hburn (h.feeKey ▸ ho.fee) h.burn hstake h.transfer
    rw [h.mintKey] at hheld
    have hr := h.result
    obtain ⟨d, x, hpool⟩ := WithdrawStakeAccounts.stakePool_eq plan w.stakePool
    rw [hpool] at hr
    rw [h.received hl, Nat.add_sub_cancel_left]
    refine ⟨position_leave fee ?_ h.lamports_le (by rw [hr]) (by rw [hr]) ?_, ?_⟩
    · exact (Nat.mul_le_mul_right _ h.planned.le).trans h.lamports.share
    · rw [World.heldBy, hr]
      exact hheld
    · rw [hr]
      exact ⟨ho.fee, ho.reserve⟩

/-- A run of the user is a run of the holder. -/
theorem UserRun.position (hl : rt.Lawful) {paid received : Nat} (ho : Outsider owned w)
    (h : UserRun rt owned w w' paid received) :
    Relation.ReflTransGen Position.Step (w.position owned 0 0) (w'.position owned paid received) ∧
      Outsider owned w' := by
  induction h with
  | refl => exact ⟨.refl, ho⟩
  | step _ hs ih =>
    obtain ⟨hstep, ho'⟩ := hs.position hl ih.2 _ _
    exact ⟨ih.1.tail hstep, ho'⟩

/-- No run of deposits and withdrawals of one user pays out, with the value of the tokens held at the
end rounded down, more than was paid in and the tokens held at the start were worth (both sides are
multiplied by the supply at the start). -/
theorem no_profit (hl : rt.Lawful) {paid received : Nat} (ho : Outsider owned w)
    (hT : 0 < w.stakePool.totalLamports) (hh : w.heldBy owned ≤ w.stakePool.poolTokenSupply)
    (h : UserRun rt owned w w' paid received) :
    (received + w'.heldBy owned * w'.stakePool.totalLamports / w'.stakePool.poolTokenSupply) *
        w.stakePool.poolTokenSupply ≤
      paid * w.stakePool.poolTokenSupply + w.heldBy owned * w.stakePool.totalLamports := by
  have := @Position.no_extraction (w.position owned 0 0) _ hT hh (h.position hl ho).1
  simpa only [World.position, StakePool.vault, Nat.zero_mul, Nat.add_zero] using this

open Reference in
theorem no_profit_round_trip :
    (296363 + roundTrip.heldBy {user, userTokens} * roundTrip.stakePool.totalLamports /
        roundTrip.stakePool.poolTokenSupply) * gainedPool.stakePool.poolTokenSupply ≤
      1000003 * gainedPool.stakePool.poolTokenSupply +
        gainedPool.heldBy {user, userTokens} * gainedPool.stakePool.totalLamports := by
  have hd : process runtime gainedPool _ (.depositSolWithSlippage 1000003 0) =
    .ok (next gainedPool (depositSol 1000003 0)) := next_process (by decide +kernel)
  have hw : process runtime (next gainedPool (depositSol 1000003 0)) _
    (.withdrawSolWithSlippage 400000 0) = .ok roundTrip := next_process (by decide +kernel)
  have hpaid : (gainedPool.accounts user).lamports -
    ((next gainedPool (depositSol 1000003 0)).accounts user).lamports = 1000003 := by decide +kernel
  have hreceived : (roundTrip.accounts user).lamports -
    ((next gainedPool (depositSol 1000003 0)).accounts user).lamports = 296363 := by decide +kernel
  have hs : UserStep runtime {user, userTokens} gainedPool (next gainedPool (depositSol 1000003 0)) _ 0 :=
    .depositSol rfl hd (by decide +kernel) (by decide +kernel) (by decide +kernel)
  have hs' : UserStep runtime {user, userTokens} (next gainedPool (depositSol 1000003 0)) roundTrip 0 _ :=
    .withdrawSol rfl hw (by decide +kernel) (by decide +kernel)
  have hp : ∀ {paid received}, paid = 1000003 → received = 296363 →
      UserRun runtime {user, userTokens} gainedPool roundTrip (0 + paid + 0) (0 + 0 + received) →
      UserRun runtime {user, userTokens} gainedPool roundTrip 1000003 296363 := by
    rintro _ _ rfl rfl h; exact h
  exact no_profit lawful ⟨by decide +kernel, by decide +kernel⟩ (by decide +kernel) (by decide +kernel)
    (hp hpaid hreceived (.step (.step .refl hs) hs'))

end SplStakePool
