import SplStakePool.Effect.Exchange
import SplStakePool.Properties.NoExtraction
import SplStakePool.Spec.Signers

/-!
# Deposits and withdrawals in parts

Every part is priced at what the parts before it left, rounded on its own and charged a fee that is rounded up on
its own. A withdrawal in any number of parts pays no more than one withdrawal of all the tokens, and a deposit of
SOL in parts credits the user with no more tokens than one deposit.

The parts are runs of the program, and become parts in the vault of the library, where the comparison is an induction on
their number. What has to be shown here is that the charge stays the same function from part to part: the fees do not
change, and whether the fee account can receive tokens does not depend on balances.
-/

namespace SplStakePool
open Exec Machine ShareVault

section
variable {Key : Type} {p : StakePool Key} {n : Nat}

/-! ## Fees -/

theorem Fee.apply_eq_ceilShare {fee : Fee} {f : Nat} (h : fee.apply n = some f) :
    f = ceilShare fee.numerator.toNat fee.denominator.toNat n := by
  rw [ceilShare, Nat.ceilDiv_eq_add_pred_div]
  unfold Fee.apply at h
  split at h
  · rename_i hd
    cases h
    rw [hd, UInt64.toNat_zero, Nat.div_zero]
  · simp only [Option.bind_eq_bind, Option.bind_eq_some_iff, checkedMul_eq_some, checkedAdd_eq_some,
      checkedSub_eq_some, checkedDiv_eq_some] at h
    obtain ⟨_, ⟨-, rfl⟩, _, ⟨-, rfl⟩, _, ⟨-, rfl⟩, -, rfl⟩ := h
    rfl

theorem StakePool.calcPoolTokensFee_eq_ceilShare {fee : Fee} {f : Nat} (h : calcPoolTokensFee fee n = some f) :
    f = ceilShare fee.numerator.toNat fee.denominator.toNat n := by
  simp only [calcPoolTokensFee, Option.bind_eq_bind, Option.bind_eq_some_iff, tryFrom_eq_some] at h
  obtain ⟨_, hf, -, rfl⟩ := h
  exact Fee.apply_eq_ceilShare hf

theorem StakePool.calcReferralFee_eq_ceilShare {pct : UInt8} {fee ref : Nat}
    (h : calcReferralFee pct fee = some ref) (hle : ref ≤ fee) :
    fee - ref = ceilShare (100 - pct.toNat) 100 fee := by
  simp only [calcReferralFee, Option.bind_eq_bind, Option.bind_eq_some_iff, checkedMul_eq_some,
    checkedDiv_eq_some, tryFrom_eq_some] at h
  obtain ⟨_, ⟨-, rfl⟩, _, ⟨-, rfl⟩, -, rfl⟩ := h
  rw [ceilShare, Nat.ceilDiv_eq_add_pred_div, Nat.mul_sub]
  have hpct : pct.toNat ≤ 100 ∨ fee * 100 ≤ fee * pct.toNat := by
    rcases Nat.le_total pct.toNat 100 with h | h
    · exact .inl h
    · exact .inr (Nat.mul_le_mul_left _ h)
  have hmul : pct.toNat ≤ 100 → fee * pct.toNat ≤ fee * 100 := Nat.mul_le_mul_left _
  omega

/-- The fee on the tokens of a SOL deposit, which the user does not receive. -/
def StakePool.depositCharge (p : StakePool Key) : Nat → Nat :=
  ceilShare p.solDepositFee.numerator.toNat p.solDepositFee.denominator.toNat

/-- The manager's part of that fee, which is all that a user who is also the referrer does not receive. -/
def StakePool.managerCharge (p : StakePool Key) : Nat → Nat :=
  ceilShare (100 - p.solReferralFee.toNat) 100 ∘ p.depositCharge

theorem StakePool.solDepositTokens_charged {t : DepositTokens} (h : p.solDepositTokens n = some t) :
    p.depositCharge t.newPoolTokens ≤ t.newPoolTokens ∧
      t.user = t.newPoolTokens - p.depositCharge t.newPoolTokens ∧
      p.managerCharge t.newPoolTokens ≤ t.newPoolTokens ∧
      t.user + t.referralFee = t.newPoolTokens - p.managerCharge t.newPoolTokens := by
  simp only [solDepositTokens, Option.bind_eq_bind, Option.bind_eq_some_iff] at h
  obtain ⟨new, -, fee, hfee, ref, href, h⟩ := h
  simp only [DepositTokens.split, Option.bind_eq_bind, Option.bind_eq_some_iff, checkedSub_eq_some,
    Option.pure_def, Option.some.injEq] at h
  obtain ⟨_, ⟨hle, rfl⟩, _, ⟨hrle, rfl⟩, rfl⟩ := h
  have hcharge : p.depositCharge new = fee := (calcPoolTokensFee_eq_ceilShare hfee).symm
  have hmanager : p.managerCharge new = fee - ref := by
    rw [managerCharge, Function.comp, hcharge]
    exact (calcReferralFee_eq_ceilShare href hrle).symm
  dsimp only
  rw [hcharge, hmanager]
  exact ⟨hle, rfl, by omega, by omega⟩

theorem StakePool.charge_deposit (p : StakePool Key) : Charge p.depositCharge := .ceilShare _ _

theorem StakePool.charge_manager (p : StakePool Key) : Charge p.managerCharge :=
  (Charge.ceilShare _ _).comp (ceilShare_mono _ _) p.charge_deposit

theorem ceilShare_le_of_pos {num den m : Nat} (hm : 0 < m) (h : ceilShare num den m ≤ m) (k : Nat) :
    ceilShare num den k ≤ k := by
  rcases Nat.eq_zero_or_pos den with rfl | hd
  · exact (ceilDiv_zero _).trans_le (Nat.zero_le _)
  · refine ceilShare_le ?_ k
    rw [ceilShare, ceilDiv_le_iff_le_mul hd, Nat.mul_comm den] at h
    exact Nat.le_of_mul_le_mul_left h hm

end

variable {Key : Type} [DecidableEq Key] {rt : Runtime Key} {w w' w₁ : World Key} {source : Key}

/-- Whether a withdrawal from a token account pays a fee: not from the fee account itself, and only if that
account can receive tokens. -/
def World.charges (rt : Runtime Key) (w : World Key) (source : Key) : Bool :=
  w.stakePool.managerFeeAccount ≠ source &&
    (w.stakePool.checkManagerFeeInfo rt w.accounts ⟨w.stakePool.managerFeeAccount, false, false⟩).isOk

/-- The fee on a withdrawal from a token account. -/
def World.withdrawalCharge (rt : Runtime Key) (w : World Key) (fee : Fee) (source : Key) : Nat → Nat :=
  if w.charges rt source then ceilShare fee.numerator.toNat fee.denominator.toNat else fun _ => 0

theorem World.charge_withdrawal (fee : Fee) : Charge (w.withdrawalCharge rt fee source) := by
  unfold World.withdrawalCharge
  split
  · exact .ceilShare _ _
  · exact ⟨rfl, fun _ _ => Nat.le_refl _⟩

theorem World.withdrawalFee_eq_ok {fee : Fee} {src manager : AccountInfo Key} {n f : Nat}
    (hk : manager.key = w.stakePool.managerFeeAccount)
    (h : w.stakePool.withdrawalFee rt w.accounts (StakePool.calcPoolTokensFee fee) src manager n = .ok f) :
    f = w.withdrawalCharge rt fee src.key n := by
  have hcheck : w.stakePool.checkManagerFeeInfo rt w.accounts manager =
      w.stakePool.checkManagerFeeInfo rt w.accounts ⟨w.stakePool.managerFeeAccount, false, false⟩ := by
    simp only [StakePool.checkManagerFeeInfo, hk]
  unfold StakePool.withdrawalFee at h
  rw [hcheck] at h
  unfold World.withdrawalCharge World.charges
  split at h
  · rename_i hs
    cases h
    simp [hs]
  · rename_i hs
    split at h
    · rename_i hc
      cases h
      simp [hc, Except.isOk, Except.toBool]
    · rename_i hc
      rw [if_pos (by simp [hs, hc, Except.isOk, Except.toBool])]
      exact StakePool.calcPoolTokensFee_eq_ceilShare (orErr_eq_ok.1 h)

theorem StakePool.checkManagerFeeInfo_congr {p p' : StakePool Key} {acc acc' : Accounts Key}
    (hacc : SameReceivers acc acc') (hmint : p'.poolMint = p.poolMint)
    (htoken : p'.tokenProgramId = p.tokenProgramId) {info : AccountInfo Key}
    (h : p.checkManagerFeeInfo rt acc info = .ok ()) : p'.checkManagerFeeInfo rt acc' info = .ok () := by
  simp only [checkManagerFeeInfo, bind_eq_ok, unpackToken_eq_ok, ensure_eq_ok, exists_unit] at h ⊢
  obtain ⟨t, ⟨ht, hs⟩, ⟨ho, hi, hm⟩, hx⟩ := h
  have hr := hacc info.key
  rw [Account.receiver?_of_token ht, Account.receiver?, Option.map_eq_some_iff] at hr
  obtain ⟨t', ht', he⟩ := hr
  simp only [Prod.mk.injEq, TokenAccount.mk.injEq, true_and] at he
  obtain ⟨hown, hmint', -, hstate, hext⟩ := he
  refine ⟨t', ⟨Account.token?_eq_some.1 ht', by rw [hstate]; exact hs⟩,
    ⟨?_, by rw [hstate]; exact hi, by rw [hmint', hmint]; exact hm⟩, by rw [hext]; exact hx⟩
  rw [htoken, ← ho, ownerOf, ownerOf, hown]

/-- Charges only depend on the fee account, apart from its balance. -/
theorem World.withdrawalCharge_congr (hacc : SameReceivers w.accounts w'.accounts)
    (hmanager : w'.stakePool.managerFeeAccount = w.stakePool.managerFeeAccount)
    (hmint : w'.stakePool.poolMint = w.stakePool.poolMint)
    (htoken : w'.stakePool.tokenProgramId = w.stakePool.tokenProgramId) (fee : Fee) :
    w'.withdrawalCharge rt fee source = w.withdrawalCharge rt fee source := by
  have hchecked : (w'.stakePool.checkManagerFeeInfo rt w'.accounts ⟨w.stakePool.managerFeeAccount, false, false⟩).isOk =
      (w.stakePool.checkManagerFeeInfo rt w.accounts ⟨w.stakePool.managerFeeAccount, false, false⟩).isOk := by
    rw [Bool.eq_iff_iff, isOk_iff, isOk_iff]
    exact ⟨fun ⟨_, h⟩ => ⟨(), StakePool.checkManagerFeeInfo_congr (fun k => (hacc k).symm) hmint.symm htoken.symm h⟩,
      fun ⟨_, h⟩ => ⟨(), StakePool.checkManagerFeeInfo_congr hacc hmint htoken h⟩⟩
  rw [World.withdrawalCharge, World.withdrawalCharge, World.charges, World.charges, hmanager, hchecked]

/-! ## The parts -/

variable (rt) in
/-- A `WithdrawSol` of pool tokens, and the lamports that the destination receives. -/
inductive SolWithdrawal (source destination : Key) (w : World Key) (tokens : Nat) : Nat → World Key → Prop
  | mk {accounts rest : List (AccountInfo Key)} {a : WithdrawSolAccounts Key} {minimum : Option Nat} {w' : World Key}
      (hp : WithdrawSolAccounts.parse accounts = .ok (a, rest)) (hs : a.burnFromPoolInfo.key = source)
      (hd : a.destinationLamportsInfo.key = destination)
      (h : processWithdrawSol rt w accounts tokens minimum = .ok w') :
      SolWithdrawal source destination w tokens
        ((w'.accounts destination).lamports - (w.accounts destination).lamports) w'

variable (rt) in
/-- A `WithdrawStake` of pool tokens that does not take a whole account, and the lamports that the new stake
account receives. -/
inductive StakeWithdrawal (source : Key) (w : World Key) (tokens : Nat) : Nat → World Key → Prop
  | mk {accounts rest : List (AccountInfo Key)} {a : WithdrawStakeAccounts Key} {minimum : Option Nat} {w' : World Key}
      (hp : (WithdrawStakeAccounts.parse rt).run accounts = .ok (a, rest)) (hs : a.burnFromPoolInfo.key = source)
      (hw : ¬ a.takesWholeAccount w) (h : processWithdrawStake rt w accounts tokens minimum = .ok w') :
      StakeWithdrawal source w tokens
        ((w'.accounts a.stakeSplitTo.key).lamports - (w.accounts a.stakeSplitTo.key).lamports) w'

variable (rt) in
/-- A `DepositSol` of lamports, and the tokens of the user's share. -/
inductive SolDeposit (destination referrer : Key) (w : World Key) (lamports : Nat) : Nat → World Key → Prop
  | mk {accounts rest : List (AccountInfo Key)} {a : DepositSolAccounts Key} {minimum : Option Nat} {w' : World Key}
      {t : DepositTokens} (hp : DepositSolAccounts.parse accounts = .ok (a, rest))
      (hd : a.destUserPoolInfo.key = destination) (hr : a.referrerFeeInfo.key = referrer)
      (ht : w.stakePool.solDepositTokens lamports = some t)
      (h : processDepositSol rt w accounts lamports minimum = .ok w') :
      SolDeposit destination referrer w lamports t.user w'

omit [DecidableEq Key] in
/-- The lamports of a withdrawal are those of redeeming, in the vault, the tokens net of the charge. -/
theorem redeem_of_withdrawal {g : Nat → Nat} {tokens n : Nat} (hle : g tokens ≤ tokens)
    (hn : w.stakePool.calcLamportsWithdrawAmount (tokens - g tokens) = some n)
    (hburnt : tokens - g tokens ≤ w.stakePool.poolTokenSupply) (hlamports : n ≤ w.stakePool.totalLamports)
    (hT : w'.stakePool.totalLamports = w.stakePool.totalLamports - n)
    (hS : w'.stakePool.poolTokenSupply = w.stakePool.poolTokenSupply - (tokens - g tokens)) :
    Redeem g w.stakePool.vault tokens n w'.stakePool.vault where
  charge_le := hle
  price := StakePool.calcLamportsWithdrawAmount_le hn
  empty h := by
    have hz : w.stakePool.poolTokenSupply = 0 := h
    rw [StakePool.calcLamportsWithdrawAmount_floor hn, hz, Nat.div_zero]
  assets_le := hlamports
  redeemed_le := hburnt
  total := hT
  supply := hS

/-- What a part leaves as it was. -/
structure SamePool (w w' : World Key) : Prop where
  receivers : SameReceivers w.accounts w'.accounts
  reserve : w'.stakePool.reserveStake = w.stakePool.reserveStake
  manager : w'.stakePool.managerFeeAccount = w.stakePool.managerFeeAccount
  mint : w'.stakePool.poolMint = w.stakePool.poolMint
  tokenProgram : w'.stakePool.tokenProgramId = w.stakePool.tokenProgramId
  solWithdrawalFee : w'.stakePool.solWithdrawalFee = w.stakePool.solWithdrawalFee
  stakeWithdrawalFee : w'.stakePool.stakeWithdrawalFee = w.stakePool.stakeWithdrawalFee

theorem transferFee_receivers (hl : rt.Lawful) {acc acc' : Accounts Key} {src mint dst auth : AccountInfo Key}
    {fee decimals : Nat} (h : 0 < fee ∧ tokenTransfer rt acc src mint dst auth fee decimals = .ok acc' ∨
      fee = 0 ∧ acc = acc') : SameReceivers acc acc' := by
  rcases h with ⟨-, h⟩ | ⟨-, rfl⟩
  · exact tokenTransfer_receivers hl h
  · exact .refl _

variable [Inhabited Key]

theorem SolWithdrawal.spec (hl : rt.Lawful) {destination : Key} {tokens received : Nat}
    (h : SolWithdrawal rt source destination w tokens received w') :
    ∃ n, 0 < n ∧ Redeem (w.withdrawalCharge rt w.stakePool.solWithdrawalFee source) w.stakePool.vault tokens n
        w'.stakePool.vault ∧
      n = (tokens - w.withdrawalCharge rt w.stakePool.solWithdrawalFee source tokens) *
        w.stakePool.totalLamports / w.stakePool.poolTokenSupply ∧
      received = (if destination = w.stakePool.reserveStake then 0 else n) ∧ SamePool w w' := by
  obtain ⟨hp, rfl, rfl, h⟩ := h
  rename_i accounts rest a minimum
  simp only [processWithdrawSol, bind_eq_ok] at h
  obtain ⟨⟨a', rest'⟩, hp', h⟩ := h
  cases hp.symm.trans hp'
  obtain ⟨fee, decimals, n, acc₁, acc₂, h, hfee, hn⟩ := a.process_priced h
  obtain rfl := World.withdrawalFee_eq_ok h.feeKey hfee
  have hr := h.result
  have hreceivers := ((tokenBurn_receivers hl h.burn).trans (transferFee_receivers hl h.transfer)).trans
    (stakeWithdraw_receivers hl h.withdraw)
  refine ⟨n, h.lamports.pos, redeem_of_withdrawal h.fee_le hn h.burnt_le h.lamports_le (by rw [hr]) (by rw [hr]),
    StakePool.calcLamportsWithdrawAmount_floor hn, ?_, ⟨hreceivers, by rw [hr], by rw [hr], by rw [hr], by rw [hr],
    by rw [hr], by rw [hr]⟩⟩
  split
  · rename_i hd
    -- the reserve pays itself
    have hlam : (acc₂ a.reserveStakeInfo.key).lamports = (w.accounts a.reserveStakeInfo.key).lamports := by
      rw [(transferFee_only hl h.transfer _).1, (tokenBurn_only hl h.burn _).1]
    obtain ⟨-, hle, _, _, -, -, -, -, b, hb, hacc⟩ := stakeWithdraw_ok hl h.withdraw
    rw [hlam] at hle hb
    rw [hacc, hd, ← h.reserveKey, Function.update_self, Function.update_self, Account.credit_lamports, hb]
    dsimp only
    omega
  · rename_i hd
    rw [h.received hl hd, Nat.add_sub_cancel_left]

omit [Inhabited Key] in
theorem StakeWithdrawal.spec (hl : rt.Lawful) {tokens n : Nat} (h : StakeWithdrawal rt source w tokens n w') :
    0 < n ∧ Redeem (w.withdrawalCharge rt w.stakePool.stakeWithdrawalFee source) w.stakePool.vault tokens n
        w'.stakePool.vault ∧
      n = (tokens - w.withdrawalCharge rt w.stakePool.stakeWithdrawalFee source tokens) *
        w.stakePool.totalLamports / w.stakePool.poolTokenSupply ∧ SamePool w w' := by
  obtain ⟨hp, rfl, hw, h⟩ := h
  rename_i accounts rest a minimum
  simp only [processWithdrawStake, bind_eq_ok] at h
  obtain ⟨⟨a', rest'⟩, hp', h⟩ := h
  cases hp.symm.trans hp'
  obtain ⟨fee, decimals, n, plan, acc₁, acc₂, acc₃, h, hfee, hn, -⟩ := a.process_priced h
  obtain rfl := World.withdrawalFee_eq_ok h.feeKey hfee
  have hplan : plan.withdrawLamports = n := by rw [h.planned.lamports_eq, if_neg hw]
  have hlamports := h.lamports_le
  have hr := h.result
  obtain ⟨d, x, hpool⟩ := WithdrawStakeAccounts.stakePool_eq plan w.stakePool
  rw [hpool] at hr
  have hreceivers := (((tokenBurn_receivers hl h.burn).trans (stakeSplit_receivers hl h.split)).trans
    (stakeAuthorizeSigned_receivers hl h.authorize)).trans (transferFee_receivers hl h.transfer)
  rw [h.received hl, Nat.add_sub_cancel_left, hplan]
  rw [hplan] at hr hlamports
  exact ⟨h.lamports.pos, redeem_of_withdrawal h.fee_le hn h.burnt_le hlamports (by rw [hr]) (by rw [hr]),
    StakePool.calcLamportsWithdrawAmount_floor hn, hreceivers, by rw [hr], by rw [hr], by rw [hr], by rw [hr],
    by rw [hr], by rw [hr]⟩

omit [Inhabited Key] [DecidableEq Key] in
theorem SamePool.refl (w : World Key) : SamePool w w := ⟨.refl _, rfl, rfl, rfl, rfl, rfl, rfl⟩

omit [Inhabited Key] [DecidableEq Key] in
theorem SamePool.trans {w'' : World Key} (h : SamePool w w') (h' : SamePool w' w'') : SamePool w w'' :=
  ⟨h.receivers.trans h'.receivers, h'.reserve.trans h.reserve, h'.manager.trans h.manager, h'.mint.trans h.mint,
    h'.tokenProgram.trans h.tokenProgram, h'.solWithdrawalFee.trans h.solWithdrawalFee,
    h'.stakeWithdrawalFee.trans h.stakeWithdrawalFee⟩

omit [Inhabited Key] in
theorem SamePool.charge (h : SamePool w w') (fee : Fee) :
    w'.withdrawalCharge rt fee source = w.withdrawalCharge rt fee source :=
  World.withdrawalCharge_congr h.receivers h.manager h.mint h.tokenProgram fee

/-- Parts of a `WithdrawSol` redeem parts of the tokens in the vault, all at the charge of the first one. -/
theorem SolWithdrawal.parts (hl : rt.Lawful) {destination : Key} {tokens received : Nat}
    (h : Parts (SolWithdrawal rt source destination) w w' tokens received) :
    (∃ paid, Parts (Redeem (w.withdrawalCharge rt w.stakePool.solWithdrawalFee source)) w.stakePool.vault
        w'.stakePool.vault tokens paid ∧
      received = if destination = w.stakePool.reserveStake then 0 else paid) ∧ SamePool w w' := by
  induction h with
  | refl => exact ⟨⟨0, .refl, (ite_self _).symm⟩, .refl w⟩
  | tail _ hs ih =>
    obtain ⟨⟨paid, hparts, hgot⟩, hsame⟩ := ih
    obtain ⟨n, -, hredeem, -, hn, hsame'⟩ := hs.spec hl
    rw [hsame.charge, hsame.solWithdrawalFee] at hredeem
    rw [hsame.reserve] at hn
    refine ⟨⟨paid + n, hparts.tail hredeem, ?_⟩, hsame.trans hsame'⟩
    rw [hgot, hn]
    split
    · rfl
    · rfl

omit [Inhabited Key] in
/-- Parts of a `WithdrawStake` redeem parts of the tokens in the vault, all at the charge of the first one. -/
theorem StakeWithdrawal.parts (hl : rt.Lawful) {tokens received : Nat}
    (h : Parts (StakeWithdrawal rt source) w w' tokens received) :
    Parts (Redeem (w.withdrawalCharge rt w.stakePool.stakeWithdrawalFee source)) w.stakePool.vault
      w'.stakePool.vault tokens received := by
  refine (h.map (I := SamePool w) (f := fun w => w.stakePool.vault) (fun s n x s' hsame hs => ?_) (.refl w)).1
  obtain ⟨-, hredeem, -, hsame'⟩ := hs.spec hl
  rw [hsame.charge, hsame.stakeWithdrawalFee] at hredeem
  exact ⟨hredeem, hsame.trans hsame'⟩

omit [Inhabited Key] [DecidableEq Key] in
/-- Parts are paid no more than one withdrawal, and leave the pool no less. -/
theorem redeem_parts_le {g : Nat → Nat} (hg : Charge g) {p p' p₁ : StakePool Key} {tokens paid paid₁ : Nat}
    (h : Parts (Redeem g) p.vault p'.vault tokens paid) (h₁ : Redeem g p.vault tokens paid₁ p₁.vault)
    (hpos : 0 < paid₁) (hn : paid₁ = (tokens - g tokens) * p.totalLamports / p.poolTokenSupply) :
    paid ≤ paid₁ ∧ p₁.totalLamports ≤ p'.totalLamports := by
  have hS : 0 < p.poolTokenSupply := by
    refine Nat.pos_of_ne_zero fun h0 => ?_
    rw [hn, h0, Nat.div_zero] at hpos
    exact absurd hpos (Nat.lt_irrefl 0)
  have hle : paid ≤ paid₁ := by
    rw [hn]
    exact Redeem.parts_le hg hS h
  obtain ⟨hT, -⟩ := Redeem.parts hg h
  have hT₁ := h₁.total
  dsimp only [StakePool.vault] at hT hT₁
  exact ⟨hle, by omega⟩

/-! ## Deposits -/

/-- What the holder of a token account does not receive of a SOL deposit, unless it is the fee account. -/
def StakePool.receiptCharge (p : StakePool Key) (destination referrer : Key) : Nat → Nat :=
  if referrer = destination then p.managerCharge else p.depositCharge

/-- What a deposit leaves as it was. -/
structure SameFeeConfig (p p' : StakePool Key) : Prop where
  depositFee : p'.solDepositFee = p.solDepositFee
  referralFee : p'.solReferralFee = p.solReferralFee
  manager : p'.managerFeeAccount = p.managerFeeAccount

omit [Inhabited Key] in
theorem SolDeposit.spec (hl : rt.Lawful) {destination referrer : Key} {lamports credited : Nat}
    (hT : 0 < w.stakePool.totalLamports) (hS : 0 < w.stakePool.poolTokenSupply)
    (h : SolDeposit rt destination referrer w lamports credited w') :
    ∃ tokens grown, tokens = lamports * w.stakePool.poolTokenSupply / w.stakePool.totalLamports ∧ 0 < credited ∧
      credited = tokens - w.stakePool.depositCharge tokens ∧
      grown = tokens - w.stakePool.receiptCharge destination referrer tokens ∧
      Issue w.stakePool.depositCharge w.stakePool.vault lamports credited w'.stakePool.vault ∧
      Issue (w.stakePool.receiptCharge destination referrer) w.stakePool.vault lamports grown w'.stakePool.vault ∧
      (destination ≠ w.stakePool.managerFeeAccount →
        w'.heldBy {destination} = w.heldBy {destination} + grown) ∧
      SameFeeConfig w.stakePool w'.stakePool := by
  obtain ⟨hp, rfl, rfl, ht, h⟩ := h
  rename_i accounts rest a minimum t
  obtain ⟨a', rest', hp', t', acc₁, h⟩ := processDepositSol_ok h
  cases hp.symm.trans hp'
  obtain rfl := Option.some.inj (ht.symm.trans h.tokens)
  obtain ⟨hn, -⟩ := StakePool.solDepositTokens_eq_some ht
  obtain ⟨hle, huser, hle', hself⟩ := StakePool.solDepositTokens_charged ht
  have hfloor := StakePool.calcPoolTokensForDeposit_floor hT.ne' hS.ne' hn
  have hprice := (StakePool.calcPoolTokensForDeposit_le hn).2 hT.ne' hS.ne'
  have hr := h.result
  have hvault : w'.stakePool.vault =
      ⟨w.stakePool.vault.total + lamports, w.stakePool.vault.supply + t.newPoolTokens⟩ := by rw [hr]; rfl
  have hcharge : w.stakePool.receiptCharge a.destUserPoolInfo.key a.referrerFeeInfo.key t.newPoolTokens ≤
      t.newPoolTokens := by
    unfold StakePool.receiptCharge
    split
    · exact hle'
    · exact hle
  refine ⟨t.newPoolTokens, _, hfloor, Nat.pos_of_ne_zero h.checked.user, huser, rfl, ⟨_, hle, huser, hprice, hvault⟩,
    ⟨_, hcharge, rfl, hprice, hvault⟩, fun hd => ?_, by rw [hr], by rw [hr], by rw [hr]⟩
  have hheld : held {a.destUserPoolInfo.key} a.poolMintInfo.key w'.accounts = _ :=
    mintDepositTokens_held_eq hl h.mint
  rw [(solTransfer_tokens hl h.transfer).held_eq, h.mintKey, h.feeKey, if_pos (Finset.mem_singleton_self _),
    if_neg (by simpa using hd.symm)] at hheld
  have hmint : w'.stakePool.poolMint = w.stakePool.poolMint := by rw [hr]
  rw [World.heldBy, World.heldBy, hmint, hheld]
  unfold StakePool.receiptCharge
  by_cases hs : a.referrerFeeInfo.key = a.destUserPoolInfo.key
  · rw [if_pos (by simpa using hs), if_pos hs, ← hself]
    omega
  · rw [if_neg (by simpa using hs), if_neg hs, ← huser]
    omega

omit [Inhabited Key] in
/-- Parts of a `DepositSol` pay into the vault, all at the charges of the first one. -/
theorem SolDeposit.parts (hl : rt.Lawful) {destination referrer : Key} {lamports credited : Nat}
    (hT : 0 < w.stakePool.totalLamports) (hS : 0 < w.stakePool.poolTokenSupply)
    (h : Parts (SolDeposit rt destination referrer) w w' lamports credited) :
    Parts (Issue w.stakePool.depositCharge) w.stakePool.vault w'.stakePool.vault lamports credited ∧
    ∃ grown, Parts (Issue (w.stakePool.receiptCharge destination referrer)) w.stakePool.vault w'.stakePool.vault
        lamports grown ∧
      (destination ≠ w.stakePool.managerFeeAccount →
        w'.heldBy {destination} = w.heldBy {destination} + grown) ∧
      SameFeeConfig w.stakePool w'.stakePool := by
  induction h with
  | refl => exact ⟨.refl, 0, .refl, fun _ => rfl, rfl, rfl, rfl⟩
  | tail _ hs ih =>
    obtain ⟨hparts, grown, hparts', hheld, hsame⟩ := ih
    obtain ⟨hT', hS', -⟩ := Issue.parts w.stakePool.charge_deposit hT hS hparts
    obtain ⟨tokens, grown', -, -, -, -, hissue, hissue', hheld', hsame'⟩ := hs.spec hl hT' hS'
    simp only [StakePool.receiptCharge, StakePool.managerCharge, StakePool.depositCharge, hsame.depositFee,
      hsame.referralFee] at hissue hissue'
    refine ⟨hparts.tail hissue, grown + grown', hparts'.tail hissue', fun hd => ?_,
      hsame'.depositFee.trans hsame.depositFee, hsame'.referralFee.trans hsame.referralFee,
      hsame'.manager.trans hsame.manager⟩
    rw [hheld' (by rw [hsame.manager]; exact hd), hheld hd, Nat.add_assoc]

/-- Splitting never helps: the parts of a withdrawal of SOL, or of a withdrawal of stake that takes no whole
account, pay no more than one withdrawal of all the tokens does, and leave the pool no less. The parts of a SOL
deposit credit the user with no more tokens than one deposit does, and, unless the user receives the fees, leave
its account with no more of them. -/
theorem splitting_never_helps (hl : rt.Lawful) {amount got got₁ : Nat} :
    (∀ source destination, Parts (SolWithdrawal rt source destination) w w' amount got →
      SolWithdrawal rt source destination w amount got₁ w₁ →
      got ≤ got₁ ∧ w₁.stakePool.totalLamports ≤ w'.stakePool.totalLamports) ∧
    (∀ source, Parts (StakeWithdrawal rt source) w w' amount got →
      StakeWithdrawal rt source w amount got₁ w₁ →
      got ≤ got₁ ∧ w₁.stakePool.totalLamports ≤ w'.stakePool.totalLamports) ∧
    (∀ destination referrer, 0 < w.stakePool.totalLamports → 0 < w.stakePool.poolTokenSupply →
      Parts (SolDeposit rt destination referrer) w w' amount got →
      SolDeposit rt destination referrer w amount got₁ w₁ →
      got ≤ got₁ ∧ (destination ≠ w.stakePool.managerFeeAccount →
        w'.heldBy {destination} ≤ w₁.heldBy {destination})) := by
  refine ⟨fun source destination h h₁ => ?_, fun source h h₁ => ?_,
    fun destination referrer hT hS h h₁ => ?_⟩
  · obtain ⟨⟨paid, hparts, rfl⟩, -⟩ := SolWithdrawal.parts hl h
    obtain ⟨n, hpos, hredeem, hn, rfl, -⟩ := h₁.spec hl
    obtain ⟨hle, hpool⟩ := redeem_parts_le (World.charge_withdrawal _) hparts hredeem hpos hn
    refine ⟨?_, hpool⟩
    split
    · exact Nat.le_refl 0
    · exact hle
  · obtain ⟨hpos, hredeem, hn, -⟩ := h₁.spec hl
    exact redeem_parts_le (World.charge_withdrawal _) (StakeWithdrawal.parts hl h) hredeem hpos hn
  · obtain ⟨hparts, grown, hparts', hheld, -⟩ := SolDeposit.parts hl hT hS h
    obtain ⟨tokens, grown₁, rfl, hpos, rfl, rfl, -, -, hheld₁, -⟩ := h₁.spec hl hT hS
    -- the user's share of the whole deposit is not nothing, so the fee exceeds no amount
    have hfee : ∀ k, w.stakePool.depositCharge k ≤ k :=
      ceilShare_le_of_pos (by omega) (Nat.le_of_lt (Nat.lt_of_sub_pos hpos))
    have hreceipt : Charge (w.stakePool.receiptCharge destination referrer) ∧
        ∀ k, w.stakePool.receiptCharge destination referrer k ≤ k := by
      unfold StakePool.receiptCharge
      split
      · exact ⟨w.stakePool.charge_manager, fun k => (ceilShare_le (Nat.sub_le 100 _) _).trans (hfee k)⟩
      · exact ⟨w.stakePool.charge_deposit, hfee⟩
    refine ⟨Issue.parts_le w.stakePool.charge_deposit hfee hT hS hparts, fun hd => ?_⟩
    rw [hheld hd, hheld₁ hd]
    exact Nat.add_le_add_left (Issue.parts_le hreceipt.1 hreceipt.2 hT hS hparts') _

section
open Reference

/-- The accounts of a withdrawal of stake. -/
def splitAccounts (source destination : Reference.Key) : WithdrawStakeAccounts Reference.Key where
  stakePoolInfo := poolInfo
  validatorListInfo := listInfo
  withdrawAuthorityInfo := authorityInfo
  stakeSplitFrom := writable source
  stakeSplitTo := writable destination
  userStakeAuthorityInfo := writable user
  userTransferAuthorityInfo := signer user
  burnFromPoolInfo := tokensInfo
  managerFeeInfo := feeInfo
  poolMintInfo := mintInfo
  tokenProgramInfo := tokenInfo
  stakeProgramInfo := stakeInfo

variable {w : World Reference.Key} {n x : Nat}

theorem solWithdrawal_next (h : (exec w (withdrawSol n 0)).isSome)
    (hx : ((next w (withdrawSol n 0)).accounts user).lamports - (w.accounts user).lamports = x) :
    SolWithdrawal runtime userTokens user w n x (next w (withdrawSol n 0)) :=
  hx ▸ .mk rfl rfl rfl (next_process h)

theorem stakeWithdrawal_next (source destination : Reference.Key)
    (h : (exec w (Reference.withdrawStake source destination n 0)).isSome)
    (hw : ¬ (splitAccounts source destination).takesWholeAccount w)
    (hx : ((next w (Reference.withdrawStake source destination n 0)).accounts destination).lamports -
      (w.accounts destination).lamports = x) :
    StakeWithdrawal runtime userTokens w n x (next w (Reference.withdrawStake source destination n 0)) :=
  hx ▸ .mk (a := splitAccounts source destination) rfl rfl hw (next_process h)

theorem solDeposit_next {t : DepositTokens} (h : (exec w (depositSol n 0)).isSome)
    (ht : w.stakePool.solDepositTokens n = some t) :
    SolDeposit runtime userTokens managerFeeAccount w n t.user (next w (depositSol n 0)) :=
  .mk rfl rfl rfl ht (next_process h)

/-- A pool whose user has tokens to withdraw. -/
def funded : World Reference.Key := next gainedPool (depositSol 1000003 0)

theorem splitting_never_helps_two :
    (296362 ≤ 296363 ∧ (next funded (withdrawSol 400000 0)).stakePool.totalLamports ≤
      (next (next funded (withdrawSol 200001 0)) (withdrawSol 199999 0)).stakePool.totalLamports) ∧
    (2000001 ≤ 2000001 ∧
      (next staked (Reference.withdrawStake (transientStake vote 7) userStake 2000001 0)).stakePool.totalLamports ≤
        (next (next staked (Reference.withdrawStake (transientStake vote 7) userStake 1000001 0))
          (Reference.withdrawStake (transientStake vote 7) userStake' 1000000 0)).stakePool.totalLamports) ∧
    (6 ≤ 6 ∧ (next (next gainedPool (depositSol 5 0)) (depositSol 5 0)).heldBy {userTokens} ≤
      (next gainedPool (depositSol 10 0)).heldBy {userTokens}) := by
  have hsol₁ : SolWithdrawal runtime userTokens user funded 200001 148182 _ :=
    solWithdrawal_next (by decide +kernel) (by decide +kernel)
  have hsol₂ : SolWithdrawal runtime userTokens user (next funded (withdrawSol 200001 0)) 199999 148180 _ :=
    solWithdrawal_next (by decide +kernel) (by decide +kernel)
  have hsol : SolWithdrawal runtime userTokens user funded 400000 296363 _ :=
    solWithdrawal_next (by decide +kernel) (by decide +kernel)
  have hstake₁ : StakeWithdrawal runtime userTokens staked 1000001 1000001 _ :=
    stakeWithdrawal_next (transientStake vote 7) userStake (by decide +kernel) (by decide +kernel) (by decide +kernel)
  have hstake₂ : StakeWithdrawal runtime userTokens
      (next staked (Reference.withdrawStake (transientStake vote 7) userStake 1000001 0)) 1000000 1000000 _ :=
    stakeWithdrawal_next (transientStake vote 7) userStake' (by decide +kernel) (by decide +kernel) (by decide +kernel)
  have hstake : StakeWithdrawal runtime userTokens staked 2000001 2000001 _ :=
    stakeWithdrawal_next (transientStake vote 7) userStake (by decide +kernel) (by decide +kernel) (by decide +kernel)
  have hdeposit₁ : SolDeposit runtime userTokens managerFeeAccount gainedPool 5 3 _ :=
    solDeposit_next (t := ⟨4, 3, 1, 0⟩) (by decide +kernel) (by decide +kernel)
  have hdeposit₂ : SolDeposit runtime userTokens managerFeeAccount (next gainedPool (depositSol 5 0)) 5 3 _ :=
    solDeposit_next (t := ⟨4, 3, 1, 0⟩) (by decide +kernel) (by decide +kernel)
  have hdeposit : SolDeposit runtime userTokens managerFeeAccount gainedPool 10 6 _ :=
    solDeposit_next (t := ⟨8, 6, 2, 0⟩) (by decide +kernel) (by decide +kernel)
  refine ⟨(splitting_never_helps lawful).1 _ _ ((Parts.refl.tail hsol₁).tail hsol₂) hsol,
    (splitting_never_helps lawful).2.1 _ ((Parts.refl.tail hstake₁).tail hstake₂) hstake, ?_⟩
  obtain ⟨hle, hheld⟩ := (splitting_never_helps lawful).2.2 _ _ (by decide +kernel) (by decide +kernel)
    ((Parts.refl.tail hdeposit₁).tail hdeposit₂) hdeposit
  exact ⟨hle, hheld (by decide +kernel)⟩

end

end SplStakePool
