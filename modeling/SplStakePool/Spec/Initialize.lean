import SplStakePool.Invariant.Cpi

/-!
# What an `Initialize` that succeeds has done

The pool and the list are new, the reserve and the mint are the pool's alone, and every fee is at most one. The tokens
minted to the manager are as many as the lamports of the reserve beyond its minimum. It is what the invariants
of runs begin with.
-/

namespace SplStakePool
open Exec Machine

variable {Key : Type} [DecidableEq Key] [Inhabited Key] {rt : Runtime Key} {w w' : World Key}
  {accounts : List (AccountInfo Key)} {epochFee withdrawalFee depositFee : Fee} {referralFee : UInt8}
  {maxValidators : Nat}

/-- A successful `Initialize`, with the meta of the reserve, the mint before it and the total. -/
structure InitializeAccounts.Ok (rt : Runtime Key) (w w' : World Key) (a : InitializeAccounts Key)
    (epochFee withdrawalFee depositFee : Fee) (referralFee : UInt8) (maxValidators : Nat)
    (m : Meta Key) (mint : Mint Key) (total : Nat) : Prop where
  uninitialized : w.stakePool.isUninitialized
  listKey : a.validatorListInfo.key = rt.validatorListAddress
  authorityKey : a.withdrawAuthorityInfo.key = rt.withdrawAuthority
  feesAdmitted : epochFee.atMostOne ∧ withdrawalFee.atMostOne ∧ depositFee.atMostOne ∧ referralFee ≤ 100
  maxValidators_eq : ValidatorList.calculateMaxValidators w.validatorListDataLen = maxValidators
  maxValidators_ne : maxValidators ≠ 0
  maxValidators_le : maxValidators ≤ maxValidatorsInPool
  reserve_ne : a.reserveStakeInfo.key ≠ rt.stakePoolAddress ∧
    a.reserveStakeInfo.key ≠ rt.validatorListAddress
  reserveOwner : (w.accounts a.reserveStakeInfo.key).owner = rt.stakeProgramId
  reserve : (w.accounts a.reserveStakeInfo.key).data = .stakeState (.initialized m)
  authorized : m.authorized = ⟨rt.withdrawAuthority, rt.withdrawAuthority⟩
  lockup : m.lockup = default
  reserve_le : minimumReserveLamports m ≤ (w.accounts a.reserveStakeInfo.key).lamports
  total_eq : (w.accounts a.reserveStakeInfo.key).lamports - minimumReserveLamports m = total
  mint_eq : (w.accounts a.poolMintInfo.key).data = .mint mint
  supply : mint.supply = 0
  mintAuthority : mint.mintAuthority = some rt.withdrawAuthority
  mintTo : 0 < total ∧ tokenMintTo rt w.accounts a.poolMintInfo a.managerFeeInfo
      a.withdrawAuthorityInfo total = .ok w'.accounts ∨ total = 0 ∧ w.accounts = w'.accounts
  result : ∃ authorities : Key × Option Key, w' = { w with
    stakePool := StakePool.initialized { w.stakePool with
        tokenProgramId := a.tokenProgramInfo.key, poolMint := a.poolMintInfo.key } a epochFee
      withdrawalFee depositFee referralFee authorities.1 authorities.2
      (findWithdrawAuthorityProgramAddress rt rt.programId rt.stakePoolAddress).2 total w.sysvars.epoch
    validatorList := { header := { accountType := .validatorList, maxValidators }, validators := [] }
    accounts := w'.accounts }

theorem checkNewReserve_eq_ok {a : Account Key} {k : Key} {n : Nat}
    (h : checkNewReserve a k = .ok n) : ∃ m, a.data = .stakeState (.initialized m) ∧
      m.authorized = ⟨k, k⟩ ∧ m.lockup = default ∧ minimumReserveLamports m ≤ a.lamports ∧
      a.lamports - minimumReserveLamports m = n := by
  simp only [checkNewReserve, bind_eq_ok, readStakeState_eq_ok] at h
  obtain ⟨s, hs, h⟩ := h
  cases s with
  | initialized m =>
    simp only [bind_eq_ok, ensure_eq_ok, exists_unit, orErr_eq_ok, checkedSub_eq_some] at h
    obtain ⟨hl, hst, hw, hle, hn⟩ := h
    refine ⟨m, hs, ?_, hl, hle, hn⟩
    rw [← hst]
    rcases hm : m.authorized with ⟨s, t⟩
    simp_all
  | _ => cases h

theorem InitializeAccounts.process_ok {a : InitializeAccounts Key} (hl : rt.Lawful)
    (h : a.process rt w epochFee withdrawalFee depositFee referralFee maxValidators = .ok w') :
    ∃ m mint total,
      a.Ok rt w w' epochFee withdrawalFee depositFee referralFee maxValidators m mint total := by
  simp only [process, bind_eq_ok, ensure_eq_ok, exists_unit, pure_eq_ok, unpackMint_eq_ok,
    World.readStakePool_eq_ok, World.readValidatorList_eq_ok] at h
  obtain ⟨-, -, -, p, ⟨hk, rfl⟩, hu, -, l, ⟨hlk, rfl⟩, -, hmax, hmaxle, -, -, hfee, -, -, hwk, mint,
    hmint, hnew, -, hro, total, hnr, acc, hm, rfl⟩ := h
  rw [hk] at hwk hnew hnr
  obtain ⟨m, hr, hau, hlo, hle, ht⟩ := checkNewReserve_eq_ok hnr
  simp only [checkNewPoolMint, bind_eq_ok, ensure_eq_ok, exists_unit] at hnew
  obtain ⟨hsup, -, hma, -, -⟩ := hnew
  simp only [not_or, not_not] at hmax
  -- the reserve is not owned by this program, so it is neither the pool nor the list
  have hro' : (a.reserveStakeInfo.key ≠ rt.stakePoolAddress ∧
      a.reserveStakeInfo.key ≠ rt.validatorListAddress) ∧
      (w.accounts a.reserveStakeInfo.key).owner = rt.stakeProgramId := by
    simp only [ownerOf] at hro
    split at hro <;> rename_i hk
    · exact absurd hro hl.program_ne_stake
    · exact ⟨not_or.1 hk, hro⟩
  refine ⟨m, mint, total, hu, hlk, hwk.symm, hfee, hmax.1, hmax.2, hmaxle, hro'.1, hro'.2, hr, hau, hlo, hle, ht, hmint, hsup, hma, ?_,
    a.depositAuthorities rt, ?_⟩
  · rcases ite_pure_eq_ok.1 hm with h | ⟨h0, he⟩
    · exact .inl h
    · exact .inr ⟨by omega, he⟩
  · rw [hk]

theorem processInitialize_ok (hl : rt.Lawful)
    (h : processInitialize rt w accounts epochFee withdrawalFee depositFee referralFee maxValidators =
      .ok w') : ∃ a m mint total, InitializeAccounts.Ok rt w w' a epochFee withdrawalFee depositFee
        referralFee maxValidators m mint total := by
  simp only [processInitialize, bind_eq_ok] at h
  obtain ⟨⟨a, rest⟩, -, h⟩ := h
  exact ⟨a, a.process_ok hl h⟩

end SplStakePool
