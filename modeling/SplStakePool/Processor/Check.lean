import SplStakePool.Cpi

/-!
# Checks shared by the handlers (`processor.rs`, `state.rs`)

A check is a computation without a result, and fails with the error of the source. The checks of an authority
are one function of the key that is expected and of the error; those that deserialize an account return what
they have read. Lemmas that end in `eq_ok` say what is known once a check has passed.
-/

namespace SplStakePool
open Exec Machine

variable {Key : Type}

/-- Deserializes a stake state. -/
def readStakeState (a : Account Key) : Except ProgramError (StakeStateV2 Key) :=
  orErr a.stakeState? .borshIoError

/-- Deserializes the stake state of a delegated stake account. -/
def getStakeState (a : Account Key) : Except ProgramError (Meta Key × Stake Key) := do
  match ← readStakeState a with
  | .stake m s => .ok (m, s)
  | _ => .error (.custom .wrongStakeStake)

/-- Unpacks a mint. -/
def unpackMint (a : Account Key) : Except ProgramError (Mint Key) := orErr a.mint? .invalidAccountData

/-- Unpacks a token account, which must be initialized. -/
def unpackToken (a : Account Key) : Except ProgramError (TokenAccount Key) := do
  let t ← orErr a.token? .invalidAccountData
  ensure (t.state ≠ .uninitialized) ProgramError.uninitializedAccount
  return t

section
variable {a : Account Key}

theorem readStakeState_eq_ok {s : StakeStateV2 Key} : readStakeState a = .ok s ↔ a.data = .stakeState s := by
  rw [readStakeState, orErr_eq_ok, Account.stakeState?_eq_some]

theorem getStakeState_eq_ok {m : Meta Key} {s : Stake Key} :
    getStakeState a = .ok (m, s) ↔ a.data = .stakeState (.stake m s) := by
  simp only [getStakeState, bind_eq_ok, readStakeState_eq_ok]
  constructor
  · rintro ⟨t, ht, h⟩
    cases t with
    | stake m' s' => cases h; exact ht
    | _ => cases h
  · intro h; exact ⟨_, h, rfl⟩

theorem unpackMint_eq_ok {m : Mint Key} : unpackMint a = .ok m ↔ a.data = .mint m := by
  rw [unpackMint, orErr_eq_ok, Account.mint?_eq_some]

theorem unpackToken_eq_ok {t : TokenAccount Key} :
    unpackToken a = .ok t ↔ a.data = .token t ∧ t.state ≠ .uninitialized := by
  simp only [unpackToken, bind_eq_ok, orErr_eq_ok, Account.token?_eq_some, ensure_eq_ok, exists_unit,
    pure_eq_ok]
  constructor
  · rintro ⟨t', ht, hs, rfl⟩; exact ⟨ht, hs⟩
  · rintro ⟨ht, hs⟩; exact ⟨t, ht, hs, rfl⟩

end

variable [DecidableEq Key] (rt : Runtime Key)

/-- Check validity of vote address for a particular stake account -/
def checkValidatorStakeAddress (programId stakePoolAddress stakeAccountAddress voteAddress : Key)
    (seed : Option UInt32) : Except ProgramError Unit :=
  ensure ((findStakeProgramAddress rt programId voteAddress stakePoolAddress seed).1 = stakeAccountAddress)
    (.custom .invalidStakeAccountAddress)

/-- Check validity of a transient stake account address; returns the bump. -/
def checkTransientStakeAddress (programId stakePoolAddress stakeAccountAddress voteAddress : Key)
    (seed : UInt64) : Except ProgramError UInt8 := do
  let (address, bump) := findTransientStakeProgramAddress rt programId voteAddress stakePoolAddress seed
  ensure (address = stakeAccountAddress) (.custom .invalidStakeAccountAddress)
  return bump

/-- Check address validity for an ephemeral stake account; returns the bump. -/
def checkEphemeralStakeAddress (programId stakePoolAddress stakeAccountAddress : Key) (seed : UInt64) :
    Except ProgramError UInt8 := do
  let (address, bump) := findEphemeralStakeProgramAddress rt programId stakePoolAddress seed
  ensure (address = stakeAccountAddress) (.custom .invalidStakeAccountAddress)
  return bump

def checkMplMetadataAccountAddress (metadataAddress poolMint : Key) : Except ProgramError Unit :=
  ensure ((findMetadataAccount rt poolMint).1 = metadataAddress) (.custom .invalidMetadataAccount)

def checkSystemProgram (programId : Key) : Except ProgramError Unit :=
  ensure (programId = rt.systemProgramId) .incorrectProgramId

def checkStakeProgram (programId : Key) : Except ProgramError Unit :=
  ensure (programId = rt.stakeProgramId) .incorrectProgramId

def checkMplMetadataProgram (programId : Key) : Except ProgramError Unit :=
  ensure (programId = rt.mplTokenMetadataId) .incorrectProgramId

/-- `check_spl_token_program_account`, of the token library -/
def checkSplTokenProgramAccount (programId : Key) : Except ProgramError Unit :=
  ensure (programId = rt.tokenProgramId ∨ programId = rt.token2022ProgramId) .incorrectProgramId

/-- Checks if a stake account can be managed by the pool -/
def stakeIsUsableByPool (m : Meta Key) (expectedAuthority : Key) (expectedLockup : Lockup Key) : Bool :=
  m.authorized.staker = expectedAuthority ∧ m.authorized.withdrawer = expectedAuthority ∧
    m.lockup = expectedLockup

/-- Checks if a stake account is inactive, without taking into account cool down -/
def stakeIsInactiveWithoutHistory (s : Stake Key) (epoch : Nat) : Bool :=
  s.delegation.deactivationEpoch < epoch ∨
    s.delegation.activationEpoch = epoch ∧ s.delegation.deactivationEpoch = epoch

/-- Roughly checks if a stake account is deactivating -/
def checkIfStakeDeactivating (a : Account Key) (epoch : Nat) : Except ProgramError Unit := do
  let (_, s) ← getStakeState a
  ensure (s.delegation.deactivationEpoch = epoch) (.custom .wrongStakeStake)

/-- Roughly checks if a stake account is activating -/
def checkIfStakeActivating (a : Account Key) (epoch : Nat) : Except ProgramError Unit := do
  let (_, s) ← getStakeState a
  ensure (s.delegation.deactivationEpoch = epochMax ∧ s.delegation.activationEpoch = epoch)
    (.custom .wrongStakeStake)

/-- Check that the stake state is correct: usable by the pool and delegated to the validator -/
def checkStakeState (a : Account Key) (withdrawAuthority voteAccountAddress : Key)
    (lockup : Lockup Key) : Except ProgramError Unit := do
  let (m, s) ← getStakeState a
  ensure (stakeIsUsableByPool m withdrawAuthority lockup) (.custom .wrongStakeStake)
  ensure (s.delegation.voterPubkey = voteAccountAddress) (.custom .wrongStakeStake)

/-- Checks if a validator stake account is valid. This can fail if a validator was force destaked. -/
def checkValidatorStakeAccount (accounts : Accounts Key) (stakeAccountInfo : AccountInfo Key)
    (programId stakePool withdrawAuthority voteAccountAddress : Key) (seed : UInt32)
    (lockup : Lockup Key) : Except ProgramError Unit := do
  checkAccountOwner rt accounts stakeAccountInfo rt.stakeProgramId
  checkValidatorStakeAddress rt programId stakePool stakeAccountInfo.key voteAccountAddress
    (nonZeroU32 seed)
  checkStakeState (accounts stakeAccountInfo.key) withdrawAuthority voteAccountAddress lockup

namespace StakePool
variable (p : StakePool Key)

/-- Checks that the withdraw or deposit authority is valid -/
def checkProgramDerivedAuthority (authorityAddress programId stakePoolAddress : Key)
    (authoritySeed : List UInt8) (bumpSeed : UInt8) : Except ProgramError Unit := do
  let expectedAddress ← orErr (rt.createProgramAddress
    [.pubkey stakePoolAddress, .bytes authoritySeed, .bytes [bumpSeed]] programId) .invalidSeeds
  ensure (authorityAddress = expectedAddress) (.custom .invalidProgramAddress)

def checkAuthorityWithdraw (withdrawAuthority programId stakePoolAddress : Key) :
    Except ProgramError Unit :=
  checkProgramDerivedAuthority rt withdrawAuthority programId stakePoolAddress authorityWithdraw
    p.stakeWithdrawBumpSeed

/-- Check if the manager fee account can receive tokens from the mint. -/
def checkManagerFeeInfo (accounts : Accounts Key) (managerFeeInfo : AccountInfo Key) :
    Except ProgramError Unit := do
  let tokenAccount ← unpackToken (accounts managerFeeInfo.key)
  ensure (ownerOf rt accounts managerFeeInfo.key = p.tokenProgramId ∧
    tokenAccount.state = .initialized ∧ tokenAccount.mint = p.poolMint) (.custom .invalidFeeAccount)
  ensure (tokenAccount.extensions.all isExtensionSupportedForFeeAccount)
    (.custom .unsupportedFeeAccountExtension)

def checkStakeDepositAuthority (stakeDepositAuthority : Key) : Except ProgramError Unit :=
  ensure (p.stakeDepositAuthority = stakeDepositAuthority) (.custom .invalidStakeDepositAuthority)

/-- A funding authority must have signed if there is one. -/
def checkFundingAuthority (authority : Option Key) (maybeInfo : Option (AccountInfo Key))
    (wrong : StakePoolError) : Except ProgramError Unit :=
  match authority with
  | some auth => do
    let info ← orErr maybeInfo .notEnoughAccountKeys
    ensure (auth = info.key) (.custom wrong)
    ensure info.isSigner (.custom .signatureMissing)
  | none => .ok ()

def checkSolDepositAuthority (maybeInfo : Option (AccountInfo Key)) : Except ProgramError Unit :=
  checkFundingAuthority p.solDepositAuthority maybeInfo .invalidSolDepositAuthority

def checkSolWithdrawAuthority (maybeInfo : Option (AccountInfo Key)) : Except ProgramError Unit :=
  checkFundingAuthority p.solWithdrawAuthority maybeInfo .invalidSolWithdrawAuthority

/-- Check mint is correct; returns its decimals. -/
def checkMint (accounts : Accounts Key) (mintInfo : AccountInfo Key) : Except ProgramError Nat := do
  ensure (mintInfo.key = p.poolMint) (.custom .wrongPoolMint)
  let mint ← unpackMint (accounts mintInfo.key)
  return mint.decimals

/-- An authority of the pool must be the expected one and have signed. -/
def checkSigned (expected : Key) (info : AccountInfo Key) (wrong : StakePoolError) :
    Except ProgramError Unit := do
  ensure (info.key = expected) (.custom wrong)
  ensure info.isSigner (.custom .signatureMissing)

def checkManager (managerInfo : AccountInfo Key) : Except ProgramError Unit :=
  checkSigned p.manager managerInfo .wrongManager

def checkStaker (stakerInfo : AccountInfo Key) : Except ProgramError Unit :=
  checkSigned p.staker stakerInfo .wrongStaker

def checkValidatorList (validatorListInfo : AccountInfo Key) : Except ProgramError Unit :=
  ensure (validatorListInfo.key = p.validatorList) (.custom .invalidValidatorStakeList)

def checkReserveStake (reserveStakeInfo : AccountInfo Key) : Except ProgramError Unit :=
  ensure (reserveStakeInfo.key = p.reserveStake) (.custom .invalidProgramAddress)

end StakePool

/-- The pool of an instruction, which must be initialized. -/
def World.validStakePool (w : World Key) (stakePoolInfo : AccountInfo Key) :
    Except ProgramError (StakePool Key) := do
  checkAccountOwner rt w.accounts stakePoolInfo rt.programId
  let stakePool ← w.readStakePool rt stakePoolInfo
  ensure stakePool.isValid (.custom .invalidState)
  return stakePool

/-- The validator list of an instruction, which must be initialized. -/
def World.validValidatorList (w : World Key) (validatorListInfo : AccountInfo Key) :
    Except ProgramError (ValidatorList Key) := do
  checkAccountOwner rt w.accounts validatorListInfo rt.programId
  let validatorList ← w.readValidatorList rt validatorListInfo
  ensure validatorList.header.isValid (.custom .invalidState)
  return validatorList

variable {rt} {w : World Key} {info : AccountInfo Key}

theorem World.validStakePool_eq_ok {p : StakePool Key} :
    w.validStakePool rt info = .ok p ↔
      info.key = rt.stakePoolAddress ∧ w.stakePool.isValid ∧ p = w.stakePool := by
  simp only [World.validStakePool, bind_eq_ok, World.readStakePool_eq_ok, ensure_eq_ok, exists_unit,
    pure_eq_ok, checkAccountOwner]
  constructor
  · rintro ⟨-, p', ⟨hk, rfl⟩, hv, rfl⟩
    exact ⟨hk, hv, rfl⟩
  · rintro ⟨hk, hv, rfl⟩
    exact ⟨by simp [ownerOf, hk], _, ⟨hk, rfl⟩, hv, rfl⟩

theorem World.validValidatorList_eq_ok {l : ValidatorList Key} :
    w.validValidatorList rt info = .ok l ↔
      info.key = rt.validatorListAddress ∧ w.validatorList.header.isValid ∧ l = w.validatorList := by
  simp only [World.validValidatorList, bind_eq_ok, World.readValidatorList_eq_ok, ensure_eq_ok,
    exists_unit, pure_eq_ok, checkAccountOwner]
  constructor
  · rintro ⟨-, l', ⟨hk, rfl⟩, hv, rfl⟩
    exact ⟨hk, hv, rfl⟩
  · rintro ⟨hk, hv, rfl⟩
    exact ⟨by simp [ownerOf, hk], _, ⟨hk, rfl⟩, hv, rfl⟩

/-- The checked withdraw authority of a pool whose bump is the one found. -/
theorem StakePool.checkAuthorityWithdraw_eq_ok (hl : rt.Lawful) {p : StakePool Key}
    {k : Key} (hb : p.stakeWithdrawBumpSeed =
      (findWithdrawAuthorityProgramAddress rt rt.programId rt.stakePoolAddress).2) {u : Unit} :
    p.checkAuthorityWithdraw rt k rt.programId rt.stakePoolAddress = .ok u ↔ k = rt.withdrawAuthority := by
  have h := hl.create_find [.pubkey rt.stakePoolAddress, .bytes authorityWithdraw] rt.programId
  simp only [List.cons_append, List.nil_append] at h
  simp only [checkAuthorityWithdraw, checkProgramDerivedAuthority, bind_eq_ok, orErr_eq_ok, ensure_eq_ok,
    hb, findWithdrawAuthorityProgramAddress, h, Option.some.injEq, exists_eq_left']
  rfl

theorem stakeIsUsableByPool_iff {m : Meta Key} {k : Key} {l : Lockup Key} :
    stakeIsUsableByPool m k l ↔ m.authorized = ⟨k, k⟩ ∧ m.lockup = l := by
  rcases m with ⟨r, ⟨s, t⟩, l'⟩
  simp [stakeIsUsableByPool, and_assoc]

end SplStakePool
