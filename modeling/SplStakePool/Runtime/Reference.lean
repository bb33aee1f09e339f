import SplStakePool.Address

/-!
# A reference runtime

One concrete runtime that has the laws of `Runtime.Lawful`, so these are consistent. Keys are lists of
numbers and a derived address is an encoding of its preimage, which makes the derivation injective.
The programs follow the documented behaviour, with a warmup and a cooldown of one epoch for every
stake.

All of it computes, so that a run of the pool on it can be evaluated. A stake that is deactivating is in no phase in
which it can be merged, and one that was deactivated in the epoch of its delegation never was active.
-/

namespace SplStakePool.Reference
open Exec

abbrev Key := List Nat

/-- A key with a private key. -/
def wallet (n : Nat) : Key := [0, n]

/-- A symbol of a preimage, in a prefix-free way. -/
def encodeSymbol : Key ⊕ UInt8 → List Nat
  | .inl k => 0 :: k.length :: k
  | .inr b => [1, b.toNat]

def encode (symbols : List (Key ⊕ UInt8)) : List Nat := symbols.flatMap encodeSymbol

def derive (seeds : List (Seed Key)) (program : Key) : Key :=
  1 :: program.length :: (program ++ encode (preimage seeds))

def stakeProgram : Key := wallet 2
def systemProgram : Key := wallet 1

/-- The rent-exempt minimum of an account of the given size. -/
def rent (size : Nat) : Nat := (128 + size) * 6960

/-- How a stake counts in an epoch. -/
inductive Phase
  | inactive | activating | active | deactivating
deriving DecidableEq, Repr

def phase (d : Delegation Key) (epoch : Nat) : Phase :=
  if d.deactivationEpoch < epoch ∨ d.activationEpoch = d.deactivationEpoch then .inactive
  else if d.deactivationEpoch = epoch then .deactivating
  else if d.activationEpoch < epoch then .active
  else .activating

def allocate (_ : Nat) (a : Account Key) : Except ProgramError (Account Key) := do
  ensure (a.owner = systemProgram ∧ a.data = .none) .accountAlreadyInUse
  return { a with data := .stakeState .uninitialized }

def assign (k : Key) (a : Account Key) : Except ProgramError (Account Key) := do
  ensure (a.owner = systemProgram) .accountAlreadyInUse
  return { a with owner := k }

def transfer (n : Nat) (a : Account Key) : Except ProgramError (Account Key) := do
  ensure (a.owner = systemProgram ∧ a.data = .none) .invalidArgument
  ensure (n ≤ a.lamports) .insufficientFunds
  return { a with lamports := a.lamports - n }

/-- The states after a split, the destination holding `balance` before it. -/
def splitState (auth : Key) (n lamports balance : Nat) :
    StakeStateV2 Key → Except ProgramError (StakeStateV2 Key × StakeStateV2 Key)
  | .initialized m => do
    ensure (m.authorized.staker = auth) .missingRequiredSignature
    ensure (n = lamports ∨ m.rentExemptReserve ≤ lamports - n) .insufficientFunds
    ensure (rent stakeSpace ≤ balance + n) .insufficientFunds
    return (.initialized m, .initialized { m with rentExemptReserve := rent stakeSpace })
  | .stake m s => do
    ensure (m.authorized.staker = auth) .missingRequiredSignature
    ensure (n = lamports ∨ m.rentExemptReserve < lamports - n ∧ n ≤ s.delegation.stake)
      .insufficientFunds
    ensure (rent stakeSpace < balance + n) .insufficientFunds
    let moved := if n = lamports then n - m.rentExemptReserve else n - (rent stakeSpace - balance)
    return (.stake m (s.setStake (s.delegation.stake - n)),
      .stake { m with rentExemptReserve := rent stakeSpace } (s.setStake moved))
  | _ => .error .invalidAccountData

def split (_ : Sysvars) (auth : Key) (n : Nat) (src dst : Account Key) :
    Except ProgramError (Account Key × Account Key) := do
  ensure (src.owner = stakeProgram ∧ dst.owner = stakeProgram) .incorrectProgramId
  ensure (dst.data = .stakeState .uninitialized ∧ n ≤ src.lamports) .invalidAccountData
  let (s, t) ← splitState auth n src.lamports dst.lamports (← orErr src.stakeState? .invalidAccountData)
  return (⟨src.lamports - n, src.owner, .stakeState (if n = src.lamports then .uninitialized else s)⟩,
    ⟨dst.lamports + n, dst.owner, .stakeState t⟩)

/-- The phase of a stake account; an initialized one is inactive. -/
def statePhase (epoch : Nat) : StakeStateV2 Key → Option Phase
  | .initialized _ => some .inactive
  | .stake _ s => some (phase s.delegation epoch)
  | _ => none

/-- The stake that a destination in the given phase gains from a source, if they merge. -/
def gained (dst src : Phase) (srcLamports : Nat) (s : StakeStateV2 Key) : Except ProgramError Nat :=
  match dst, src, s with
  | .inactive, .inactive, _ => .ok 0
  | .inactive, .activating, _ => .ok 0
  | .activating, .inactive, _ => .ok srcLamports
  | .activating, .activating, .stake m s => .ok (m.rentExemptReserve + s.delegation.stake)
  | .active, .active, .stake _ s => .ok s.delegation.stake
  | _, _, _ => .error (.stake .mergeMismatch)

def gainStake (n : Nat) : StakeStateV2 Key → StakeStateV2 Key
  | .stake m s => .stake m (s.addStake n s.creditsObserved)
  | s => s

def merge (sys : Sysvars) (auth : Key) (dst src : Key × Account Key) :
    Except ProgramError (Account Key × Account Key) := do
  ensure (dst.1 ≠ src.1) .invalidArgument
  ensure (dst.2.owner = stakeProgram ∧ src.2.owner = stakeProgram) .incorrectProgramId
  let d ← orErr dst.2.stakeState? .invalidAccountData
  let s ← orErr src.2.stakeState? .invalidAccountData
  let md ← orErr d.meta? .invalidAccountData
  let ms ← orErr s.meta? .invalidAccountData
  ensure (md.authorized = ms.authorized ∧ md.lockup = ms.lockup) (.stake .mergeMismatch)
  ensure (md.authorized.staker = auth) .missingRequiredSignature
  let pd ← orErr (statePhase sys.epoch d) .invalidAccountData
  let ps ← orErr (statePhase sys.epoch s) .invalidAccountData
  ensure (pd ≠ .deactivating ∧ ps ≠ .deactivating) (.stake .mergeTransientStake)
  let n ← gained pd ps src.2.lamports s
  return (⟨dst.2.lamports + src.2.lamports, dst.2.owner, .stakeState (gainStake n d)⟩,
    ⟨0, src.2.owner, .stakeState .uninitialized⟩)

/-- The lamports of a stake account that cannot be withdrawn, if the account is not emptied. -/
def locked (epoch : Nat) : StakeStateV2 Key → Nat
  | .initialized m => m.rentExemptReserve
  | .stake m s =>
    m.rentExemptReserve + if phase s.delegation epoch = .inactive then 0 else s.delegation.stake
  | _ => 0

/-- Whether the account may be emptied. -/
def emptiable (epoch : Nat) : StakeStateV2 Key → Bool
  | .stake _ s => phase s.delegation epoch = .inactive
  | _ => true

def withdraw (sys : Sysvars) (auth : Key) (n : Nat) (src : Account Key) :
    Except ProgramError (Account Key) := do
  ensure (src.owner = stakeProgram) .incorrectProgramId
  let s ← orErr src.stakeState? .invalidAccountData
  let m ← orErr s.meta? .invalidAccountData
  ensure (m.authorized.withdrawer = auth) .missingRequiredSignature
  ensure (n ≤ src.lamports) .insufficientFunds
  ensure (n + locked sys.epoch s ≤ src.lamports ∨ n = src.lamports ∧ emptiable sys.epoch s)
    .insufficientFunds
  return ⟨src.lamports - n, src.owner, .stakeState (if n = src.lamports then .uninitialized else s)⟩

def delegate (sys : Sysvars) (auth : Key) (vote : Key × Account Key) (a : Account Key) :
    Except ProgramError (Account Key) := do
  ensure (a.owner = stakeProgram) .incorrectProgramId
  match a.data with
  | .stakeState (.initialized m) =>
    ensure (m.authorized.staker = auth) .missingRequiredSignature
    let d : Delegation Key := ⟨vote.1, a.lamports - m.rentExemptReserve, sys.epoch, epochMax⟩
    return { a with data := .stakeState (.stake m ⟨d, 0⟩) }
  | _ => .error .invalidAccountData

def deactivate (sys : Sysvars) (auth : Key) (a : Account Key) : Except ProgramError (Account Key) := do
  ensure (a.owner = stakeProgram) .incorrectProgramId
  match a.data with
  | .stakeState (.stake m s) =>
    ensure (m.authorized.staker = auth) .missingRequiredSignature
    ensure (s.delegation.deactivationEpoch = epochMax) (.stake .alreadyDeactivated)
    return { a with data := .stakeState (.stake m (s.deactivateAt sys.epoch)) }
  | _ => .error .invalidAccountData

def authorize (_ : Sysvars) (auth new : Key) (role : StakeAuthorize) (a : Account Key) :
    Except ProgramError (Account Key) := do
  ensure (a.owner = stakeProgram) .incorrectProgramId
  let s ← orErr a.stakeState? .invalidAccountData
  let m ← orErr s.meta? .invalidAccountData
  ensure (m.authorized.withdrawer = auth ∨ role = .staker ∧ m.authorized.staker = auth)
    .missingRequiredSignature
  return { a with data := .stakeState (s.authorize new role) }

def mintTo (k auth : Key) (n : Nat) (mint dst : Account Key) :
    Except ProgramError (Account Key × Account Key) := do
  let m ← orErr mint.mint? .invalidAccountData
  let t ← orErr dst.token? .invalidAccountData
  ensure (t.mint = k ∧ t.state = .initialized) .invalidAccountData
  ensure (m.mintAuthority = some auth) .missingRequiredSignature
  ensure (m.supply + n < 2 ^ 64) .arithmeticOverflow
  return ({ mint with data := .mint { m with supply := m.supply + n } },
    { dst with data := .token { t with amount := t.amount + n } })

def burn (k auth : Key) (n : Nat) (src mint : Account Key) :
    Except ProgramError (Account Key × Account Key) := do
  let t ← orErr src.token? .invalidAccountData
  let m ← orErr mint.mint? .invalidAccountData
  ensure (t.mint = k ∧ t.owner = auth ∧ t.state = .initialized) .invalidAccountData
  ensure (n ≤ t.amount ∧ n ≤ m.supply) .insufficientFunds
  return ({ src with data := .token { t with amount := t.amount - n } },
    { mint with data := .mint { m with supply := m.supply - n } })

def transferChecked (k auth : Key) (n decimals : Nat) (src mint dst : Account Key) :
    Except ProgramError (Account Key × Account Key) := do
  let t ← orErr src.token? .invalidAccountData
  let m ← orErr mint.mint? .invalidAccountData
  let u ← orErr dst.token? .invalidAccountData
  ensure (t.mint = k ∧ u.mint = k ∧ t.owner = auth ∧ m.decimals = decimals) .invalidAccountData
  ensure (t.state = .initialized ∧ u.state = .initialized) .accountFrozen
  ensure (n ≤ t.amount) .insufficientFunds
  return ({ src with data := .token { t with amount := t.amount - n } },
    { dst with data := .token { u with amount := u.amount + n } })

def createMetadata (_ _ : Key) (_ _ _ : String) (a payer : Account Key) :
    Except ProgramError (Account Key × Account Key) := do
  ensure (a.owner = systemProgram ∧ a.data = .none) .accountAlreadyInUse
  let n := rent 679
  ensure (n ≤ payer.lamports) .insufficientFunds
  return (⟨a.lamports + n, wallet 5, .none⟩, { payer with lamports := payer.lamports - n })

def updateMetadata (_ : Key) (_ _ _ : String) (a : Account Key) : Except ProgramError (Account Key) := do
  ensure (a.data = .none) .invalidAccountData
  return a

def runtime : Runtime Key where
  programId := wallet 0
  systemProgramId := systemProgram
  stakeProgramId := stakeProgram
  tokenProgramId := wallet 3
  token2022ProgramId := wallet 4
  mplTokenMetadataId := wallet 5
  clockId := wallet 6
  rentId := wallet 7
  stakePoolAddress := wallet 10
  validatorListAddress := wallet 11
  createProgramAddress := fun seeds program => some (derive seeds program)
  findProgramAddress := fun seeds program => (derive (seeds ++ [.bytes [255]]) program, 255)
  rentMinimumBalance := rent
  allocate := allocate
  assign := assign
  transfer := transfer
  split := split
  merge := merge
  withdraw := withdraw
  delegate := delegate
  deactivate := deactivate
  authorize := authorize
  mintTo := mintTo
  burn := burn
  transferChecked := transferChecked
  createMetadataAccountsV3 := createMetadata
  updateMetadataAccountsV2 := updateMetadata

/-! ## The laws -/

theorem encodeSymbol_append_inj {s t : Key ⊕ UInt8} {l l' : List Nat}
    (h : encodeSymbol s ++ l = encodeSymbol t ++ l') : s = t ∧ l = l' := by
  cases s <;> cases t <;> simp [encodeSymbol] at h
  · obtain ⟨hl, h⟩ := h
    obtain ⟨rfl, rfl⟩ := List.append_inj h hl
    exact ⟨rfl, rfl⟩
  · exact ⟨congrArg _ (UInt8.toNat_inj.1 h.1), h.2⟩

theorem encode_inj {s t : List (Key ⊕ UInt8)} (h : encode s = encode t) : s = t := by
  induction s generalizing t with
  | nil =>
    cases t with
    | nil => rfl
    | cons b t => cases b <;> simp [encode, encodeSymbol] at h
  | cons a s ih =>
    cases t with
    | nil => cases a <;> simp [encode, encodeSymbol] at h
    | cons b t =>
      simp only [encode, List.flatMap_cons] at h
      obtain ⟨hab, h⟩ := encodeSymbol_append_inj h
      rw [hab, ih (show encode s = encode t from h)]

theorem derive_inj {s t : List (Seed Key)} {p q : Key} (h : derive s p = derive t q) :
    preimage s = preimage t ∧ p = q := by
  simp only [derive, List.cons.injEq, true_and] at h
  obtain ⟨hp, h⟩ := List.append_inj h.2 h.1
  exact ⟨encode_inj h, hp⟩

theorem split_ok {sys : Sysvars} {auth : Key} {n : Nat} {src dst src' dst' : Account Key}
    (h : split sys auth n src dst = .ok (src', dst')) :
    src.owner = stakeProgram ∧ dst.owner = stakeProgram ∧ dst.data = .stakeState .uninitialized ∧
    n ≤ src.lamports ∧ ∃ s t u, src.data = .stakeState s ∧ SplitState auth (rent stakeSpace) s t u ∧
      src' = ⟨src.lamports - n, src.owner,
        .stakeState (if n = src.lamports then .uninitialized else t)⟩ ∧
      dst' = ⟨dst.lamports + n, dst.owner, .stakeState u⟩ ∧
      ∀ m, s = .initialized m → n ≠ src.lamports → m.rentExemptReserve ≤ src.lamports - n := by
  simp only [split, bind_eq_ok, ensure_eq_ok, orErr_eq_ok, exists_unit, pure_eq_ok,
    Account.stakeState?_eq_some, Prod.exists, Prod.mk.injEq] at h
  obtain ⟨⟨hs, hd⟩, ⟨hu, hn⟩, s, hdata, t, u, hsplit, hsrc, hdst⟩ := h
  refine ⟨hs, hd, hu, hn, s, t, u, hdata, ?_, hsrc.symm, hdst.symm, ?_⟩
  · cases s <;> simp only [splitState, bind_eq_ok, ensure_eq_ok, exists_unit, pure_eq_ok, Prod.mk.injEq,
      reduceCtorEq] at hsplit
    · obtain ⟨hm, -, -, rfl, rfl⟩ := hsplit
      exact .initialized _ hm
    · obtain ⟨hm, -, -, rfl, rfl⟩ := hsplit
      exact .stake _ _ _ _ hm
  · rintro m rfl hne
    simp only [splitState, bind_eq_ok, ensure_eq_ok, exists_unit] at hsplit
    exact hsplit.2.1.resolve_left hne

theorem mergeState_gainStake {n : Nat} {d : StakeStateV2 Key} {m : Meta Key} (h : d.meta? = some m) :
    MergeState d (gainStake n d) := by
  cases d <;> simp [StakeStateV2.meta?] at h
  · exact .initialized _
  · exact .stake _ _ _ _

theorem merge_ok {sys : Sysvars} {auth kd ks : Key} {dst src dst' src' : Account Key}
    (h : merge sys auth (kd, dst) (ks, src) = .ok (dst', src')) :
    kd ≠ ks ∧ dst.owner = stakeProgram ∧ src.owner = stakeProgram ∧
    ∃ d s d' md ms, dst.data = .stakeState d ∧ src.data = .stakeState s ∧ d.meta? = some md ∧
      s.meta? = some ms ∧ md.authorized = ms.authorized ∧ md.authorized.staker = auth ∧
      MergeState d d' ∧ dst' = ⟨dst.lamports + src.lamports, dst.owner, .stakeState d'⟩ ∧
      src' = ⟨0, src.owner, .stakeState .uninitialized⟩ := by
  simp only [merge, bind_eq_ok, ensure_eq_ok, orErr_eq_ok, exists_unit, pure_eq_ok,
    Account.stakeState?_eq_some, Prod.mk.injEq] at h
  obtain ⟨hne, ⟨hd, hs⟩, d, hdd, s, hsd, md, hmd, ms, hms, ⟨hauth, -⟩, hst, pd, -, ps, -, -, n, -, h₁, h₂⟩ := h
  exact ⟨hne, hd, hs, d, s, _, md, ms, hdd, hsd, hmd, hms, hauth, hst, mergeState_gainStake hmd, h₁.symm,
    h₂.symm⟩

theorem withdraw_ok {sys : Sysvars} {auth : Key} {n : Nat} {src src' : Account Key}
    (h : withdraw sys auth n src = .ok src') :
    src.owner = stakeProgram ∧ n ≤ src.lamports ∧
    ∃ s m, src.data = .stakeState s ∧ s.meta? = some m ∧ m.authorized.withdrawer = auth ∧
      src' = ⟨src.lamports - n, src.owner,
        .stakeState (if n = src.lamports then .uninitialized else s)⟩ ∧
      (s = .initialized m → n ≠ src.lamports → m.rentExemptReserve ≤ src.lamports - n) := by
  simp only [withdraw, bind_eq_ok, ensure_eq_ok, orErr_eq_ok, exists_unit, pure_eq_ok,
    Account.stakeState?_eq_some] at h
  obtain ⟨ho, s, hs, m, hm, hw, hn, hlock, rfl⟩ := h
  refine ⟨ho, hn, s, m, hs, hm, hw, rfl, ?_⟩
  rintro rfl hne
  simp only [locked, hne, false_and, or_false] at hlock
  omega

/-- The phase of a stake account that holds a stake state. -/
def accountPhase (epoch : Nat) (a : Account Key) : Option Phase := a.stakeState?.bind (statePhase epoch)

theorem accountPhase_deactivating {a : Account Key} {m : Meta Key} {s : Stake Key} {epoch : Nat}
    (h : a.data = .stakeState (.stake m s)) (hd : s.delegation.deactivatingAt epoch) :
    accountPhase epoch a = some .deactivating := by
  have := hd.1; have := hd.2
  simp only [accountPhase, Account.stakeState?_eq_some.2 h, Option.bind_some, statePhase, phase]
  rw [if_neg (by omega), if_pos (by omega)]

theorem accountPhase_inactive {a : Account Key} {m : Meta Key} {s : Stake Key} {epoch : Nat}
    (h : a.data = .stakeState (.stake m s)) (hd : s.delegation.deactivationEpoch < epoch) :
    accountPhase epoch a = some .inactive := by
  simp only [accountPhase, Account.stakeState?_eq_some.2 h, Option.bind_some, statePhase, phase]
  rw [if_pos (by omega)]

theorem accountPhase_active {a : Account Key} {m : Meta Key} {s : Stake Key} {epoch : Nat}
    (h : a.data = .stakeState (.stake m s)) (hd : s.delegation.fullyActiveAt epoch) :
    accountPhase epoch a = some .active := by
  have := hd.1; have := hd.2.1; have := hd.2.2
  simp only [accountPhase, Account.stakeState?_eq_some.2 h, Option.bind_some, statePhase, phase]
  rw [if_neg (by omega), if_neg (by omega), if_pos (by omega)]

/-- A merge is refused in these phases. -/
theorem merge_error {sys : Sysvars} {auth kd ks : Key} {dst src : Account Key}
    (h : accountPhase sys.epoch dst = some .deactivating ∨ accountPhase sys.epoch src = some .deactivating ∨
      accountPhase sys.epoch dst = some .inactive ∧ accountPhase sys.epoch src = some .active) :
    ∃ e, merge sys auth (kd, dst) (ks, src) = .error e := by
  cases hm : merge sys auth (kd, dst) (ks, src) with
  | error e => exact ⟨e, rfl⟩
  | ok r =>
    simp only [merge, bind_eq_ok, ensure_eq_ok, orErr_eq_ok, exists_unit] at hm
    obtain ⟨-, -, d, hd, s, hs, -, -, -, -, -, -, pd, hpd, ps, hps, hne, n, hg, -⟩ := hm
    simp only [accountPhase, hd, hs, Option.bind_some, hpd, hps, Option.some.injEq] at h
    rcases h with rfl | rfl | ⟨rfl, rfl⟩
    · exact absurd rfl hne.1
    · exact absurd rfl hne.2
    · cases s <;> simp [gained] at hg

theorem lawful : runtime.Lawful where
  system_ne_stake := by decide
  program_ne_stake := by decide
  program_ne_metadata := by decide
  rent_pos := by decide
  rent_lt := by decide
  create_find := fun _ _ => rfl
  create_inj := fun s s' p p' a h h' => derive_inj (Option.some.inj (h.trans h'.symm))
  allocate_ok := fun n a a' h => by
    simp only [runtime, allocate, bind_eq_ok, ensure_eq_ok, exists_unit, pure_eq_ok] at h
    exact ⟨h.1.1, h.1.2, h.2.symm⟩
  assign_ok := fun k a a' h => by
    simp only [runtime, assign, bind_eq_ok, ensure_eq_ok, exists_unit, pure_eq_ok] at h
    exact ⟨h.1, h.2.symm⟩
  transfer_ok := fun n a a' h => by
    simp only [runtime, transfer, bind_eq_ok, ensure_eq_ok, exists_unit, pure_eq_ok] at h
    exact ⟨h.1.1, h.1.2, h.2.1, h.2.2.symm⟩
  split_ok := fun sys _ _ _ _ _ _ h => @split_ok sys _ _ _ _ _ _ h
  merge_ok := fun _ _ _ _ _ _ _ _ h => merge_ok h
  withdraw_ok := fun _ _ _ _ _ h => withdraw_ok h
  delegate_ok := fun sys auth vote a a' h => by
    simp only [runtime, delegate, bind_eq_ok, ensure_eq_ok, exists_unit] at h
    obtain ⟨ho, h⟩ := h
    split at h
    · rename_i m hd
      simp only [bind_eq_ok, ensure_eq_ok, exists_unit, pure_eq_ok] at h
      exact ⟨ho, _, m, _, hd, rfl, h.1, h.2.symm, rfl, rfl, fun _ => rfl⟩
    · cases h
  deactivate_ok := fun sys auth a a' h => by
    simp only [runtime, deactivate, bind_eq_ok, ensure_eq_ok, exists_unit] at h
    obtain ⟨ho, h⟩ := h
    split at h
    · rename_i m s hd
      simp only [bind_eq_ok, ensure_eq_ok, exists_unit, pure_eq_ok] at h
      exact ⟨ho, m, s, hd, h.1, h.2.1, h.2.2.symm⟩
    · cases h
  authorize_ok := fun sys auth new role a a' h => by
    simp only [runtime, authorize, bind_eq_ok, ensure_eq_ok, orErr_eq_ok, exists_unit, pure_eq_ok,
      Account.stakeState?_eq_some] at h
    obtain ⟨ho, s, hs, m, hm, hauth, rfl⟩ := h
    exact ⟨ho, s, m, hs, hm, hauth, rfl⟩
  mintTo_ok := fun k auth n mint dst mint' dst' h => by
    simp only [runtime, mintTo, bind_eq_ok, ensure_eq_ok, orErr_eq_ok, exists_unit, pure_eq_ok,
      Account.mint?_eq_some, Account.token?_eq_some, Prod.mk.injEq] at h
    obtain ⟨m, hm, t, ht, ⟨hk, -⟩, ha, hlt, rfl, rfl⟩ := h
    exact ⟨m, t, hm, ht, hk, ha, hlt, rfl, rfl⟩
  burn_ok := fun k auth n src mint src' mint' h => by
    simp only [runtime, burn, bind_eq_ok, ensure_eq_ok, orErr_eq_ok, exists_unit, pure_eq_ok,
      Account.mint?_eq_some, Account.token?_eq_some, Prod.mk.injEq] at h
    obtain ⟨t, ht, m, hm, ⟨hk, -⟩, ⟨hn, hs⟩, rfl, rfl⟩ := h
    exact ⟨t, m, ht, hm, hk, hn, hs, rfl, rfl⟩
  transferChecked_ok := fun k auth n dec src mint dst src' dst' h => by
    simp only [runtime, transferChecked, bind_eq_ok, ensure_eq_ok, orErr_eq_ok, exists_unit, pure_eq_ok,
      Account.mint?_eq_some, Account.token?_eq_some, Prod.mk.injEq] at h
    obtain ⟨t, ht, m, hm, u, hu, ⟨hk, hk', -⟩, -, hn, rfl, rfl⟩ := h
    exact ⟨t, u, n, ht, hu, hk, hk', hn, Nat.le_refl _, rfl, rfl⟩
  createMetadataAccountsV3_ok := fun mint auth name symbol uri a payer a' payer' h => by
    simp only [runtime, createMetadata, bind_eq_ok, ensure_eq_ok, exists_unit, pure_eq_ok,
      Prod.mk.injEq] at h
    obtain ⟨⟨ho, hd⟩, hn, rfl, rfl⟩ := h
    exact ⟨by rw [ho]; decide, hd, rfl, rfl, _, hn, rfl⟩
  updateMetadataAccountsV2_ok := fun auth name symbol uri a a' h => by
    simp only [runtime, updateMetadata, bind_eq_ok, ensure_eq_ok, exists_unit, pure_eq_ok] at h
    exact ⟨h.1, h.2.symm⟩
  merge_refuses_deactivating := fun sys auth kd dst ks src m s hds hde => merge_error <| by
    rcases hds with hds | hds
    · exact .inl (accountPhase_deactivating hds hde)
    · exact .inr (.inl (accountPhase_deactivating hds hde))
  merge_refuses_mismatch := fun sys auth kd dst ks src md d ms s hd hs ha hde => merge_error <|
    .inr (.inr ⟨accountPhase_inactive hd hde, accountPhase_active hs ha⟩)
  merge_initialized := fun sys auth kd dst ks src md ms _ hne ho ho' hd hs ha hl hst => by
    refine ⟨(⟨dst.lamports + src.lamports, dst.owner, dst.data⟩,
      ⟨0, src.owner, .stakeState .uninitialized⟩), ?_⟩
    simp only [runtime] at ho ho' ⊢
    simp [merge, Account.stakeState?, hd, hs, orErr, StakeStateV2.meta?, statePhase, gained, gainStake,
      hne, ho, ho', ha, hl, ← hst, Bind.bind, Except.bind, Pure.pure, Except.pure]
  withdraw_excess := fun sys auth n src m s _ ho hd hw _ _ hle => by
    have hlock : locked sys.epoch (.stake m s) ≤ m.rentExemptReserve + s.delegation.stake := by
      simp only [locked]; split <;> omega
    simp only [runtime, withdraw, bind_eq_ok, ensure_eq_ok, orErr_eq_ok, exists_unit, pure_eq_ok,
      Account.stakeState?_eq_some]
    exact ⟨_, ho, _, hd, m, rfl, hw, by omega, .inl (by omega), rfl⟩
  mintTo_accepts := fun k auth n mint dst m t hm ht hk hs ha hlt => by
    simp only [runtime, mintTo, bind_eq_ok, ensure_eq_ok, orErr_eq_ok, exists_unit, pure_eq_ok,
      Account.mint?_eq_some, Account.token?_eq_some]
    exact ⟨_, m, hm, t, ht, ⟨hk, hs⟩, ha, hlt, rfl⟩

end SplStakePool.Reference
