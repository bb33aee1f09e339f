import SplStakePool.Error
import SplStakePool.Runtime.Account

/-!
# The programs around the pool

The runtime, the system program, the stake program, the token program and the metadata program are
not part of the repository. `Runtime` has what the pool calls of them as parameters; `Lawful` states
what the pool relies on: a call that succeeds moves exactly the lamports or tokens asked and touches
no other account, respects the authorities, and changes the state of a stake account as documented.
The acceptance laws say when a call must succeed.

Nothing that the pool does is assumed here. The laws speak of one call and of the accounts that are passed to it, so
that what holds of a pool over a run is proved from them and not among them. They are consistent: the reference
runtime has all of them.
-/

namespace SplStakePool

/-- The size of a stake account. -/
def stakeSpace : Nat := 200

structure StakeHistoryEntry where
  effective : Nat
  activating : Nat
  deactivating : Nat
deriving DecidableEq, Repr

/-- The system variables: the clock's epoch, whether epoch rewards are being paid, the stake
history, and the minimum delegation the stake program reports. -/
structure Sysvars where
  epoch : Nat
  epochRewardsActive : Bool
  stakeHistory : Nat → Option StakeHistoryEntry
  minimumDelegation : Nat

inductive StakeAuthorize
  | staker | withdrawer
deriving DecidableEq, Repr

/-- A seed of a derived address: a public key or a byte string. -/
inductive Seed (Key : Type)
  | pubkey (k : Key)
  | bytes (b : List UInt8)
deriving DecidableEq, Repr

/-- What is hashed of a seed. The bytes of a public key count as one symbol. -/
def Seed.symbols {Key : Type} : Seed Key → List (Key ⊕ UInt8)
  | .pubkey k => [.inl k]
  | .bytes b => b.map .inr

/-- What is hashed of a list of seeds, which are concatenated without separators. -/
def preimage {Key : Type} (seeds : List (Seed Key)) : List (Key ⊕ UInt8) := seeds.flatMap Seed.symbols

structure Runtime (Key : Type) where
  programId : Key
  systemProgramId : Key
  stakeProgramId : Key
  tokenProgramId : Key
  token2022ProgramId : Key
  mplTokenMetadataId : Key
  clockId : Key
  rentId : Key
  /-- The account holding the stake pool and the one holding its validator list. -/
  stakePoolAddress : Key
  validatorListAddress : Key
  createProgramAddress : List (Seed Key) → Key → Option Key
  findProgramAddress : List (Seed Key) → Key → Key × UInt8
  rentMinimumBalance : Nat → Nat
  -- system program
  allocate : Nat → Account Key → Except ProgramError (Account Key)
  assign : Key → Account Key → Except ProgramError (Account Key)
  /-- The source account after a transfer. -/
  transfer : Nat → Account Key → Except ProgramError (Account Key)
  -- stake program
  /-- The source and the destination after splitting off an amount. -/
  split : Sysvars → Key → Nat → Account Key → Account Key → Except ProgramError (Account Key × Account Key)
  /-- The destination and the source after a merge, from the keys and accounts in that order. -/
  merge : Sysvars → Key → Key × Account Key → Key × Account Key →
    Except ProgramError (Account Key × Account Key)
  /-- The source after a withdrawal. -/
  withdraw : Sysvars → Key → Nat → Account Key → Except ProgramError (Account Key)
  /-- A stake account after a delegation to a vote account. -/
  delegate : Sysvars → Key → Key × Account Key → Account Key → Except ProgramError (Account Key)
  deactivate : Sysvars → Key → Account Key → Except ProgramError (Account Key)
  /-- A stake account after the given authority set the given role to a new authority. -/
  authorize : Sysvars → Key → Key → StakeAuthorize → Account Key → Except ProgramError (Account Key)
  -- token program
  /-- The mint and the destination, the mint's key being given. -/
  mintTo : Key → Key → Nat → Account Key → Account Key → Except ProgramError (Account Key × Account Key)
  /-- The source and the mint. -/
  burn : Key → Key → Nat → Account Key → Account Key → Except ProgramError (Account Key × Account Key)
  /-- The source and the destination of a checked transfer, from the mint's key, the authority, the
  amount, the decimals, the source, the mint and the destination. -/
  transferChecked : Key → Key → Nat → Nat → Account Key → Account Key → Account Key →
    Except ProgramError (Account Key × Account Key)
  -- metadata program
  /-- The metadata account and the payer. -/
  createMetadataAccountsV3 : Key → Key → String → String → String → Account Key → Account Key →
    Except ProgramError (Account Key × Account Key)
  updateMetadataAccountsV2 : Key → String → String → String → Account Key →
    Except ProgramError (Account Key)

variable {Key : Type}

/-- A stake deactivated in an epoch. -/
def Stake.deactivateAt (s : Stake Key) (epoch : Nat) : Stake Key :=
  { s with delegation := { s.delegation with deactivationEpoch := epoch } }

/-- A stake with more delegated. -/
def Stake.addStake (s : Stake Key) (n credits : Nat) : Stake Key :=
  ⟨{ s.delegation with stake := s.delegation.stake + n }, credits⟩

/-- A stake with another amount delegated. -/
def Stake.setStake (s : Stake Key) (n : Nat) : Stake Key :=
  { s with delegation := { s.delegation with stake := n } }

/-- What a split does to the states: of the source, what is left of it unless all is taken, and of the
destination, whose rent-exempt reserve is `rent`. -/
inductive SplitState (authority : Key) (rent : Nat) :
    StakeStateV2 Key → StakeStateV2 Key → StakeStateV2 Key → Prop
  | initialized (m : Meta Key) (h : m.authorized.staker = authority) :
      SplitState authority rent (.initialized m) (.initialized m)
        (.initialized { m with rentExemptReserve := rent })
  | stake (m : Meta Key) (s : Stake Key) (left moved : Nat) (h : m.authorized.staker = authority) :
      SplitState authority rent (.stake m s)
        (.stake m (s.setStake left)) (.stake { m with rentExemptReserve := rent } (s.setStake moved))

/-- What a merge does to the state of the destination. -/
inductive MergeState : StakeStateV2 Key → StakeStateV2 Key → Prop
  | initialized (m : Meta Key) : MergeState (.initialized m) (.initialized m)
  | stake (m : Meta Key) (s : Stake Key) (gained credits : Nat) :
      MergeState (.stake m s) (.stake m (s.addStake gained credits))

/-- Both authorities of a meta after one was set. -/
def Meta.authorize (m : Meta Key) (new : Key) : StakeAuthorize → Meta Key
  | .staker => { m with authorized := { m.authorized with staker := new } }
  | .withdrawer => { m with authorized := { m.authorized with withdrawer := new } }

/-- A stake state after one authority was set. -/
def StakeStateV2.authorize (new : Key) (role : StakeAuthorize) : StakeStateV2 Key → StakeStateV2 Key
  | .initialized m => .initialized (m.authorize new role)
  | .stake m s => .stake (m.authorize new role) s
  | s => s

/-- A delegation that is winding down at `epoch`: active before and deactivated in this epoch. -/
def Delegation.deactivatingAt (d : Delegation Key) (epoch : Nat) : Prop :=
  d.activationEpoch < epoch ∧ d.deactivationEpoch = epoch

/-- A delegation that counts in full at `epoch`. -/
def Delegation.fullyActiveAt (d : Delegation Key) (epoch : Nat) : Prop :=
  d.activationEpoch < epoch ∧ d.deactivationEpoch = epochMax ∧ epoch < epochMax

/-- What the pool program relies on. -/
structure Runtime.Lawful (rt : Runtime Key) : Prop where
  system_ne_stake : rt.systemProgramId ≠ rt.stakeProgramId
  program_ne_stake : rt.programId ≠ rt.stakeProgramId
  program_ne_metadata : rt.programId ≠ rt.mplTokenMetadataId
  /-- Rent is constant, and a stake account needs some. -/
  rent_pos : 0 < rt.rentMinimumBalance stakeSpace
  rent_lt : rt.rentMinimumBalance stakeSpace < 2 ^ 63
  create_find : ∀ seeds program,
    rt.createProgramAddress (seeds ++ [.bytes [(rt.findProgramAddress seeds program).2]]) program =
      some (rt.findProgramAddress seeds program).1
  /-- The hash has no collisions. -/
  create_inj : ∀ s s' p p' a, rt.createProgramAddress s p = some a →
    rt.createProgramAddress s' p' = some a → preimage s = preimage s' ∧ p = p'
  allocate_ok : ∀ n a a', rt.allocate n a = .ok a' →
    a.owner = rt.systemProgramId ∧ a.data = .none ∧ a' = { a with data := .stakeState .uninitialized }
  assign_ok : ∀ k a a', rt.assign k a = .ok a' →
    a.owner = rt.systemProgramId ∧ a' = { a with owner := k }
  transfer_ok : ∀ n a a', rt.transfer n a = .ok a' → a.owner = rt.systemProgramId ∧ a.data = .none ∧
    n ≤ a.lamports ∧ a' = { a with lamports := a.lamports - n }
  split_ok : ∀ sys auth n src dst src' dst', rt.split sys auth n src dst = .ok (src', dst') →
    src.owner = rt.stakeProgramId ∧ dst.owner = rt.stakeProgramId ∧
    dst.data = .stakeState .uninitialized ∧ n ≤ src.lamports ∧
    ∃ s t u, src.data = .stakeState s ∧ SplitState auth (rt.rentMinimumBalance stakeSpace) s t u ∧
      src' = ⟨src.lamports - n, src.owner,
        .stakeState (if n = src.lamports then .uninitialized else t)⟩ ∧
      dst' = ⟨dst.lamports + n, dst.owner, .stakeState u⟩ ∧
      -- an initialized source is left empty or rent exempt
      ∀ m, s = .initialized m → n ≠ src.lamports → m.rentExemptReserve ≤ src.lamports - n
  merge_ok : ∀ sys auth kd dst ks src dst' src', rt.merge sys auth (kd, dst) (ks, src) = .ok (dst', src') →
    kd ≠ ks ∧ dst.owner = rt.stakeProgramId ∧ src.owner = rt.stakeProgramId ∧
    ∃ d s d' md ms, dst.data = .stakeState d ∧ src.data = .stakeState s ∧ d.meta? = some md ∧
      s.meta? = some ms ∧ md.authorized = ms.authorized ∧ md.authorized.staker = auth ∧
      MergeState d d' ∧ dst' = ⟨dst.lamports + src.lamports, dst.owner, .stakeState d'⟩ ∧
      src' = ⟨0, src.owner, .stakeState .uninitialized⟩
  withdraw_ok : ∀ sys auth n src src', rt.withdraw sys auth n src = .ok src' →
    src.owner = rt.stakeProgramId ∧ n ≤ src.lamports ∧
    ∃ s m, src.data = .stakeState s ∧ s.meta? = some m ∧ m.authorized.withdrawer = auth ∧
      src' = ⟨src.lamports - n, src.owner,
        .stakeState (if n = src.lamports then .uninitialized else s)⟩ ∧
      (s = .initialized m → n ≠ src.lamports → m.rentExemptReserve ≤ src.lamports - n)
  delegate_ok : ∀ sys auth vote a a', rt.delegate sys auth vote a = .ok a' →
    a.owner = rt.stakeProgramId ∧ ∃ s m st, a.data = .stakeState s ∧ s.meta? = some m ∧
      m.authorized.staker = auth ∧ a' = { a with data := .stakeState (.stake m st) } ∧
      st.delegation.voterPubkey = vote.1 ∧ st.delegation.deactivationEpoch = epochMax ∧
      (s = .initialized m → st.delegation.activationEpoch = sys.epoch)
  deactivate_ok : ∀ sys auth a a', rt.deactivate sys auth a = .ok a' →
    a.owner = rt.stakeProgramId ∧ ∃ m s, a.data = .stakeState (.stake m s) ∧
      m.authorized.staker = auth ∧ s.delegation.deactivationEpoch = epochMax ∧
      a' = ⟨a.lamports, a.owner, .stakeState (.stake m (s.deactivateAt sys.epoch))⟩
  authorize_ok : ∀ sys auth new role a a', rt.authorize sys auth new role a = .ok a' →
    a.owner = rt.stakeProgramId ∧ ∃ s m, a.data = .stakeState s ∧ s.meta? = some m ∧
      (m.authorized.withdrawer = auth ∨ role = .staker ∧ m.authorized.staker = auth) ∧
      a' = { a with data := .stakeState (s.authorize new role) }
  mintTo_ok : ∀ k auth n mint dst mint' dst', rt.mintTo k auth n mint dst = .ok (mint', dst') →
    ∃ m t, mint.data = .mint m ∧ dst.data = .token t ∧ t.mint = k ∧ m.mintAuthority = some auth ∧
      m.supply + n < 2 ^ 64 ∧ mint' = { mint with data := .mint { m with supply := m.supply + n } } ∧
      dst' = { dst with data := .token { t with amount := t.amount + n } }
  burn_ok : ∀ k auth n src mint src' mint', rt.burn k auth n src mint = .ok (src', mint') →
    ∃ t m, src.data = .token t ∧ mint.data = .mint m ∧ t.mint = k ∧ n ≤ t.amount ∧ n ≤ m.supply ∧
      src' = { src with data := .token { t with amount := t.amount - n } } ∧
      mint' = { mint with data := .mint { m with supply := m.supply - n } }
  /-- The destination may receive less than the amount, when the mint has a transfer fee. -/
  transferChecked_ok : ∀ k auth n dec src mint dst src' dst',
    rt.transferChecked k auth n dec src mint dst = .ok (src', dst') →
    ∃ t u r, src.data = .token t ∧ dst.data = .token u ∧ t.mint = k ∧ u.mint = k ∧ n ≤ t.amount ∧
      r ≤ n ∧ src' = { src with data := .token { t with amount := t.amount - n } } ∧
      dst' = { dst with data := .token { u with amount := u.amount + r } }
  createMetadataAccountsV3_ok : ∀ mint auth name symbol uri a payer a' payer',
    rt.createMetadataAccountsV3 mint auth name symbol uri a payer = .ok (a', payer') →
    a.owner ≠ rt.stakeProgramId ∧ a.data = .none ∧ a'.data = .none ∧ a'.owner = rt.mplTokenMetadataId ∧
      ∃ n, n ≤ payer.lamports ∧ payer' = { payer with lamports := payer.lamports - n }
  updateMetadataAccountsV2_ok : ∀ auth name symbol uri a a',
    rt.updateMetadataAccountsV2 auth name symbol uri a = .ok a' →
    a.data = .none ∧ a' = a
  /-- A merge of a stake that is being deactivated in this epoch is refused. -/
  merge_refuses_deactivating : ∀ sys auth kd dst ks src m s,
    (dst.data = .stakeState (.stake m s) ∨ src.data = .stakeState (.stake m s)) →
    s.delegation.deactivatingAt sys.epoch →
    ∃ e, rt.merge sys auth (kd, dst) (ks, src) = .error e
  /-- A merge of a fully active stake with one that is deactivated is refused. -/
  merge_refuses_mismatch : ∀ sys auth kd dst ks src md d ms s,
    dst.data = .stakeState (.stake md d) → src.data = .stakeState (.stake ms s) →
    s.delegation.fullyActiveAt sys.epoch → d.delegation.deactivationEpoch < sys.epoch →
    ∃ e, rt.merge sys auth (kd, dst) (ks, src) = .error e
  /-- Outside of reward payment, an initialized account merges into an initialized account with the
  same authorities and lockup. -/
  merge_initialized : ∀ sys auth kd dst ks src md ms, sys.epochRewardsActive = false → kd ≠ ks →
    dst.owner = rt.stakeProgramId → src.owner = rt.stakeProgramId →
    dst.data = .stakeState (.initialized md) → src.data = .stakeState (.initialized ms) →
    md.authorized = ms.authorized → md.lockup = ms.lockup → md.authorized.staker = auth →
    ∃ r, rt.merge sys auth (kd, dst) (ks, src) = .ok r
  /-- Outside of reward payment, lamports beyond the delegation and the rent-exempt reserve can be
  withdrawn when no lockup was ever set. -/
  withdraw_excess : ∀ sys auth n src m s, sys.epochRewardsActive = false →
    src.owner = rt.stakeProgramId → src.data = .stakeState (.stake m s) →
    m.authorized.withdrawer = auth → m.lockup.unixTimestamp = 0 → m.lockup.epoch = 0 →
    n + s.delegation.stake + m.rentExemptReserve ≤ src.lamports →
    ∃ r, rt.withdraw sys auth n src = .ok r
  /-- Tokens can be minted to an account that can receive them while the supply fits 64 bits. -/
  mintTo_accepts : ∀ k auth n mint dst m t, mint.data = .mint m → dst.data = .token t → t.mint = k →
    t.state = .initialized → m.mintAuthority = some auth → m.supply + n < 2 ^ 64 →
    ∃ r, rt.mintTo k auth n mint dst = .ok r

end SplStakePool
