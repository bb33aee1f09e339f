import Mathlib.Data.Set.Function
import SplStakePool.Layout.Pool
import SplStakePool.Processor.Check

/-!
# The bytes of derived addresses

What is hashed of a derived address is the bytes of its seeds, the bump, the program and a marker, without
separators, so that nothing but the lengths tells where a seed ends. The derivations of the program have
different lengths, and one derivation has its parts at fixed places. No two of them hash the same bytes, and
where the hash has no collision an address passes the checks for one account of one pool at most.
-/

namespace SplStakePool
open Buffer Borsh Exec

/-- The bytes of a seed. -/
def Seed.toBytes : Seed Pubkey → List UInt8
  | .pubkey k => k.bytes
  | .bytes b => b

def seedBytes (seeds : List (Seed Pubkey)) : List UInt8 := seeds.flatMap Seed.toBytes

/-- `PDA_MARKER` -/
def pdaMarker : List UInt8 := "ProgramDerivedAddress".toList.map Char.toUInt8

/-- What `create_program_address` hashes. -/
def hashedBytes (seeds : List (Seed Pubkey)) (programId : Pubkey) : List UInt8 :=
  seedBytes seeds ++ (programId.bytes ++ pdaMarker)

/-- A runtime that derives addresses with a hash of bytes. -/
structure Runtime.DerivesBy (rt : Runtime Pubkey) (hash : List UInt8 → Pubkey) : Prop where
  create : ∀ seeds programId address, rt.createProgramAddress seeds programId = some address →
    address = hash (hashedBytes seeds programId)
  create_find : ∀ seeds programId,
    rt.createProgramAddress (seeds ++ [.bytes [(rt.findProgramAddress seeds programId).2]]) programId =
      some (rt.findProgramAddress seeds programId).1

/-- The seed of a validator stake account, which is left out without one. -/
def validatorSeed (seed : Option UInt32) : List UInt8 := (seed.map fun s => toLeBytes 4 s.toNat).getD []

/-- An address that the program derives, with all that it is derived from. -/
inductive Derivation
  | depositAuthority (stakePoolAddress : Pubkey)
  | withdrawAuthority (stakePoolAddress : Pubkey)
  | validatorStake (voteAccountAddress stakePoolAddress : Pubkey) (seed : Option UInt32)
  | transientStake (voteAccountAddress stakePoolAddress : Pubkey) (seed : UInt64)
  | ephemeralStake (stakePoolAddress : Pubkey) (seed : UInt64)
  deriving DecidableEq

namespace Derivation

/-- The seeds without the bump. -/
def seeds : Derivation → List (Seed Pubkey)
  | depositAuthority pool => [.pubkey pool, .bytes authorityDeposit]
  | withdrawAuthority pool => [.pubkey pool, .bytes authorityWithdraw]
  | validatorStake vote pool seed => [.pubkey vote, .pubkey pool, .bytes (validatorSeed seed)]
  | transientStake vote pool seed =>
    [.bytes transientStakeSeedPrefix, .pubkey vote, .pubkey pool, .bytes (toLeBytes 8 seed.toNat)]
  | ephemeralStake pool seed => [.bytes ephemeralStakeSeedPrefix, .pubkey pool, .bytes (toLeBytes 8 seed.toNat)]

/-- The seed bytes and the bump. -/
def preimage (d : Derivation) (bump : UInt8) : List UInt8 := seedBytes (d.seeds ++ [.bytes [bump]])

/-- What is hashed of a derivation under a program. -/
def hashed (d : Derivation) (programId : Pubkey) (bump : UInt8) : List UInt8 :=
  hashedBytes (d.seeds ++ [.bytes [bump]]) programId

/-- How many bytes the seeds have. -/
def width : Derivation → Nat
  | depositAuthority _ => 39
  | withdrawAuthority _ => 40
  | validatorStake _ _ seed => 64 + (validatorSeed seed).length
  | transientStake _ _ _ => 81
  | ephemeralStake _ _ => 49

variable (rt : Runtime Pubkey) (programId : Pubkey)

/-- The address and the bump that the program finds. -/
def find : Derivation → Pubkey × UInt8
  | depositAuthority pool => findDepositAuthorityProgramAddress rt programId pool
  | withdrawAuthority pool => findWithdrawAuthorityProgramAddress rt programId pool
  | validatorStake vote pool seed => findStakeProgramAddress rt programId vote pool seed
  | transientStake vote pool seed => findTransientStakeProgramAddress rt programId vote pool seed
  | ephemeralStake pool seed => findEphemeralStakeProgramAddress rt programId pool seed

/-- The address passes the check of the program for the role. -/
def Accepts (address : Pubkey) : Derivation → Prop
  | depositAuthority pool => ∃ bump,
    StakePool.checkProgramDerivedAuthority rt address programId pool authorityDeposit bump = .ok ()
  | withdrawAuthority pool => ∃ bump,
    StakePool.checkProgramDerivedAuthority rt address programId pool authorityWithdraw bump = .ok ()
  | validatorStake vote pool seed => checkValidatorStakeAddress rt programId pool address vote seed = .ok ()
  | transientStake vote pool seed => ∃ bump,
    checkTransientStakeAddress rt programId pool address vote seed = .ok bump
  | ephemeralStake pool seed => ∃ bump, checkEphemeralStakeAddress rt programId pool address seed = .ok bump

end Derivation

/-! ## Preimages -/

variable {rt : Runtime Pubkey} {hash : List UInt8 → Pubkey} {d d' : Derivation} {bump bump' : UInt8}
  {programId programId' address : Pubkey}

theorem seedBytes_singleton (s : Seed Pubkey) : seedBytes [s] = s.toBytes := List.append_nil _

theorem seedBytes_cons_cons (s t : Seed Pubkey) (l : List (Seed Pubkey)) :
    seedBytes (s :: t :: l) = s.toBytes ++ seedBytes (t :: l) := rfl

theorem seedBytes_append (s t : List (Seed Pubkey)) : seedBytes (s ++ t) = seedBytes s ++ seedBytes t :=
  List.flatMap_append

theorem key_append_inj {k k' : Pubkey} {l l' : List UInt8} (h : k.bytes ++ l = k'.bytes ++ l') :
    k = k' ∧ l = l' := by
  obtain ⟨hk, hl⟩ := List.append_inj h (by rw [k.length_bytes, k'.length_bytes])
  exact ⟨FixedBytes.bytes_inj.1 hk, hl⟩

theorem length_validatorSeed_le (seed : Option UInt32) : (validatorSeed seed).length ≤ 4 := by
  cases seed with
  | none => exact Nat.zero_le 4
  | some s => exact (length_toLeBytes 4 s.toNat).le

theorem validatorSeed_inj {s t : Option UInt32} (h : validatorSeed s = validatorSeed t) : s = t := by
  have hlen : ∀ u : UInt32, (validatorSeed (some u)).length = 4 := fun u => length_toLeBytes 4 u.toNat
  cases s with
  | none =>
    cases t with
    | none => rfl
    | some u => exact absurd ((congrArg List.length h).trans (hlen u)) (by decide)
  | some u =>
    cases t with
    | none => exact absurd ((hlen u).symm.trans (congrArg List.length h)) (by decide)
    | some v => rw [UInt32.toNat_inj.1 (toLeBytes_inj u.toNat_lt v.toNat_lt h)]

theorem seed_inj {s t : UInt64} (h : toLeBytes 8 s.toNat = toLeBytes 8 t.toNat) : s = t :=
  UInt64.toNat_inj.1 (toLeBytes_inj s.toNat_lt t.toNat_lt h)

namespace Derivation

theorem preimage_eq : d.preimage bump = seedBytes d.seeds ++ [bump] := by
  rw [preimage, seedBytes_append]
  rfl

theorem length_seedBytes : (seedBytes d.seeds).length = d.width := by
  cases d with
  | depositAuthority pool => simp [seedBytes, seeds, Seed.toBytes, width, authorityDeposit]
  | withdrawAuthority pool => simp [seedBytes, seeds, Seed.toBytes, width, authorityWithdraw]
  | validatorStake vote pool seed =>
    simp only [seedBytes, seeds, Seed.toBytes, width, List.flatMap_cons, List.flatMap_nil, List.length_append,
      List.append_nil, vote.length_bytes, pool.length_bytes]
    omega
  | transientStake vote pool seed => simp [seedBytes, seeds, Seed.toBytes, width, transientStakeSeedPrefix]
  | ephemeralStake pool seed => simp [seedBytes, seeds, Seed.toBytes, width, ephemeralStakeSeedPrefix]

/-- The width tells the kind, and then each part has its place. -/
theorem seedBytes_inj (h : seedBytes d.seeds = seedBytes d'.seeds) : d = d' := by
  have hwidth : d.width = d'.width := by rw [← length_seedBytes, h, length_seedBytes]
  cases d with
  | depositAuthority pool =>
    cases d' with
    | depositAuthority pool' => rw [(key_append_inj h).1]
    | validatorStake => simp only [width] at hwidth; omega
    | _ => cases hwidth
  | withdrawAuthority pool =>
    cases d' with
    | withdrawAuthority pool' => rw [(key_append_inj h).1]
    | validatorStake => simp only [width] at hwidth; omega
    | _ => cases hwidth
  | validatorStake vote pool seed =>
    have hseed := length_validatorSeed_le seed
    cases d' with
    | validatorStake vote' pool' seed' =>
      simp only [seeds, seedBytes_cons_cons, seedBytes_singleton, Seed.toBytes] at h
      obtain ⟨hvote, h⟩ := key_append_inj h
      obtain ⟨hpool, h⟩ := key_append_inj h
      rw [hvote, hpool, validatorSeed_inj h]
    | _ => simp only [width] at hwidth; omega
  | transientStake vote pool seed =>
    cases d' with
    | transientStake vote' pool' seed' =>
      simp only [seeds, seedBytes_cons_cons, seedBytes_singleton, Seed.toBytes] at h
      obtain ⟨hvote, h⟩ := key_append_inj (List.append_cancel_left h)
      obtain ⟨hpool, h⟩ := key_append_inj h
      rw [hvote, hpool, seed_inj h]
    | validatorStake _ _ seed' =>
      have hseed' := length_validatorSeed_le seed'
      simp only [width] at hwidth
      omega
    | _ => cases hwidth
  | ephemeralStake pool seed =>
    cases d' with
    | ephemeralStake pool' seed' =>
      simp only [seeds, seedBytes_cons_cons, seedBytes_singleton, Seed.toBytes] at h
      obtain ⟨hpool, h⟩ := key_append_inj (List.append_cancel_left h)
      rw [hpool, seed_inj h]
    | validatorStake => simp only [width] at hwidth; omega
    | _ => cases hwidth

theorem preimage_inj (h : d.preimage bump = d'.preimage bump') : d = d' ∧ bump = bump' := by
  rw [preimage_eq, preimage_eq] at h
  obtain ⟨hseeds, hbump⟩ := List.append_inj' h rfl
  exact ⟨seedBytes_inj hseeds, List.singleton_inj.1 hbump⟩

/-- The program is hashed behind the bump, at as many bytes from the end for all. -/
theorem hashed_inj (h : d.hashed programId bump = d'.hashed programId' bump') :
    d = d' ∧ programId = programId' ∧ bump = bump' := by
  have hlen : (programId.bytes ++ pdaMarker).length = (programId'.bytes ++ pdaMarker).length := by
    rw [List.length_append, List.length_append, programId.length_bytes, programId'.length_bytes]
  obtain ⟨hpre, htail⟩ := List.append_inj' h hlen
  obtain ⟨hd, hbump⟩ := preimage_inj hpre
  exact ⟨hd, (key_append_inj htail).1, hbump⟩

/-! ## Checks -/

theorem find_eq : d.find rt programId = rt.findProgramAddress d.seeds programId := by
  cases d <;> rfl

/-- An address that passes a check is created from the seeds of the role, with some bump. -/
theorem Accepts.create (hd : rt.DerivesBy hash) (h : d.Accepts rt programId address) :
    ∃ bump, rt.createProgramAddress (d.seeds ++ [.bytes [bump]]) programId = some address := by
  have hfind : (d.find rt programId).1 = address →
      ∃ bump, rt.createProgramAddress (d.seeds ++ [.bytes [bump]]) programId = some address := by
    intro ha
    rw [find_eq] at ha
    exact ⟨_, ha ▸ hd.create_find d.seeds programId⟩
  cases d with
  | depositAuthority pool | withdrawAuthority pool =>
    obtain ⟨bump, h⟩ := h
    simp only [StakePool.checkProgramDerivedAuthority, bind_eq_ok, orErr_eq_ok, ensure_eq_ok] at h
    obtain ⟨expected, hc, rfl⟩ := h
    exact ⟨bump, hc⟩
  | validatorStake vote pool seed => exact hfind (ensure_eq_ok.1 h)
  | transientStake vote pool seed =>
    obtain ⟨bump, h⟩ := h
    simp only [checkTransientStakeAddress, bind_eq_ok, ensure_eq_ok, exists_unit] at h
    exact hfind h.1
  | ephemeralStake pool seed =>
    obtain ⟨bump, h⟩ := h
    simp only [checkEphemeralStakeAddress, bind_eq_ok, ensure_eq_ok, exists_unit] at h
    exact hfind h.1

end Derivation

/-- The derivations of the program have preimages of their own, and where the hash has no collision among the
bytes that are hashed, an address passes the check of one role, for one account of one pool and program. -/
theorem derivations_never_collide :
    (∀ (d d' : Derivation) (bump bump' : UInt8), d.preimage bump = d'.preimage bump' → d = d' ∧ bump = bump') ∧
      ∀ (rt : Runtime Pubkey) (hash : List UInt8 → Pubkey) (used : Set (List UInt8)), rt.DerivesBy hash →
        Set.InjOn hash used → ∀ (d d' : Derivation) (programId programId' address : Pubkey),
          (∀ bump, d.hashed programId bump ∈ used) → (∀ bump, d'.hashed programId' bump ∈ used) →
          d.Accepts rt programId address → d'.Accepts rt programId' address → d = d' ∧ programId = programId' := by
  refine ⟨fun d d' bump bump' h => Derivation.preimage_inj h, ?_⟩
  intro rt hash used hd hinj d d' programId programId' address hu hu' h h'
  obtain ⟨bump, hc⟩ := h.create hd
  obtain ⟨bump', hc'⟩ := h'.create hd
  have heq : d.hashed programId bump = d'.hashed programId' bump' :=
    hinj (hu bump) (hu' bump') ((hd.create _ _ _ hc).symm.trans (hd.create _ _ _ hc'))
  obtain ⟨hdd, hp, -⟩ := Derivation.hashed_inj heq
  exact ⟨hdd, hp⟩

/-- A key that repeats a byte. -/
def Pubkey.ofByte (b : UInt8) : Pubkey := ⟨List.replicate 32 b, List.length_replicate⟩

/-- A hash that keeps what is behind the seeds of an ephemeral stake account. -/
def tailHash (bytes : List UInt8) : Pubkey := ⟨(bytes.drop 49 ++ List.replicate 32 0).take 32, by simp⟩

/-- A runtime that derives addresses with a hash, where the first bump will do. There are no other programs. -/
def Runtime.hashing (hash : List UInt8 → Pubkey) : Runtime Pubkey where
  programId := .ofByte 0
  systemProgramId := .ofByte 1
  stakeProgramId := .ofByte 2
  tokenProgramId := .ofByte 3
  token2022ProgramId := .ofByte 4
  mplTokenMetadataId := .ofByte 5
  clockId := .ofByte 6
  rentId := .ofByte 7
  stakePoolAddress := .ofByte 10
  validatorListAddress := .ofByte 11
  createProgramAddress := fun seeds programId => some (hash (hashedBytes seeds programId))
  findProgramAddress := fun seeds programId => (hash (hashedBytes (seeds ++ [.bytes [255]]) programId), 255)
  rentMinimumBalance := fun _ => 0
  allocate := fun _ _ => .error .invalidArgument
  assign := fun _ _ => .error .invalidArgument
  transfer := fun _ _ => .error .invalidArgument
  split := fun _ _ _ _ _ => .error .invalidArgument
  merge := fun _ _ _ _ => .error .invalidArgument
  withdraw := fun _ _ _ _ => .error .invalidArgument
  delegate := fun _ _ _ _ => .error .invalidArgument
  deactivate := fun _ _ _ => .error .invalidArgument
  authorize := fun _ _ _ _ _ => .error .invalidArgument
  mintTo := fun _ _ _ _ _ => .error .invalidArgument
  burn := fun _ _ _ _ _ => .error .invalidArgument
  transferChecked := fun _ _ _ _ _ _ _ => .error .invalidArgument
  createMetadataAccountsV3 := fun _ _ _ _ _ _ _ => .error .invalidArgument
  updateMetadataAccountsV2 := fun _ _ _ _ _ => .error .invalidArgument

theorem Runtime.hashing_derivesBy (hash : List UInt8 → Pubkey) : (Runtime.hashing hash).DerivesBy hash where
  create _ _ _ h := (Option.some.inj h).symm
  create_find _ _ := rfl

theorem derivations_never_collide_ephemeral :
    let rt := Runtime.hashing tailHash
    let ephemeral := Derivation.ephemeralStake rt.stakePoolAddress 1
    let validator := Derivation.validatorStake (.ofByte 9) rt.stakePoolAddress none
    let address := (ephemeral.find rt rt.programId).1
    (ephemeral = ephemeral ∧ rt.programId = rt.programId) ∧ ephemeral.Accepts rt rt.programId address ∧
      ¬ validator.Accepts rt rt.programId address := by
  intro rt ephemeral validator address
  let used : Set (List UInt8) :=
    Set.range (ephemeral.hashed rt.programId) ∪ Set.range (validator.hashed rt.programId)
  have hephemeral : ∀ bump, (tailHash (ephemeral.hashed rt.programId bump)).bytes = bump :: List.replicate 31 0 :=
    fun _ => rfl
  have hvalidator : ∀ bump, (tailHash (validator.hashed rt.programId bump)).bytes =
      List.replicate 15 10 ++ bump :: List.replicate 16 0 := fun _ => rfl
  have hinj : Set.InjOn tailHash used := by
    rintro x (⟨b, rfl⟩ | ⟨b, rfl⟩) y (⟨c, rfl⟩ | ⟨c, rfl⟩) h
    · have h := FixedBytes.bytes_inj.2 h
      rw [hephemeral, hephemeral] at h
      rw [(List.cons.inj h).1]
    · have h := FixedBytes.bytes_inj.2 h
      rw [hephemeral, hvalidator] at h
      exact absurd (List.cons.inj h).2 (by simp [List.replicate_succ])
    · have h := FixedBytes.bytes_inj.2 h
      rw [hephemeral, hvalidator] at h
      exact absurd (List.cons.inj h).2 (by simp [List.replicate_succ])
    · have h := FixedBytes.bytes_inj.2 h
      rw [hvalidator, hvalidator] at h
      rw [(List.cons.inj (List.append_cancel_left h)).1]
  have haccepts : ephemeral.Accepts rt rt.programId address := by
    refine ⟨255, ?_⟩
    simp only [checkEphemeralStakeAddress, bind_eq_ok, ensure_eq_ok, exists_unit]
    exact ⟨rfl, rfl⟩
  have hunique := derivations_never_collide.2 rt tailHash used (Runtime.hashing_derivesBy tailHash) hinj
  have heph : ∀ bump, ephemeral.hashed rt.programId bump ∈ used := fun bump => .inl ⟨bump, rfl⟩
  refine ⟨hunique _ _ _ _ address heph heph haccepts haccepts, haccepts, fun hval => ?_⟩
  have heq := (hunique _ _ _ _ address heph (fun bump => .inr ⟨bump, rfl⟩) haccepts hval).1
  simp [ephemeral, validator] at heq

end SplStakePool
