import SplStakePool.Client.JsDeposit

/-!
# What the JavaScript decoders of deposits return

`decodeDepositStake` returns the parameters that an instruction was built from. `decodeDepositSol` never does:
it takes the accounts from behind where the builder puts them, and the lamports from a property that the
decoded data does not have.

The decoders check the program and the data first, and these pass for what the builders return. What is then compared is
a list of accounts, position by position, and the properties that a layout has.
-/

namespace SplStakePool.Js
open Borsh Buffer

variable {Key : Type} [DecidableEq Key] {c : Constants Key}

variable (Key) in
/-- The parameters of a deposit. -/
inductive DepositParams
  | stake (params : DepositStakeParams Key)
  | sol (params : DepositSolParams Key)

namespace DepositParams

def programId : DepositParams Key → Option Key
  | .stake params => params.programId
  | .sol params => params.programId

/-- Decoding the instruction that is built returns the parameters, field for field. -/
def RoundTrips (c : Constants Key) : DepositParams Key → Prop
  | .stake params => (depositStake c params).bind (decodeDepositStake c) = some params
  | .sol params => (depositSol c params).bind (decodeDepositSol c) = some params.object

def isStake : DepositParams Key → Bool
  | .stake _ => true
  | .sol _ => false

end DepositParams

theorem map_fst_decodeStruct {struct : List (Property × Layout)} {buffer rest : List UInt8}
    {data : List (Property × Decoded)} (h : decodeStruct struct buffer = some (data, rest)) :
    data.map Prod.fst = struct.map Prod.fst := by
  induction struct generalizing buffer data with
  | nil =>
    cases h
    rfl
  | cons field struct ih =>
    obtain ⟨value, mid, -, h⟩ := bind_eq_some.1 h
    obtain ⟨data', mid', hd, h⟩ := bind_eq_some.1 h
    cases h
    rw [List.map_cons, List.map_cons, ih hd]

/-- A property that the layout does not name is undefined. -/
theorem getProperty_eq_none {type : InstructionType} {buffer : List UInt8} {data : List (Property × Decoded)}
    {name : String} (h : decodeData type buffer = some data) (hn : ∀ p ∈ type.layout.map Prod.fst, p.key ≠ name) :
    getProperty data name = none := by
  obtain ⟨data', hd, h⟩ := Option.bind_eq_some_iff.1 h
  split at h
  · cases h
    obtain ⟨⟨_, rest⟩, hs, rfl⟩ := Option.map_eq_some_iff.1 hd
    have hprops := map_fst_decodeStruct hs
    rw [getProperty, Option.map_eq_none_iff, List.find?_eq_none]
    intro field hfield
    have hmem : field.1 ∈ type.layout.map Prod.fst := hprops ▸ List.mem_map_of_mem hfield
    simpa using hn _ hmem
  · cases h

theorem checkProgramId_eq_some {programId : Key}
    (h : programId = c.stakePoolProgramId ∨ programId = c.devnetStakePoolProgramId) :
    checkProgramId c programId = some () := by
  rw [checkProgramId, if_neg]
  rintro ⟨h₁, h₂⟩
  exact h.elim h₁ h₂

theorem decodeDepositStake_depositStake {params : DepositStakeParams Key} {programId : Key}
    (hp : params.programId = some programId)
    (h : programId = c.stakePoolProgramId ∨ programId = c.devnetStakePoolProgramId) :
    (depositStake c params).bind (decodeDepositStake c) = some params := by
  have hdata : Call.depositStake.data = some [9] := rfl
  have hdecode : decodeData .depositStake [9] = some [(.instruction, .num 9)] := rfl
  obtain ⟨_, stakePool, validatorList, depositAuthority, withdrawAuthority, depositStake, validatorStake,
    reserveStake, destinationPoolAccount, managerFeeAccount, referralPoolAccount, poolMint⟩ := params
  cases hp
  simp only [Js.depositStake, decodeDepositStake, hdata, hdecode, checkProgramId_eq_some h, Option.getD_some,
    Option.bind_eq_bind, Option.bind_some, Option.pure_def]
  rfl

/-- The decoded lamports are undefined. -/
theorem decodeDepositSol_lamports {instruction : BuiltInstruction Key} {decoded : DecodedDepositSol Key}
    (h : decodeDepositSol c instruction = some decoded) : decoded.lamports = none := by
  simp only [decodeDepositSol, Option.bind_eq_bind, Option.bind_eq_some_iff, Option.pure_def,
    Option.some.injEq] at h
  obtain ⟨-, -, -, -, data, hdata, -, -, -, -, -, -, -, -, -, -, -, -, -, -, -, -, -, -, rfl⟩ := h
  exact getProperty_eq_none hdata (by decide)

/-- Of the deposits, exactly those of stake are decoded to their parameters. -/
theorem deposit_round_trips_iff (c : Constants Key) (params : DepositParams Key)
    (h : params.programId = some c.stakePoolProgramId ∨ params.programId = some c.devnetStakePoolProgramId) :
    params.RoundTrips c ↔ params.isStake = true := by
  cases params with
  | stake params =>
    refine ⟨fun _ => rfl, fun _ => ?_⟩
    rcases h with h | h
    · exact decodeDepositStake_depositStake h (.inl rfl)
    · exact decodeDepositStake_depositStake h (.inr rfl)
  | sol params =>
    refine ⟨fun hr => ?_, fun hs => by cases hs⟩
    obtain ⟨instruction, -, hd⟩ := Option.bind_eq_some_iff.1 hr
    have := decodeDepositSol_lamports hd
    cases this

def sampleConstants : Constants Nat where
  stakePoolProgramId := 100
  devnetStakePoolProgramId := 101
  tokenProgramId := 102
  systemProgramId := 103
  stakeProgramId := 104
  sysvarClockPubkey := 105
  sysvarStakeHistoryPubkey := 106

def sampleDepositStake : DepositStakeParams Nat where
  programId := some 100
  stakePool := 1
  validatorList := 2
  depositAuthority := 3
  withdrawAuthority := 4
  depositStake := 5
  validatorStake := 6
  reserveStake := 7
  destinationPoolAccount := 8
  managerFeeAccount := 9
  referralPoolAccount := 10
  poolMint := 11

def sampleDepositSol : DepositSolParams Nat where
  programId := some 100
  stakePool := 1
  depositAuthority := none
  withdrawAuthority := 2
  reserveStake := 3
  fundingAccount := 4
  destinationPoolAccount := 5
  managerFeeAccount := 6
  referralPoolAccount := 7
  poolMint := 8
  lamports := ⟨5, rfl⟩

theorem deposit_round_trips_sample :
    (DepositParams.stake sampleDepositStake).RoundTrips sampleConstants ∧
      ¬ (DepositParams.sol sampleDepositSol).RoundTrips sampleConstants :=
  ⟨(deposit_round_trips_iff sampleConstants (.stake sampleDepositStake) (.inl rfl)).2 rfl,
    fun h => by cases (deposit_round_trips_iff sampleConstants (.sol sampleDepositSol) (.inl rfl)).1 h⟩

/-- What is decoded of a deposit of five lamports: each account is the one behind it, and there is no amount. -/
theorem depositSol_decoded_sample :
    (depositSol sampleConstants sampleDepositSol).bind (decodeDepositSol sampleConstants) =
        some { programId := some 100, stakePool := 1, depositAuthority := some 2, withdrawAuthority := 3,
               reserveStake := 4, fundingAccount := 5, destinationPoolAccount := 6, managerFeeAccount := 7,
               referralPoolAccount := 8, poolMint := 103, lamports := none } ∧
      (depositSol sampleConstants sampleDepositSol).bind (decodeDepositSol sampleConstants) ≠
        some sampleDepositSol.object := by
  constructor <;> decide

end SplStakePool.Js
