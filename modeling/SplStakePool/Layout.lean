import Mathlib.Data.List.Find
import SplStakePool.BigVec.Raw
import SplStakePool.World

/-!
# The validator list in its account

The account of the validator list holds the header and, behind it, a `BigVec` of entries. `Stores` says
that the bytes of an account are those of the list of a world; what is behind the entries is not said.

The entries have one size, so that an entry is found by its index and a vote account at a fixed place in its entry.
A search that compares bytes is then a search of the list, as long as keys with the same bytes are the same.
-/

namespace SplStakePool
open Buffer BigVec

variable {Key : Type}

/-- The bytes of an account type. -/
def AccountType.toU8 : AccountType → UInt8
  | .uninitialized => 0
  | .stakePool => 1
  | .validatorList => 2

def ValidatorListHeader.bytes (h : ValidatorListHeader) : List UInt8 :=
  h.accountType.toU8 :: toLeBytes 4 h.maxValidators

/-- The bytes of an entry, from those of a key. The field between the seeds is not used. -/
def ValidatorStakeInfo.bytes (keyBytes : Key → List UInt8) (v : ValidatorStakeInfo Key) : List UInt8 :=
  toLeBytes 8 v.activeStakeLamports ++ toLeBytes 8 v.transientStakeLamports ++
    toLeBytes 8 v.lastUpdateEpoch ++ toLeBytes 8 v.transientSeedSuffix.toNat ++ toLeBytes 4 0 ++
    toLeBytes 4 v.validatorSeedSuffix.toNat ++ [v.status.byte] ++ keyBytes v.voteAccountAddress

/-- `memcmp_pubkey`, on the bytes of an entry and of a key -/
def ValidatorStakeInfo.memcmpPubkeyBytes (voteAddress data : List UInt8) : Bool :=
  (data.drop 41).take 32 = voteAddress

/-- The entries of a list as elements of a `BigVec`. -/
def ValidatorList.elements (keyBytes : Key → List UInt8) (l : ValidatorList Key) : List (List UInt8) :=
  l.validators.map (·.bytes keyBytes)

/-- The list as one value: its header, the number of its entries and the entries. -/
def ValidatorList.serialize (keyBytes : Key → List UInt8) (l : ValidatorList Key) : List UInt8 :=
  List.flatten [l.header.bytes, toLeBytes vecSizeBytes l.validators.length, (l.elements keyBytes).flatten]

/-- An account that holds the validator list of a world: its header and a vector of its entries. -/
structure Stores (keyBytes : Key → List UInt8) (w : World Key) (data vec : List UInt8) : Prop where
  length : data.length = w.validatorListDataLen
  split : data = w.validatorList.header.bytes ++ vec
  holds : ∃ tail, Raw.Holds ValidatorStakeInfo.size (w.validatorList.elements keyBytes) tail vec

variable {keyBytes : Key → List UInt8} {v : ValidatorStakeInfo Key}

theorem ValidatorStakeInfo.length_bytes (hk : ∀ k, (keyBytes k).length = 32) :
    (v.bytes keyBytes).length = size := by
  simp only [bytes, List.length_append, length_toLeBytes, hk]
  rfl

@[simp] theorem ValidatorListHeader.length_bytes (h : ValidatorListHeader) : h.bytes.length = len := by
  rw [bytes, List.length_cons, length_toLeBytes]
  rfl

theorem ValidatorStakeInfo.memcmpPubkeyBytes_bytes (hk : ∀ k, (keyBytes k).length = 32)
    {voteAddress : List UInt8} :
    memcmpPubkeyBytes voteAddress (v.bytes keyBytes) = decide (keyBytes v.voteAccountAddress = voteAddress) := by
  have hfront : (toLeBytes 8 v.activeStakeLamports ++ toLeBytes 8 v.transientStakeLamports ++
      toLeBytes 8 v.lastUpdateEpoch ++ toLeBytes 8 v.transientSeedSuffix.toNat ++ toLeBytes 4 0 ++
      toLeBytes 4 v.validatorSeedSuffix.toNat ++ [v.status.byte]).length = 41 := by
    simp only [List.length_append, length_toLeBytes, List.length_singleton]
  rw [memcmpPubkeyBytes, bytes, List.drop_left' hfront, List.take_of_length_le (hk _).le]

/-- Comparing the bytes of vote accounts finds the entry, when no other has the same bytes. -/
theorem ValidatorList.find?_elements [DecidableEq Key] (hk : ∀ k, (keyBytes k).length = 32)
    {l : ValidatorList Key} {vote : Key} (hinj : ∀ v ∈ l.validators,
      keyBytes v.voteAccountAddress = keyBytes vote → v.voteAccountAddress = vote) :
    (l.elements keyBytes).find? (ValidatorStakeInfo.memcmpPubkeyBytes (keyBytes vote)) =
      (l.find vote).map (·.bytes keyBytes) := by
  rw [elements, List.find?_map, find]
  refine congrArg _ (List.find?_congr fun v hv => ?_)
  rw [Function.comp_apply, ValidatorStakeInfo.memcmpPubkeyBytes_bytes hk, ValidatorStakeInfo.memcmpPubkey]
  exact decide_eq_decide.2 ⟨hinj v hv, fun h => by rw [h]⟩

theorem Stores.serialize {w : World Key} {data vec : List UInt8} (h : Stores keyBytes w data vec) :
    ∃ rest, data = w.validatorList.serialize keyBytes ++ rest := by
  obtain ⟨tail, ht⟩ := h.holds
  refine ⟨tail, ?_⟩
  rw [h.split, ht.layout, ValidatorList.serialize, ValidatorList.elements, List.length_map]
  simp only [List.flatten_cons, List.flatten_nil, List.append_nil, List.append_assoc]

end SplStakePool
