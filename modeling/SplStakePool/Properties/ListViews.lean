import SplStakePool.Layout.Views

/-!
# The views of the validator list agree

Borsh, `Pack` and the memory of the struct are one format for an entry: the same 73 bytes for each entry, and
the same entry for each 73 bytes. The tests on raw bytes are then the tests on the fields, and what a search
through the raw list returns is what a search through the decoded one does.

The struct is packed, because its fields need no alignment, so that its memory is the bytes of the fields one behind the
other, as Borsh writes them. A test on bytes looks at fixed places, which are those of the fields it is about: the
eight bytes of a number are zero when the number is.
-/

namespace SplStakePool
open Borsh BigVec

namespace PodValidatorStakeInfo
variable {v : PodValidatorStakeInfo} {data : List UInt8}

@[simp] theorem length_serialize (v : PodValidatorStakeInfo) : v.serialize.length = 73 := by
  simp [serialize]

theorem reads (v : PodValidatorStakeInfo) : Reads deserialize v.serialize v :=
  .cons (reads_u64 _) <| .cons (reads_u64 _) <| .cons (reads_u64 _) <| .cons (reads_u64 _) <|
  .cons (reads_u32 _) <| .cons (reads_u32 _) <| .cons ((reads_u8 _).map _) <| .cons (reads_fixedBytes _) <|
  .done _

theorem consumes : Consumes deserialize 73 :=
  consumes_u64.bind fun _ => consumes_u64.bind fun _ => consumes_u64.bind fun _ => consumes_u64.bind fun _ =>
    consumes_u32.bind fun _ => consumes_u32.bind fun _ => (consumes_u8.map _).bind fun _ =>
      (consumes_fixedBytes 32).bind fun _ => .pure _

theorem packed (v : PodValidatorStakeInfo) : ReprC.Packed fieldTypes v.fieldBytes := by
  simp [fieldTypes, fieldBytes, ReprC.Packed]

theorem bytesOf_eq (v : PodValidatorStakeInfo) : v.bytesOf = some v.serialize := v.packed.bytesOf

theorem pack_eq (v : PodValidatorStakeInfo) (h : data.length = 73) : v.pack data = some v.serialize := by
  have hdrop : data.drop 73 = [] := List.drop_eq_nil_iff.2 h.le
  have hguard : ¬ data.length ≠ packLen := not_not.2 h
  rw [pack, if_neg hguard, toWriter, Buffer.write, length_serialize, if_pos (by omega), List.take_zero,
    Nat.zero_add, hdrop, List.nil_append, List.append_nil]

theorem ofNat_fromLeBytes₈ (n : UInt64) : UInt64.ofNat (Buffer.fromLeBytes (Buffer.toLeBytes 8 n.toNat)) = n := by
  rw [Buffer.fromLeBytes_toLeBytes n.toNat_lt, UInt64.ofNat_toNat]

theorem ofNat_fromLeBytes₄ (n : UInt32) : UInt32.ofNat (Buffer.fromLeBytes (Buffer.toLeBytes 4 n.toNat)) = n := by
  rw [Buffer.fromLeBytes_toLeBytes n.toNat_lt, UInt32.ofNat_toNat]

theorem toLeBytes_ofNat₈ {bytes : List UInt8} (h : bytes.length = 8) :
    Buffer.toLeBytes 8 (UInt64.ofNat (Buffer.fromLeBytes bytes)).toNat = bytes := by
  have hlt := Buffer.fromLeBytes_lt bytes
  rw [h] at hlt
  rw [UInt64.toNat_ofNat_of_lt' hlt, ← h, Buffer.toLeBytes_fromLeBytes]

theorem toLeBytes_ofNat₄ {bytes : List UInt8} (h : bytes.length = 4) :
    Buffer.toLeBytes 4 (UInt32.ofNat (Buffer.fromLeBytes bytes)).toNat = bytes := by
  have hlt := Buffer.fromLeBytes_lt bytes
  rw [h] at hlt
  rw [UInt32.toNat_ofNat_of_lt' hlt, ← h, Buffer.toLeBytes_fromLeBytes]

theorem fromBytes_serialize (v : PodValidatorStakeInfo) : fromBytes v.serialize = some v := by
  have h := v.packed.fromBytes
  rw [fromBytes, show v.serialize = v.fieldBytes.flatten from rfl, h, fieldBytes]
  simp only [v.voteAccountAddress.length_bytes, ofNat_fromLeBytes₈, ofNat_fromLeBytes₄, ↓reduceDIte]

/-- Any 73 bytes are an entry. -/
theorem exists_serialize (h : data.length = 73) : ∃ v, serialize v = data := by
  have halign : ∀ t ∈ fieldTypes, t.align = 1 := by decide
  obtain ⟨bs, hbs, rfl⟩ := ReprC.exists_packed halign h
  simp only [ReprC.Packed, fieldTypes, List.forall₂_cons_left_iff, List.forall₂_nil_left_iff] at hbs
  obtain ⟨a, _, ⟨-, ha⟩, ⟨t, _, ⟨-, ht⟩, ⟨e, _, ⟨-, he⟩, ⟨s, _, ⟨-, hs⟩, ⟨u, _, ⟨-, hu⟩, ⟨vs, _, ⟨-, hvs⟩,
    ⟨st, _, ⟨-, hst⟩, ⟨vote, _, ⟨-, hvote⟩, rfl, rfl⟩, rfl⟩, rfl⟩, rfl⟩, rfl⟩, rfl⟩, rfl⟩, rfl⟩ := hbs
  obtain ⟨status, rfl⟩ := List.length_eq_one_iff.1 hst
  refine ⟨⟨.ofNat (Buffer.fromLeBytes a), .ofNat (Buffer.fromLeBytes t), .ofNat (Buffer.fromLeBytes e),
    .ofNat (Buffer.fromLeBytes s), .ofNat (Buffer.fromLeBytes u), .ofNat (Buffer.fromLeBytes vs), ⟨status⟩,
    ⟨vote, hvote⟩⟩, ?_⟩
  simp only [serialize, uintBytes, toLeBytes_ofNat₈ ha, toLeBytes_ofNat₈ ht, toLeBytes_ofNat₈ he,
    toLeBytes_ofNat₈ hs, toLeBytes_ofNat₄ hu, toLeBytes_ofNat₄ hvs]

/-- The decoders return the same on every buffer. -/
theorem fromBytes_eq (data : List UInt8) : fromBytes data = tryFromSlice deserialize data := by
  by_cases h : data.length = 73
  · obtain ⟨v, rfl⟩ := exists_serialize h
    rw [fromBytes_serialize, v.reads.tryFromSlice]
  · have hsize : ¬ data.length = ReprC.sizeOf fieldTypes := h
    have hview : fromBytes data = none := by
      rw [fromBytes, ReprC.fromBytes, if_neg hsize]
    cases hd : tryFromSlice deserialize data with
    | none => exact hview
    | some v => exact absurd (consumes.length_of_tryFromSlice hd) h

theorem unpackUnchecked_eq (data : List UInt8) : unpackUnchecked data = tryFromSlice deserialize data := by
  rw [unpackUnchecked]
  split
  · rename_i h
    cases hd : tryFromSlice deserialize data with
    | none => rfl
    | some v => exact absurd (consumes.length_of_tryFromSlice hd) h
  · rfl

/-! ## Tests on raw bytes -/

theorem serialize_split (v : PodValidatorStakeInfo) :
    ∃ front, v.serialize = front ++ [v.status.byte] ++ v.voteAccountAddress.bytes ∧ front.length = 40 ∧
      ∃ rest, front = Buffer.toLeBytes 8 v.activeStakeLamports.toNat ++
        Buffer.toLeBytes 8 v.transientStakeLamports.toNat ++ rest := by
  refine ⟨Buffer.toLeBytes 8 v.activeStakeLamports.toNat ++ Buffer.toLeBytes 8 v.transientStakeLamports.toNat ++
    (Buffer.toLeBytes 8 v.lastUpdateEpoch.toNat ++ Buffer.toLeBytes 8 v.transientSeedSuffix.toNat ++
      Buffer.toLeBytes 4 v.unused.toNat ++ Buffer.toLeBytes 4 v.validatorSeedSuffix.toNat), ?_, ?_, _, rfl⟩
  · simp [serialize, uintBytes]
  · simp

theorem memcmpPubkeyBytes_eq (v : PodValidatorStakeInfo) (vote : Pubkey) :
    ValidatorStakeInfo.memcmpPubkeyBytes vote.bytes v.serialize = v.info.memcmpPubkey vote := by
  obtain ⟨front, hv, hfront, -⟩ := v.serialize_split
  have hlen : (front ++ [v.status.byte]).length = 41 := by rw [List.length_append, hfront]; rfl
  rw [ValidatorStakeInfo.memcmpPubkeyBytes, hv, List.drop_left' hlen,
    List.take_of_length_le v.voteAccountAddress.length_bytes.le, ValidatorStakeInfo.memcmpPubkey]
  refine decide_eq_decide.2 ⟨fun h => ?_, fun h => by rw [← h]; rfl⟩
  show v.voteAccountAddress = vote
  cases hvote : v.voteAccountAddress
  cases vote
  rw [hvote] at h
  cases h
  rfl

theorem activeLamportsGreaterThanBytes_eq (v : PodValidatorStakeInfo) (lamports : UInt64) :
    ValidatorStakeInfo.activeLamportsGreaterThanBytes v.serialize lamports =
      v.info.activeLamportsGreaterThan lamports.toNat := by
  obtain ⟨front, hv, -, rest, rfl⟩ := v.serialize_split
  have htake : v.serialize.take 8 = uintBytes 8 v.activeStakeLamports.toNat := by
    rw [hv]
    simp only [List.append_assoc]
    exact List.take_left' (length_uintBytes _ _)
  rw [ValidatorStakeInfo.activeLamportsGreaterThanBytes, htake, (reads_u64 _).tryFromSlice, Option.any_some,
    ValidatorStakeInfo.activeLamportsGreaterThan]
  exact decide_eq_decide.2 UInt64.lt_iff_toNat_lt

theorem transientLamportsGreaterThanBytes_eq (v : PodValidatorStakeInfo) (lamports : UInt64) :
    ValidatorStakeInfo.transientLamportsGreaterThanBytes v.serialize lamports =
      v.info.transientLamportsGreaterThan lamports.toNat := by
  obtain ⟨front, hv, -, rest, rfl⟩ := v.serialize_split
  have htake : (v.serialize.drop 8).take 8 = uintBytes 8 v.transientStakeLamports.toNat := by
    rw [hv]
    simp only [List.append_assoc]
    rw [List.drop_left' (Buffer.length_toLeBytes _ _)]
    exact List.take_left' (length_uintBytes _ _)
  rw [ValidatorStakeInfo.transientLamportsGreaterThanBytes, htake, (reads_u64 _).tryFromSlice, Option.any_some,
    ValidatorStakeInfo.transientLamportsGreaterThan]
  exact decide_eq_decide.2 UInt64.lt_iff_toNat_lt

theorem status_byte (v : PodValidatorStakeInfo) : v.serialize[40]? = some v.status.byte := by
  obtain ⟨front, hv, hfront, -⟩ := v.serialize_split
  rw [hv, List.append_assoc, List.getElem?_append_right hfront.le, hfront]
  rfl

theorem toLeBytes_eq_zero {n : UInt64} : Buffer.toLeBytes 8 n.toNat = List.replicate 8 0 ↔ n.toNat = 0 := by
  constructor
  · intro h
    have := congrArg Buffer.fromLeBytes h
    rwa [Buffer.fromLeBytes_toLeBytes n.toNat_lt] at this
  · intro h
    rw [h]
    rfl

theorem lamports_zero (v : PodValidatorStakeInfo) : v.serialize.take 16 = List.replicate 16 0 ↔
    v.activeStakeLamports.toNat = 0 ∧ v.transientStakeLamports.toNat = 0 := by
  obtain ⟨front, hv, -, rest, rfl⟩ := v.serialize_split
  have htake : v.serialize.take 16 = Buffer.toLeBytes 8 v.activeStakeLamports.toNat ++
      Buffer.toLeBytes 8 v.transientStakeLamports.toNat := by
    rw [hv, List.append_assoc, List.append_assoc _ rest]
    exact List.take_left' (by simp)
  rw [htake, show List.replicate 16 (0 : UInt8) = List.replicate 8 0 ++ List.replicate 8 0 from rfl,
    ← toLeBytes_eq_zero, ← toLeBytes_eq_zero]
  exact ⟨fun h => List.append_inj h (by simp), fun h => by rw [h.1, h.2]⟩

theorem isRemovedBytes_eq (v : PodValidatorStakeInfo) :
    ValidatorStakeInfo.isRemovedBytes v.serialize = v.info.isRemoved := by
  rw [ValidatorStakeInfo.isRemovedBytes, ValidatorStakeInfo.isRemoved, v.status_byte]
  exact decide_eq_decide.2 (and_congr Iff.rfl v.lamports_zero)

theorem isActiveBytes_eq (v : PodValidatorStakeInfo) :
    ValidatorStakeInfo.isActiveBytes v.serialize = v.info.isActive := by
  rw [ValidatorStakeInfo.isActiveBytes, ValidatorStakeInfo.isActive, v.status_byte]
  rfl

end PodValidatorStakeInfo

/-! ## The list -/

theorem ValidatorListHeader.reads {h : ValidatorListHeader} (hlt : h.maxValidators < 2 ^ 32) :
    Reads deserialize h.bytes h := by
  have : h.bytes = List.flatten [h.accountType.serialize, uintBytes 4 h.maxValidators] := by
    simp [bytes, AccountType.serialize, uintBytes]
  rw [this]
  exact .cons (AccountType.reads _) <| .cons (reads_uint hlt) <| .done _

namespace PodValidatorList
variable {rest : List UInt8}

/-- The entries as elements of a `BigVec`. -/
def elements (l : PodValidatorList) : List (List UInt8) := l.validators.map (·.serialize)

/-- The bytes behind the header. -/
def vec (l : PodValidatorList) (rest : List UInt8) : List UInt8 :=
  Buffer.toLeBytes vecSizeBytes l.elements.length ++ l.elements.flatten ++ rest

theorem serialize_split (l : PodValidatorList) (rest : List UInt8) :
    l.serialize ++ rest = l.header.bytes ++ l.vec rest := by
  simp [serialize, vec, elements, ValidatorListHeader.bytes, AccountType.serialize, uintBytes, vecSizeBytes]

theorem holds (l : PodValidatorList) (rest : List UInt8) :
    Raw.Holds ValidatorStakeInfo.size l.elements rest (l.vec rest) := by
  refine ⟨fun e he => ?_, ?_, rfl⟩
  · obtain ⟨v, -, rfl⟩ := List.mem_map.1 he
    exact v.length_serialize
  · rw [elements, List.length_map]
    exact l.length_lt

theorem deserialize_eq (l : PodValidatorList) (rest : List UInt8) :
    tryFromSliceUnchecked deserialize (l.serialize ++ rest) = some (l.header, l.validators) := by
  have hentries : Reads (repeated PodValidatorStakeInfo.deserialize l.validators.length)
      (l.validators.map (·.serialize)).flatten (l.validators.map id) :=
    reads_repeated fun v _ => v.reads
  rw [List.map_id] at hentries
  have hlist : Reads deserialize (List.flatten [l.header.bytes, uintBytes 4 l.validators.length,
      (l.validators.map (·.serialize)).flatten]) (l.header, l.validators) :=
    .cons (ValidatorListHeader.reads l.maxValidators_lt) <| .cons (reads_uint l.length_lt) <|
      .cons hentries <| .done _
  rw [serialize_split]
  have := hlist.tryFromSliceUnchecked rest
  simpa [vec, elements, uintBytes, vecSizeBytes] using this

theorem deserializeVec_eq (l : PodValidatorList) (rest : List UInt8) :
    ValidatorListHeader.deserializeVec (l.serialize ++ rest) = some (l.header, l.vec rest) := by
  rw [ValidatorListHeader.deserializeVec, serialize_split,
    (ValidatorListHeader.reads l.maxValidators_lt).tryFromSliceUnchecked, Option.bind_eq_bind, Option.bind_some]
  exact congrArg (fun vec => some (l.header, vec)) List.drop_left

/-- A search through the raw list, by a test on the bytes that is one on the entries. -/
theorem find_bytes (l : PodValidatorList) {p : List UInt8 → Bool} {q : PodValidatorStakeInfo → Bool}
    (h : ∀ v ∈ l.validators, p v.serialize = q v) :
    Raw.find ValidatorStakeInfo.size p (l.vec rest) = some ((l.validators.find? q).map (·.serialize)) := by
  have hfind : l.validators.find? (p ∘ fun v => v.serialize) = l.validators.find? q := List.find?_congr h
  rw [(l.holds rest).find, elements, List.find?_map, hfind]

theorem find_eq (l : PodValidatorList) {p : List UInt8 → Bool} {q : PodValidatorStakeInfo → Bool}
    (h : ∀ v ∈ l.validators, p v.serialize = q v) :
    (Raw.find ValidatorStakeInfo.size p (l.vec rest)).map (Option.bind · PodValidatorStakeInfo.fromBytes) =
      some (l.validators.find? q) := by
  rw [l.find_bytes h, Option.map_some]
  cases l.validators.find? q with
  | none => rfl
  | some v => exact congrArg some v.fromBytes_serialize

theorem deserializeSlice_eq (l : PodValidatorList) (skip n : Nat) :
    (Raw.deserializeSlice ValidatorStakeInfo.size skip n (l.vec rest)).map
        (Except.map fun bytes => (Raw.chunks ValidatorStakeInfo.size n bytes).mapM PodValidatorStakeInfo.fromBytes) =
      some (if skip + n ≤ l.validators.length then .ok (some ((l.validators.drop skip).take n))
        else .error .accountDataTooSmall) := by
  have hviews : ∀ vs : List PodValidatorStakeInfo,
      (vs.map (·.serialize)).mapM PodValidatorStakeInfo.fromBytes = some vs := by
    intro vs
    induction vs with
    | nil => rfl
    | cons v vs ih =>
      rw [List.map_cons, List.mapM_cons, v.fromBytes_serialize, ih]
      rfl
  obtain ⟨r, hr, hr'⟩ := Option.map_eq_some_iff.1 ((l.holds rest).deserializeSlice_chunks skip n)
  rw [BigVec.deserializeSlice] at hr'
  rw [hr, Option.map_some]
  rw [elements, List.length_map] at hr'
  split at hr' <;> rename_i hle
  · cases r with
    | ok b => cases hr'
    | error e =>
      rw [if_neg (by omega)]
      cases hr'
      rfl
  · cases r with
    | error e => cases hr'
    | ok b =>
      rw [if_pos (by omega)]
      have hb : Raw.chunks ValidatorStakeInfo.size n b = ((l.validators.drop skip).take n).map (·.serialize) := by
        rw [List.map_take, List.map_drop]
        exact Except.ok.inj hr'
      have hmap := hviews ((l.validators.drop skip).take n)
      rw [← hb] at hmap
      exact congrArg (fun o => some (Except.ok o)) hmap

end PodValidatorList

/-- The raw and the structured views of the list agree: an entry is the same 73 bytes for Borsh, for `Pack` and
as a struct, and any 73 bytes are the same entry for each; the tests on the bytes are the tests on the fields;
and behind the header the raw list is searched and indexed as the decoded one. -/
theorem validator_list_views_agree :
    (∀ v : PodValidatorStakeInfo, v.serialize.length = 73 ∧ v.bytesOf = some v.serialize ∧
      ∀ dst : List UInt8, dst.length = 73 → v.pack dst = some v.serialize) ∧
    (∀ data : List UInt8,
      PodValidatorStakeInfo.fromBytes data = tryFromSlice PodValidatorStakeInfo.deserialize data ∧
      PodValidatorStakeInfo.unpackUnchecked data = tryFromSlice PodValidatorStakeInfo.deserialize data ∧
      (data.length = 73 → ∃ v : PodValidatorStakeInfo, v.serialize = data ∧
        tryFromSlice PodValidatorStakeInfo.deserialize data = some v)) ∧
    (∀ (v : PodValidatorStakeInfo) (vote : Pubkey) (lamports : UInt64),
      ValidatorStakeInfo.memcmpPubkeyBytes vote.bytes v.serialize = v.info.memcmpPubkey vote ∧
      ValidatorStakeInfo.activeLamportsGreaterThanBytes v.serialize lamports =
        v.info.activeLamportsGreaterThan lamports.toNat ∧
      ValidatorStakeInfo.transientLamportsGreaterThanBytes v.serialize lamports =
        v.info.transientLamportsGreaterThan lamports.toNat ∧
      ValidatorStakeInfo.isRemovedBytes v.serialize = v.info.isRemoved ∧
      ValidatorStakeInfo.isActiveBytes v.serialize = v.info.isActive) ∧
    ∀ (l : PodValidatorList) (rest : List UInt8),
      tryFromSliceUnchecked PodValidatorList.deserialize (l.serialize ++ rest) = some (l.header, l.validators) ∧
      ∃ vec, ValidatorListHeader.deserializeVec (l.serialize ++ rest) = some (l.header, vec) ∧
        (∀ vote : Pubkey, (Raw.find ValidatorStakeInfo.size (ValidatorStakeInfo.memcmpPubkeyBytes vote.bytes) vec).map
          (Option.bind · PodValidatorStakeInfo.fromBytes) = some (l.find vote)) ∧
        ∀ skip n, (Raw.deserializeSlice ValidatorStakeInfo.size skip n vec).map
            (Except.map fun bytes =>
              (Raw.chunks ValidatorStakeInfo.size n bytes).mapM PodValidatorStakeInfo.fromBytes) =
          some (if skip + n ≤ l.validators.length then .ok (some ((l.validators.drop skip).take n))
            else .error .accountDataTooSmall) := by
  refine ⟨fun v => ⟨v.length_serialize, v.bytesOf_eq, fun dst hdst => v.pack_eq hdst⟩, fun data => ⟨?_, ?_, ?_⟩,
    fun v vote lamports => ⟨v.memcmpPubkeyBytes_eq vote, v.activeLamportsGreaterThanBytes_eq lamports,
      v.transientLamportsGreaterThanBytes_eq lamports, v.isRemovedBytes_eq, v.isActiveBytes_eq⟩,
    fun l rest => ⟨l.deserialize_eq rest, l.vec rest, l.deserializeVec_eq rest, fun vote => ?_,
      l.deserializeSlice_eq⟩⟩
  · exact PodValidatorStakeInfo.fromBytes_eq data
  · exact PodValidatorStakeInfo.unpackUnchecked_eq data
  · intro h
    obtain ⟨v, rfl⟩ := PodValidatorStakeInfo.exists_serialize h
    exact ⟨v, rfl, v.reads.tryFromSlice⟩
  · exact l.find_eq fun v _ => v.memcmpPubkeyBytes_eq vote

end SplStakePool
