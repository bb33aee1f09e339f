import SplStakePool.Client.JsInstruction

/-!
# When the program decodes what the JavaScript client encodes

The data of an instruction reaches the program only if its strict decoder takes all of it. The layouts of
fixed size agree with the Borsh format as long as a number fits into a signed 64-bit integer. Two builders
differ from it: without a maximum, `setMaxValidatorStake` still writes the eight bytes of one, and the token
metadata counts UTF-16 code units where it writes UTF-8 bytes.

Each layout is brought to the form of the bytes of its fields one behind the other, under the condition that it does not
throw. These are the bytes of a variant exactly if the condition is that of the Borsh encoding, so that the calls
differ in their conditions only (`arrives_iff`). A string has as many code units as bytes when it is ASCII.
-/

namespace SplStakePool.Js
open Borsh Buffer

/-- The integers that a double holds: at most 53 significant bits. -/
theorem toDouble_eq_iff {n : Nat} : toDouble n = n ↔ n < 2 ^ 53 ∨ 2 ^ (Nat.log 2 n - 52) ∣ n := by
  unfold toDouble
  by_cases h : n < 2 ^ 53
  · rw [if_pos h]
    exact iff_of_true rfl (.inl h)
  rw [if_neg h, or_iff_right h]
  dsimp only
  have hpos : 0 < 2 ^ (Nat.log 2 n - 52) := Nat.pow_pos (by decide)
  generalize 2 ^ (Nat.log 2 n - 52) = ulp at hpos
  have hdiv := Nat.div_add_mod n ulp
  have hlt := Nat.mod_lt n hpos
  have hsucc : (n / ulp + 1) * ulp = ulp * (n / ulp) + ulp := by ring
  rw [Nat.dvd_iff_mod_eq_zero]
  split
  · rw [Nat.mul_comm (n / ulp)]
    omega
  · rw [hsucc]
    omega

/-- All characters are one byte long. -/
def IsAscii (s : String) : Prop := ∀ c ∈ s.toList, c.toNat ≤ 127

theorem length_utf8 (s : String) : (utf8 s).length = (s.toList.map Char.utf8Size).sum := by
  rw [utf8, ← String.utf8Encode_toList, List.utf8Encode]
  simp [List.length_flatMap]

/-- No character has more code units than bytes, and only ASCII characters have as many. -/
theorem codeUnits_le (c : Char) : (if c.toNat ≤ 0xffff then 1 else 2) ≤ c.utf8Size ∧
    (c.utf8Size = (if c.toNat ≤ 0xffff then 1 else 2) ↔ c.toNat ≤ 127) := by
  rcases c.utf8Size_eq with h | h | h | h <;> rw [h]
  · have hle : c.toNat ≤ 127 := UInt32.le_iff_toNat_le.1 (Char.utf8Size_eq_one_iff.1 h)
    split <;> omega
  · obtain ⟨hlt, hle⟩ := Char.utf8Size_eq_two_iff.1 h
    have hlt : 127 < c.toNat := UInt32.lt_iff_toNat_lt.1 hlt
    have hle : c.toNat ≤ 0x7ff := UInt32.le_iff_toNat_le.1 hle
    split <;> omega
  · obtain ⟨hlt, hle⟩ := Char.utf8Size_eq_three_iff.1 h
    have hlt : 0x7ff < c.toNat := UInt32.lt_iff_toNat_lt.1 hlt
    have hle : c.toNat ≤ 0xffff := UInt32.le_iff_toNat_le.1 hle
    split <;> omega
  · have hlt : 0xffff < c.toNat := UInt32.lt_iff_toNat_lt.1 (Char.utf8Size_eq_four_iff.1 h)
    split <;> omega

theorem length_utf8_eq_iff (s : String) : (utf8 s).length = utf16Length s ↔ IsAscii s := by
  have hsum : ∀ l : List Char, (l.map fun c => if c.toNat ≤ 0xffff then 1 else 2).sum ≤ (l.map Char.utf8Size).sum ∧
      ((l.map Char.utf8Size).sum = (l.map fun c => if c.toNat ≤ 0xffff then 1 else 2).sum ↔
        ∀ c ∈ l, c.toNat ≤ 127) := fun l => by
    induction l with
    | nil => simp
    | cons c l ih =>
      obtain ⟨hle, hiff⟩ := codeUnits_le c
      rw [List.map_cons, List.map_cons, List.sum_cons, List.sum_cons, List.forall_mem_cons, ← hiff, ← ih.2]
      omega
  rw [length_utf8, utf16Length, (hsum s.toList).2]
  rfl

theorem encode_u8 {n : Nat} (h : n < 2 ^ 8) : Layout.u8.encode (.num n) = some [UInt8.ofNat n] := by
  show (if n < 2 ^ 8 then some (toLeBytes 1 n) else none) = _
  rw [if_pos h]
  rfl

theorem encode_u32 {n : Nat} (h : n < 2 ^ 32) : Layout.u32.encode (.num n) = some (uintBytes 4 n) := by
  show (if n < 2 ^ 32 then some (toLeBytes 4 n) else none) = _
  rw [if_pos h]
  rfl

/-- What the signed upper half of a 64-bit number leaves room for. -/
def ns64Limit : Nat := 2 ^ 63

theorem encode_ns64 {v : Value} {n : Nat} (h : v.toNumber = some n) :
    Layout.ns64.encode v = if n < ns64Limit then some (uintBytes 8 n) else none := by
  have hhalves : toLeBytes 4 (n - n / 2 ^ 32 * 2 ^ 32) ++ toLeBytes 4 (n / 2 ^ 32) = uintBytes 8 n := by
    rw [show n - n / 2 ^ 32 * 2 ^ 32 = n % 256 ^ 4 by omega, toLeBytes_mod]
    exact (toLeBytes_add 4 4 n).symm
  have hlt : n / 2 ^ 32 < 2 ^ 31 ↔ n < ns64Limit := by
    rw [ns64Limit]
    omega
  rw [Layout.encode, h]
  show (if n / 2 ^ 32 < 2 ^ 31 then some (toLeBytes 4 (n - n / 2 ^ 32 * 2 ^ 32) ++ toLeBytes 4 (n / 2 ^ 32))
    else none) = _
  simp only [hhalves, hlt]

theorem encode_blob {length : Nat} {bytes : List UInt8} :
    (Layout.blob length).encode (.buffer bytes) = if bytes.length = length then some bytes else none := rfl

/-- A layout writes the bytes of its fields one behind the other. -/
theorem encodeStruct_cons {property : Property} {layout : Layout} {struct : List (Property × Layout)}
    {fields : List (Property × Value)} {v : Value} (h : fields.lookup property = some v) :
    encodeStruct ((property, layout) :: struct) fields =
      (layout.encode v).bind fun bytes => (encodeStruct struct fields).map (bytes ++ ·) := by
  rw [encodeStruct, h, Layout.encodeField]
  cases layout.encode v with
  | none => rfl
  | some bytes => cases encodeStruct struct fields <;> rfl

theorem encodeData_bare {i : Nat} (h : i < 2 ^ 8) : encodeData (.bare i) [] = some [UInt8.ofNat i] := by
  rw [encodeData, InstructionType.bare, encodeStruct_cons rfl, encode_u8 h]
  rfl

theorem encodeData_one {i n : Nat} {p : Property} (hi : i < 2 ^ 8) (hp : p ≠ .instruction) :
    encodeData ⟨i, [(.instruction, .u8), (p, .ns64)]⟩ [(p, .num n)] =
      if n < ns64Limit then some (UInt8.ofNat i :: uintBytes 8 n) else none := by
  have hn : [(Property.instruction, Value.num i), (p, .num n)].lookup p = some (.num n) := by
    simp [List.lookup_cons, beq_false_of_ne hp]
  rw [encodeData, encodeStruct_cons rfl, encodeStruct_cons hn, encode_u8 hi, encode_ns64 rfl]
  split <;> simp [encodeStruct]

theorem encodeData_moveStake {i l s : Nat} (hi : i < 2 ^ 8) :
    encodeData ⟨i, moveStakeLayout⟩ [(.lamports, .num l), (.transientStakeSeed, .num s)] =
      if l < ns64Limit ∧ s < ns64Limit then some (UInt8.ofNat i :: List.flatten [uintBytes 8 l, uintBytes 8 s])
      else none := by
  rw [encodeData, moveStakeLayout, encodeStruct_cons rfl, encodeStruct_cons rfl, encodeStruct_cons rfl, encode_u8 hi,
    encode_ns64 rfl, encode_ns64 rfl]
  by_cases hl : l < ns64Limit <;> by_cases hs : s < ns64Limit <;> simp [encodeStruct, hl, hs]

theorem encodeData_moveAdditionalStake {i l s e : Nat} (hi : i < 2 ^ 8) :
    encodeData ⟨i, moveAdditionalStakeLayout⟩
        [(.lamports, .num l), (.transientStakeSeed, .num s), (.ephemeralStakeSeed, .num e)] =
      if l < ns64Limit ∧ s < ns64Limit ∧ e < ns64Limit then
        some (UInt8.ofNat i :: List.flatten [uintBytes 8 l, uintBytes 8 s, uintBytes 8 e])
      else none := by
  rw [encodeData, moveAdditionalStakeLayout, encodeStruct_cons rfl, encodeStruct_cons rfl, encodeStruct_cons rfl,
    encodeStruct_cons rfl, encode_u8 hi, encode_ns64 rfl, encode_ns64 rfl, encode_ns64 rfl]
  by_cases hl : l < ns64Limit <;> by_cases hs : s < ns64Limit <;> by_cases he : e < ns64Limit <;>
    simp [encodeStruct, hl, hs, he]

/-- The metadata is written when no string has more bytes than code units. -/
theorem tokenMetadata_eq {i : Nat} {name symbol uri : String} (hi : i < 2 ^ 8)
    (hname : utf16Length name ≤ metadataMaxNameLength) (hsymbol : utf16Length symbol ≤ metadataMaxSymbolLength)
    (huri : utf16Length uri ≤ metadataMaxUriLength) :
    tokenMetadata i name symbol uri =
      if (utf8 name).length = utf16Length name ∧ (utf8 symbol).length = utf16Length symbol ∧
          (utf8 uri).length = utf16Length uri then
        some (UInt8.ofNat i :: List.flatten [stringBytes name, stringBytes symbol, stringBytes uri])
      else none := by
  have htype : tokenMetadataLayout i (utf16Length name) (utf16Length symbol) (utf16Length uri) =
      some ⟨i, [(.instruction, .u8), (.nameLen, .u32), (.name, .blob (utf16Length name)), (.symbolLen, .u32),
        (.symbol, .blob (utf16Length symbol)), (.uriLen, .u32), (.uri, .blob (utf16Length uri))]⟩ := by
    rw [tokenMetadataLayout, if_neg (Nat.not_lt.2 hname), if_neg (Nat.not_lt.2 hsymbol),
      if_neg (Nat.not_lt.2 huri)]
  simp only [metadataMaxNameLength, metadataMaxSymbolLength, metadataMaxUriLength] at hname hsymbol huri
  rw [tokenMetadata, htype, Option.bind_eq_bind, Option.bind_some, encodeData]
  iterate 7 rw [encodeStruct_cons rfl]
  rw [encode_u8 hi, encode_u32 (by omega), encode_u32 (by omega), encode_u32 (by omega), encode_blob, encode_blob,
    encode_blob]
  by_cases h₁ : (utf8 name).length = utf16Length name <;> by_cases h₂ : (utf8 symbol).length = utf16Length symbol <;>
    by_cases h₃ : (utf8 uri).length = utf16Length uri <;> simp [encodeStruct, stringBytes, h₁, h₂, h₃]

/-! ## Calls -/

namespace Call

/-- The instruction that a call is for. -/
def instruction : Call → StakePoolInstruction Pubkey
  | .addValidatorToPool seed => .addValidatorToPool (.ofNat ((seed.map Number.val).getD 0))
  | .removeValidatorFromPool => .removeValidatorFromPool
  | .setMaxValidatorStake maxStake => .setMaxValidatorStake maxStake
  | .updateValidatorListBalance startIndex noMerge => .updateValidatorListBalance startIndex.val noMerge
  | .updateStakePoolBalance => .updateStakePoolBalance
  | .cleanupRemovedValidatorEntries => .cleanupRemovedValidatorEntries
  | .increaseValidatorStake lamports transientStakeSeed =>
    .increaseValidatorStake lamports.val (.ofNat transientStakeSeed.val)
  | .increaseAdditionalValidatorStake lamports transientStakeSeed ephemeralStakeSeed =>
    .increaseAdditionalValidatorStake lamports.val (.ofNat transientStakeSeed.val) (.ofNat ephemeralStakeSeed.val)
  | .decreaseValidatorStake lamports transientStakeSeed =>
    .decreaseValidatorStake lamports.val (.ofNat transientStakeSeed.val)
  | .decreaseValidatorStakeWithReserve lamports transientStakeSeed =>
    .decreaseValidatorStakeWithReserve lamports.val (.ofNat transientStakeSeed.val)
  | .decreaseAdditionalValidatorStake lamports transientStakeSeed ephemeralStakeSeed =>
    .decreaseAdditionalValidatorStake lamports.val (.ofNat transientStakeSeed.val) (.ofNat ephemeralStakeSeed.val)
  | .depositStake => .depositStake
  | .depositSol lamports => .depositSol lamports.val
  | .withdrawStake poolTokens => .withdrawStake poolTokens.val
  | .withdrawSol poolTokens => .withdrawSol poolTokens.val
  | .createTokenMetadata name symbol uri => .createTokenMetadata name symbol uri
  | .updateTokenMetadata name symbol uri => .updateTokenMetadata name symbol uri

/-- The strings are not longer than the client lets them be. -/
def ShortEnough (name symbol uri : String) : Prop :=
  utf16Length name ≤ metadataMaxNameLength ∧ utf16Length symbol ≤ metadataMaxSymbolLength ∧
    utf16Length uri ≤ metadataMaxUriLength

/-- The numbers are of the types that the program has for them. -/
def Admissible : Call → Prop
  | .addValidatorToPool seed => ∀ s ∈ seed, s.val < 2 ^ 32
  | .setMaxValidatorStake maxStake => ∀ m ∈ maxStake, m < 2 ^ 64
  | .updateValidatorListBalance startIndex _ => startIndex.val < 2 ^ 32
  | .increaseValidatorStake l s | .decreaseValidatorStake l s | .decreaseValidatorStakeWithReserve l s =>
    l.val < 2 ^ 64 ∧ s.val < 2 ^ 64
  | .increaseAdditionalValidatorStake l s e | .decreaseAdditionalValidatorStake l s e =>
    l.val < 2 ^ 64 ∧ s.val < 2 ^ 64 ∧ e.val < 2 ^ 64
  | .depositSol n | .withdrawStake n | .withdrawSol n => n.val < 2 ^ 64
  | .createTokenMetadata name symbol uri | .updateTokenMetadata name symbol uri => ShortEnough name symbol uri
  | .removeValidatorFromPool | .updateStakePoolBalance | .cleanupRemovedValidatorEntries | .depositStake => True

/-- The calls whose data arrives: amounts and seeds below the limit of the layout, a maximum that is set and
that a double holds, strings of ASCII characters. -/
def Encodable : Call → Prop
  | .setMaxValidatorStake maxStake => ∃ m, maxStake = some m ∧ m < ns64Limit ∧ toDouble m = m
  | .increaseValidatorStake l s | .decreaseValidatorStake l s | .decreaseValidatorStakeWithReserve l s =>
    l.val < ns64Limit ∧ s.val < ns64Limit
  | .increaseAdditionalValidatorStake l s e | .decreaseAdditionalValidatorStake l s e =>
    l.val < ns64Limit ∧ s.val < ns64Limit ∧ e.val < ns64Limit
  | .depositSol n | .withdrawStake n | .withdrawSol n => n.val < ns64Limit
  | .createTokenMetadata name symbol uri | .updateTokenMetadata name symbol uri =>
    IsAscii name ∧ IsAscii symbol ∧ IsAscii uri
  | .addValidatorToPool _ | .removeValidatorFromPool | .updateValidatorListBalance _ _ | .updateStakePoolBalance
  | .cleanupRemovedValidatorEntries | .depositStake => True

/-- The call returns data that the program decodes to the instruction that the call is for. -/
def Arrives (c : Call) : Prop :=
  ∃ data, c.data = some data ∧ tryFromSlice StakePoolInstruction.deserialize data = some c.instruction

variable {c : Call} {cond : Prop} {bytes : List UInt8} {n : Nat}

theorem arrives_of_data (h : c.data = some bytes) (hr : Reads StakePoolInstruction.deserialize bytes c.instruction) :
    c.Arrives := ⟨bytes, h, hr.tryFromSlice⟩

/-- A call that throws unless a condition holds, and writes what is read if it does. -/
theorem arrives_iff [Decidable cond] (h : c.data = if cond then some bytes else none)
    (hr : cond → Reads StakePoolInstruction.deserialize bytes c.instruction) : c.Arrives ↔ cond := by
  by_cases hc : cond
  · rw [if_pos hc] at h
    exact iff_of_true (arrives_of_data h (hr hc)) hc
  · rw [if_neg hc] at h
    refine iff_of_false ?_ hc
    rintro ⟨data, hd, -⟩
    rw [h] at hd
    cases hd

theorem reads_seed (h : n < 2 ^ 64) : Reads u64 (uintBytes 8 n) (.ofNat n) := (reads_uint h).map UInt64.ofNat

theorem reads_utf8 {s : String} {limit : Nat} (h : utf16Length s ≤ limit) (hlimit : limit ≤ 200)
    (hs : (utf8 s).length = utf16Length s) : Reads string (stringBytes s) s := reads_string (by omega)

theorem data_setMaxValidatorStake (maxStake : Option Nat) : (setMaxValidatorStake maxStake).data =
    if toDouble (maxStake.getD 0) < ns64Limit then
      some (27 :: (if maxStake.isNone then 0 else 1) :: uintBytes 8 (toDouble (maxStake.getD 0)))
    else none := by
  rw [data, encodeData, InstructionType.setMaxValidatorStake, encodeStruct_cons rfl, encodeStruct_cons rfl,
    encodeStruct_cons rfl, encode_u8 (by decide), encode_u8 (by split <;> decide), encode_ns64 rfl]
  split <;> cases maxStake <;> simp [encodeStruct]

theorem arrives_setMaxValidatorStake_iff {maxStake : Option Nat} (h : ∀ m ∈ maxStake, m < 2 ^ 64) :
    (setMaxValidatorStake maxStake).Arrives ↔ (setMaxValidatorStake maxStake).Encodable := by
  have hdata := data_setMaxValidatorStake maxStake
  cases maxStake with
  | none =>
    -- the option is over behind its tag, and the bytes of the amount are left
    refine iff_of_false ?_ (fun ⟨m, hm, _⟩ => by cases hm)
    have hreads : Reads StakePoolInstruction.deserialize [27, 0] (.setMaxValidatorStake none) :=
      .tag (.bind (reads_none _) (.nil _))
    replace hdata : (setMaxValidatorStake none).data = some ([27, 0] ++ uintBytes 8 (toDouble 0)) :=
      hdata.trans (if_pos (by decide))
    rintro ⟨data, hd, hr⟩
    rw [hdata] at hd
    cases hd
    rw [hreads.tryFromSlice_append (by decide)] at hr
    cases hr
  | some m =>
    by_cases hlt : toDouble m < ns64Limit
    · rw [Option.getD_some, if_pos hlt] at hdata
      have hreads : Reads StakePoolInstruction.deserialize (27 :: 1 :: uintBytes 8 (toDouble m))
          (.setMaxValidatorStake (some (toDouble m))) := by
        refine .tag ?_
        rw [← List.append_nil (1 :: _)]
        exact .bind (reads_some (reads_uint (lt_trans hlt (by decide)))) (.nil _)
      constructor
      · rintro ⟨data, hd, hr⟩
        rw [hdata] at hd
        cases hd
        have := hreads.tryFromSlice.symm.trans hr
        rw [instruction, Option.some.injEq, StakePoolInstruction.setMaxValidatorStake.injEq, Option.some.injEq]
          at this
        exact ⟨m, rfl, this ▸ hlt, this⟩
      · rintro ⟨_, hm, -, heq⟩
        cases hm
        rw [heq] at hreads hdata
        exact arrives_of_data hdata hreads
    · rw [Option.getD_some, if_neg hlt] at hdata
      refine iff_of_false ?_ ?_
      · rintro ⟨data, hd, -⟩
        rw [hdata] at hd
        cases hd
      · rintro ⟨_, hm, hlimit, heq⟩
        cases hm
        rw [heq] at hlt
        exact hlt hlimit

theorem arrives_tokenMetadata_iff {i : Nat} {name symbol uri : String} (hi : i < 2 ^ 8)
    (h : ShortEnough name symbol uri) (hdata : c.data = tokenMetadata i name symbol uri)
    (hr : (∀ s ∈ [name, symbol, uri], Reads string (stringBytes s) s) → Reads StakePoolInstruction.deserialize
      (UInt8.ofNat i :: List.flatten [stringBytes name, stringBytes symbol, stringBytes uri]) c.instruction) :
    c.Arrives ↔ IsAscii name ∧ IsAscii symbol ∧ IsAscii uri := by
  obtain ⟨hname, hsymbol, huri⟩ := h
  rw [tokenMetadata_eq hi hname hsymbol huri] at hdata
  rw [arrives_iff hdata, length_utf8_eq_iff, length_utf8_eq_iff, length_utf8_eq_iff]
  rintro ⟨h₁, h₂, h₃⟩
  refine hr fun s hs => ?_
  rcases List.mem_cons.1 hs with rfl | hs
  · exact reads_utf8 hname (by decide) h₁
  rcases List.mem_cons.1 hs with rfl | hs
  · exact reads_utf8 hsymbol (by decide) h₂
  · cases List.mem_singleton.1 hs
    exact reads_utf8 huri (by decide) h₃

theorem arrives_createTokenMetadata_iff {name symbol uri : String} (h : ShortEnough name symbol uri) :
    (createTokenMetadata name symbol uri).Arrives ↔ IsAscii name ∧ IsAscii symbol ∧ IsAscii uri := by
  refine arrives_tokenMetadata_iff (by decide) h rfl fun hs => ?_
  exact .tag (.cons (hs name (by simp)) (.cons (hs symbol (by simp)) (.cons (hs uri (by simp)) (.done _))))

end Call

/-- Which calls of the builders return data that the program decodes to what was asked for. -/
theorem instruction_arrives_iff (c : Call) (h : c.Admissible) : c.Arrives ↔ c.Encodable := by
  cases c with
  | addValidatorToPool seed =>
    have hseed : (seed.map Number.val).getD 0 < 2 ^ 32 := by
      cases seed with
      | none => decide
      | some s => exact h s rfl
    have hdata : (Call.addValidatorToPool seed).data = some (1 :: uintBytes 4 ((seed.map Number.val).getD 0)) := by
      rw [Call.data, encodeData, InstructionType.addValidatorToPool, encodeStruct_cons rfl, encodeStruct_cons rfl,
        encode_u8 (by decide), encode_u32 hseed]
      simp [encodeStruct]
    have hread : Reads (uint 4) (uintBytes 4 ((seed.map Number.val).getD 0)) ((seed.map Number.val).getD 0) :=
      reads_uint hseed
    have hreads := (hread.map UInt32.ofNat).map (@StakePoolInstruction.addValidatorToPool Pubkey)
    exact iff_of_true (Call.arrives_of_data hdata (.tag hreads)) trivial
  | removeValidatorFromPool =>
    exact iff_of_true (Call.arrives_of_data (encodeData_bare (by decide)) (.tag (.nil _))) trivial
  | setMaxValidatorStake maxStake => exact Call.arrives_setMaxValidatorStake_iff h
  | updateValidatorListBalance startIndex noMerge =>
    have hdata : (Call.updateValidatorListBalance startIndex noMerge).data =
        some (6 :: List.flatten [uintBytes 4 startIndex.val, boolBytes noMerge]) := by
      rw [Call.data, encodeData, InstructionType.updateValidatorListBalance, updateValidatorListBalanceLayout,
        encodeStruct_cons rfl, encodeStruct_cons rfl, encodeStruct_cons rfl, encode_u8 (by decide), encode_u32 h,
        encode_u8 (by split <;> decide)]
      cases noMerge <;> simp [encodeStruct, boolBytes]
    have hreads : Reads StakePoolInstruction.deserialize
        (6 :: List.flatten [uintBytes 4 startIndex.val, boolBytes noMerge])
        (.updateValidatorListBalance startIndex.val noMerge) :=
      .tag (.cons (reads_uint h) (.cons (reads_bool _) (.done _)))
    exact iff_of_true (Call.arrives_of_data hdata hreads) trivial
  | updateStakePoolBalance =>
    exact iff_of_true (Call.arrives_of_data (encodeData_bare (by decide)) (.tag (.nil _))) trivial
  | cleanupRemovedValidatorEntries =>
    exact iff_of_true (Call.arrives_of_data (encodeData_bare (by decide)) (.tag (.nil _))) trivial
  | depositStake =>
    exact iff_of_true (Call.arrives_of_data (encodeData_bare (by decide)) (.tag (.nil _))) trivial
  | increaseValidatorStake l s =>
    refine (Call.arrives_iff (c := .increaseValidatorStake l s) (encodeData_moveStake (by decide)) fun _ => ?_).trans .rfl
    exact .tag (.cons (reads_uint h.1) (.cons (Call.reads_seed h.2) (.done _)))
  | decreaseValidatorStake l s =>
    refine (Call.arrives_iff (c := .decreaseValidatorStake l s) (encodeData_moveStake (by decide)) fun _ => ?_).trans .rfl
    exact .tag (.cons (reads_uint h.1) (.cons (Call.reads_seed h.2) (.done _)))
  | decreaseValidatorStakeWithReserve l s =>
    refine (Call.arrives_iff (c := .decreaseValidatorStakeWithReserve l s) (encodeData_moveStake (by decide)) fun _ => ?_).trans .rfl
    exact .tag (.cons (reads_uint h.1) (.cons (Call.reads_seed h.2) (.done _)))
  | increaseAdditionalValidatorStake l s e =>
    refine (Call.arrives_iff (c := .increaseAdditionalValidatorStake l s e) (encodeData_moveAdditionalStake (by decide))
      fun _ => ?_).trans .rfl
    exact .tag (.cons (reads_uint h.1) (.cons (Call.reads_seed h.2.1) (.cons (Call.reads_seed h.2.2) (.done _))))
  | decreaseAdditionalValidatorStake l s e =>
    refine (Call.arrives_iff (c := .decreaseAdditionalValidatorStake l s e) (encodeData_moveAdditionalStake (by decide))
      fun _ => ?_).trans .rfl
    exact .tag (.cons (reads_uint h.1) (.cons (Call.reads_seed h.2.1) (.cons (Call.reads_seed h.2.2) (.done _))))
  | depositSol n =>
    refine (Call.arrives_iff (c := .depositSol n) (encodeData_one (by decide) (by decide)) fun _ => ?_).trans .rfl
    exact .tag ((reads_uint h).map StakePoolInstruction.depositSol)
  | withdrawStake n =>
    refine (Call.arrives_iff (c := .withdrawStake n) (encodeData_one (by decide) (by decide)) fun _ => ?_).trans .rfl
    exact .tag ((reads_uint h).map StakePoolInstruction.withdrawStake)
  | withdrawSol n =>
    refine (Call.arrives_iff (c := .withdrawSol n) (encodeData_one (by decide) (by decide)) fun _ => ?_).trans .rfl
    exact .tag ((reads_uint h).map StakePoolInstruction.withdrawSol)
  | createTokenMetadata name symbol uri => exact Call.arrives_createTokenMetadata_iff h
  | updateTokenMetadata name symbol uri =>
    refine Call.arrives_tokenMetadata_iff (by decide) h rfl fun hs => ?_
    exact .tag (.cons (hs name (by simp)) (.cons (hs symbol (by simp)) (.cons (hs uri (by simp)) (.done _))))

theorem instruction_arrives_iff_withdrawStake :
    (Call.withdrawStake ⟨5, rfl⟩).Arrives ↔ (Call.withdrawStake ⟨5, rfl⟩).Encodable :=
  instruction_arrives_iff (.withdrawStake ⟨5, rfl⟩) (by show 5 < 2 ^ 64; decide)

/-- A name of one character that is not ASCII. -/
def accented : String := .ofList ['é']

/-- Neither taking the maximum away arrives, nor that name, nor an amount of which the upper half is not a
signed number. -/
theorem instruction_not_arrives :
    ((Call.setMaxValidatorStake none).Admissible ∧ ¬ (Call.setMaxValidatorStake none).Arrives) ∧
      ((Call.createTokenMetadata accented "" "").Admissible ∧
        ¬ (Call.createTokenMetadata accented "" "").Arrives) ∧
      ((Call.setMaxValidatorStake (some (2 ^ 63))).Admissible ∧
        ¬ (Call.setMaxValidatorStake (some (2 ^ 63))).Arrives) := by
  have hshort : Call.ShortEnough accented "" "" := by
    refine ⟨?_, ?_, ?_⟩ <;> simp [utf16Length, accented, metadataMaxNameLength]
  have hlarge : ∀ m ∈ some (2 ^ 63), m < 2 ^ 64 := fun m hm => by
    cases hm
    decide
  have hnone : ∀ m ∈ (none : Option Nat), m < 2 ^ 64 := nofun
  refine ⟨⟨hnone, fun h => ?_⟩, ⟨hshort, fun h => ?_⟩, hlarge, fun h => ?_⟩
  · obtain ⟨m, hm, -⟩ := (Call.arrives_setMaxValidatorStake_iff hnone).1 h
    cases hm
  · have hascii := ((Call.arrives_createTokenMetadata_iff hshort).1 h).1 'é' (by simp [accented])
    exact absurd hascii (by decide)
  · obtain ⟨m, hm, hlt, -⟩ := (Call.arrives_setMaxValidatorStake_iff hlarge).1 h
    cases hm
    exact absurd hlt (by decide)

end SplStakePool.Js
