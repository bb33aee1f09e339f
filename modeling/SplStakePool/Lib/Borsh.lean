import SplStakePool.Lib.Buffer

/-!
# Borsh

A value is stored as the bytes of its fields one behind the other: integers with their low byte first, an
`Option` and an enumeration behind a byte that says which case it is, a string behind its length. A decoder
takes what it needs from the front of a buffer and leaves the rest. `Reads` says that it returns a value on
some bytes whatever is behind them, and goes through sequences of fields as the decoder does; `Yields` says
what holds of the value that it returns on a buffer, if it returns one.
-/

namespace Borsh
open Buffer

variable {α β : Type}

/-- Takes a value from the front of a buffer, or fails. -/
abbrev Decoder (α : Type) := StateT (List UInt8) Option α

def takeBytes (n : Nat) : Decoder (List UInt8) := fun data =>
  if n ≤ data.length then some (data.take n, data.drop n) else none

def u8 : Decoder UInt8
  | [] => none
  | b :: data => some (b, data)

/-- An unsigned integer of `count` bytes. -/
def uint (count : Nat) : Decoder Nat := do
  let bytes ← takeBytes count
  return fromLeBytes bytes

def uintBytes (count n : Nat) : List UInt8 := toLeBytes count n

/-- A signed integer of `count` bytes, in two's complement. -/
def int (count : Nat) : Decoder Int := do
  let n ← uint count
  return if 2 * n < 256 ^ count then (n : Int) else (n : Int) - (256 ^ count : Nat)

def intBytes (count : Nat) (n : Int) : List UInt8 := toLeBytes count (n % (256 ^ count : Nat)).toNat

/-- `u32` -/
def u32 : Decoder UInt32 := UInt32.ofNat <$> uint 4

/-- `u64` -/
def u64 : Decoder UInt64 := UInt64.ofNat <$> uint 8

def bool : Decoder Bool := do
  let b ← u8
  if b = 0 then return false
  else if b = 1 then return true
  else failure

def boolBytes (b : Bool) : List UInt8 := if b then [1] else [0]

def option (d : Decoder α) : Decoder (Option α) := do
  let tag ← u8
  if tag = 0 then return none
  else if tag = 1 then some <$> d
  else failure

def optionBytes (f : α → List UInt8) : Option α → List UInt8
  | none => [0]
  | some a => 1 :: f a

@[simp] theorem optionBytes_none (f : α → List UInt8) : optionBytes f none = [0] := rfl

def string : Decoder String := do
  let n ← uint 4
  let bytes ← takeBytes n
  StateT.lift (String.fromUTF8? ⟨bytes.toArray⟩)

/-- `as_bytes` -/
def utf8 (s : String) : List UInt8 := s.toByteArray.data.toList

def stringBytes (s : String) : List UInt8 := List.flatten [uintBytes 4 (utf8 s).length, utf8 s]

/-- An array of `n` bytes. -/
structure FixedBytes (n : Nat) where
  bytes : List UInt8
  length_bytes : bytes.length = n
deriving DecidableEq

theorem FixedBytes.bytes_inj {n : Nat} {a b : FixedBytes n} : a.bytes = b.bytes ↔ a = b := by
  cases a
  cases b
  simp

def fixedBytes (n : Nat) : Decoder (FixedBytes n) := fun data =>
  if h : n ≤ data.length then some (⟨data.take n, List.length_take_of_le h⟩, data.drop n) else none

/-- That many values, one behind the other. -/
def repeated (d : Decoder α) : Nat → Decoder (List α)
  | 0 => return []
  | n + 1 => do
    let a ← d
    let l ← repeated d n
    return a :: l

/-- Decodes a buffer that holds nothing else. -/
def tryFromSlice (d : Decoder α) (data : List UInt8) : Option α :=
  match d data with
  | some (a, []) => some a
  | _ => none

/-- Decodes the front of a buffer. -/
def tryFromSliceUnchecked (d : Decoder α) (data : List UInt8) : Option α := (d data).map Prod.fst

/-- Writes the bytes of a value over the front of a buffer. -/
def toWriter (data bytes : List UInt8) : Option (List UInt8) := write data 0 bytes

/-- A sequence of decoders succeeds when each does on what the one before it leaves. -/
theorem bind_eq_some {d : Decoder α} {f : α → Decoder β} {data : List UInt8} {r : β × List UInt8} :
    (d >>= f) data = some r ↔ ∃ a mid, d data = some (a, mid) ∧ f a mid = some r := by
  show (d data).bind (fun x => f x.1 x.2) = some r ↔ _
  rw [Option.bind_eq_some_iff, Prod.exists]

/-! ## What a decoder reads -/

/-- The decoder takes these bytes for this value, and nothing behind them. -/
def Reads (d : Decoder α) (bytes : List UInt8) (a : α) : Prop := ∀ rest, d (bytes ++ rest) = some (a, rest)

namespace Reads
variable {d : Decoder α} {f : α → Decoder β} {bytes : List UInt8} {fields : List (List UInt8)} {a : α} {b : β}

/-- A sequence of fields goes on behind what its first field reads. -/
theorem run (h : Reads d bytes a) (f : α → Decoder β) (rest : List UInt8) :
    (d >>= f) (bytes ++ rest) = f a rest := by
  show (d (bytes ++ rest) >>= fun x => f x.1 x.2) = f a rest
  rw [h rest]
  rfl

theorem nil (a : α) : Reads (pure a) [] a := fun _ => rfl

theorem done (a : α) : Reads (pure a) (List.flatten []) a := fun _ => rfl

theorem bind {bytes' : List UInt8} (h : Reads d bytes a) (hf : Reads (f a) bytes' b) :
    Reads (d >>= f) (bytes ++ bytes') b := fun rest => by
  rw [List.append_assoc, h.run, hf]

theorem cons (h : Reads d bytes a) (hf : Reads (f a) fields.flatten b) :
    Reads (d >>= f) (bytes :: fields).flatten b := by
  rw [List.flatten_cons]
  exact h.bind hf

theorem map (h : Reads d bytes a) (f : α → β) : Reads (f <$> d) bytes (f a) := fun rest => by
  show (d (bytes ++ rest) >>= fun x => pure (f x.1, x.2)) = _
  rw [h rest]
  rfl

/-- A tag, and the decoder that is picked by it. -/
theorem tag {t : UInt8} {f : UInt8 → Decoder β} (h : Reads (f t) bytes b) : Reads (u8 >>= f) (t :: bytes) b :=
  fun rest => h rest

theorem tryFromSlice (h : Reads d bytes a) : tryFromSlice d bytes = some a := by
  have := h []
  rw [List.append_nil] at this
  rw [Borsh.tryFromSlice, this]

theorem tryFromSlice_append (h : Reads d bytes a) {rest : List UInt8} (hrest : rest ≠ []) :
    Borsh.tryFromSlice d (bytes ++ rest) = none := by
  rw [Borsh.tryFromSlice, h rest]
  cases rest with
  | nil => exact absurd rfl hrest
  | cons _ _ => rfl

theorem tryFromSliceUnchecked (h : Reads d bytes a) (rest : List UInt8) :
    tryFromSliceUnchecked d (bytes ++ rest) = some a := by
  rw [Borsh.tryFromSliceUnchecked, h rest]
  rfl

end Reads

theorem reads_takeBytes {n : Nat} {bytes : List UInt8} (h : bytes.length = n) :
    Reads (takeBytes n) bytes bytes := fun rest => by
  subst h
  rw [takeBytes, if_pos (by rw [List.length_append]; omega), List.take_left, List.drop_left]

theorem reads_u8 (b : UInt8) : Reads u8 [b] b := fun _ => rfl

theorem reads_uint {count n : Nat} (h : n < 256 ^ count) : Reads (uint count) (uintBytes count n) n := by
  have := (reads_takeBytes (length_toLeBytes count n)).map fromLeBytes
  rwa [fromLeBytes_toLeBytes h] at this

theorem reads_int {count : Nat} {n : Int} (h : -(256 ^ count : Nat) ≤ 2 * n) (h' : 2 * n < (256 ^ count : Nat)) :
    Reads (int count) (intBytes count n) n := by
  have hpos : (0 : Int) < (256 ^ count : Nat) := by exact_mod_cast Nat.pow_pos (by omega)
  have hnonneg := Int.emod_nonneg n hpos.ne'
  have hlt := Int.emod_lt_of_pos n hpos
  have hread : Reads (uint count) (intBytes count n) (n % (256 ^ count : Nat)).toNat := reads_uint (by omega)
  replace hread := hread.map fun n =>
    if 2 * n < 256 ^ count then (n : Int) else (n : Int) - (256 ^ count : Nat)
  have hval : (if 2 * (n % (256 ^ count : Nat)).toNat < 256 ^ count then ((n % (256 ^ count : Nat)).toNat : Int)
      else ((n % (256 ^ count : Nat)).toNat : Int) - (256 ^ count : Nat)) = n := by
    rw [Int.toNat_of_nonneg hnonneg]
    by_cases hn : 0 ≤ n
    · rw [Int.emod_eq_of_lt hn (by omega)] at *
      rw [if_pos (by omega)]
    · have : n % (256 ^ count : Nat) = n + (256 ^ count : Nat) := by
        rw [← Int.add_emod_right, Int.emod_eq_of_lt (by omega) (by omega)]
      rw [this] at *
      rw [if_neg (by omega)]
      omega
  rwa [hval] at hread

theorem reads_u32 (n : UInt32) : Reads u32 (uintBytes 4 n.toNat) n := by
  have hread : Reads (uint 4) (uintBytes 4 n.toNat) n.toNat := reads_uint n.toNat_lt
  have := hread.map UInt32.ofNat
  rwa [UInt32.ofNat_toNat] at this

theorem reads_u64 (n : UInt64) : Reads u64 (uintBytes 8 n.toNat) n := by
  have hread : Reads (uint 8) (uintBytes 8 n.toNat) n.toNat := reads_uint n.toNat_lt
  have := hread.map UInt64.ofNat
  rwa [UInt64.ofNat_toNat] at this

theorem reads_fixedBytes {n : Nat} (v : FixedBytes n) : Reads (fixedBytes n) v.bytes v := fun rest => by
  obtain ⟨bytes, rfl⟩ := v
  simp only [fixedBytes, List.length_append, Nat.le_add_right, ↓reduceDIte, List.take_left, List.drop_left]

theorem reads_bool (b : Bool) : Reads bool (boolBytes b) b := by
  cases b <;> exact .tag (.nil _)

theorem reads_none (d : Decoder α) : Reads (option d) [0] none := .tag (.nil _)

theorem reads_some {d : Decoder α} {bytes : List UInt8} {a : α} (h : Reads d bytes a) :
    Reads (option d) (1 :: bytes) (some a) := .tag (h.map some)

theorem reads_option {d : Decoder α} {f : α → List UInt8} {o : Option α} (h : ∀ a ∈ o, Reads d (f a) a) :
    Reads (option d) (optionBytes f o) o := by
  cases o with
  | none => exact reads_none d
  | some a => exact reads_some (h a rfl)

theorem fromUTF8?_utf8 (s : String) : String.fromUTF8? ⟨(utf8 s).toArray⟩ = some s := by
  rw [utf8, Array.toArray_toList, String.fromUTF8?, dif_pos s.isValidUTF8]
  rfl

theorem reads_string {s : String} (h : (utf8 s).length < 2 ^ 32) : Reads string (stringBytes s) s := by
  rw [stringBytes, List.flatten_cons, List.flatten_cons, List.flatten_nil, List.append_nil]
  refine .bind (reads_uint (by omega)) fun rest => ?_
  rw [(reads_takeBytes rfl).run, fromUTF8?_utf8]
  rfl

theorem reads_repeated {d : Decoder β} {f : α → List UInt8} {g : α → β} {l : List α}
    (h : ∀ a ∈ l, Reads d (f a) (g a)) : Reads (repeated d l.length) (l.map f).flatten (l.map g) := by
  induction l with
  | nil => exact .nil _
  | cons a l ih =>
    rw [List.map_cons, List.flatten_cons]
    refine .bind (h a List.mem_cons_self) fun rest => ?_
    rw [(ih fun x hx => h x (List.mem_cons_of_mem a hx)).run]
    rfl

/-! ## What decoding a buffer can return -/

section
variable {d : Decoder α} {f : α → Decoder β} {bytes data rest : List UInt8} {fields : List (List UInt8)} {a : α}

theorem tryFromSliceUnchecked_cons (h : Reads d bytes a) :
    tryFromSliceUnchecked (d >>= f) ((bytes :: fields).flatten ++ rest) =
      tryFromSliceUnchecked (f a) (fields.flatten ++ rest) := by
  rw [tryFromSliceUnchecked, List.flatten_cons, List.append_assoc, h.run]
  rfl

theorem tryFromSliceUnchecked_cons₂ {γ : Type} {e : Decoder γ} {g : γ → Decoder α} (h : Reads (e >>= g) bytes a) :
    tryFromSliceUnchecked (e >>= fun x => g x >>= f) ((bytes :: fields).flatten ++ rest) =
      tryFromSliceUnchecked (f a) (fields.flatten ++ rest) := by
  rw [← bind_assoc]
  exact tryFromSliceUnchecked_cons h

/-- What decoding the buffer returns, if it returns, satisfies `P`. -/
def Yields (d : Decoder α) (data : List UInt8) (P : α → Prop) : Prop :=
  ∀ a, tryFromSliceUnchecked d data = some a → P a

namespace Yields
variable {P : β → Prop}

theorem pure {b : β} (h : P b) : Yields (Pure.pure b : Decoder β) data P := fun _ hd => by
  cases hd
  exact h

/-- What is known of the first value is known of the rest of the decoder. -/
theorem next {Q : α → Prop} (hd : Yields d data Q) (h : ∀ a, Q a → ∀ data', Yields (f a) data' P) :
    Yields (d >>= f) data P := fun b hr => by
  obtain ⟨⟨_, rest⟩, hb, rfl⟩ := Option.map_eq_some_iff.1 hr
  obtain ⟨a, data', ha, hb⟩ := bind_eq_some.1 hb
  exact h a (hd a (Option.map_eq_some_iff.2 ⟨_, ha, rfl⟩)) data' _ (Option.map_eq_some_iff.2 ⟨_, hb, rfl⟩)

theorem any : Yields d data fun _ => True := fun _ _ => trivial

theorem bind (h : ∀ a data', Yields (f a) data' P) : Yields (d >>= f) data P := any.next fun a _ => h a

theorem map {Q : α → Prop} {g : α → β} (hd : Yields d data Q) (h : ∀ a, Q a → P (g a)) :
    Yields (g <$> d) data P := by
  rw [map_eq_pure_bind]
  exact hd.next fun a ha _ => pure (h a ha)

end Yields
end

theorem takeBytes_eq_some {n : Nat} {data bytes rest : List UInt8} :
    takeBytes n data = some (bytes, rest) ↔ data = bytes ++ rest ∧ bytes.length = n := by
  constructor
  · intro h
    unfold takeBytes at h
    split at h
    · cases h
      rw [List.length_take, List.take_append_drop]
      exact ⟨rfl, by omega⟩
    · cases h
  · rintro ⟨rfl, h⟩
    exact reads_takeBytes h rest

theorem uint_eq_some {count n : Nat} {data rest : List UInt8} (h : uint count data = some (n, rest)) :
    data = uintBytes count n ++ rest ∧ n < 256 ^ count := by
  obtain ⟨bytes, mid, hb, h⟩ := bind_eq_some.1 h
  cases h
  obtain ⟨rfl, rfl⟩ := takeBytes_eq_some.1 hb
  exact ⟨by rw [uintBytes, toLeBytes_fromLeBytes], fromLeBytes_lt bytes⟩

theorem yields_uint (count : Nat) (data : List UInt8) : Yields (uint count) data (· < 256 ^ count) := fun n hn => by
  obtain ⟨⟨_, rest⟩, h, rfl⟩ := Option.map_eq_some_iff.1 hn
  exact (uint_eq_some h).2

theorem yields_int (count : Nat) (data : List UInt8) :
    Yields (int count) data fun n => -(256 ^ count : Nat) ≤ 2 * n ∧ 2 * n < (256 ^ count : Nat) :=
  (yields_uint count data).next fun n hn _ => .pure <| by
    split <;> constructor <;> omega

theorem yields_option {d : Decoder α} {P : α → Prop} (h : ∀ data, Yields d data P) (data : List UInt8) :
    Yields (option d) data fun o => ∀ a ∈ o, P a := by
  refine .bind fun tag data' => ?_
  split
  · exact .pure fun a ha => by cases ha
  · split
    · refine (h data').map fun a ha b hb => ?_
      cases hb
      exact ha
    · intro o ho
      cases ho

/-! ## Decoders that take a fixed number of bytes -/

/-- The decoder takes that many bytes when it succeeds. -/
def Consumes (d : Decoder α) (n : Nat) : Prop :=
  ∀ data a rest, d data = some (a, rest) → data.length = n + rest.length

namespace Consumes
variable {d : Decoder α} {f : α → Decoder β} {m n : Nat}

theorem pure (a : α) : Consumes (Pure.pure a) 0 := fun data a rest h => by
  cases h
  rw [Nat.zero_add]

theorem bind (h : Consumes d m) (hf : ∀ a, Consumes (f a) n) : Consumes (d >>= f) (m + n) := fun data b rest hd => by
  obtain ⟨a, mid, ha, hb⟩ := bind_eq_some.1 hd
  rw [h _ _ _ ha, hf a _ _ _ hb, Nat.add_assoc]

theorem map (h : Consumes d n) (g : α → β) : Consumes (g <$> d) n := by
  have := h.bind fun a => pure (g a)
  rwa [Nat.add_zero, bind_pure_comp] at this

theorem length_of_tryFromSlice (h : Consumes d n) {data : List UInt8} {a : α} (hd : tryFromSlice d data = some a) :
    data.length = n := by
  unfold tryFromSlice at hd
  split at hd
  · rename_i heq
    rw [h _ _ _ heq]
    rfl
  · cases hd

end Consumes

theorem consumes_takeBytes (n : Nat) : Consumes (takeBytes n) n := fun data a rest h => by
  obtain ⟨rfl, rfl⟩ := takeBytes_eq_some.1 h
  exact List.length_append

theorem consumes_u8 : Consumes u8 1 := fun data a rest h => by
  cases data with
  | nil => cases h
  | cons b data =>
    cases h
    rw [List.length_cons, Nat.add_comm]

theorem consumes_uint (n : Nat) : Consumes (uint n) n :=
  (consumes_takeBytes n).bind fun _ => .pure _

theorem consumes_u32 : Consumes u32 4 := (consumes_uint 4).map _

theorem consumes_u64 : Consumes u64 8 := (consumes_uint 8).map _

theorem consumes_fixedBytes (n : Nat) : Consumes (fixedBytes n) n := fun data a rest h => by
  unfold fixedBytes at h
  split at h
  · cases h
    rw [List.length_drop]
    omega
  · cases h

@[simp] theorem length_uintBytes (count n : Nat) : (uintBytes count n).length = count := length_toLeBytes _ _

@[simp] theorem length_intBytes (count : Nat) (n : Int) : (intBytes count n).length = count := length_toLeBytes _ _

@[simp] theorem length_fixedBytes {n : Nat} (v : FixedBytes n) : v.bytes.length = n := v.length_bytes

theorem length_optionBytes_le {f : α → List UInt8} {n : Nat} (h : ∀ a, (f a).length = n) {o : Option α} :
    (optionBytes f o).length ≤ 1 + n := by
  cases o with
  | none => simp [optionBytes]
  | some a => rw [optionBytes, List.length_cons, h]; omega

/-- Fields that are each at most as long as said are together at most as long as the sum. -/
theorem length_flatten_le {fields : List (List UInt8)} {lens : List Nat}
    (h : List.Forall₂ (fun bytes n => bytes.length ≤ n) fields lens) : fields.flatten.length ≤ lens.sum := by
  induction h with
  | nil => rfl
  | cons hle _ ih =>
    rw [List.flatten_cons, List.length_append, List.sum_cons]
    exact Nat.add_le_add hle ih

/-- Writes over the front of a buffer succeed when there is room for each, and the last one is at the front
of what they leave. -/
theorem foldlM_toWriter {bytes : α → List UInt8} {l : List α} {a : α} {data : List UInt8}
    (h : ∀ a, (bytes a).length ≤ data.length) :
    ∃ rest, (l ++ [a]).foldlM (fun data a => toWriter data (bytes a)) data = some (bytes a ++ rest) := by
  induction l generalizing data with
  | nil =>
    refine ⟨data.drop (bytes a).length, ?_⟩
    simp [toWriter, write, h a]
  | cons x l ih =>
    have hw : toWriter data (bytes x) = some (bytes x ++ data.drop (bytes x).length) := by
      simp [toWriter, write, h x]
    have hlen : (bytes x ++ data.drop (bytes x).length).length = data.length := by
      rw [List.length_append, List.length_drop]
      have := h x
      omega
    have hroom : ∀ a, (bytes a).length ≤ (bytes x ++ data.drop (bytes x).length).length := fun a => by
      rw [hlen]
      exact h a
    obtain ⟨rest, hrest⟩ := ih hroom
    refine ⟨rest, ?_⟩
    rw [List.cons_append, List.foldlM_cons, hw]
    exact hrest

end Borsh
