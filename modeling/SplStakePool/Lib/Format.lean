import SplStakePool.Lib.Borsh

/-!
# Formats

A decoder and an encoder make a format when the decoder accepts what the encoder writes, and nothing else: a
value in range then has one encoding, and no other bytes are read as it. `Reads` is the one half;
`Takes` is the other, with rules that go through a sequence of fields as the decoder does.
-/

namespace Borsh
open Buffer

variable {α β : Type}

/-- Whatever the decoder takes for a value is allowed for it by `F`. -/
def Takes (d : Decoder α) (F : α → List UInt8 → Prop) : Prop :=
  ∀ data a rest, d data = some (a, rest) → ∃ bytes, data = bytes ++ rest ∧ F a bytes

/-- The decoder takes exactly what the encoder writes for the values in range. -/
structure Format (d : Decoder α) (f : α → List UInt8) (P : α → Prop) : Prop where
  reads : ∀ a, P a → Reads d (f a) a
  takes : Takes d fun a bytes => P a ∧ bytes = f a

namespace Takes
variable {d e : Decoder α} {f : α → List UInt8} {g : α → Decoder β} {F : α → List UInt8 → Prop}
  {G : β → List UInt8 → Prop} {P : α → Prop}

theorem pure {a : α} (h : F a []) : Takes (Pure.pure a) F := fun data a rest hd => by
  cases hd
  exact ⟨[], rfl, h⟩

theorem failure : Takes (Alternative.failure : Decoder α) F := fun _ _ _ hd => by cases hd

theorem ite {c : Prop} [Decidable c] (hd : c → Takes d F) (he : ¬c → Takes e F) :
    Takes (if c then d else e) F := by
  split
  · exact hd ‹_›
  · exact he ‹_›

/-- The bytes of a sequence are those of its first step and of what follows. -/
theorem bind (hd : Takes d F) (h : ∀ a bytes, F a bytes → Takes (g a) fun b bytes' => G b (bytes ++ bytes')) :
    Takes (d >>= g) G := fun data b rest hr => by
  obtain ⟨a, mid, ha, hb⟩ := bind_eq_some.1 hr
  obtain ⟨bytes, rfl, hF⟩ := hd _ _ _ ha
  obtain ⟨bytes', rfl, hG⟩ := h a bytes hF _ _ _ hb
  exact ⟨bytes ++ bytes', by rw [List.append_assoc], hG⟩

theorem field (hd : Format d f P) (h : ∀ a, P a → Takes (g a) fun b bytes => G b (f a ++ bytes)) :
    Takes (d >>= g) G :=
  hd.takes.bind fun a bytes ⟨hP, hbytes⟩ => by
    subst hbytes
    exact h a hP

theorem map {g : α → β} (hd : Takes d F) (h : ∀ a bytes, F a bytes → G (g a) bytes) : Takes (g <$> d) G := by
  rw [map_eq_pure_bind]
  exact hd.bind fun a bytes hF => pure (by rw [List.append_nil]; exact h a bytes hF)

theorem takeBytes (n : Nat) : Takes (takeBytes n) fun a bytes => a.length = n ∧ bytes = a :=
  fun _ _ _ hd => by
    obtain ⟨rfl, h⟩ := takeBytes_eq_some.1 hd
    exact ⟨_, rfl, h, rfl⟩

/-- Strict decoding returns a value only on bytes that are allowed for it. -/
theorem of_tryFromSlice (hd : Takes d F) {data : List UInt8} {a : α} (h : tryFromSlice d data = some a) :
    F a data := by
  unfold tryFromSlice at h
  split at h
  · rename_i heq
    cases h
    obtain ⟨bytes, rfl, hF⟩ := hd _ _ _ heq
    rwa [List.append_nil]
  · cases h

theorem of_tryFromSliceUnchecked (hd : Takes d F) {data : List UInt8} {a : α}
    (h : tryFromSliceUnchecked d data = some a) : ∃ bytes rest, data = bytes ++ rest ∧ F a bytes := by
  obtain ⟨⟨_, rest⟩, hread, rfl⟩ := Option.map_eq_some_iff.1 h
  obtain ⟨bytes, hdata, hF⟩ := hd _ _ _ hread
  exact ⟨bytes, rest, hdata, hF⟩

theorem tag {g : UInt8 → Decoder β} (h : ∀ t, Takes (g t) fun b bytes => G b (t :: bytes)) :
    Takes (u8 >>= g) G := fun data b rest hr => by
  cases data with
  | nil => cases hr
  | cons t data =>
    obtain ⟨bytes, rfl, hG⟩ := h t _ _ _ hr
    exact ⟨t :: bytes, rfl, hG⟩

end Takes

namespace Format
variable {d : Decoder α} {f : α → List UInt8} {P : α → Prop} {a b : α} {data rest : List UInt8}

theorem map {f' : β → List UInt8} {P' : β → Prop} {g : α → β} {g' : β → α} (h : Format d f P)
    (hg : ∀ b, P' b → P (g' b) ∧ g (g' b) = b ∧ f (g' b) = f' b) (hg' : ∀ a, P a → P' (g a) ∧ f' (g a) = f a) :
    Format (g <$> d) f' P' where
  reads b hb := by
    obtain ⟨hP, hb', hf⟩ := hg b hb
    have := (h.reads _ hP).map g
    rwa [hb', hf] at this
  takes := h.takes.map fun a bytes ⟨hP, hbytes⟩ => by
    obtain ⟨hP', hf⟩ := hg' a hP
    exact ⟨hP', by rw [hf, hbytes]⟩

end Format

namespace Format
variable {d : Decoder α} {f : α → List UInt8} {P : α → Prop}

theorem u8 : Format u8 (fun b => [b]) fun _ => True where
  reads b _ := reads_u8 b
  takes := by
    rw [← bind_pure Borsh.u8]
    exact .tag fun _ => .pure ⟨trivial, rfl⟩

theorem uint (count : Nat) : Format (uint count) (uintBytes count) (· < 256 ^ count) where
  reads _ h := reads_uint h
  takes _ _ _ h := by
    obtain ⟨rfl, hlt⟩ := uint_eq_some h
    exact ⟨_, rfl, hlt, rfl⟩

theorem u32 : Format u32 (fun n => uintBytes 4 n.toNat) fun _ => True :=
  (uint 4).map (fun n _ => ⟨n.toNat_lt, UInt32.ofNat_toNat, rfl⟩)
    fun n hn => ⟨trivial, by rw [UInt32.toNat_ofNat_of_lt' hn]⟩

theorem u64 : Format u64 (fun n => uintBytes 8 n.toNat) fun _ => True :=
  (uint 8).map (fun n _ => ⟨n.toNat_lt, UInt64.ofNat_toNat, rfl⟩)
    fun n hn => ⟨trivial, by rw [UInt64.toNat_ofNat_of_lt' hn]⟩

theorem int (count : Nat) : Format (int count) (intBytes count) fun n =>
    -(256 ^ count : Nat) ≤ 2 * n ∧ 2 * n < (256 ^ count : Nat) where
  reads _ h := reads_int h.1 h.2
  takes := (uint count).takes.bind fun n bytes ⟨hn, hbytes⟩ => .pure <| by
    subst hbytes
    rw [List.append_nil]
    have hpos : (0 : Int) < (256 ^ count : Nat) := by exact_mod_cast Nat.pow_pos (by omega)
    split
    · refine ⟨⟨by omega, by omega⟩, ?_⟩
      rw [uintBytes, intBytes, Int.emod_eq_of_lt (by omega) (by omega), Int.toNat_natCast]
    · refine ⟨⟨by omega, by omega⟩, ?_⟩
      rw [uintBytes, intBytes, Int.sub_emod_right, Int.emod_eq_of_lt (by omega) (by omega), Int.toNat_natCast]

theorem bool : Format bool boolBytes fun _ => True where
  reads b _ := reads_bool b
  takes := .tag fun t => .ite (fun h => .pure ⟨trivial, by rw [h]; rfl⟩) fun _ =>
    .ite (fun h => .pure ⟨trivial, by rw [h]; rfl⟩) fun _ => .failure

theorem option (h : Format d f P) : Format (option d) (optionBytes f) fun o => ∀ a ∈ o, P a where
  reads _ ho := reads_option fun a ha => h.reads a (ho a ha)
  takes := .tag fun t => .ite (fun ht => .pure ⟨fun a ha => (by cases ha), by rw [ht]; rfl⟩) fun _ =>
    .ite (fun ht => h.takes.map fun a bytes ⟨hP, hbytes⟩ =>
      ⟨fun b hb => (by cases hb; exact hP), by rw [ht, hbytes]; rfl⟩) fun _ => .failure

theorem fixedBytes (n : Nat) : Format (fixedBytes n) FixedBytes.bytes fun _ => True where
  reads v _ := reads_fixedBytes v
  takes data v rest h := by
    unfold Borsh.fixedBytes at h
    split at h
    · cases h
      exact ⟨_, (List.take_append_drop n data).symm, trivial, rfl⟩
    · cases h

theorem utf8_of_fromUTF8? {bytes : List UInt8} {s : String} (h : String.fromUTF8? ⟨bytes.toArray⟩ = some s) :
    utf8 s = bytes := by
  unfold String.fromUTF8? at h
  split at h
  · cases h
    rfl
  · cases h

theorem string : Format string stringBytes fun s => (utf8 s).length < 2 ^ 32 where
  reads _ h := reads_string h
  takes := .field (uint 4) fun n hn => (Takes.takeBytes n).bind fun bytes _ ⟨hlen, hbytes⟩ =>
    fun data s rest h => by
      subst hbytes
      obtain ⟨s', hs, h⟩ := Option.bind_eq_some_iff.1 h
      cases h
      subst hlen
      rw [← utf8_of_fromUTF8? hs] at hn ⊢
      refine ⟨[], rfl, hn, ?_⟩
      simp [stringBytes]

theorem repeated (h : Format d f P) (n : Nat) : Format (repeated d n) (fun l => (l.map f).flatten) fun l =>
    l.length = n ∧ ∀ a ∈ l, P a where
  reads l hl := by
    obtain ⟨rfl, hP⟩ := hl
    have := reads_repeated (g := id) fun a ha => h.reads a (hP a ha)
    rwa [List.map_id] at this
  takes := by
    induction n with
    | zero => exact .pure ⟨⟨rfl, fun a ha => by cases ha⟩, rfl⟩
    | succ n ih =>
      refine .field h fun a hP => ih.bind fun l bytes ⟨⟨hlen, hl⟩, hbytes⟩ => .pure ⟨⟨?_, ?_⟩, ?_⟩
      · rw [List.length_cons, hlen]
      · exact List.forall_mem_cons.2 ⟨hP, hl⟩
      · rw [List.append_nil, hbytes, List.map_cons, List.flatten_cons]

end Format
end Borsh
