import SplStakePool.Layout.Pool
import SplStakePool.Lib.Format

/-!
# The format of the pool

The types of the fields first; the pool is a sequence of them. A pool that is decoded is in range and its encoding
is what was read, which is shown by going through the fields in the order in which the decoder reads them.
-/

namespace SplStakePool
open Borsh

theorem AccountType.format : Format deserialize serialize fun _ => True where
  reads t _ := t.reads
  takes := .tag fun _ => .ite (fun h => .pure ⟨trivial, by rw [h]; rfl⟩) fun _ =>
    .ite (fun h => .pure ⟨trivial, by rw [h]; rfl⟩) fun _ =>
    .ite (fun h => .pure ⟨trivial, by rw [h]; rfl⟩) fun _ => .failure

theorem Fee.format : Format deserialize serialize fun _ => True where
  reads fee _ := fee.reads
  takes := .field .u64 fun _ _ => .field .u64 fun _ _ => .pure ⟨trivial, rfl⟩

theorem FutureEpoch.format {T : Type} {d : Decoder T} {f : T → List UInt8} (h : Format d f fun _ => True) :
    Format (deserialize d) (serialize f) fun _ => True where
  reads e _ := reads (fun v => h.reads v trivial) e
  takes := .tag fun _ => .ite (fun ht => .pure ⟨trivial, by rw [ht]; rfl⟩) fun _ =>
    .ite (fun ht => h.takes.map fun _ _ ⟨_, hbytes⟩ => ⟨trivial, by rw [ht, hbytes]; rfl⟩) fun _ =>
    .ite (fun ht => h.takes.map fun _ _ ⟨_, hbytes⟩ => ⟨trivial, by rw [ht, hbytes]; rfl⟩) fun _ => .failure

theorem pubkey_format : Format pubkey FixedBytes.bytes fun _ => True := .fixedBytes 32

theorem Lockup.format : Format deserialize serialize InRange where
  reads _ h := h.reads
  takes := .field (.int 8) fun _ ht => .field (.uint 8) fun _ he => .field pubkey_format fun _ _ =>
    .pure ⟨⟨by have := ht.1; dsimp only; omega, by have := ht.2; dsimp only; omega, he⟩, rfl⟩

namespace StoredStakePool

theorem takes : Takes deserialize fun s bytes => ∃ h : s.1.InRange, bytes = serialize ⟨s.1, s.2, h⟩ :=
  .field .u8 fun _ _ => .field AccountType.format fun _ _ => .field pubkey_format fun _ _ =>
  .field pubkey_format fun _ _ => .field pubkey_format fun _ _ => .field .u8 fun _ _ =>
  .field pubkey_format fun _ _ => .field pubkey_format fun _ _ => .field pubkey_format fun _ _ =>
  .field pubkey_format fun _ _ => .field pubkey_format fun _ _ =>
  .field (.uint 8) fun _ htotal => .field (.uint 8) fun _ hsupply => .field (.uint 8) fun _ hepoch =>
  .field Lockup.format fun _ hlockup => .field Fee.format fun _ _ =>
  .field (FutureEpoch.format Fee.format) fun _ _ => .field (.option pubkey_format) fun _ _ =>
  .field (.option pubkey_format) fun _ _ => .field Fee.format fun _ _ => .field Fee.format fun _ _ =>
  .field (FutureEpoch.format Fee.format) fun _ _ => .field .u8 fun _ _ =>
  .field (.option pubkey_format) fun _ _ => .field Fee.format fun _ _ => .field .u8 fun _ _ =>
  .field (.option pubkey_format) fun _ _ => .field Fee.format fun _ _ =>
  .field (FutureEpoch.format Fee.format) fun _ _ => .field (.uint 8) fun _ hlastSupply =>
  .field (.uint 8) fun _ hlastTotal => .field (.option (.uint 8)) fun _ hmax =>
  .field (.fixedBytes 256) fun _ _ =>
  .pure ⟨⟨htotal, hsupply, hepoch, hlockup, hlastSupply, hlastTotal, hmax⟩, rfl⟩

/-- An account is read as a pool when the encoding of the pool is in front of it. -/
theorem read_eq_some {s : StoredStakePool} {data : List UInt8} :
    read data = some s ↔ ∃ rest, data = s.serialize ++ rest := by
  constructor
  · intro h
    obtain ⟨a, hr, ha, rfl⟩ := Option.pmap_eq_some_iff.1 h
    obtain ⟨⟨_, rest⟩, hd, rfl⟩ := Option.map_eq_some_iff.1 ha
    obtain ⟨bytes, rfl, _, rfl⟩ := takes _ _ _ hd
    exact ⟨rest, rfl⟩
  · rintro ⟨rest, rfl⟩
    exact read_serialize s rest

end StoredStakePool

end SplStakePool
