/-
Module: OrdDogecoin.Sats.SatRange
Purpose: The 11-byte stored form of a sat range: a 51-bit base below a length field.  `load_store`
  computes what is read back for any pair, and `load_store_eq_iff` gives the pairs for which the
  format is lossless.
Trusted boundary: none
Main exports: SatRange, SatRange.load, SatRange.load_store_eq_iff
-/
import OrdDogecoin.Lib.LittleEndian
import OrdDogecoin.Sats.Height
import Mathlib.Data.Nat.Bitwise

namespace OrdDogecoin.Sats

open LittleEndian

/-- `SatRange = (u64, u64)`: the first sat and the sat after the last. -/
abbrev SatRange := ℕ × ℕ

namespace SatRange

/-- `SatRange::store`: `n.to_le_bytes()[0..11]` of `base | delta << 51`. -/
def store (range : SatRange) : List UInt8 :=
  let base := range.1
  let delta := range.2 - range.1
  toLeBytes 11 (base ||| delta <<< 51)

/-- `SatRange::load` on the bytes `b0 .. b10`.  The base is the low 51 bits of `b0 .. b6`, the delta
everything above the low 3 bits of `b6 .. b10`. -/
def load (bytes : List UInt8) : SatRange :=
  let rawBase := ofLeBytes (bytes.take 7)
  let base := rawBase &&& (1 <<< 51 - 1)
  let rawDelta := ofLeBytes ((bytes.drop 6).take 5)
  let delta := rawDelta >>> 3
  (base, base + delta)

/-- `SatRange::load(chunk.try_into().unwrap())`: a chunk of any other length panics. -/
def loadChunk (chunk : List UInt8) : Option SatRange :=
  if chunk.length = 11 then some (load chunk) else none

@[simp] theorem length_store (range : SatRange) : range.store.length = 11 := length_toLeBytes 11 _

/-- What is read back: the base keeps its low 51 bits, the delta 37 bits of the combined word. -/
theorem load_toLeBytes (n : ℕ) :
    load (toLeBytes 11 n) = (n % 2 ^ 51, n % 2 ^ 51 + n / 2 ^ 51 % 2 ^ 37) := by
  have hbase : ofLeBytes ((toLeBytes 11 n).take 7) &&& (1 <<< 51 - 1) = n % 2 ^ 51 := by
    rw [take_toLeBytes (by omega), ofLeBytes_toLeBytes, Nat.shiftLeft_eq, one_mul,
      Nat.and_two_pow_sub_one_eq_mod]
    omega
  have hdelta : ofLeBytes (((toLeBytes 11 n).drop 6).take 5) >>> 3 = n / 2 ^ 51 % 2 ^ 37 := by
    rw [drop_toLeBytes 5 6 n, List.take_of_length_le (by simp), ofLeBytes_toLeBytes,
      Nat.shiftRight_eq_div_pow]
    omega
  simp only [load, hbase, hdelta]

theorem load_store (range : SatRange) (hfits : range.1 < 2 ^ 51) :
    load range.store = (range.1, range.1 + (range.2 - range.1) % 2 ^ 37) := by
  have hword : range.1 ||| (range.2 - range.1) <<< 51 = (range.2 - range.1) * 2 ^ 51 + range.1 := by
    rw [Nat.lor_comm, ← Nat.shiftLeft_add_eq_or_of_lt hfits, Nat.shiftLeft_eq]
  rw [store, load_toLeBytes, hword]
  congr 1 <;> omega

/-- The base read back is the stored base modulo `2 ^ 51`, whatever the delta. -/
theorem load_store_fst (range : SatRange) : (load range.store).1 = range.1 % 2 ^ 51 := by
  rw [store, load_toLeBytes]
  apply Nat.eq_of_testBit_eq
  intro i
  simp only [Nat.testBit_mod_two_pow, Nat.testBit_or, Nat.testBit_shiftLeft]
  by_cases hi : i < 51
  · simp [hi, Nat.not_le.2 hi]
  · simp [hi]

/-- The stored form is lossless exactly for a base below `2 ^ 51` and a length below `2 ^ 37`. -/
theorem load_store_eq_iff {range : SatRange} (hle : range.1 ≤ range.2) :
    load range.store = range ↔ range.1 < 2 ^ 51 ∧ range.2 - range.1 < 2 ^ 37 := by
  constructor
  · intro heq
    have hbase : range.1 < 2 ^ 51 := by
      have hfst := load_store_fst range
      rw [heq] at hfst
      omega
    have hsnd := congrArg Prod.snd (heq.symm.trans (load_store range hbase))
    simp only at hsnd
    exact ⟨hbase, by omega⟩
  · rintro ⟨hbase, hdelta⟩
    rw [load_store range hbase, Nat.mod_eq_of_lt hdelta, Nat.add_sub_cancel' hle]

end SatRange

/-- A pair the sat indexer can write: a sub-range of the range of some block. -/
def Writable (tables : SatTables) (range : SatRange) : Prop :=
  ∃ height start reward, tables.startingSat height = some start ∧
    tables.subsidy height = some reward ∧
    start ≤ range.1 ∧ range.1 ≤ range.2 ∧ range.2 ≤ start + reward

/-- A writable pair survives storage exactly when its base fits 51 bits and its length 37 bits. -/
theorem writable_load_store_iff {tables : SatTables} {range : SatRange}
    (writable : Writable tables range) :
    SatRange.load (SatRange.store range) = range ↔
      range.1 < 2 ^ 51 ∧ range.2 - range.1 < 2 ^ 37 := by
  obtain ⟨-, -, -, -, -, -, hle, -⟩ := writable
  exact SatRange.load_store_eq_iff hle

/-- The range of a whole block is writable. -/
theorem Writable.wholeBlock {tables : SatTables} {height start reward : ℕ}
    (hstart : tables.startingSat height = some start)
    (hreward : tables.subsidy height = some reward) :
    Writable tables (start, start + reward) :=
  ⟨height, start, reward, hstart, hreward, le_refl start, Nat.le_add_right start reward,
    le_refl (start + reward)⟩

/-- The genesis reward, 88 coins from sat 0 on, survives storage. -/
theorem load_store_genesis :
    Writable lateTables (0, 8800000000) ∧
      SatRange.load (SatRange.store (0, 8800000000)) = (0, 8800000000) := by
  obtain ⟨hstart, hreward⟩ :=
    shippedTables_lateTables.early_eq (show 0 < 145000 by omega)
  have writable : Writable lateTables (0, 0 + 8800000000) :=
    Writable.wholeBlock (hstart.trans shippedTables_lateTables.firstStart)
      (hreward.trans epochs_lateTables_zero)
  exact ⟨writable, (writable_load_store_iff writable).2 (by omega)⟩

/-- The reward of height 600000 does not: its base needs 64 bits and its length 40. -/
theorem not_lossless_600000 :
    (∃ tables, ShippedTables tables) ∧
      ¬ ∃ tables, ShippedTables tables ∧ ∀ range, Writable tables range →
        SatRange.load (SatRange.store range) = range := by
  refine ⟨⟨lateTables, shippedTables_lateTables⟩, ?_⟩
  rintro ⟨tables, shipped, lossless⟩
  obtain ⟨hstart, hreward⟩ := shipped.late_eq (show 145000 ≤ 600000 by omega)
  have writable : Writable tables (9837426390883682000, 9837426390883682000 + 1000000000000) :=
    Writable.wholeBlock (hstart.trans rfl) (hreward.trans rfl)
  have hfits := (SatRange.load_store_eq_iff (Nat.le_add_right _ _)).1 (lossless _ writable)
  omega

end OrdDogecoin.Sats
