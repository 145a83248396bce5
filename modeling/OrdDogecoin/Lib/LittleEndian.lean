/-
Module: OrdDogecoin.Lib.LittleEndian
Purpose: Little-endian byte strings of natural numbers, and the splitting of a byte string into
  chunks of one exact length.  Reading back the first `width` bytes of a number keeps it modulo
  `256 ^ width`, so a fixed-width format is lossless exactly below that bound.
Trusted boundary: none
Main exports: toLeBytes, chunksExact, chunksExact_flatMap
-/
import Mathlib.Data.Nat.Basic
import Mathlib.Algebra.Order.Ring.Nat
import Mathlib.Tactic.Ring
import Mathlib.Data.List.Basic

namespace LittleEndian

/-- The `width` low bytes of `n`, least significant first. -/
def toLeBytes : ℕ → ℕ → List UInt8
  | 0, _ => []
  | width + 1, n => UInt8.ofNat n :: toLeBytes width (n / 256)

/-- The number a byte string denotes, least significant byte first. -/
def ofLeBytes : List UInt8 → ℕ
  | [] => 0
  | byte :: bytes => byte.toNat + 256 * ofLeBytes bytes

@[simp] theorem length_toLeBytes (width n : ℕ) : (toLeBytes width n).length = width := by
  induction width generalizing n with
  | zero => rfl
  | succ width ih => simp [toLeBytes, ih]

/-- Reading back a fixed-width encoding keeps the number modulo the format's range. -/
theorem ofLeBytes_toLeBytes (width n : ℕ) :
    ofLeBytes (toLeBytes width n) = n % 256 ^ width := by
  induction width generalizing n with
  | zero => simp [toLeBytes, ofLeBytes, Nat.mod_one]
  | succ width ih =>
      have hbyte : (UInt8.ofNat n).toNat = n % 256 := by simp
      rw [toLeBytes, ofLeBytes, ih, hbyte, pow_succ, mul_comm (256 ^ width), Nat.mod_mul]

theorem ofLeBytes_lt (bytes : List UInt8) : ofLeBytes bytes < 256 ^ bytes.length := by
  induction bytes with
  | nil => exact Nat.one_pos
  | cons byte bytes ih =>
      have hbyte := byte.toNat_lt
      rw [ofLeBytes, List.length_cons, Nat.pow_succ]
      omega

/-- A byte string is the encoding of the number it denotes, at its own width. -/
theorem toLeBytes_ofLeBytes (bytes : List UInt8) : toLeBytes bytes.length (ofLeBytes bytes) = bytes := by
  induction bytes with
  | nil => rfl
  | cons byte bytes ih =>
      have hbyte : byte.toNat < 256 := byte.toNat_lt
      have hdiv : (byte.toNat + 256 * ofLeBytes bytes) / 256 = ofLeBytes bytes := by omega
      have hmod : (byte.toNat + 256 * ofLeBytes bytes) % 256 = byte.toNat := by omega
      have hfirst : UInt8.ofNat (byte.toNat + 256 * ofLeBytes bytes) = byte := by
        apply UInt8.toNat_inj.mp
        rw [UInt8.toNat_ofNat']
        exact hmod
      rw [List.length_cons, toLeBytes, ofLeBytes, hdiv, ih, hfirst]

theorem ofLeBytes_concat (bytes : List UInt8) (byte : UInt8) :
    ofLeBytes (bytes ++ [byte]) = ofLeBytes bytes + 256 ^ bytes.length * byte.toNat := by
  induction bytes with
  | nil => simp [ofLeBytes]
  | cons first bytes ih =>
      rw [List.cons_append, ofLeBytes, ih, ofLeBytes, List.length_cons, Nat.pow_succ]
      ring

/-- A prefix of an encoding is the encoding at the shorter width. -/
theorem take_toLeBytes {width short : ℕ} (hle : short ≤ width) (n : ℕ) :
    (toLeBytes width n).take short = toLeBytes short n := by
  induction short generalizing width n with
  | zero => simp [toLeBytes]
  | succ short ih =>
      obtain ⟨width, rfl⟩ : ∃ w, width = w + 1 := ⟨width - 1, by omega⟩
      simp [toLeBytes, ih (Nat.le_of_succ_le_succ hle)]

/-- Dropping low bytes divides by the matching power of 256. -/
theorem drop_toLeBytes (width skip n : ℕ) :
    (toLeBytes (skip + width) n).drop skip = toLeBytes width (n / 256 ^ skip) := by
  induction skip generalizing n with
  | zero => simp
  | succ skip ih =>
      rw [show skip + 1 + width = (skip + width) + 1 by omega, toLeBytes, List.drop_succ_cons, ih,
        Nat.div_div_eq_div_mul, pow_succ, mul_comm]

/-! ### Exact chunks -/

/-- The consecutive chunks of exactly `size` elements; a shorter rest is dropped. -/
def chunksExact {α : Type} (size : ℕ) (items : List α) : List (List α) :=
  (List.range (items.length / size)).map fun i => (items.drop (i * size)).take size

/-- A string shorter than one chunk has none. -/
theorem chunksExact_of_length_lt {α : Type} {size : ℕ} {items : List α}
    (hshort : items.length < size) : chunksExact size items = [] := by
  simp [chunksExact, Nat.div_eq_of_lt hshort]

theorem chunksExact_append {α : Type} {size : ℕ} {chunk : List α} (hpos : 0 < size)
    (hchunk : chunk.length = size) (rest : List α) :
    chunksExact size (chunk ++ rest) = chunk :: chunksExact size rest := by
  have hcount : (chunk ++ rest).length / size = rest.length / size + 1 := by
    rw [List.length_append, hchunk, Nat.add_comm, Nat.add_div_right _ hpos]
  rw [chunksExact, hcount, List.range_succ_eq_map, List.map_cons, chunksExact]
  congr 1
  · simp [← hchunk]
  · rw [List.map_map]
    apply List.map_congr_left
    intro i _
    have hdrop : (chunk ++ rest).drop ((i + 1) * size) = rest.drop (i * size) := by
      rw [show (i + 1) * size = chunk.length + i * size by rw [hchunk]; ring,
        List.drop_length_add_append]
    simp [hdrop]

/-- A string with room for one chunk has that chunk first. -/
theorem chunksExact_of_le_length {α : Type} {size : ℕ} {items : List α} (hpos : 0 < size)
    (hlong : size ≤ items.length) :
    chunksExact size items = items.take size :: chunksExact size (items.drop size) := by
  have hchunk : (items.take size).length = size := by simpa using hlong
  rw [← chunksExact_append hpos hchunk, List.take_append_drop]

/-- Every chunk has exactly the chunk size. -/
theorem length_of_mem_chunksExact {α : Type} {size : ℕ} {items chunk : List α}
    (hmem : chunk ∈ chunksExact size items) : chunk.length = size := by
  obtain ⟨i, hi, rfl⟩ := List.mem_map.1 hmem
  have hfits : (i + 1) * size ≤ items.length :=
    (Nat.mul_le_mul_right size (List.mem_range.1 hi)).trans (Nat.div_mul_le_self _ _)
  rw [Nat.succ_mul] at hfits
  simp only [List.length_take, List.length_drop]
  omega

/-- Concatenated encodings of one exact size split back into the encodings. -/
theorem chunksExact_flatMap {α β : Type} {size : ℕ} (hpos : 0 < size) (encode : β → List α)
    (hsize : ∀ x, (encode x).length = size) (items : List β) :
    chunksExact size (items.flatMap encode) = items.map encode := by
  induction items with
  | nil => simp [chunksExact]
  | cons item items ih =>
      rw [List.flatMap_cons, chunksExact_append hpos (hsize item), ih, List.map_cons]

end LittleEndian
