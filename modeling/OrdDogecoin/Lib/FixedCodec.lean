/-
Module: OrdDogecoin.Lib.FixedCodec
Purpose: Codecs of a fixed width.  Every byte string of the width is the encoding of one value in range, so
  a codec is a bijection; integers, pairs and reshaped values have such codecs.  A reader takes a value
  out of a longer byte string at a position, with the slice that would panic outside of it.
Trusted boundary: none
Main exports: FixedCodec, FixedCodec.read_store, FixedCodec.read_eq_ok
-/
import OrdDogecoin.Lib.Slices
import OrdDogecoin.Lib.ByteText
import Mathlib.Logic.Equiv.Defs

open Results Slices ByteText LittleEndian

/-- The byte strings of one length, as the values in range. -/
structure FixedCodec (α : Type) where
  width : ℕ
  InRange : α → Prop
  store : α → List UInt8
  load : List UInt8 → α
  length_store : ∀ value, (store value).length = width
  load_store : ∀ {value}, InRange value → load (store value) = value
  inRange_load : ∀ {bytes}, bytes.length = width → InRange (load bytes)
  store_load : ∀ {bytes}, bytes.length = width → store (load bytes) = bytes

namespace FixedCodec

variable {α β : Type}

/-! ### Codecs -/

/-- Integers of a width, least significant byte first. -/
def le (width : ℕ) : FixedCodec ℕ where
  width := width
  InRange n := n < 256 ^ width
  store := toLeBytes width
  load := ofLeBytes
  length_store := length_toLeBytes width
  load_store := by
    intro n hn
    rw [ofLeBytes_toLeBytes, Nat.mod_eq_of_lt hn]
  inRange_load := by
    intro bytes hlength
    exact hlength ▸ ofLeBytes_lt bytes
  store_load := by
    intro bytes hlength
    exact hlength ▸ toLeBytes_ofLeBytes bytes

/-- Integers of a width, most significant byte first. -/
def be (width : ℕ) : FixedCodec ℕ where
  width := width
  InRange n := n < 256 ^ width
  store := toBeBytes width
  load := ofBeBytes
  length_store := length_toBeBytes width
  load_store := ofBeBytes_toBeBytes
  inRange_load := by
    intro bytes hlength
    rw [← hlength, ← List.length_reverse]
    exact ofLeBytes_lt bytes.reverse
  store_load := by
    intro bytes hlength
    rw [toBeBytes, ofBeBytes, ← hlength, ← List.length_reverse, toLeBytes_ofLeBytes, List.reverse_reverse]

/-- One value behind the other. -/
def pair (first : FixedCodec α) (second : FixedCodec β) : FixedCodec (α × β) where
  width := first.width + second.width
  InRange value := first.InRange value.1 ∧ second.InRange value.2
  store value := first.store value.1 ++ second.store value.2
  load bytes := (first.load (bytes.take first.width), second.load (bytes.drop first.width))
  length_store value := by rw [List.length_append, first.length_store, second.length_store]
  load_store := by
    intro value hrange
    have hlength := first.length_store value.1
    rw [List.take_left' hlength, List.drop_left' hlength, first.load_store hrange.1,
      second.load_store hrange.2]
  inRange_load := by
    intro bytes hlength
    exact ⟨first.inRange_load (by rw [List.length_take]; omega),
      second.inRange_load (by rw [List.length_drop]; omega)⟩
  store_load := by
    intro bytes hlength
    have hfirst := @first.store_load (bytes.take first.width) (by rw [List.length_take]; omega)
    have hsecond := @second.store_load (bytes.drop first.width) (by rw [List.length_drop]; omega)
    rw [hfirst, hsecond, List.take_append_drop]

/-- The same bytes for values of another shape. -/
def map (codec : FixedCodec α) (shape : α ≃ β) : FixedCodec β where
  width := codec.width
  InRange value := codec.InRange (shape.symm value)
  store value := codec.store (shape.symm value)
  load bytes := shape (codec.load bytes)
  length_store value := codec.length_store (shape.symm value)
  load_store := by
    intro value hrange
    rw [codec.load_store hrange, shape.apply_symm_apply]
  inRange_load := by
    intro bytes hlength
    rw [shape.symm_apply_apply]
    exact codec.inRange_load hlength
  store_load := by
    intro bytes hlength
    rw [shape.symm_apply_apply, codec.store_load hlength]

/-! ### Reading at a position -/

/-- The value at a position of a byte string, and the position behind it. -/
def read (codec : FixedCodec α) (bytes : List UInt8) (start : ℕ) : Run (α × ℕ) := do
  let part ← slice bytes start (start + codec.width)
  .ok (codec.load part, start + codec.width)

theorem read_of_le (codec : FixedCodec α) {bytes : List UInt8} {start : ℕ}
    (hroom : start + codec.width ≤ bytes.length) :
    codec.read bytes start =
      .ok (codec.load ((bytes.drop start).take codec.width), start + codec.width) := by
  rw [read, slice_of_le (Nat.le_add_right _ _) hroom, Nat.add_sub_cancel_left]
  rfl

/-- A read with room for it goes on. -/
theorem read_bind_settles (codec : FixedCodec α) {bytes : List UInt8} {start : ℕ} {next : α × ℕ → Run β}
    (hroom : start + codec.width ≤ bytes.length)
    (hnext : ∀ value, Settles (next (value, start + codec.width))) :
    Settles (codec.read bytes start >>= next) := by
  rw [codec.read_of_le hroom, ok_bind]
  exact hnext _

/-- A value that was stored at a position is read there. -/
theorem read_store (codec : FixedCodec α) {bytes rest : List UInt8} {start : ℕ} {value : α}
    (hstart : start ≤ bytes.length) (hbytes : bytes.drop start = codec.store value ++ rest)
    (hrange : codec.InRange value) :
    codec.read bytes start = .ok (value, start + codec.width) ∧ start + codec.width ≤ bytes.length ∧
      bytes.drop (start + codec.width) = rest := by
  have hlength := codec.length_store value
  have htotal := congrArg List.length hbytes
  rw [List.length_drop, List.length_append, hlength] at htotal
  have hroom : start + codec.width ≤ bytes.length := by omega
  refine ⟨?_, hroom, ?_⟩
  · rw [codec.read_of_le hroom, hbytes, List.take_left' hlength, codec.load_store hrange]
  · rw [← List.drop_drop, hbytes, List.drop_left' hlength]

/-- A value that is read is what the bytes at the position store. -/
theorem read_eq_ok (codec : FixedCodec α) {bytes : List UInt8} {start next : ℕ} {value : α}
    (hread : codec.read bytes start = .ok (value, next)) :
    next = start + codec.width ∧ codec.InRange value ∧
      bytes.drop start = codec.store value ++ bytes.drop next := by
  obtain ⟨part, hpart, h⟩ := bind_eq_ok.mp hread
  cases h
  obtain ⟨⟨hle, hroom⟩, hpart⟩ := slice_eq_ok.mp hpart
  rw [Nat.add_sub_cancel_left] at hpart
  have hlength : part.length = codec.width := by
    rw [← hpart, List.length_take, List.length_drop]
    omega
  refine ⟨rfl, codec.inRange_load hlength, ?_⟩
  rw [codec.store_load hlength, ← hpart, ← List.drop_drop, List.take_append_drop]

end FixedCodec
