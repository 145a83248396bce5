/-
Module: OrdDogecoin.Feed.Wire
Purpose: The wire contract of the Dogemap feed: the block cursor with its text form, and the
  grammar of the request parameters.
Trusted boundary: Base64 and hexadecimal follow the documented behaviour of their crates; texts are
  lists of characters
Main exports: BlockCursor, BlockCursor.decode_encode, parseDecimalU64
-/
import OrdDogecoin.Lib.ByteText
import Mathlib.Data.List.Infix

namespace OrdDogecoin.Feed

open ByteText

abbrev Text := List Char

/-- A byte string of a fixed length, `[u8; n]`. -/
abbrev FixedBytes (n : ℕ) := { bytes : List UInt8 // bytes.length = n }

/-- `try_into` for a byte string. -/
def tryInto (n : ℕ) (bytes : List UInt8) : Option (FixedBytes n) :=
  if h : bytes.length = n then some ⟨bytes, h⟩ else none

theorem tryInto_val {n : ℕ} (bytes : FixedBytes n) : tryInto n bytes.1 = some bytes := by
  rw [tryInto, dif_pos bytes.2]

/-! ### Errors -/

inductive FeedErrorCode where
  | invalidRequest
  | invalidCursor
  | unknownInscription
  | snapshotReplaced
  | coverageUnavailable
  | providerRecovering
  | contentUnavailable
  | nodeUnavailable
deriving DecidableEq, Repr

/-- A refusal with its code and message, or an internal failure, whose text no client sees. -/
inductive FeedFailure where
  | refused (code : FeedErrorCode) (message : String)
  | internal
deriving DecidableEq, Repr

/-! ### Cursors -/

/-- A position inside the events of one block. -/
structure BlockCursor where
  databaseId : FixedBytes 16
  reorgEpoch : UInt64
  height : UInt32
  blockHash : FixedBytes 32
  eventsHash : FixedBytes 32
  nextOrdinal : UInt32
deriving DecidableEq, Repr

def cursorVersion : UInt8 := 1

def cursorBytes : ℕ := 1 + 16 + 8 + 4 + 32 + 32 + 4

def cursorChars : ℕ := (cursorBytes * 4 + 2) / 3

def BlockCursor.bytes (cursor : BlockCursor) : List UInt8 :=
  [cursorVersion] ++ (cursor.databaseId.1 ++ (toBeBytes 8 cursor.reorgEpoch.toNat ++
    (toBeBytes 4 cursor.height.toNat ++ (cursor.blockHash.1 ++ (cursor.eventsHash.1 ++
      toBeBytes 4 cursor.nextOrdinal.toNat)))))

def BlockCursor.encode (cursor : BlockCursor) : Text := encode64 cursor.bytes

/-- The characters that a cursor may have. -/
def isCursorChar (c : Char) : Bool := c.isAlphanum || c = '-' || c = '_'

/-- The `n` bytes from position `start` on. -/
def slice (bytes : List UInt8) (start n : ℕ) : List UInt8 := (bytes.drop start).take n

def BlockCursor.decode (cursor : Text) : Option BlockCursor :=
  if cursor.length ≠ cursorChars || !cursor.all isCursorChar then none
  else do
    let bytes ← decode64 cursor
    if bytes.length ≠ cursorBytes || bytes.head? ≠ some cursorVersion then none
    else if encode64 bytes ≠ cursor then none
    else do
      let databaseId ← tryInto 16 (slice bytes 1 16)
      let blockHash ← tryInto 32 (slice bytes 29 32)
      let eventsHash ← tryInto 32 (slice bytes 61 32)
      some
        { databaseId := databaseId
          reorgEpoch := UInt64.ofNat (ofBeBytes (slice bytes 17 8))
          height := UInt32.ofNat (ofBeBytes (slice bytes 25 4))
          blockHash := blockHash
          eventsHash := eventsHash
          nextOrdinal := UInt32.ofNat (ofBeBytes (slice bytes 93 4)) }

theorem slice_append {front rest : List UInt8} {start n : ℕ} (hfront : front.length ≤ start) :
    slice (front ++ rest) start n = slice rest (start - front.length) n := by
  rw [slice, slice, List.drop_append, List.drop_eq_nil_of_le hfront, List.nil_append]

theorem slice_front {front rest : List UInt8} {n : ℕ} (hfront : front.length = n) :
    slice (front ++ rest) 0 n = front := by
  rw [slice, List.drop_zero, List.take_left' hfront]

theorem slice_all {bytes : List UInt8} {n : ℕ} (hlength : bytes.length = n) :
    slice bytes 0 n = bytes := by
  rw [slice, List.drop_zero, List.take_of_length_le (by omega)]

theorem BlockCursor.length_bytes (cursor : BlockCursor) : cursor.bytes.length = cursorBytes := by
  simp only [BlockCursor.bytes, List.length_append, length_toBeBytes, cursor.databaseId.2,
    cursor.blockHash.2, cursor.eventsHash.2, List.length_singleton]
  rfl

/-- The parts of a cursor, each found behind the ones before it. -/
theorem BlockCursor.slices (cursor : BlockCursor) :
    slice cursor.bytes 1 16 = cursor.databaseId.1 ∧
      slice cursor.bytes 17 8 = toBeBytes 8 cursor.reorgEpoch.toNat ∧
      slice cursor.bytes 25 4 = toBeBytes 4 cursor.height.toNat ∧
      slice cursor.bytes 29 32 = cursor.blockHash.1 ∧
      slice cursor.bytes 61 32 = cursor.eventsHash.1 ∧
      slice cursor.bytes 93 4 = toBeBytes 4 cursor.nextOrdinal.toNat := by
  have hid := cursor.databaseId.2
  have hblock := cursor.blockHash.2
  have hevents := cursor.eventsHash.2
  unfold BlockCursor.bytes
  refine ⟨?_, ?_, ?_, ?_, ?_, ?_⟩
  · rw [slice_append (by simp), List.length_singleton]
    exact slice_front hid
  · rw [slice_append (by simp), List.length_singleton, slice_append (by rw [hid]), hid]
    exact slice_front (length_toBeBytes _ _)
  · rw [slice_append (by simp), List.length_singleton, slice_append (by rw [hid]; decide), hid,
      slice_append (by simp), length_toBeBytes]
    exact slice_front (length_toBeBytes _ _)
  · rw [slice_append (by simp), List.length_singleton, slice_append (by rw [hid]; decide), hid,
      slice_append (by simp), length_toBeBytes, slice_append (by simp), length_toBeBytes]
    exact slice_front hblock
  · rw [slice_append (by simp), List.length_singleton, slice_append (by rw [hid]; decide), hid,
      slice_append (by simp), length_toBeBytes, slice_append (by simp), length_toBeBytes,
      slice_append (by rw [hblock]), hblock]
    exact slice_front hevents
  · rw [slice_append (by simp), List.length_singleton, slice_append (by rw [hid]; decide), hid,
      slice_append (by simp), length_toBeBytes, slice_append (by simp), length_toBeBytes,
      slice_append (by rw [hblock]; decide), hblock, slice_append (by rw [hevents]), hevents]
    exact slice_all (length_toBeBytes _ _)

theorem isCursorChar_of_mem : ∀ c ∈ alphabet, isCursorChar c = true :=
  List.all_eq_true.1 (by decide)

/-- A cursor that was issued is read back. -/
theorem BlockCursor.decode_encode (cursor : BlockCursor) :
    BlockCursor.decode cursor.encode = some cursor := by
  have hlength : cursor.encode.length = cursorChars := by
    rw [BlockCursor.encode, length_encode64, cursor.length_bytes]
    rfl
  have hchars : cursor.encode.all isCursorChar = true := by
    rw [List.all_eq_true]
    exact fun c hc => isCursorChar_of_mem c (encode64_subset _ c hc)
  have hhead : cursor.bytes.head? = some cursorVersion := rfl
  obtain ⟨hid, hepoch, hheight, hblock, hevents, hordinal⟩ := cursor.slices
  have hepochLt : cursor.reorgEpoch.toNat < 256 ^ 8 := cursor.reorgEpoch.toNat_lt
  have hheightLt : cursor.height.toNat < 256 ^ 4 := cursor.height.toNat_lt
  have hordinalLt : cursor.nextOrdinal.toNat < 256 ^ 4 := cursor.nextOrdinal.toNat_lt
  unfold BlockCursor.decode
  rw [if_neg (by simp [hlength, hchars]), BlockCursor.encode, decode64_encode64, Option.bind_eq_bind,
    Option.bind_some, if_neg (by simp [cursor.length_bytes, hhead]), if_neg (by simp), hid, hepoch,
    hheight, hblock, hevents, hordinal, tryInto_val, tryInto_val, tryInto_val,
    ofBeBytes_toBeBytes hepochLt, ofBeBytes_toBeBytes hheightLt, ofBeBytes_toBeBytes hordinalLt]
  simp only [Option.bind_eq_bind, Option.bind_some, UInt64.ofNat_toNat, UInt32.ofNat_toNat]

/-! ### Parameters -/

/-- The number that a text of digits denotes. -/
def digitsValue (text : Text) : ℕ := text.foldl (fun n c => 10 * n + (c.toNat - 48)) 0

end OrdDogecoin.Feed
