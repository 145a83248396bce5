/-
Module: OrdDogecoin.Lib.Utf8
Purpose: UTF-8 encoding, and decoding that never fails: every byte sequence that starts no character is
  replaced by U+FFFD, the longest one at a time.  A decoded text of ASCII characters is the bytes
  themselves.
Trusted boundary: none
Main exports: Utf8.encode, Utf8.fromLossy, Utf8.bytes_of_ascii
-/
import Mathlib.Data.List.Basic
import Mathlib.Tactic.Ring

namespace Utf8

def encode (text : List Char) : List UInt8 := text.flatMap String.utf8EncodeChar

theorem encode_injective : Function.Injective encode := by
  intro text other hsame
  have hstring : String.ofList text = String.ofList other := by
    apply String.toByteArray_inj.1
    exact congrArg List.toByteArray hsame
  exact String.ofList_injective hstring

/-- The bytes of a character are not ASCII, unless the character is. -/
theorem byte_of_encodeChar (c : Char) : ∀ byte ∈ String.utf8EncodeChar c,
    byte.toNat = c.val.toNat ∨ 0x80 ≤ byte.toNat := by
  unfold String.utf8EncodeChar
  dsimp only
  generalize c.val.toNat = v
  split_ifs with hone htwo hthree
  all_goals
    simp only [List.forall_mem_cons, List.not_mem_nil, IsEmpty.forall_iff, implies_true, and_true,
      UInt8.toNat_ofNat']
    omega

/-- No byte of a text is the largest byte. -/
theorem byte_lt (c : Char) : ∀ byte ∈ String.utf8EncodeChar c, byte.toNat < 0xff := by
  unfold String.utf8EncodeChar
  dsimp only
  generalize c.val.toNat = v
  split_ifs with hone htwo hthree
  all_goals
    simp only [List.forall_mem_cons, List.not_mem_nil, IsEmpty.forall_iff, implies_true, and_true,
      UInt8.toNat_ofNat']
    omega

theorem byte_lt_of_mem_encode {text : List Char} {byte : UInt8} (hbyte : byte ∈ encode text) :
    byte.toNat < 0xff := by
  obtain ⟨c, -, hmem⟩ := List.mem_flatMap.1 hbyte
  exact byte_lt c byte hmem

theorem encode_append (text other : List Char) : encode (text ++ other) = encode text ++ encode other :=
  List.flatMap_append

theorem length_encode (text : List Char) : (encode text).length = (text.map Char.utf8Size).sum := by
  rw [encode, List.length_flatMap, List.map_congr_left fun c _ => String.length_utf8EncodeChar c]

/-- NUL characters are zero bytes. -/
theorem encode_replicate_nul (n : ℕ) : encode (List.replicate n (Char.ofNat 0)) = List.replicate n 0 := by
  induction n with
  | zero => rfl
  | succ n ih =>
      have hnul : String.utf8EncodeChar (Char.ofNat 0) = [0] := by decide
      rw [List.replicate_succ, List.replicate_succ, encode, List.flatMap_cons, ← encode, ih, hnul]
      rfl

/-- U+FFFD. -/
def replacement : Char := Char.ofNat 0xfffd

/-- The character of a code point. -/
def scalar (n : ℕ) : Char := if n.isValidChar then Char.ofNat n else replacement

/-- A character of several bytes that is being read: the range of its next byte, how many bytes come
after that one, and the bits read so far. -/
structure Pending where
  low : ℕ
  high : ℕ
  more : ℕ
  bits : ℕ
deriving DecidableEq, Repr

/-- The first byte of a character. -/
def start (byte : ℕ) : List Char × Option Pending :=
  if byte < 0x80 then ([scalar byte], none)
  else if 0xc2 ≤ byte ∧ byte ≤ 0xdf then ([], some ⟨0x80, 0xbf, 0, byte - 0xc0⟩)
  else if byte = 0xe0 then ([], some ⟨0xa0, 0xbf, 1, 0⟩)
  else if byte = 0xed then ([], some ⟨0x80, 0x9f, 1, 0xd⟩)
  else if 0xe1 ≤ byte ∧ byte ≤ 0xef then ([], some ⟨0x80, 0xbf, 1, byte - 0xe0⟩)
  else if byte = 0xf0 then ([], some ⟨0x90, 0xbf, 2, 0⟩)
  else if 0xf1 ≤ byte ∧ byte ≤ 0xf3 then ([], some ⟨0x80, 0xbf, 2, byte - 0xf0⟩)
  else if byte = 0xf4 then ([], some ⟨0x80, 0x8f, 2, 4⟩)
  else ([replacement], none)

/-- One byte: the characters it completes, and what is then being read.  A byte that cannot go on
with a character ends it and starts another. -/
def step : Option Pending → ℕ → List Char × Option Pending
  | none, byte => start byte
  | some pending, byte =>
      if pending.low ≤ byte ∧ byte ≤ pending.high then
        match pending.more with
        | 0 => ([scalar (pending.bits * 64 + (byte - 0x80))], none)
        | more + 1 => ([], some ⟨0x80, 0xbf, more, pending.bits * 64 + (byte - 0x80)⟩)
      else (replacement :: (start byte).1, (start byte).2)

theorem step_some (pending : Pending) (byte : ℕ) :
    step (some pending) byte =
      if pending.low ≤ byte ∧ byte ≤ pending.high then
        match pending.more with
        | 0 => ([scalar (pending.bits * 64 + (byte - 0x80))], none)
        | more + 1 => ([], some ⟨0x80, 0xbf, more, pending.bits * 64 + (byte - 0x80)⟩)
      else (replacement :: (start byte).1, (start byte).2) := rfl

def decode : Option Pending → List UInt8 → List Char
  | none, [] => []
  | some _, [] => [replacement]
  | pending, byte :: bytes =>
      (step pending byte.toNat).1 ++ decode (step pending byte.toNat).2 bytes

/-- `String::from_utf8_lossy`. -/
def fromLossy (bytes : List UInt8) : List Char := decode none bytes

example : fromLossy [0x61, 0xc3, 0xa4, 0xe2, 0x82, 0x62] = ['a', 'ä', replacement, 'b'] := by decide

/-! ### ASCII -/

def Ascii (text : List Char) : Prop := ∀ c ∈ text, c.toNat < 0x80

theorem not_ascii_replacement : ¬ replacement.toNat < 0x80 := by decide

theorem toNat_ofNat {n : ℕ} (hvalid : n.isValidChar) : (Char.ofNat n).toNat = n := by
  unfold Char.ofNat
  rw [dif_pos hvalid]
  rfl

theorem not_ascii_scalar {n : ℕ} (hn : 0x80 ≤ n) : ¬ (scalar n).toNat < 0x80 := by
  unfold scalar
  split
  next hvalid =>
    rw [toNat_ofNat hvalid]
    omega
  next => exact not_ascii_replacement

theorem toNat_scalar {n : ℕ} (hn : n < 0x80) : (scalar n).toNat = n := by
  have hvalid : n.isValidChar := Or.inl (by omega)
  rw [scalar, if_pos hvalid, toNat_ofNat hvalid]

/-- A character that is being read will not be an ASCII character. -/
def Pending.Wide (pending : Pending) : Prop :=
  0x80 ≤ pending.low ∧ 0x80 ≤ (pending.bits * 64 + (pending.low - 0x80)) * 64 ^ pending.more

theorem wide_start {byte : ℕ} {pending : Pending} (hstart : (start byte).2 = some pending) :
    pending.Wide := by
  unfold start at hstart
  repeat' split at hstart
  all_goals cases hstart
  all_goals
    unfold Pending.Wide
    norm_num
  all_goals omega

theorem wide_step {before : Option Pending} {byte : ℕ} {after : Pending}
    (hwide : ∀ pending ∈ before, pending.Wide) (hstep : (step before byte).2 = some after) :
    after.Wide := by
  cases before with
  | none => exact wide_start hstep
  | some pending =>
      have hpending := hwide pending rfl
      rw [step_some] at hstep
      split at hstep
      next hrange =>
        obtain ⟨hlow, hbits⟩ := hpending
        cases hmore : pending.more with
        | zero => simp [hmore] at hstep
        | succ more =>
            simp only [hmore, Option.some.injEq] at hstep
            subst hstep
            refine ⟨le_refl _, ?_⟩
            rw [hmore] at hbits
            calc 0x80 ≤ (pending.bits * 64 + (pending.low - 0x80)) * 64 ^ (more + 1) := hbits
              _ ≤ (pending.bits * 64 + (byte - 0x80)) * 64 ^ (more + 1) :=
                  Nat.mul_le_mul_right _ (by omega)
              _ = _ := by rw [Nat.sub_self, Nat.add_zero, pow_succ']; ring
      next => exact wide_start hstep

/-- A character that is being read ends outside of ASCII. -/
theorem not_ascii_step_pending {pending : Pending} (hwide : pending.Wide) {byte : ℕ}
    (hascii : Ascii (step (some pending) byte).1) : (step (some pending) byte).2.isSome := by
  rw [step_some] at hascii ⊢
  split at hascii
  next hrange =>
    obtain ⟨hlow, hbits⟩ := hwide
    rw [if_pos hrange]
    cases hmore : pending.more with
    | zero =>
        rw [hmore, pow_zero, mul_one] at hbits
        simp only [hmore] at hascii
        have hchar := hascii (scalar _) List.mem_cons_self
        exact absurd hchar (not_ascii_scalar (by omega))
    | succ more => rfl
  next =>
    exact absurd (hascii replacement List.mem_cons_self) not_ascii_replacement

theorem not_ascii_decode_pending :
    ∀ {bytes : List UInt8} {pending : Pending}, pending.Wide →
      ¬ Ascii (decode (some pending) bytes)
  | [], pending, _, hascii => not_ascii_replacement (hascii replacement List.mem_cons_self)
  | byte :: bytes, pending, hwide, hascii => by
      have hhead : Ascii (step (some pending) byte.toNat).1 := fun c hc =>
        hascii c (List.mem_append_left _ hc)
      have htail : Ascii (decode (step (some pending) byte.toNat).2 bytes) := fun c hc =>
        hascii c (List.mem_append_right _ hc)
      obtain ⟨next, hnext⟩ := Option.isSome_iff_exists.1 (not_ascii_step_pending hwide hhead)
      rw [hnext] at htail
      refine not_ascii_decode_pending (wide_step ?_ hnext) htail
      rintro _ ⟨⟩
      exact hwide

theorem start_of_ascii {byte : ℕ} (hascii : Ascii (start byte).1)
    (hnone : (start byte).2 = none) : byte < 0x80 ∧ (start byte).1 = [scalar byte] := by
  unfold start at hascii hnone ⊢
  by_cases hbyte : byte < 0x80
  · simp [hbyte]
  · simp only [hbyte, if_false] at hascii hnone
    repeat' split at hnone
    all_goals try cases hnone
    rename_i h1 h2 h3 h4 h5 h6 h7
    simp only [h1, h2, h3, h4, h5, h6, h7, if_false] at hascii
    exact absurd (hascii replacement List.mem_cons_self) not_ascii_replacement

/-- A decoded text of ASCII characters is the bytes themselves. -/
theorem bytes_of_ascii : ∀ {bytes : List UInt8}, Ascii (fromLossy bytes) →
    (fromLossy bytes).map Char.toNat = bytes.map UInt8.toNat
  | [], _ => rfl
  | byte :: bytes, hascii => by
      have hhead : Ascii (start byte.toNat).1 := fun c hc => hascii c (List.mem_append_left _ hc)
      have htail : Ascii (decode (start byte.toNat).2 bytes) := fun c hc =>
        hascii c (List.mem_append_right _ hc)
      have hunfold : fromLossy (byte :: bytes) =
          (start byte.toNat).1 ++ decode (start byte.toNat).2 bytes := rfl
      cases hnext : (start byte.toNat).2 with
      | some pending =>
          rw [hnext] at htail
          exact absurd htail (not_ascii_decode_pending (wide_start hnext))
      | none =>
          obtain ⟨hbyte, hchar⟩ := start_of_ascii hhead hnext
          rw [hnext] at htail
          rw [hunfold, hchar, hnext, List.map_append, List.map_cons, List.map_nil,
            toNat_scalar hbyte, List.map_cons]
          exact congrArg _ (bytes_of_ascii htail)

end Utf8
