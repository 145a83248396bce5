/-
Module: OrdDogecoin.Lib.ByteText
Purpose: Byte strings as text: unpadded URL-safe Base64, lower-case hexadecimal, and big-endian
  integers of a fixed width.  Each codec reads back what it wrote.  The first digit of a decimal text.
Trusted boundary: none
Main exports: encode64, ofBeBytes, head_toDigits
-/
import OrdDogecoin.Lib.LittleEndian

namespace ByteText

/-! ### Base64 -/

/-- The URL-safe alphabet. -/
def alphabet : List Char :=
  "ABCDEFGHIJKLMNOPQRSTUVWXYZabcdefghijklmnopqrstuvwxyz0123456789-_".toList

/-- The symbol of a six-bit value. -/
def symbol (n : ℕ) : Char := alphabet.getD n 'A'

def symbolValue (c : Char) : Option ℕ := alphabet.findIdx? (· = c)

/-- `URL_SAFE_NO_PAD` of the base64 crate: three bytes become four symbols; one or two bytes at
the end become two or three. -/
def encode64 : List UInt8 → List Char
  | [] => []
  | [a] => [symbol (a.toNat / 4), symbol (a.toNat % 4 * 16)]
  | [a, b] =>
      [symbol (a.toNat / 4), symbol (a.toNat % 4 * 16 + b.toNat / 16), symbol (b.toNat % 16 * 4)]
  | a :: b :: c :: bytes =>
      symbol (a.toNat / 4) :: symbol (a.toNat % 4 * 16 + b.toNat / 16) ::
        symbol (b.toNat % 16 * 4 + c.toNat / 64) :: symbol (c.toNat % 64) :: encode64 bytes

/-- A single symbol at the end, or bits behind the last byte that are not zero, are an error. -/
def decode64 : List Char → Option (List UInt8)
  | [] => some []
  | [_] => none
  | [w, x] => do
      let w ← symbolValue w
      let x ← symbolValue x
      if x % 16 = 0 then some [UInt8.ofNat (w * 4 + x / 16)] else none
  | [w, x, y] => do
      let w ← symbolValue w
      let x ← symbolValue x
      let y ← symbolValue y
      if y % 4 = 0 then
        some [UInt8.ofNat (w * 4 + x / 16), UInt8.ofNat (x % 16 * 16 + y / 4)]
      else none
  | w :: x :: y :: z :: text => do
      let w ← symbolValue w
      let x ← symbolValue x
      let y ← symbolValue y
      let z ← symbolValue z
      let bytes ← decode64 text
      some (UInt8.ofNat (w * 4 + x / 16) :: UInt8.ofNat (x % 16 * 16 + y / 4) ::
        UInt8.ofNat (y % 4 * 64 + z) :: bytes)

theorem symbolValue_symbol {n : ℕ} (hn : n < 64) : symbolValue (symbol n) = some n := by
  have hall : ∀ m < 64, symbolValue (symbol m) = some m := by decide
  exact hall n hn

theorem ofNat_eq (byte : UInt8) {n : ℕ} (hn : n = byte.toNat) : UInt8.ofNat n = byte := by
  rw [hn]
  exact UInt8.ofNat_toNat

/-- Decoding what was encoded gives the bytes back. -/
theorem decode64_encode64 (bytes : List UInt8) : decode64 (encode64 bytes) = some bytes := by
  induction bytes using encode64.induct with
  | case1 => rfl
  | case2 a =>
      have ha := a.toNat_lt
      rw [encode64, decode64, symbolValue_symbol (by omega), symbolValue_symbol (by omega)]
      simp only [Option.bind_eq_bind, Option.bind_some]
      rw [if_pos (by omega), ofNat_eq a (by omega)]
  | case3 a b =>
      have ha := a.toNat_lt
      have hb := b.toNat_lt
      rw [encode64, decode64, symbolValue_symbol (by omega), symbolValue_symbol (by omega),
        symbolValue_symbol (by omega)]
      simp only [Option.bind_eq_bind, Option.bind_some]
      rw [if_pos (by omega), ofNat_eq a (by omega), ofNat_eq b (by omega)]
  | case4 a b c bytes ih =>
      have ha := a.toNat_lt
      have hb := b.toNat_lt
      have hc := c.toNat_lt
      rw [encode64, decode64, symbolValue_symbol (by omega), symbolValue_symbol (by omega),
        symbolValue_symbol (by omega), symbolValue_symbol (by omega), ih]
      simp only [Option.bind_eq_bind, Option.bind_some]
      rw [ofNat_eq a (by omega), ofNat_eq b (by omega),
        ofNat_eq c (by omega)]

/-- `n` bytes become `⌈4 n / 3⌉` symbols. -/
theorem length_encode64 (bytes : List UInt8) :
    (encode64 bytes).length = (bytes.length * 4 + 2) / 3 := by
  induction bytes using encode64.induct with
  | case1 => rfl
  | case2 a => simp [encode64]
  | case3 a b => simp [encode64]
  | case4 a b c bytes ih =>
      simp only [encode64, List.length_cons, ih]
      omega

theorem symbol_mem (n : ℕ) : symbol n ∈ alphabet := by
  unfold symbol
  rw [List.getD_eq_getElem?_getD]
  cases hfound : alphabet[n]? with
  | none => decide
  | some c => exact List.mem_of_getElem? hfound

theorem encode64_subset (bytes : List UInt8) : ∀ c ∈ encode64 bytes, c ∈ alphabet := by
  induction bytes using encode64.induct with
  | case1 => simp [encode64]
  | case2 a => simp [encode64, symbol_mem]
  | case3 a b => simp [encode64, symbol_mem]
  | case4 a b c bytes ih =>
      simp only [encode64, List.forall_mem_cons, symbol_mem, true_and]
      exact ih

/-! ### Hexadecimal -/

/-- A lower-case digit. -/
def hexSymbol (n : ℕ) : Char := "0123456789abcdef".toList.getD n '0'

/-- The value of a digit of either case. -/
def hexValue (c : Char) : Option ℕ :=
  ("0123456789abcdef".toList.findIdx? (· = c)).or ("0123456789ABCDEF".toList.findIdx? (· = c))

def encodeHex (bytes : List UInt8) : List Char :=
  bytes.flatMap fun byte => [hexSymbol (byte.toNat / 16), hexSymbol (byte.toNat % 16)]

/-- Two digits a byte; an odd digit at the end is an error. -/
def decodeHex : List Char → Option (List UInt8)
  | [] => some []
  | [_] => none
  | high :: low :: text => do
      let high ← hexValue high
      let low ← hexValue low
      let bytes ← decodeHex text
      some (UInt8.ofNat (high * 16 + low) :: bytes)

theorem hexValue_hexSymbol {n : ℕ} (hn : n < 16) : hexValue (hexSymbol n) = some n := by
  have hall : ∀ m < 16, hexValue (hexSymbol m) = some m := by decide
  exact hall n hn

theorem decodeHex_encodeHex (bytes : List UInt8) : decodeHex (encodeHex bytes) = some bytes := by
  induction bytes with
  | nil => rfl
  | cons byte bytes ih =>
      have hbyte := byte.toNat_lt
      rw [encodeHex, List.flatMap_cons, ← encodeHex, List.cons_append, List.cons_append,
        List.nil_append, decodeHex, hexValue_hexSymbol (by omega), hexValue_hexSymbol (by omega), ih]
      simp only [Option.bind_eq_bind, Option.bind_some]
      rw [ofNat_eq byte (by omega)]

/-- The `width` low bytes of a number, most significant first. -/
def toBeBytes (width n : ℕ) : List UInt8 := (LittleEndian.toLeBytes width n).reverse

def ofBeBytes (bytes : List UInt8) : ℕ := LittleEndian.ofLeBytes bytes.reverse

@[simp] theorem length_toBeBytes (width n : ℕ) : (toBeBytes width n).length = width := by
  rw [toBeBytes, List.length_reverse, LittleEndian.length_toLeBytes]

theorem ofBeBytes_toBeBytes {width n : ℕ} (hn : n < 256 ^ width) :
    ofBeBytes (toBeBytes width n) = n := by
  rw [ofBeBytes, toBeBytes, List.reverse_reverse, LittleEndian.ofLeBytes_toLeBytes,
    Nat.mod_eq_of_lt hn]

/-! ### Decimal digits -/

/-- The decimal text of a positive number starts with a digit from one to nine. -/
theorem head_toDigits {n : ℕ} (hn : 0 < n) :
    ∃ first rest, Nat.toDigits 10 n = first :: rest ∧ '1' ≤ first ∧ first ≤ '9' := by
  induction n using Nat.strongRecOn with
  | ind n ih =>
      rw [Nat.toDigits_eq_if (by decide)]
      split
      next hlt =>
        have hdigit : ∀ d < 10, 0 < d → '1' ≤ d.digitChar ∧ d.digitChar ≤ '9' := by decide
        exact ⟨_, _, rfl, (hdigit n hlt hn).1, (hdigit n hlt hn).2⟩
      next hge =>
        obtain ⟨first, rest, hdigits, hlow, hhigh⟩ := ih (n / 10) (by omega) (by omega)
        rw [hdigits]
        exact ⟨first, rest ++ [(n % 10).digitChar], rfl, hlow, hhigh⟩

end ByteText
