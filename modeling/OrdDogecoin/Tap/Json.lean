/-
Module: OrdDogecoin.Tap.Json
Purpose: The JSON values of TAP inscriptions and the JavaScript number rules the engine reads them
  with: `String(value)`, `parseInt`, and the decimal amounts of a token.
Trusted boundary: a JSON number is the text that JavaScript prints for it, and whether it is read as an
  integer or as a double
Main exports: Json, Json.render, Json.body
-/
import Mathlib.Algebra.Order.Ring.Nat
import Mathlib.Data.List.Basic
import Mathlib.Data.Int.Basic

namespace OrdDogecoin.Tap

/-- A string of the engine. -/
abbrev Text := List Char

scoped instance lawfulBEq_text : LawfulBEq Text := inferInstance

/-- `serde_json::Value`: a number that fits an `i64` or a `u64` is a `number`, any other (a fraction, an
exponent, `-0`) a `double`. -/
inductive Json where
  | null
  | bool (value : Bool)
  | number (text : Text)
  | double (text : Text)
  | string (text : Text)
  | array (items : List Json)
  | object (fields : List (Text × Json))
deriving Repr

namespace Json

/-- `Value::get` with a key. -/
def get (json : Json) (key : String) : Option Json :=
  match json with
  | .object fields => (fields.find? fun field => field.1 = key.toList).map Prod.snd
  | _ => none

def asStr : Json → Option Text
  | .string text => some text
  | _ => none

def asArray : Json → Option (List Json)
  | .array items => some items
  | _ => none

def isNull : Json → Bool
  | .null => true
  | _ => false

def isNumber : Json → Bool
  | .number _ | .double _ => true
  | _ => false

def isObject : Json → Bool
  | .object _ => true
  | _ => false

def fields : Json → List (Text × Json)
  | .object fields => fields
  | _ => []

/-- The text of a field, empty when it is missing or no string. -/
def text (json : Json) (key : String) : Text := ((json.get key).bind asStr).getD []

/-- Replace the value of a field through `get_mut`. -/
def set (json : Json) (key : String) (value : Json) : Json :=
  match json with
  | .object fields =>
      .object (fields.map fun field => if field.1 = key.toList then (field.1, value) else field)
  | other => other

end Json

theorem Json.text_eq {json field : Json} {key : String} {text : Text} (hfield : json.get key = some field)
    (htext : field.asStr = some text) : json.text key = text := by
  unfold Json.text
  rw [hfield, Option.bind_some, htext]
  rfl

/-- Replacing a field leaves the others alone. -/
theorem Json.get_set_of_ne {key other : String} (hne : other ≠ key) (json value : Json) :
    (json.set key value).get other = json.get other := by
  cases json with
  | object fields =>
      simp only [Json.set, Json.get, List.find?_map, Option.map_map]
      have hkeys : ((fun field : Text × Json => decide (field.1 = other.toList)) ∘
          fun field => if field.1 = key.toList then (field.1, value) else field) =
          fun field => decide (field.1 = other.toList) := by
        funext field
        simp only [Function.comp_apply]
        split <;> rfl
      rw [hkeys]
      cases hfound : fields.find? fun field => decide (field.1 = other.toList) with
      | none => rfl
      | some field =>
          have hfield : field.1 = other.toList := by simpa using List.find?_some hfound
          have hother : field.1 ≠ key.toList := by
            rw [hfield]
            exact fun hsame => hne (String.toList_injective hsame)
          simp [hother]
  | _ => rfl

/-! ### JavaScript conversions -/

mutual

def jsValueToString : Json → Text
  | .null => "null".toList
  | .bool true => "true".toList
  | .bool false => "false".toList
  | .number text => text
  | .double text => text
  | .string text => text
  | .array items => jsArrayToString items
  | .object _ => "[object Object]".toList

/-- `js_array_to_string`: the items joined by commas, a null as the empty text. -/
def jsArrayToString : List Json → Text
  | [] => []
  | [item] => if item.isNull then [] else jsValueToString item
  | item :: items =>
      (if item.isNull then [] else jsValueToString item) ++ ',' :: jsArrayToString items

end

def isJsWhitespace (c : Char) : Bool :=
  let n := c.toNat
  (9 ≤ n && n ≤ 13) || n = 0x20 || n = 0xa0 || n = 0x1680 || (0x2000 ≤ n && n ≤ 0x200a) ||
    n = 0x2028 || n = 0x2029 || n = 0x202f || n = 0x205f || n = 0x3000 || n = 0xfeff

def trimJsWhitespace (text : Text) : Text :=
  ((text.dropWhile isJsWhitespace).reverse.dropWhile isJsWhitespace).reverse

def toDigit (radix : ℕ) (c : Char) : Option ℕ :=
  let n := c.toNat
  let digit :=
    if 48 ≤ n ∧ n ≤ 57 then n - 48
    else if 97 ≤ n ∧ n ≤ 122 then n - 87
    else if 65 ≤ n ∧ n ≤ 90 then n - 55
    else radix
  if digit < radix then some digit else none

theorem toDigit_digitChar : ∀ digit < 16, toDigit 16 digit.digitChar = some digit := by decide

/-- `i128::MAX`. -/
def maxI128 : ℕ := 2 ^ 127 - 1

/-- The leading digits of a text, saturating at `i128::MAX`; `none` when there is none. -/
def leadingNumber (radix : ℕ) : Option ℕ → Text → Option ℕ
  | acc, [] => acc
  | acc, c :: text =>
      match toDigit radix c with
      | none => acc
      | some digit =>
          leadingNumber radix (some (min (min (acc.getD 0 * radix) maxI128 + digit) maxI128)) text

def jsParseIntWithString (json : Json) : Option (ℤ × Text) :=
  let printed := jsValueToString json
  let trimmed := printed.dropWhile isJsWhitespace
  let (negative, digits) := match trimmed with
    | '-' :: rest => (true, rest)
    | '+' :: rest => (false, rest)
    | rest => (false, rest)
  let number := match digits with
    | '0' :: 'x' :: rest => leadingNumber 16 none rest
    | '0' :: 'X' :: rest => leadingNumber 16 none rest
    | rest => leadingNumber 10 none rest
  number.map fun n => (if negative then -(n : ℤ) else n, printed)

def jsParseInt (json : Json) : Option ℤ := (jsParseIntWithString json).map Prod.fst

/-! ### Amounts -/

/-- The number written by decimal digits; every other text is no number. -/
def parseDigits (text : Text) : Option ℕ :=
  if text.isEmpty || text.any (fun c => !c.isDigit) then none
  else some (text.foldl (fun n c => 10 * n + (c.toNat - 48)) 0)

/-- The decimal text of a number is read back. -/
theorem parseDigits_toDigits (n : ℕ) : parseDigits (Nat.toDigits 10 n) = some n := by
  have hdigits : ∀ c ∈ Nat.toDigits 10 n, c.isDigit = true := fun c hc =>
    Nat.isDigit_of_mem_toDigits (by decide) (by decide) hc
  have hany : (Nat.toDigits 10 n).any (fun c => !c.isDigit) = false := by
    simpa using hdigits
  have hempty : (Nat.toDigits 10 n).isEmpty = false := by simp
  unfold parseDigits
  rw [hany, hempty]
  exact congrArg some Nat.ofDigitChars_ten_toDigits

def parseUsize (text : Text) : Option ℕ :=
  let parsed := match text with
    | '+' :: rest => parseDigits rest
    | _ => parseDigits text
  parsed.filter (· < 2 ^ 64)

theorem parseUsize_toDigits {n : ℕ} (hn : n < 2 ^ 64) : parseUsize (Nat.toDigits 10 n) = some n := by
  have hplus : ∀ rest, Nat.toDigits 10 n ≠ '+' :: rest := by
    intro rest hsplit
    have hdigit : ('+').isDigit = true :=
      Nat.isDigit_of_mem_toDigits (b := 10) (n := n) (by decide) (by decide) (by rw [hsplit]; simp)
    exact absurd hdigit (by decide)
  unfold parseUsize
  split
  next rest hsplit => exact absurd hsplit (hplus rest)
  next => simp only [parseDigits_toDigits, Option.filter_some, hn, decide_true, if_true]

theorem toDigits_injective : Function.Injective (Nat.toDigits 10) := by
  intro m n hsame
  have hread := parseDigits_toDigits m
  rw [hsame, parseDigits_toDigits] at hread
  exact (Option.some.inj hread).symm

/-- `i64::to_string`. -/
def intText : ℤ → Text
  | .ofNat n => Nat.toDigits 10 n
  | .negSucc n => '-' :: Nat.toDigits 10 (n + 1)

/-- `parse::<i64>`. -/
def parseI64 (text : Text) : Option ℤ :=
  let parsed := match text with
    | '-' :: rest => (parseDigits rest).map fun n => -(n : ℤ)
    | '+' :: rest => (parseDigits rest).map fun n => (n : ℤ)
    | _ => (parseDigits text).map fun n => (n : ℤ)
  parsed.filter fun n => -2 ^ 63 ≤ n ∧ n < 2 ^ 63

/-- A number that is not negative is printed by its decimal digits. -/
theorem intText_of_nonneg {n : ℤ} (hn : 0 ≤ n) : intText n = Nat.toDigits 10 n.toNat := by
  obtain ⟨m, rfl⟩ := Int.eq_ofNat_of_zero_le hn
  rfl

theorem lt_of_parseI64 {text : Text} {n : ℤ} (hparse : parseI64 text = some n) : n < 2 ^ 63 := by
  have hrange := (Option.filter_eq_some_iff.1 hparse).2
  exact (of_decide_eq_true hrange).2

/-- `is_valid_number`: digits with at most one dot. -/
def isValidNumber (text : Text) : Bool :=
  text.all (fun c => c.isDigit || c = '.') && text.count '.' ≤ 1

/-- `resolve_number_string`: the amount in the smallest unit of a token with `decimals` decimals,
without leading zeros. -/
def resolveNumberString (num : Text) (decimals : ℕ) : Option Text :=
  if !isValidNumber num then none
  else
    let intPart := num.takeWhile (· ≠ '.')
    let fracPart := (num.dropWhile (· ≠ '.')).drop 1
    let frac := (fracPart ++ List.replicate (decimals - fracPart.length) '0').take decimals
    let number := (if intPart = ['0'] then [] else intPart) ++ frac
    let stripped := number.dropWhile (· = '0')
    some (if stripped.isEmpty then ['0'] else stripped)

example : resolveNumberString "1.25".toList 1 = some "12".toList := by decide

/-! ### JSON texts -/

mutual

/-- The JSON text of a value without characters to escape. -/
def Json.render : Json → Text
  | .null => "null".toList
  | .bool true => "true".toList
  | .bool false => "false".toList
  | .number text => text
  | .double text => text
  | .string text => '"' :: (text ++ ['"'])
  | .array items => '[' :: (renderItems items ++ [']'])
  | .object fields => '\x7b' :: (renderFields fields ++ ['\x7d'])

def renderItems : List Json → Text
  | [] => []
  | [item] => item.render
  | item :: items => item.render ++ ',' :: renderItems items

def renderFields : List (Text × Json) → Text
  | [] => []
  | [(key, value)] => '"' :: (key ++ '"' :: ':' :: value.render)
  | (key, value) :: fields => '"' :: (key ++ '"' :: ':' :: (value.render ++ ',' :: renderFields fields))

end

/-- The UTF-8 bytes of an ASCII document. -/
def Json.body (json : Json) : List UInt8 := json.render.map fun c => c.toNat.toUInt8

end OrdDogecoin.Tap
