/-
Module: OrdDogecoin.Tap.ValueCodec
Purpose: The values of the TAP store as bytes.  `tap_encode_value` writes a string with an internal marker
  as its Node bytes, any other value with one as JSON text, and all others as CBOR; `tap_decode_value`
  tries CBOR, then JSON, then takes the text itself.
Trusted boundary: `ciborium` and the `serde` implementations of a stored type are the fields of `TypeCodec`;
  `serde_json` reads a text by `serdeFromStr` (1.0.151 without features: objects are sorted maps, 128
  levels), and reading a literal as a double is a parameter (`NumberLib`)
Main exports: jsJsonStringify, tapDecodeValue, StringRows
-/
import OrdDogecoin.Tap.JsStrings
import OrdDogecoin.Lib.ByteText

namespace OrdDogecoin.Tap

/-! ### Writing -/

mutual

def jsJsonStringify : Json → Text
  | .null => "null".toList
  | .bool true => "true".toList
  | .bool false => "false".toList
  | .number text => text
  | .double text => text
  | .string text => jsJsonStringifyStr text
  | .array items => '[' :: (jsJsonItems items ++ [']'])
  | .object fields => '\x7b' :: (jsJsonMembers fields ++ ['\x7d'])

def jsJsonItems : List Json → Text
  | [] => []
  | [item] => jsJsonStringify item
  | item :: items => jsJsonStringify item ++ ',' :: jsJsonItems items

def jsJsonMembers : List (Text × Json) → Text
  | [] => []
  | [(key, value)] => jsJsonStringifyStr key ++ ':' :: jsJsonStringify value
  | (key, value) :: fields =>
      jsJsonStringifyStr key ++ ':' :: (jsJsonStringify value ++ ',' :: jsJsonMembers fields)

end

attribute [grind =] jsJsonStringify jsJsonItems jsJsonMembers

def jsStringContainsInternalMarker (text : Text) : Bool := text.any isJsInternalMarkerChar

mutual

def jsValueContainsInternalMarker : Json → Bool
  | .string text => jsStringContainsInternalMarker text
  | .array items => itemsContainInternalMarker items
  | .object fields => fieldsContainInternalMarker fields
  | _ => false

def itemsContainInternalMarker : List Json → Bool
  | [] => false
  | item :: items => jsValueContainsInternalMarker item || itemsContainInternalMarker items

def fieldsContainInternalMarker : List (Text × Json) → Bool
  | [] => false
  | (key, value) :: fields =>
      (jsStringContainsInternalMarker key || jsValueContainsInternalMarker value) ||
        fieldsContainInternalMarker fields

end

/-- A part of a string in `append_js_node_utf8_bytes`. -/
def Piece.nodeBytes : Piece → List UInt8
  | .char c => String.utf8EncodeChar c
  | .marker kind value =>
      if kind = 's' then String.utf8EncodeChar Utf8.replacement
      else ((charFromU32 value).map String.utf8EncodeChar).getD []

/-- `js_string_node_utf8_bytes`. -/
def jsStringNodeUtf8Bytes (text : Text) : List UInt8 :=
  if markerStart ∈ text then (pieces text).flatMap Piece.nodeBytes else Utf8.encode text

/-! ### Reading numbers -/

/-- A number literal of JSON. -/
structure NumberLiteral where
  negative : Bool
  digits : Text
  fraction : Text
  exponent : Text
deriving DecidableEq, Repr

def NumberLiteral.text (literal : NumberLiteral) : Text :=
  (if literal.negative then ['-'] else []) ++ literal.digits ++ literal.fraction ++ literal.exponent

/-- The digits at the front of a text, at least one. -/
def lexDigits (text : Text) : Option (Text × Text) :=
  if (text.takeWhile Char.isDigit).isEmpty then none
  else some (text.takeWhile Char.isDigit, text.dropWhile Char.isDigit)

/-- The part before the dot: no digit follows a leading zero. -/
def lexInteger (text : Text) : Option (Text × Text) := do
  let (digits, rest) ← lexDigits text
  if digits.head? = some '0' ∧ digits.length ≠ 1 then none else some (digits, rest)

def lexFraction : Text → Option (Text × Text)
  | '.' :: rest => (lexDigits rest).map fun found => ('.' :: found.1, found.2)
  | rest => some ([], rest)

def lexSign : Text → Text × Text
  | '+' :: rest => (['+'], rest)
  | '-' :: rest => (['-'], rest)
  | rest => ([], rest)

/-- An exponent with its letter, or nothing. -/
def lexExponent : Text → Option (Text × Text)
  | [] => some ([], [])
  | c :: rest =>
      if c = 'e' ∨ c = 'E' then
        (lexDigits (lexSign rest).2).map fun found => (c :: ((lexSign rest).1 ++ found.1), found.2)
      else some ([], c :: rest)

def lexMinus : Text → Bool × Text
  | '-' :: rest => (true, rest)
  | rest => (false, rest)

def lexNumber (text : Text) : Option (NumberLiteral × Text) := do
  let (digits, rest) ← lexInteger (lexMinus text).2
  let (fraction, rest) ← lexFraction rest
  let (exponent, rest) ← lexExponent rest
  some
    ({ negative := (lexMinus text).1, digits := digits, fraction := fraction, exponent := exponent },
      rest)

/-- Reading a literal as a double. -/
structure NumberLib where
  /-- What JavaScript prints for the double; `none` when the literal is out of range. -/
  readDouble : Text → Option Text

/-- The value of a literal: an integer that fits `u64` or `i64`, otherwise a double; `-0` is a double. -/
def NumberLiteral.value (lib : NumberLib) (literal : NumberLiteral) : Option Json :=
  let double := (lib.readDouble literal.text).map Json.double
  if literal.fraction.isEmpty && literal.exponent.isEmpty then
    match parseDigits literal.digits with
    | none => none
    | some n =>
        if literal.negative then
          if 0 < n ∧ n ≤ 2 ^ 63 then some (.number ('-' :: literal.digits)) else double
        else if n < 2 ^ 64 then some (.number literal.digits)
        else double
  else double

/-! ### Reading values -/

def skipSpace (text : Text) : Text := text.dropWhile isJsonWhitespace

/-- A literal behind its opening quote, as `serde_json` reads it. -/
def readString (body : Text) : Option (Text × Text) := do
  let (tokens, rest) ← lexLiteral body
  let text ← serdeChars tokens
  some (text, rest)

/-- A value that is no array and no object. -/
def readScalar (lib : NumberLib) : Text → Option (Json × Text)
  | 'n' :: 'u' :: 'l' :: 'l' :: rest => some (.null, rest)
  | 't' :: 'r' :: 'u' :: 'e' :: rest => some (.bool true, rest)
  | 'f' :: 'a' :: 'l' :: 's' :: 'e' :: rest => some (.bool false, rest)
  | '"' :: body => (readString body).map fun found => (.string found.1, found.2)
  | text => do
      let (literal, rest) ← lexNumber text
      let value ← literal.value lib
      some (value, rest)

def insertMember (key : Text) (value : Json) : List (Text × Json) → List (Text × Json)
  | [] => [(key, value)]
  | field :: fields =>
      if key = field.1 then (key, value) :: fields
      else if key < field.1 then (key, value) :: field :: fields
      else field :: insertMember key value fields

/-- The map of some members, the last one of a name wins. -/
def collectMembers (members : List (Text × Json)) : List (Text × Json) :=
  members.foldl (fun fields member => insertMember member.1 member.2 fields) []

section Read

variable (read : Text → Option (Json × Text))

/-- The items of an array up to its end; every item takes a character, so a count bounds them. -/
def readItems : ℕ → Text → Option (List Json × Text)
  | 0, _ => none
  | count + 1, text => do
      let (item, rest) ← read (skipSpace text)
      match skipSpace rest with
      | ',' :: rest => (readItems count rest).map fun found => (item :: found.1, found.2)
      | ']' :: rest => some ([item], rest)
      | _ => none

/-- A member of an object, from its opening quote. -/
def readMember : Text → Option ((Text × Json) × Text)
  | '"' :: body => do
      let (key, rest) ← readString body
      match skipSpace rest with
      | ':' :: rest => (read (skipSpace rest)).map fun found => ((key, found.1), found.2)
      | _ => none
  | _ => none

/-- The members of an object up to its end. -/
def readMembers : ℕ → Text → Option (List (Text × Json) × Text)
  | 0, _ => none
  | count + 1, text => do
      let (member, rest) ← readMember read (skipSpace text)
      match skipSpace rest with
      | ',' :: rest => (readMembers count rest).map fun found => (member :: found.1, found.2)
      | '\x7d' :: rest => some ([member], rest)
      | _ => none

/-- What follows the opening bracket of an array. -/
def readArray (text : Text) : Option (Json × Text) :=
  match skipSpace text with
  | ']' :: rest => some (.array [], rest)
  | _ => (readItems read text.length text).map fun found => (.array found.1, found.2)

/-- What follows the opening brace of an object. -/
def readObject (text : Text) : Option (Json × Text) :=
  match skipSpace text with
  | '\x7d' :: rest => some (.object [], rest)
  | _ =>
      (readMembers read text.length text).map fun found => (.object (collectMembers found.1), found.2)

end Read

/-- A value that is nested in at most so many more arrays and objects. -/
def readValue (lib : NumberLib) : ℕ → Text → Option (Json × Text)
  | 0, text => readScalar lib text
  | limit + 1, text =>
      match text with
      | '[' :: rest => readArray (readValue lib limit) rest
      | '\x7b' :: rest => readObject (readValue lib limit) rest
      | _ => readScalar lib text

/-- The nesting `serde_json` reads: the 128th level is an error. -/
def nestingLimit : ℕ := 127

/-- `serde_json::from_str`, up to the type that is read: one JSON value, with nothing behind it but white
space. -/
def serdeFromStr (lib : NumberLib) (text : Text) : Option Json := do
  let (value, rest) ← readValue lib nestingLimit (skipSpace text)
  if rest.all isJsonWhitespace then some value else none

/-! ### Storing -/

/-- A type of the store: its `serde` implementations, for JSON values and for CBOR. -/
structure TypeCodec (T : Type) where
  toValue : T → Json
  fromValue : Json → Option T
  cborWrite : T → List UInt8
  cborRead : List UInt8 → Option T

section Codec

variable {T : Type} (codec : TypeCodec T)

def tapEncodeValue (value : T) : List UInt8 :=
  match codec.toValue value with
  | .string text =>
      if jsStringContainsInternalMarker text then jsStringNodeUtf8Bytes text else codec.cborWrite value
  | json =>
      if jsValueContainsInternalMarker json then Utf8.encode (jsJsonStringify json)
      else codec.cborWrite value

/-- `std::str::from_utf8`. -/
def fromUtf8 (bytes : List UInt8) : Option Text :=
  (String.fromUTF8? bytes.toByteArray).map String.toList

def tapDecodeValue (lib : NumberLib) (bytes : List UInt8) : Option T :=
  match codec.cborRead bytes with
  | some value => some value
  | none => do
      let raw ← fromUtf8 bytes
      ((serdeFromStr lib (preprocessJsJsonForSerde raw)).bind codec.fromValue).or
        (codec.fromValue (.string raw))

end Codec

/-! ### Rows that hold a text -/

def cborWriteText (text : Text) : List UInt8 :=
  let bytes := Utf8.encode text
  let size := bytes.length
  (if size < 24 then [UInt8.ofNat (0x60 + size)]
    else if size < 2 ^ 8 then 0x78 :: ByteText.toBeBytes 1 size
    else if size < 2 ^ 16 then 0x79 :: ByteText.toBeBytes 2 size
    else if size < 2 ^ 32 then 0x7a :: ByteText.toBeBytes 4 size
    else 0x7b :: ByteText.toBeBytes 8 size) ++ bytes

/-- The bytes of the length behind a head. -/
def cborTextWidth (head : UInt8) : Option ℕ :=
  if head = 0x78 then some 1
  else if head = 0x79 then some 2
  else if head = 0x7a then some 4
  else if head = 0x7b then some 8
  else none

/-- The size of the text at the front of some bytes, and what follows its head. -/
def cborTextSize : List UInt8 → Option (ℕ × List UInt8)
  | [] => none
  | head :: bytes =>
      if 0x60 ≤ head ∧ head < 0x78 then some (head.toNat - 0x60, bytes)
      else
        (cborTextWidth head).bind fun width =>
          if bytes.length < width then none
          else some (ByteText.ofBeBytes (bytes.take width), bytes.drop width)

/-- The text at the front of some bytes, of a known size. -/
def cborReadText (bytes : List UInt8) : Option (Text × List UInt8) :=
  (cborTextSize bytes).bind fun found =>
    if found.2.length < found.1 then none
    else (fromUtf8 (found.2.take found.1)).map fun text => (text, found.2.drop found.1)

/-- `String` in the store. -/
def stringCodec : TypeCodec Text where
  toValue := .string
  fromValue
    | .string text => some text
    | _ => none
  cborWrite := cborWriteText
  cborRead bytes := (cborReadText bytes).map Prod.fst

/-- Doubles that are written as JavaScript prints them. -/
def printedDoubles : NumberLib where
  readDouble text := some text

/-- What it depends on which text is read from a row that holds a text alone. -/
structure StringRows where
  codec : TypeCodec Text
  numbers : NumberLib

/-- `tap_get::<String>` of a row that was written with a text: one without a marker is written and read
by `ciborium`. -/
def StringRows.read (rows : StringRows) (text : Text) : Option Text :=
  if jsStringContainsInternalMarker text then
    tapDecodeValue rows.codec rows.numbers (jsStringNodeUtf8Bytes text)
  else some text

theorem StringRows.read_of_plain (rows : StringRows) {text : Text}
    (hplain : jsStringContainsInternalMarker text = false) : rows.read text = some text := by
  unfold StringRows.read
  rw [hplain]
  rfl

def storedStrings : StringRows where
  codec := stringCodec
  numbers := printedDoubles

end OrdDogecoin.Tap
