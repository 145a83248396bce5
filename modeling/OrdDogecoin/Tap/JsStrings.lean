/-
Module: OrdDogecoin.Tap.JsStrings
Purpose: JavaScript strings in the engine: `preprocess_js_json_for_serde` carries lone surrogates and the
  two marker characters through `serde_json` as in-band markers; lower-casing, `JSON.stringify` and the
  reading of a string walk over the markers.  Beside it, what the two readers of JSON make of a string
  literal: the code units that JavaScript reads, and the text that `serde_json` reads.
Trusted boundary: `serde_json` reads string literals by `lexLiteral` and `serdeChars`; Unicode lower-casing
  is a parameter (`CaseLib`)
Main exports: preprocessJsJsonForSerde, jsStrings, serdeStrings
-/
import OrdDogecoin.Tap.CanonicalJson
import OrdDogecoin.Lib.Utf8
import OrdDogecoin.Lib.Utf16

namespace OrdDogecoin.Tap

open Utf16

/-! ### Markers -/

/-- `JS_SURROGATE_MARKER_START`. -/
def markerStart : Char := Char.ofNat 0xe000

/-- `JS_SURROGATE_MARKER_END`. -/
def markerEnd : Char := Char.ofNat 0xe001

def isJsInternalMarkerChar (c : Char) : Bool := c = markerStart || c = markerEnd

/-- A number in lower-case hexadecimal digits, padded with zeros to a width it does not exceed. -/
def paddedHex : ℕ → ℕ → Text
  | 0, _ => []
  | width + 1, n => paddedHex width (n / 16) ++ [Nat.digitChar (n % 16)]

/-- The number written by hexadecimal digits of either case; every other text is no number. -/
def parseHex : Text → Option ℕ :=
  List.foldlM (fun n c => (toDigit 16 c).map fun digit => n * 16 + digit) 0

def jsInternalSurrogateMarker (code : ℕ) : Text :=
  markerStart :: 's' :: (paddedHex 4 code ++ [markerEnd])

def jsInternalScalarMarker (c : Char) : Text :=
  markerStart :: 'u' :: (paddedHex 6 c.toNat ++ [markerEnd])

/-- The digits of a marker of some kind, and the range of its value. -/
def markerShape (kind : Char) : Option (ℕ × ℕ × ℕ) :=
  if kind = 's' then some (4, 0xd800, 0xdfff)
  else if kind = 'u' then some (6, 0, 0x10ffff)
  else none

/-- `js_internal_marker_at` at the front of a text: the kind, the value, and what follows. -/
def jsInternalMarkerAt : Text → Option (Char × ℕ × Text)
  | start :: kind :: rest => do
      let (width, min, max) ← markerShape kind
      if start = markerStart ∧ (rest.drop width).head? = some markerEnd then
        let value ← parseHex (rest.take width)
        if value < min ∨ max < value then none else some (kind, value, rest.drop (width + 1))
      else none
  | _ => none

theorem length_of_jsInternalMarkerAt {text rest : Text} {kind : Char} {value : ℕ}
    (hmarker : jsInternalMarkerAt text = some (kind, value, rest)) : rest.length < text.length := by
  unfold jsInternalMarkerAt at hmarker
  split at hmarker
  next start mark tail =>
    obtain ⟨⟨width, min, max⟩, -, hmarker⟩ := Option.bind_eq_some_iff.1 hmarker
    dsimp only at hmarker
    split at hmarker
    · obtain ⟨number, -, hmarker⟩ := Option.bind_eq_some_iff.1 hmarker
      split at hmarker
      · cases hmarker
      · cases hmarker
        simp only [List.length_drop, List.length_cons]
        omega
    · cases hmarker
  next => cases hmarker

/-! ### Preprocessing -/

/-- `parse_u_escape` at the front of a text. -/
def parseUEscape : Text → Option ℕ
  | '\\' :: 'u' :: rest => if rest.length < 4 then none else parseHex (rest.take 4)
  | _ => none

/-- The bytes of a character as characters of their own, as the copy outside of strings makes them. -/
def bytesAsChars (c : Char) : Text :=
  (String.utf8EncodeChar c).map fun byte => Char.ofNat byte.toNat

/-- The loop of `preprocess_js_json_for_serde`. -/
def preprocess (inString : Bool) (text : Text) : Text :=
  match text with
  | [] => []
  | c :: rest =>
      if inString = false then bytesAsChars c ++ preprocess (c = '"') rest
      else if c = '"' then '"' :: preprocess false rest
      else if c = '\\' then
        match parseUEscape (c :: rest) with
        | some code =>
            if IsHigh code then
              match parseUEscape (rest.drop 5) with
              | some next =>
                  if IsLow next then
                    (c :: rest).take 12 ++ preprocess true (rest.drop 11)
                  else jsInternalSurrogateMarker code ++ preprocess true (rest.drop 5)
              | none => jsInternalSurrogateMarker code ++ preprocess true (rest.drop 5)
            else if IsLow code then jsInternalSurrogateMarker code ++ preprocess true (rest.drop 5)
            else if isJsInternalMarkerChar (Char.ofNat code) then
              jsInternalScalarMarker (Char.ofNat code) ++ preprocess true (rest.drop 5)
            else (c :: rest).take 6 ++ preprocess true (rest.drop 5)
        | none =>
            match rest with
            | [] => ['\\']
            | escaped :: rest => '\\' :: escaped :: preprocess true rest
      else if isJsInternalMarkerChar c then jsInternalScalarMarker c ++ preprocess true rest
      else c :: preprocess true rest
termination_by text.length
decreasing_by all_goals simp only [List.length_cons, List.length_drop]; omega

def preprocessJsJsonForSerde (raw : Text) : Text := preprocess false raw

/-! ### Walking over the markers -/

/-- A part of a string: a character, or a marker with its kind and value. -/
inductive Piece where
  | char (c : Char)
  | marker (kind : Char) (value : ℕ)
deriving DecidableEq, Repr

/-- The parts of a string, as the loops over it find them. -/
def pieces (text : Text) : List Piece :=
  match text with
  | [] => []
  | c :: rest =>
      match _hmarker : jsInternalMarkerAt (c :: rest) with
      | some (kind, value, next) => .marker kind value :: pieces next
      | none => .char c :: pieces rest
termination_by text.length
decreasing_by
  · exact length_of_jsInternalMarkerAt _hmarker
  · simp

/-- The loops of `js_to_lowercase` and `js_json_stringify_str`: the characters between two markers are
gathered in a segment, which is written before the marker. -/
def walkSegments (onSegment : Text → Text) (onMarker : Char → ℕ → Text) : Text → List Piece → Text
  | segment, [] => onSegment segment
  | segment, .char c :: pieces => walkSegments onSegment onMarker (segment ++ [c]) pieces
  | segment, .marker kind value :: pieces =>
      onSegment segment ++ (onMarker kind value ++ walkSegments onSegment onMarker [] pieces)

/-- `char::from_u32`. -/
def charFromU32 (n : ℕ) : Option Char := if n.isValidChar then some (Char.ofNat n) else none

/-- `str::to_lowercase` and `char::to_lowercase`. -/
structure CaseLib where
  lower : Text → Text
  lowerChar : Char → Text

/-- What the engine relies on: a text that is not empty stays so, the marker characters have no lower
case, and no other character has one of them as its lower case. -/
structure CaseLib.Lawful (lib : CaseLib) : Prop where
  lower_ne_nil : ∀ text, text ≠ [] → lib.lower text ≠ []
  lower_plain : ∀ text, (∀ c ∈ text, isJsInternalMarkerChar c = false) →
    ∀ c ∈ lib.lower text, isJsInternalMarkerChar c = false
  lowerChar_marker : ∀ c, isJsInternalMarkerChar c = true → lib.lowerChar c = [c]

/-- A lowered character, again behind a marker where it needs one. -/
def markChar (c : Char) : Text := if isJsInternalMarkerChar c then jsInternalScalarMarker c else [c]

def lowerMarker (lib : CaseLib) (kind : Char) (value : ℕ) : Text :=
  if kind = 's' then jsInternalSurrogateMarker value
  else
    match charFromU32 value with
    | some c => (lib.lowerChar c).flatMap markChar
    | none => []

def jsToLowercase (lib : CaseLib) (text : Text) : Text :=
  if markerStart ∈ text then walkSegments lib.lower (lowerMarker lib) [] (pieces text)
  else lib.lower text

/-- A marker in `JSON.stringify`. -/
def jsonMarker (kind : Char) (value : ℕ) : Text :=
  if kind = 's' then '\\' :: 'u' :: paddedHex 4 value
  else
    match charFromU32 value with
    | some c => escapeChar c
    | none => []

def jsJsonStringifyStr (text : Text) : Text :=
  if markerStart ∈ text then
    '"' :: (walkSegments (List.flatMap escapeChar) jsonMarker [] (pieces text) ++ ['"'])
  else jsonString text

def CaseLib.jsonStringifyLower (lib : CaseLib) (text : Text) : Text :=
  jsJsonStringifyStr (jsToLowercase lib text)

/-! ### String literals -/

/-- A part of a string literal: a character, an escaped one, or the number of a `\\u` escape. -/
inductive LiteralToken where
  | plain (c : Char)
  | escaped (c : Char)
  | unicode (code : ℕ)
deriving DecidableEq, Repr

/-- The one-letter escapes of JSON. -/
def simpleEscape (c : Char) : Option Char :=
  if c = '"' then some '"'
  else if c = '\\' then some '\\'
  else if c = '/' then some '/'
  else if c = 'b' then some (Char.ofNat 8)
  else if c = 'f' then some (Char.ofNat 12)
  else if c = 'n' then some (Char.ofNat 10)
  else if c = 'r' then some (Char.ofNat 13)
  else if c = 't' then some (Char.ofNat 9)
  else none

/-- The first part of a literal. -/
def lexToken : Text → Option (LiteralToken × Text)
  | [] => none
  | c :: rest =>
      if c = '\\' then
        match parseUEscape (c :: rest) with
        | some code => some (.unicode code, rest.drop 5)
        | none =>
            match rest with
            | [] => none
            | escaped :: rest => (simpleEscape escaped).map fun value => (.escaped value, rest)
      else if c = '"' ∨ c.toNat < 0x20 then none
      else some (.plain c, rest)

theorem length_of_lexToken {text rest : Text} {token : LiteralToken}
    (htoken : lexToken text = some (token, rest)) : rest.length < text.length := by
  unfold lexToken at htoken
  split at htoken
  · cases htoken
  next c tail =>
    split at htoken
    · split at htoken
      · cases htoken
        simp only [List.length_drop, List.length_cons]
        omega
      · split at htoken
        · cases htoken
        · obtain ⟨value, -, heq⟩ := Option.map_eq_some_iff.1 htoken
          cases heq
          simp only [List.length_cons]
          omega
    · split at htoken
      · cases htoken
      · cases htoken
        simp

/-- A string literal behind its opening quote, up to the closing one, and what follows. -/
def lexLiteral (text : Text) : Option (List LiteralToken × Text) :=
  match text with
  | [] => none
  | c :: rest =>
      if c = '"' then some ([], rest)
      else
        match _htoken : lexToken (c :: rest) with
        | none => none
        | some (token, rest) => (lexLiteral rest).map fun found => (token :: found.1, found.2)
termination_by text.length
decreasing_by exact length_of_lexToken _htoken

/-- The code units JavaScript reads for a part of a literal. -/
def LiteralToken.units : LiteralToken → List ℕ
  | .plain c => pointUnits c.toNat
  | .escaped c => pointUnits c.toNat
  | .unicode code => [code]

/-- The text `serde_json` reads for a literal: a lone surrogate is an error. -/
def serdeChars : List LiteralToken → Option Text
  | [] => some []
  | .plain c :: tokens => (serdeChars tokens).map (c :: ·)
  | .escaped c :: tokens => (serdeChars tokens).map (c :: ·)
  | .unicode high :: .unicode low :: tokens =>
      if IsLow high then none
      else if IsHigh high then
        if IsLow low then (serdeChars tokens).map (Char.ofNat (pair high low) :: ·) else none
      else (serdeChars (.unicode low :: tokens)).map (Char.ofNat high :: ·)
  | .unicode code :: tokens =>
      if IsLow code ∨ IsHigh code then none else (serdeChars tokens).map (Char.ofNat code :: ·)

theorem length_of_lexLiteral {text rest : Text} {tokens : List LiteralToken}
    (hlex : lexLiteral text = some (tokens, rest)) : rest.length < text.length := by
  induction hlength : text.length using Nat.strong_induction_on generalizing text tokens rest with
  | _ length ih =>
      subst hlength
      rw [lexLiteral.eq_def] at hlex
      split at hlex
      · cases hlex
      · split at hlex
        · cases hlex
          simp
        · split at hlex
          · cases hlex
          next token tail htoken =>
            obtain ⟨⟨found, more⟩, hfound, heq⟩ := Option.map_eq_some_iff.1 hlex
            cases heq
            have hshorter := length_of_lexToken htoken
            exact (ih tail.length hshorter hfound rfl).trans hshorter

/-- The string literals of a JSON text, in order: outside of them no quote is part of JSON. -/
def scanLiterals (text : Text) : Option (List (List LiteralToken)) :=
  match text with
  | [] => some []
  | c :: rest =>
      if c = '"' then
        match _hlex : lexLiteral rest with
        | none => none
        | some (tokens, rest) => (scanLiterals rest).map (tokens :: ·)
      else scanLiterals rest
termination_by text.length
decreasing_by
  · have hshorter := length_of_lexLiteral _hlex
    simp only [List.length_cons]
    omega
  · simp

/-- The strings of a JSON text in JavaScript, as code units. -/
def jsStrings (text : Text) : Option (List (List ℕ)) :=
  (scanLiterals text).map (List.map fun tokens => tokens.flatMap LiteralToken.units)

/-- The strings of a JSON text in `serde_json`. -/
def serdeStrings (text : Text) : Option (List Text) := (scanLiterals text).bind (List.mapM serdeChars)

/-- White space of JSON. -/
def isJsonWhitespace (c : Char) : Bool := c = ' ' || c = '\t' || c = '\n' || c = '\r'

/-- `serde_json::from_str` of a text, when it is a string. -/
def serdeStringValue (text : Text) : Option Text :=
  match text.dropWhile isJsonWhitespace with
  | '"' :: body => do
      let (tokens, rest) ← lexLiteral body
      if rest.all isJsonWhitespace then serdeChars tokens else none
  | _ => none

def jsJsonStringParseStr (raw : Text) : Option Text :=
  serdeStringValue (preprocessJsJsonForSerde raw)

end OrdDogecoin.Tap
