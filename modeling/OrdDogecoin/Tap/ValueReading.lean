/-
Module: OrdDogecoin.Tap.ValueReading
Purpose: `serde_json` reads a value back from the JSON text that the engine writes for it, markers
  included; a double comes back as the number that JavaScript prints.
Trusted boundary: as in OrdDogecoin.Tap.ValueCodec
Main exports: Json.reread, Readable.readsBack, serdeFromStr_stringify
-/
import OrdDogecoin.Tap.ValueCodec
import OrdDogecoin.Tap.JsStringModel

namespace OrdDogecoin.Tap

open Utf16
open Option (bind_some map_some bind_eq_bind)
open List (mem_cons_self forall_mem_cons append_nil cons_append length_append append_assoc length_cons nil_append)

/-! ### Text outside of strings -/

theorem bytesAsChars_ascii {c : Char} (hc : c.toNat < 0x80) : bytesAsChars c = [c] := by
  have hall : ∀ n < 0x80, bytesAsChars (Char.ofNat n) = [Char.ofNat n] := by decide
  have hchar := hall c.toNat hc
  rwa [Char.ofNat_toNat] at hchar

/-- Characters that preprocessing copies outside of strings. -/
def Copied (text : Text) : Prop := ∀ c ∈ text, c.toNat < 0x80 ∧ c ≠ '"'

instance (text : Text) : Decidable (Copied text) :=
  inferInstanceAs (Decidable (∀ c ∈ text, c.toNat < 0x80 ∧ c ≠ '"'))

variable {text : Text}

theorem copied_of_all (hall : (text.all fun c => decide (c.toNat < 0x80 ∧ c ≠ '"')) = true) :
    Copied text :=
  fun c hc => of_decide_eq_true (List.all_eq_true.1 hall c hc)

/-- Preprocessing leaves such a text as it is. -/
theorem preprocess_copied (hcopied : Copied text) (rest : Text) :
    preprocess false (text ++ rest) = text ++ preprocess false rest := by
  induction text with
  | nil => rfl
  | cons c text ih =>
      obtain ⟨⟨hascii, hquote⟩, hcopied⟩ := forall_mem_cons.1 hcopied
      rw [cons_append, preprocess_outside, bytesAsChars_ascii hascii, decide_eq_false hquote,
        ih hcopied]
      rfl

theorem preprocess_copied_cons {c : Char} (hascii : c.toNat < 0x80) (hquote : c ≠ '"') (rest : Text) :
    preprocess false (c :: rest) = c :: preprocess false rest := by
  rw [preprocess_outside, bytesAsChars_ascii hascii, decide_eq_false hquote]
  rfl

/-! ### Strings -/

/-- A string as a JavaScript engine holds it. -/
def EngineString (text : Text) : Prop := ∃ units, CodeUnits units ∧ text = modelString units

/-- The engine reads its strings back. -/
theorem readString_stringify (hstring : EngineString text) (rest : Text) :
    ∃ body, preprocess false (jsJsonStringifyStr text ++ rest) = '"' :: body ∧
      readString body = some (text, preprocess false rest) := by
  obtain ⟨units, hunits, rfl⟩ := hstring
  have hpoints := lt_of_mem_codePoints hunits
  obtain ⟨tokens, hlex, hread⟩ := lexLiteral_points hpoints rest
  have hbody : PreprocessesParts ((codePoints units).flatMap pointJson ++ '"' :: rest) :=
    lexLiteral_preprocess _
  unfold PreprocessesParts at hbody
  rw [hlex, map_some] at hbody
  refine ⟨preprocess true ((codePoints units).flatMap pointJson ++ '"' :: rest), ?_, ?_⟩
  · rw [modelString, stringify_points hpoints, cons_append, append_assoc, preprocess_outside,
      bytesAsChars_quote, decide_eq_true rfl]
    rfl
  · rw [readString, hbody]
    dsimp only [bind_eq_bind, bind_some]
    rw [serdeChars_preprocessTokens (valid_of_lexLiteral _ hlex), hread, modelString,
      codePoints_units (unsplit_codePoints units) hpoints]
    rfl

/-! ### Numbers -/

/-- What can follow a number. -/
def Delimited (rest : Text) : Prop :=
  ∀ c ∈ rest.head?, c.isDigit = false ∧ c ≠ '.' ∧ c ≠ 'e' ∧ c ≠ 'E'

/-- Some digits, at least one. -/
structure Digits (text : Text) : Prop where
  nonempty : text ≠ []
  digits : ∀ c ∈ text, c.isDigit = true

/-- The parts of a number are in place. -/
structure NumberLiteral.Valid (literal : NumberLiteral) : Prop where
  digits : Digits literal.digits
  leading : literal.digits.head? = some '0' → literal.digits.length = 1
  fraction : literal.fraction = [] ∨ ∃ digits, Digits digits ∧ literal.fraction = '.' :: digits
  exponent : literal.exponent = [] ∨ ∃ letter sign digits, (letter = 'e' ∨ letter = 'E') ∧
    (sign = [] ∨ sign = ['+'] ∨ sign = ['-']) ∧ Digits digits ∧
      literal.exponent = letter :: (sign ++ digits)

theorem lexDigits_append {digits rest : Text} (hdigits : Digits digits)
    (hrest : ∀ c ∈ rest.head?, c.isDigit = false) : lexDigits (digits ++ rest) = some (digits, rest) := by
  have hdrop : rest.dropWhile Char.isDigit = rest := by
    cases rest with
    | nil => rfl
    | cons c rest => rw [List.dropWhile_cons_of_neg (by simp [hrest c rfl])]
  have htake : rest.takeWhile Char.isDigit = [] := by
    cases rest with
    | nil => rfl
    | cons c rest => rw [List.takeWhile_cons_of_neg (by simp [hrest c rfl])]
  rw [lexDigits, List.takeWhile_append_of_pos hdigits.digits, List.dropWhile_append_of_pos hdigits.digits,
    htake, hdrop, append_nil, if_neg (by simpa using hdigits.nonempty)]

variable {rest : Text}

theorem Delimited.no_digit (hrest : Delimited rest) :
    ∀ c ∈ rest.head?, c.isDigit = false := fun c hc => (hrest c hc).1

variable {literal : NumberLiteral}

/-- The parts of a number are read back from the right. -/
theorem lexExponent_append (valid : literal.Valid) (hrest : Delimited rest) :
    lexExponent (literal.exponent ++ rest) = some (literal.exponent, rest) := by
  rcases valid.exponent with hnone | ⟨letter, sign, digits, hletter, hsign, hdigits, hexponent⟩
  · rw [hnone, nil_append]
    cases rest with
    | nil => rfl
    | cons c rest =>
        obtain ⟨-, -, hsmall, hlarge⟩ := hrest c rfl
        rw [lexExponent, if_neg (by simp [hsmall, hlarge])]
  · have hlex := lexDigits_append hdigits hrest.no_digit
    have hsigned : lexSign (sign ++ (digits ++ rest)) = (sign, digits ++ rest) := by
      rcases hsign with rfl | rfl | rfl
      · obtain ⟨c, more, hmore⟩ := List.exists_cons_of_ne_nil hdigits.nonempty
        have hc := hdigits.digits c (hmore ▸ mem_cons_self)
        rw [hmore]
        unfold lexSign
        split
        next heq => cases heq; exact absurd hc (by decide)
        next heq => cases heq; exact absurd hc (by decide)
        next => rfl
      · rfl
      · rfl
    rw [hexponent, cons_append, append_assoc, lexExponent, if_pos hletter, hsigned, hlex]
    rfl

/-- Nothing in front of an exponent or of the end of a number is a digit or a dot. -/
theorem exponent_head (valid : literal.Valid) (hrest : Delimited rest) :
    ∀ c ∈ (literal.exponent ++ rest).head?, c.isDigit = false ∧ c ≠ '.' := by
  rcases valid.exponent with hnone | ⟨letter, sign, digits, hletter, -, -, hexponent⟩
  · rw [hnone, nil_append]
    exact fun c hc => ⟨(hrest c hc).1, (hrest c hc).2.1⟩
  · rw [hexponent]
    intro c hc
    cases hc
    rcases hletter with rfl | rfl <;> decide

theorem lexFraction_append (valid : literal.Valid)
    (hrest : ∀ c ∈ rest.head?, c.isDigit = false ∧ c ≠ '.') :
    lexFraction (literal.fraction ++ rest) = some (literal.fraction, rest) := by
  rcases valid.fraction with hnone | ⟨digits, hdigits, hfraction⟩
  · rw [hnone, nil_append]
    unfold lexFraction
    split
    next heq => exact absurd rfl (hrest '.' rfl).2
    next => rfl
  · rw [hfraction, cons_append, lexFraction,
      lexDigits_append hdigits fun c hc => (hrest c hc).1]
    rfl

/-- A number is read up to its end. -/
theorem lexNumber_text (valid : literal.Valid) (hrest : Delimited rest) :
    lexNumber (literal.text ++ rest) = some (literal, rest) := by
  have hexponent := lexExponent_append valid hrest
  have hhead := exponent_head valid hrest
  have hfraction := lexFraction_append valid hhead
  have hbehind : ∀ c ∈ (literal.fraction ++ (literal.exponent ++ rest)).head?, c.isDigit = false := by
    rcases valid.fraction with hnone | ⟨digits, -, hsome⟩
    · rw [hnone, nil_append]
      exact fun c hc => (hhead c hc).1
    · rw [hsome]
      intro c hc
      cases hc
      decide
  have hinteger : lexInteger (literal.digits ++ (literal.fraction ++ (literal.exponent ++ rest))) =
      some (literal.digits, literal.fraction ++ (literal.exponent ++ rest)) := by
    rw [lexInteger, lexDigits_append valid.digits hbehind]
    dsimp only [bind_eq_bind, bind_some]
    rw [if_neg fun hzero => hzero.2 (valid.leading hzero.1)]
  have hminus : lexMinus (literal.text ++ rest) =
      (literal.negative, literal.digits ++ (literal.fraction ++ (literal.exponent ++ rest))) := by
    unfold NumberLiteral.text
    cases literal.negative with
    | true => simp [lexMinus]
    | false =>
        obtain ⟨c, more, hmore⟩ := List.exists_cons_of_ne_nil valid.digits.nonempty
        have hc := valid.digits.digits c (hmore ▸ mem_cons_self)
        rw [hmore]
        simp only [Bool.false_eq_true, if_false, nil_append, cons_append, append_assoc]
        unfold lexMinus
        split
        next heq => cases heq; exact absurd hc (by decide)
        next => rfl
  rw [lexNumber, hminus]
  dsimp only
  rw [hinteger]
  dsimp only [bind_eq_bind, bind_some]
  rw [hfraction]
  dsimp only [bind_some]
  rw [hexponent]
  rfl

def isNumberChar (c : Char) : Bool :=
  c.isDigit || c = '-' || c = '+' || c = '.' || c = 'e' || c = 'E'

theorem toNat_of_isDigit {c : Char} (hc : c.isDigit = true) : 48 ≤ c.toNat ∧ c.toNat ≤ 57 := by
  simp only [Char.isDigit, Bool.and_eq_true, decide_eq_true_eq, ge_iff_le] at hc
  exact ⟨hc.1, hc.2⟩

theorem copied_of_isNumberChar (hnumber : ∀ c ∈ text, isNumberChar c = true) :
    Copied text := by
  intro c hc
  have hchar := hnumber c hc
  simp only [isNumberChar, Bool.or_eq_true, decide_eq_true_eq] at hchar
  rcases hchar with ((((hdigit | rfl) | rfl) | rfl) | rfl) | rfl
  · have hbounds := toNat_of_isDigit hdigit
    refine ⟨by omega, ?_⟩
    rintro rfl
    exact absurd hdigit (by decide)
  all_goals decide

theorem isNumberChar_of_digits {digits : Text} (hdigits : Digits digits) :
    ∀ c ∈ digits, isNumberChar c = true := by
  intro c hc
  simp [isNumberChar, hdigits.digits c hc]

theorem NumberLiteral.Valid.numberChars (valid : literal.Valid) :
    ∀ c ∈ literal.text, isNumberChar c = true := by
  have hsign : ∀ c ∈ (if literal.negative then ['-'] else []), isNumberChar c = true := by
    cases literal.negative <;> exact List.all_eq_true.1 (by decide)
  have hfraction : ∀ c ∈ literal.fraction, isNumberChar c = true := by
    rcases valid.fraction with hnone | ⟨digits, hdigits, hsome⟩
    · simp [hnone]
    · rw [hsome]
      exact forall_mem_cons.2 ⟨by decide, isNumberChar_of_digits hdigits⟩
  have hexponent : ∀ c ∈ literal.exponent, isNumberChar c = true := by
    rcases valid.exponent with hnone | ⟨letter, sign, digits, hletter, hsigned, hdigits, hsome⟩
    · simp [hnone]
    · rw [hsome]
      refine forall_mem_cons.2 ⟨by rcases hletter with rfl | rfl <;> decide, ?_⟩
      refine List.forall_mem_append.2 ⟨?_, isNumberChar_of_digits hdigits⟩
      rcases hsigned with rfl | rfl | rfl <;> exact List.all_eq_true.1 (by decide)
  unfold NumberLiteral.text
  simp only [List.forall_mem_append]
  exact ⟨⟨⟨hsign, isNumberChar_of_digits valid.digits⟩, hfraction⟩, hexponent⟩

/-- A number starts with a digit or a minus sign. -/
theorem NumberLiteral.Valid.head (valid : literal.Valid) :
    ∃ c rest, literal.text = c :: rest ∧ (c = '-' ∨ c.isDigit = true) := by
  obtain ⟨c, more, hmore⟩ := List.exists_cons_of_ne_nil valid.digits.nonempty
  have hc := valid.digits.digits c (hmore ▸ mem_cons_self)
  unfold NumberLiteral.text
  cases literal.negative with
  | true => exact ⟨'-', _, rfl, .inl rfl⟩
  | false => exact ⟨c, more ++ literal.fraction ++ literal.exponent, by simp [hmore], .inr hc⟩

/-! ### Numbers of a value -/

/-- The literal of an integer. -/
def intLiteral (n : ℤ) : NumberLiteral where
  negative := decide (n < 0)
  digits := Nat.toDigits 10 n.natAbs
  fraction := []
  exponent := []

theorem digits_toDigits (n : ℕ) : Digits (Nat.toDigits 10 n) where
  nonempty := by simp
  digits c hc := Nat.isDigit_of_mem_toDigits (by decide) (by decide) hc

theorem intLiteral_valid (n : ℤ) : (intLiteral n).Valid where
  digits := digits_toDigits n.natAbs
  leading := by
    intro hzero
    dsimp only [intLiteral] at hzero ⊢
    rcases Nat.eq_zero_or_pos n.natAbs with hnone | hpos
    · rw [hnone]
      rfl
    · obtain ⟨first, rest, hdigits, hlow, -⟩ := ByteText.head_toDigits hpos
      rw [hdigits, List.head?_cons, Option.some_inj] at hzero
      rw [hzero] at hlow
      exact absurd hlow (by decide)
  fraction := .inl rfl
  exponent := .inl rfl

theorem intLiteral_text (n : ℤ) : (intLiteral n).text = intText n := by
  cases n with
  | ofNat n => simp [intLiteral, NumberLiteral.text, intText]
  | negSucc n => simp [intLiteral, NumberLiteral.text, intText, Int.negSucc_lt_zero]

theorem intLiteral_value (lib : NumberLib) {n : ℤ} (hlow : -2 ^ 63 ≤ n) (hhigh : n < 2 ^ 64) :
    (intLiteral n).value lib = some (.number (intText n)) := by
  have hplain : ((intLiteral n).fraction.isEmpty && (intLiteral n).exponent.isEmpty) = true := rfl
  have hdigits : (intLiteral n).digits = Nat.toDigits 10 n.natAbs := rfl
  have hnegative : (intLiteral n).negative = decide (n < 0) := rfl
  unfold NumberLiteral.value
  rw [if_pos hplain, hdigits, parseDigits_toDigits, hnegative]
  dsimp only
  by_cases hneg : n < 0
  · rw [if_pos (decide_eq_true hneg), if_pos ⟨by omega, by omega⟩]
    obtain ⟨m, rfl⟩ := Int.eq_negSucc_of_lt_zero hneg
    rfl
  · rw [if_neg (by simpa using hneg), if_pos (by omega), intText_of_nonneg (by omega)]
    congr 3
    omega

/-- What JavaScript prints of a double is read as a number with the same text. -/
theorem NumberLiteral.Valid.value_eq (valid : literal.Valid) {lib : NumberLib}
    (hread : lib.readDouble literal.text = some literal.text) :
    literal.value lib = some (.number literal.text) ∨
      literal.value lib = some (.double literal.text) := by
  unfold NumberLiteral.value
  rw [hread, map_some]
  dsimp only
  split
  next hplain =>
    have hparts : literal.fraction = [] ∧ literal.exponent = [] := by simpa using hplain
    have htext : literal.text = (if literal.negative then ['-'] else []) ++ literal.digits := by
      rw [NumberLiteral.text, hparts.1, hparts.2, append_nil, append_nil]
    have hany : literal.digits.any (fun c => !c.isDigit) = false := by
      simpa using valid.digits.digits
    have hempty : literal.digits.isEmpty = false := by simpa using valid.digits.nonempty
    rw [parseDigits, hany, hempty, Bool.or_self, if_neg Bool.false_ne_true]
    dsimp only
    cases hnegative : literal.negative with
    | true =>
        rw [hnegative] at htext
        rw [if_pos rfl]
        split
        · exact .inl (by rw [htext]; rfl)
        · exact .inr rfl
    | false =>
        rw [hnegative] at htext
        rw [if_neg Bool.false_ne_true]
        split
        · exact .inl (by rw [htext]; rfl)
        · exact .inr rfl
  next => exact .inr rfl

mutual

/-- The value with every double as the number that its JavaScript text is. -/
def Json.reread (lib : NumberLib) : Json → Json
  | .double text => ((lexNumber text).bind fun found => found.1.value lib).getD (.double text)
  | .array items => .array (rereadItems lib items)
  | .object fields => .object (rereadFields lib fields)
  | .null => .null
  | .bool value => .bool value
  | .number text => .number text
  | .string text => .string text

def rereadItems (lib : NumberLib) : List Json → List Json
  | [] => []
  | item :: items => item.reread lib :: rereadItems lib items

def rereadFields (lib : NumberLib) : List (Text × Json) → List (Text × Json)
  | [] => []
  | (key, value) :: fields => (key, value.reread lib) :: rereadFields lib fields

end

/-- A value whose text can be read back: its strings are strings of the engine, its integers fit, its
doubles are printed as JavaScript prints them, the members of its objects are sorted by name, and it is
nested in at most so many arrays and objects. -/
inductive Readable (lib : NumberLib) : ℕ → Json → Prop where
  | null (limit : ℕ) : Readable lib limit .null
  | bool (limit : ℕ) (value : Bool) : Readable lib limit (.bool value)
  | number (limit : ℕ) {n : ℤ} (hlow : -2 ^ 63 ≤ n) (hhigh : n < 2 ^ 64) :
      Readable lib limit (.number (intText n))
  | double (limit : ℕ) {literal : NumberLiteral} (valid : literal.Valid)
      (hread : lib.readDouble literal.text = some literal.text) :
      Readable lib limit (.double literal.text)
  | string (limit : ℕ) {text : Text} (hstring : EngineString text) : Readable lib limit (.string text)
  | array {limit : ℕ} {items : List Json} (hitems : ∀ item ∈ items, Readable lib limit item) :
      Readable lib (limit + 1) (.array items)
  | object {limit : ℕ} {fields : List (Text × Json)} (hkeys : ∀ field ∈ fields, EngineString field.1)
      (hsorted : fields.Pairwise fun a b => a.1 < b.1)
      (hvalues : ∀ field ∈ fields, Readable lib limit field.2) :
      Readable lib (limit + 1) (.object fields)

/-! ### The first character -/

/-- How the text of a value begins. -/
def StartsValue (text : Text) : Prop :=
  ∃ c rest, text = c :: rest ∧ c.toNat < 0x80 ∧ 0x20 < c.toNat ∧ c ≠ ']' ∧ c ≠ '\x7d'

theorem NumberLiteral.Valid.startsValue (valid : literal.Valid) :
    StartsValue literal.text := by
  obtain ⟨c, rest, htext, rfl | hdigit⟩ := valid.head
  · exact ⟨'-', rest, htext, by decide⟩
  · have hbounds := toNat_of_isDigit hdigit
    refine ⟨c, rest, htext, by omega, by omega, ?_, ?_⟩ <;> rintro rfl <;>
      exact absurd hdigit (by decide)

theorem startsValue_string (text : Text) : StartsValue (jsJsonStringifyStr text) := by
  unfold jsJsonStringifyStr jsonString
  split <;> exact ⟨'"', _, rfl, by decide⟩

theorem Readable.startsValue {lib : NumberLib} {limit : ℕ} {json : Json}
    (readable : Readable lib limit json) : StartsValue (jsJsonStringify json) := by
  cases readable with
  | null => exact ⟨'n', _, rfl, by decide⟩
  | bool _ value => cases value <;> exact ⟨_, _, rfl, by decide⟩
  | @number _ n =>
      rw [jsJsonStringify, ← intLiteral_text]
      exact (intLiteral_valid n).startsValue
  | double _ valid =>
      rw [jsJsonStringify]
      exact valid.startsValue
  | @string _ text =>
      rw [jsJsonStringify]
      exact startsValue_string text
  | array =>
      rw [jsJsonStringify]
      exact ⟨'[', _, rfl, by decide⟩
  | object =>
      rw [jsJsonStringify]
      exact ⟨'\x7b', _, rfl, by decide⟩

/-- Preprocessing keeps the first character, which is no white space. -/
theorem StartsValue.preprocess (hstarts : StartsValue text) (rest : Text) :
    ∃ c more, preprocess false (text ++ rest) = c :: more ∧ isJsonWhitespace c = false ∧ c ≠ ']' ∧
      c ≠ '\x7d' := by
  obtain ⟨c, tail, rfl, hascii, hprints, hbracket, hbrace⟩ := hstarts
  refine ⟨c, Tap.preprocess (c = '"') (tail ++ rest), ?_, ?_, hbracket, hbrace⟩
  · rw [cons_append, preprocess_outside, bytesAsChars_ascii hascii]
    rfl
  · have hne : ∀ d : Char, d.toNat ≤ 0x20 → c ≠ d := by
      rintro d hd rfl
      omega
    simp [isJsonWhitespace, hne ' ' (by decide), hne '\t' (by decide), hne '\n' (by decide),
      hne '\r' (by decide)]

theorem StartsValue.skipSpace (hstarts : StartsValue text) (rest : Text) :
    skipSpace (Tap.preprocess false (text ++ rest)) = Tap.preprocess false (text ++ rest) := by
  obtain ⟨c, more, htext, hspace, -, -⟩ := hstarts.preprocess rest
  rw [htext, Tap.skipSpace, List.dropWhile_cons_of_neg (by simp [hspace])]

theorem StartsValue.append (hstarts : StartsValue text) (rest : Text) :
    StartsValue (text ++ rest) := by
  obtain ⟨c, tail, rfl, hc⟩ := hstarts
  exact ⟨c, tail ++ rest, rfl, hc⟩

theorem StartsValue.length_pos (hstarts : StartsValue text) : 0 < text.length := by
  obtain ⟨c, rest, rfl, -⟩ := hstarts
  exact Nat.succ_pos _

/-! ### Lengths -/

theorem length_surrogateMarker (code : ℕ) : (jsInternalSurrogateMarker code).length = 7 := by
  simp [jsInternalSurrogateMarker, length_paddedHex]

theorem length_scalarMarker (c : Char) : (jsInternalScalarMarker c).length = 9 := by
  simp [jsInternalScalarMarker, length_paddedHex]

theorem length_bytesAsChars (c : Char) : 0 < (bytesAsChars c).length := by
  unfold bytesAsChars String.utf8EncodeChar
  dsimp only
  split_ifs <;> simp

/-- Preprocessing never shortens a text. -/
theorem length_le_preprocess (inString : Bool) (text : Text) :
    text.length ≤ (preprocess inString text).length := by
  fun_induction preprocess inString text with
  | case1 => exact Nat.le_refl _
  | case2 c rest ih =>
      have hbytes := length_bytesAsChars c
      rw [length_cons, length_append]
      omega
  | _ =>
      simp only [length_cons, length_append, List.length_take, List.length_drop,
        List.length_nil, length_surrogateMarker, length_scalarMarker] at *
      omega

theorem jsJsonItems_cons (item : Json) {items : List Json} (hne : items ≠ []) :
    jsJsonItems (item :: items) = jsJsonStringify item ++ ',' :: jsJsonItems items := by
  cases items with
  | nil => exact absurd rfl hne
  | cons next items =>
      rw [jsJsonItems]
      exact hne

def jsJsonMember (field : Text × Json) : Text :=
  jsJsonStringifyStr field.1 ++ ':' :: jsJsonStringify field.2

theorem jsJsonMembers_singleton (field : Text × Json) : jsJsonMembers [field] = jsJsonMember field := by
  rw [jsJsonMembers]
  rfl

theorem jsJsonMembers_cons (field : Text × Json) {fields : List (Text × Json)} (hne : fields ≠ []) :
    jsJsonMembers (field :: fields) = jsJsonMember field ++ ',' :: jsJsonMembers fields := by
  cases fields with
  | nil => exact absurd rfl hne
  | cons next fields =>
      rw [jsJsonMembers, jsJsonMember, append_assoc, cons_append]
      exact hne

/-- The first item begins as a value does. -/
theorem startsValue_items {items : List Json} (hne : items ≠ [])
    (hstarts : ∀ item ∈ items, StartsValue (jsJsonStringify item)) : StartsValue (jsJsonItems items) := by
  cases items with
  | nil => exact absurd rfl hne
  | cons item items =>
      have hfirst := hstarts item mem_cons_self
      by_cases hlast : items = []
      · rw [hlast, jsJsonItems]
        exact hfirst
      · rw [jsJsonItems_cons item hlast]
        exact hfirst.append _

theorem startsValue_member (field : Text × Json) : StartsValue (jsJsonMember field) :=
  (startsValue_string field.1).append _

theorem startsValue_members {fields : List (Text × Json)} (hne : fields ≠ []) :
    StartsValue (jsJsonMembers fields) := by
  cases fields with
  | nil => exact absurd rfl hne
  | cons field fields =>
      by_cases hlast : fields = []
      · rw [hlast, jsJsonMembers_singleton]
        exact startsValue_member field
      · rw [jsJsonMembers_cons field hlast]
        exact (startsValue_member field).append _

theorem length_le_items {items : List Json}
    (hstarts : ∀ item ∈ items, StartsValue (jsJsonStringify item)) :
    items.length ≤ (jsJsonItems items).length := by
  induction items with
  | nil => exact Nat.zero_le _
  | cons item items ih =>
      obtain ⟨hitem, hitems⟩ := forall_mem_cons.1 hstarts
      by_cases hlast : items = []
      · rw [hlast, jsJsonItems]
        exact hitem.length_pos
      · have hrest := ih hitems
        rw [jsJsonItems_cons item hlast, length_cons, length_append, length_cons]
        omega

theorem length_le_members (fields : List (Text × Json)) :
    fields.length ≤ (jsJsonMembers fields).length := by
  induction fields with
  | nil => exact Nat.zero_le _
  | cons field fields ih =>
      by_cases hlast : fields = []
      · rw [hlast, jsJsonMembers_singleton, jsJsonMember, length_append, length_cons,
          length_cons]
        exact Nat.le_trans (Nat.le_add_left 1 _) (Nat.le_add_left _ _)
      · rw [jsJsonMembers_cons field hlast, length_cons, length_append, length_cons]
        omega

/-! ### Reading -/

def EndsValue (rest : Text) : Prop :=
  rest = [] ∨ ∃ c more, rest = c :: more ∧ (c = ',' ∨ c = ']' ∨ c = '\x7d')

theorem EndsValue.delimited (hends : EndsValue rest) : Delimited (preprocess false rest) := by
  rcases hends with rfl | ⟨c, more, rfl, hc⟩
  · rw [preprocess_nil]
    simp [Delimited]
  · have hcopied : c.toNat < 0x80 ∧ c ≠ '"' := by rcases hc with rfl | rfl | rfl <;> decide
    rw [preprocess_copied_cons hcopied.1 hcopied.2]
    intro d hd
    cases hd
    rcases hc with rfl | rfl | rfl <;> decide

section Read

variable {lib : NumberLib} {limit : ℕ} {fields : List (Text × Json)}

/-- The value is read back in front of anything that ends it. -/
def ReadsBack (lib : NumberLib) (limit : ℕ) (json : Json) : Prop :=
  ∀ rest, EndsValue rest → readValue lib limit (preprocess false (jsJsonStringify json ++ rest)) =
    some (json.reread lib, preprocess false rest)

theorem readValue_scalar {c : Char} (hbracket : c ≠ '[') (hbrace : c ≠ '\x7b') (rest : Text) :
    readValue lib limit (c :: rest) = readScalar lib (c :: rest) := by
  cases limit with
  | zero => rfl
  | succ limit =>
      unfold readValue
      split
      next heq => exact absurd (List.cons.inj heq).1 hbracket
      next heq => exact absurd (List.cons.inj heq).1 hbrace
      next => rfl

/-- A number is read up to the end of its literal. -/
theorem readScalar_number {c : Char} (hc : c = '-' ∨ c.isDigit = true) (rest : Text) :
    readScalar lib (c :: rest) = (lexNumber (c :: rest)).bind fun found =>
      (found.1.value lib).bind fun value => some (value, found.2) := by
  have hne : ∀ d : Char, d ≠ '-' → d.isDigit = false → c ≠ d := by
    rintro d hminus hdigit rfl
    rcases hc with rfl | hc
    · exact hminus rfl
    · rw [hdigit] at hc
      cases hc
  unfold readScalar
  split
  next heq => exact absurd (List.cons.inj heq).1 (hne 'n' (by decide) (by decide))
  next heq => exact absurd (List.cons.inj heq).1 (hne 't' (by decide) (by decide))
  next heq => exact absurd (List.cons.inj heq).1 (hne 'f' (by decide) (by decide))
  next heq => exact absurd (List.cons.inj heq).1 (hne '"' (by decide) (by decide))
  next => rfl

/-- A literal with a value is read back. -/
theorem readValue_number {literal : NumberLiteral} (valid : literal.Valid) {value : Json}
    (hvalue : literal.value lib = some value) {rest : Text} (hends : EndsValue rest) :
    readValue lib limit (preprocess false (literal.text ++ rest)) =
      some (value, preprocess false rest) := by
  have hlex := lexNumber_text valid hends.delimited
  rw [preprocess_copied (copied_of_isNumberChar valid.numberChars)]
  obtain ⟨c, more, htext, hc⟩ := valid.head
  have hne : ∀ d : Char, d ≠ '-' → d.isDigit = false → c ≠ d := by
    rintro d hminus hdigit rfl
    rcases hc with rfl | hc
    · exact hminus rfl
    · rw [hdigit] at hc
      cases hc
  rw [htext] at hlex ⊢
  rw [cons_append] at hlex ⊢
  rw [readValue_scalar (hne '[' (by decide) (by decide)) (hne '\x7b' (by decide) (by decide)),
    readScalar_number hc, hlex, bind_some, hvalue]
  rfl

theorem readsBack_null : ReadsBack lib limit .null := by
  intro rest _
  rw [jsJsonStringify, @preprocess_copied "null".toList (copied_of_all (by decide))]
  exact readValue_scalar (by decide) (by decide) _

theorem readsBack_bool (value : Bool) : ReadsBack lib limit (.bool value) := by
  intro rest _
  cases value with
  | true =>
      rw [jsJsonStringify, @preprocess_copied "true".toList (copied_of_all (by decide))]
      exact readValue_scalar (by decide) (by decide) _
  | false =>
      rw [jsJsonStringify, @preprocess_copied "false".toList (copied_of_all (by decide))]
      exact readValue_scalar (by decide) (by decide) _

theorem readsBack_number {n : ℤ} (hlow : -2 ^ 63 ≤ n) (hhigh : n < 2 ^ 64) :
    ReadsBack lib limit (.number (intText n)) := by
  intro rest hends
  rw [jsJsonStringify, ← intLiteral_text]
  exact readValue_number (intLiteral_valid n) (intLiteral_text n ▸ intLiteral_value lib hlow hhigh) hends

/-- A double reads back as the number that is printed. -/
theorem readsBack_double {literal : NumberLiteral} (valid : literal.Valid)
    (hread : lib.readDouble literal.text = some literal.text) :
    ReadsBack lib limit (.double literal.text) := by
  intro rest hends
  have hlex : lexNumber literal.text = some (literal, []) := by
    have hnothing := @lexNumber_text [] literal valid (by simp [Delimited])
    rwa [append_nil] at hnothing
  have hvalue : ∃ value, literal.value lib = some value := by
    rcases valid.value_eq hread with hnumber | hdouble
    · exact ⟨_, hnumber⟩
    · exact ⟨_, hdouble⟩
  obtain ⟨value, hvalue⟩ := hvalue
  have hreread : (Json.double literal.text).reread lib = value := by
    rw [Json.reread, hlex, bind_some, hvalue]
    rfl
  rw [jsJsonStringify, hreread]
  exact readValue_number valid hvalue hends

theorem readsBack_string {text : Text} (hstring : EngineString text) :
    ReadsBack lib limit (.string text) := by
  intro rest _
  obtain ⟨body, hbody, hread⟩ := readString_stringify hstring rest
  rw [jsJsonStringify, hbody, readValue_scalar (by decide) (by decide), readScalar, hread]
  rfl

/-! ### Arrays and objects -/

theorem skipSpace_cons {c : Char} (hspace : isJsonWhitespace c = false) (rest : Text) :
    skipSpace (c :: rest) = c :: rest := by
  rw [skipSpace, List.dropWhile_cons_of_neg (by simp [hspace])]

/-- The items of an array are read back one by one. -/
theorem readItems_stringify {items : List Json} (hreads : ∀ item ∈ items, ReadsBack lib limit item)
    (hstarts : ∀ item ∈ items, StartsValue (jsJsonStringify item)) (hne : items ≠ []) (rest : Text) :
    ∀ {count : ℕ}, items.length ≤ count →
      readItems (readValue lib limit) count (preprocess false (jsJsonItems items ++ ']' :: rest)) =
        some (rereadItems lib items, preprocess false rest) := by
  induction items with
  | nil => exact absurd rfl hne
  | cons item items ih =>
      intro count hcount
      obtain ⟨count, rfl⟩ := Nat.exists_eq_succ_of_ne_zero
        (Nat.pos_iff_ne_zero.1 (Nat.lt_of_lt_of_le (Nat.succ_pos _) hcount))
      obtain ⟨hread, hreads⟩ := forall_mem_cons.1 hreads
      obtain ⟨hstart, hstarts⟩ := forall_mem_cons.1 hstarts
      by_cases hlast : items = []
      · rw [hlast, jsJsonItems, readItems, hstart.skipSpace, hread _ (.inr ⟨']', rest, rfl, by decide⟩)]
        dsimp only [bind_eq_bind, bind_some]
        rw [preprocess_copied_cons (by decide) (by decide), skipSpace_cons (by decide)]
        rfl
      · rw [jsJsonItems_cons item hlast, append_assoc, cons_append, readItems,
          hstart.skipSpace, hread _ (.inr ⟨',', _, rfl, by decide⟩)]
        dsimp only [bind_eq_bind, bind_some]
        rw [preprocess_copied_cons (by decide) (by decide), skipSpace_cons (by decide)]
        exact congrArg (Option.map fun found => (item.reread lib :: found.1, found.2))
          (ih hreads hstarts hlast (Nat.le_of_succ_le_succ hcount))

theorem readMember_stringify {field : Text × Json} (hkey : EngineString field.1)
    (hread : ReadsBack lib limit field.2) (hstart : StartsValue (jsJsonStringify field.2)) {rest : Text}
    (hends : EndsValue rest) :
    readMember (readValue lib limit) (preprocess false (jsJsonMember field ++ rest)) =
      some ((field.1, field.2.reread lib), preprocess false rest) := by
  obtain ⟨body, hbody, hstring⟩ :=
    readString_stringify hkey (':' :: (jsJsonStringify field.2 ++ rest))
  rw [jsJsonMember, append_assoc, cons_append, hbody, readMember, hstring]
  dsimp only [bind_eq_bind, bind_some]
  rw [preprocess_copied_cons (by decide) (by decide), skipSpace_cons (by decide)]
  have hvalue := hread rest hends
  rw [← hstart.skipSpace] at hvalue
  exact congrArg (Option.map fun found => ((field.1, found.1), found.2)) hvalue

theorem readMembers_stringify (hkeys : ∀ field ∈ fields, EngineString field.1)
    (hreads : ∀ field ∈ fields, ReadsBack lib limit field.2)
    (hstarts : ∀ field ∈ fields, StartsValue (jsJsonStringify field.2)) (hne : fields ≠ [])
    (rest : Text) :
    ∀ {count : ℕ}, fields.length ≤ count →
      readMembers (readValue lib limit) count
          (preprocess false (jsJsonMembers fields ++ '\x7d' :: rest)) =
        some (rereadFields lib fields, preprocess false rest) := by
  induction fields with
  | nil => exact absurd rfl hne
  | cons field fields ih =>
      intro count hcount
      obtain ⟨count, rfl⟩ := Nat.exists_eq_succ_of_ne_zero
        (Nat.pos_iff_ne_zero.1 (Nat.lt_of_lt_of_le (Nat.succ_pos _) hcount))
      obtain ⟨hkey, hkeys⟩ := forall_mem_cons.1 hkeys
      obtain ⟨hread, hreads⟩ := forall_mem_cons.1 hreads
      obtain ⟨hstart, hstarts⟩ := forall_mem_cons.1 hstarts
      by_cases hlast : fields = []
      · rw [hlast, jsJsonMembers_singleton, readMembers, (startsValue_member field).skipSpace,
          readMember_stringify hkey hread hstart (.inr ⟨'\x7d', rest, rfl, by decide⟩)]
        dsimp only [bind_eq_bind, bind_some]
        rw [preprocess_copied_cons (by decide) (by decide), skipSpace_cons (by decide)]
        rfl
      · rw [jsJsonMembers_cons field hlast, append_assoc, cons_append, readMembers,
          (startsValue_member field).skipSpace,
          readMember_stringify hkey hread hstart (.inr ⟨',', _, rfl, by decide⟩)]
        dsimp only [bind_eq_bind, bind_some]
        rw [preprocess_copied_cons (by decide) (by decide), skipSpace_cons (by decide)]
        exact congrArg (Option.map fun found => ((field.1, field.2.reread lib) :: found.1, found.2))
          (ih hkeys hreads hstarts hlast (Nat.le_of_succ_le_succ hcount))

theorem rereadFields_eq_map (lib : NumberLib) (fields : List (Text × Json)) :
    rereadFields lib fields = fields.map fun field => (field.1, field.2.reread lib) := by
  induction fields with
  | nil => rfl
  | cons field fields ih => rw [rereadFields, ih, List.map_cons]

/-- A key above all others goes to the end. -/
theorem insertMember_last {key : Text} {value : Json} (hlast : ∀ field ∈ fields, field.1 < key) :
    insertMember key value fields = fields ++ [(key, value)] := by
  induction fields with
  | nil => rfl
  | cons field fields ih =>
      obtain ⟨hfirst, hrest⟩ := forall_mem_cons.1 hlast
      rw [insertMember, if_neg hfirst.ne', if_neg hfirst.asymm, ih hrest]
      rfl

/-- Members in order are collected as they are. -/
theorem collectMembers_sorted (hsorted : fields.Pairwise fun a b => a.1 < b.1) :
    collectMembers fields = fields := by
  have hfold : ∀ before : List (Text × Json), (∀ a ∈ before, ∀ b ∈ fields, a.1 < b.1) →
      fields.foldl (fun fields member => insertMember member.1 member.2 fields) before =
        before ++ fields := by
    induction fields with
    | nil => simp
    | cons field fields ih =>
        intro before hbefore
        obtain ⟨hfirst, hsorted⟩ := List.pairwise_cons.1 hsorted
        rw [List.foldl_cons, insertMember_last fun a ha => hbefore a ha field mem_cons_self,
          ih hsorted, append_assoc]
        · rfl
        · intro a ha b hb
          rcases List.mem_append.1 ha with hold | hnew
          · exact hbefore a hold b (List.mem_cons_of_mem _ hb)
          · rw [List.mem_singleton.1 hnew]
            exact hfirst b hb
  exact hfold [] (by simp)

theorem readsBack_array {items : List Json} (hreads : ∀ item ∈ items, ReadsBack lib limit item)
    (hstarts : ∀ item ∈ items, StartsValue (jsJsonStringify item)) :
    ReadsBack lib (limit + 1) (.array items) := by
  intro rest _
  rw [jsJsonStringify, cons_append, append_assoc, List.singleton_append,
    preprocess_copied_cons (by decide) (by decide)]
  change readArray (readValue lib limit) _ = _
  by_cases hnone : items = []
  · rw [hnone, jsJsonItems, nil_append, preprocess_copied_cons (by decide) (by decide), readArray,
      skipSpace_cons (by decide)]
    rfl
  · have hbegins := startsValue_items hnone hstarts
    obtain ⟨c, more, htext, -, hbracket, -⟩ := hbegins.preprocess (']' :: rest)
    have hcount : items.length ≤ (preprocess false (jsJsonItems items ++ ']' :: rest)).length := by
      have hlength := length_le_preprocess false (jsJsonItems items ++ ']' :: rest)
      rw [length_append] at hlength
      exact (length_le_items hstarts).trans ((Nat.le_add_right _ _).trans hlength)
    have hread := readItems_stringify hreads hstarts hnone rest hcount
    rw [readArray, hbegins.skipSpace]
    split
    next heq => exact absurd (List.cons.inj (htext.symm.trans heq)).1 hbracket
    next => rw [hread]; rfl

theorem readsBack_object (hkeys : ∀ field ∈ fields, EngineString field.1)
    (hsorted : fields.Pairwise fun a b => a.1 < b.1)
    (hreads : ∀ field ∈ fields, ReadsBack lib limit field.2)
    (hstarts : ∀ field ∈ fields, StartsValue (jsJsonStringify field.2)) :
    ReadsBack lib (limit + 1) (.object fields) := by
  intro rest _
  rw [jsJsonStringify, cons_append, append_assoc, List.singleton_append,
    preprocess_copied_cons (by decide) (by decide)]
  change readObject (readValue lib limit) _ = _
  by_cases hnone : fields = []
  · rw [hnone, jsJsonMembers, nil_append, preprocess_copied_cons (by decide) (by decide), readObject,
      skipSpace_cons (by decide)]
    rfl
  · have hbegins := startsValue_members hnone
    obtain ⟨c, more, htext, -, -, hbrace⟩ := hbegins.preprocess ('\x7d' :: rest)
    have hcount :
        fields.length ≤ (preprocess false (jsJsonMembers fields ++ '\x7d' :: rest)).length := by
      have hlength := length_le_preprocess false (jsJsonMembers fields ++ '\x7d' :: rest)
      rw [length_append] at hlength
      exact (length_le_members fields).trans ((Nat.le_add_right _ _).trans hlength)
    have hread := readMembers_stringify hkeys hreads hstarts hnone rest hcount
    have hcollect : collectMembers (rereadFields lib fields) = rereadFields lib fields := by
      apply collectMembers_sorted
      rw [rereadFields_eq_map, List.pairwise_map]
      exact hsorted
    rw [readObject, hbegins.skipSpace]
    split
    next heq => exact absurd (List.cons.inj (htext.symm.trans heq)).1 hbrace
    next =>
      rw [hread, map_some, hcollect]
      rfl

end Read

/-- A readable value is read back from its text. -/
theorem Readable.readsBack {lib : NumberLib} {limit : ℕ} {json : Json}
    (readable : Readable lib limit json) : ReadsBack lib limit json := by
  induction readable with
  | null => exact readsBack_null
  | bool _ value => exact readsBack_bool value
  | number _ hlow hhigh => exact readsBack_number hlow hhigh
  | double _ valid hread => exact readsBack_double valid hread
  | string _ hstring => exact readsBack_string hstring
  | array hitems ih => exact readsBack_array ih fun item hitem => (hitems item hitem).startsValue
  | object hkeys hsorted hvalues ih =>
      exact readsBack_object hkeys hsorted ih fun field hfield => (hvalues field hfield).startsValue

/-- The JSON text of a value is read as the value, the doubles as JavaScript prints them. -/
theorem serdeFromStr_stringify {lib : NumberLib} {json : Json}
    (readable : Readable lib nestingLimit json) :
    serdeFromStr lib (preprocessJsJsonForSerde (jsJsonStringify json)) = some (json.reread lib) := by
  have hread := readable.readsBack [] (.inl rfl)
  have hskip := readable.startsValue.skipSpace []
  rw [append_nil] at hread hskip
  rw [serdeFromStr, preprocessJsJsonForSerde, hskip, hread, preprocess_nil]
  rfl

end OrdDogecoin.Tap
