/-
Module: OrdDogecoin.Tap.JsLiterals
Purpose: String literals under preprocessing: the engine has one string for each sequence of code units,
  and preprocessing a JSON text makes `serde_json` read that string for each literal that JavaScript
  reads, and fail where JavaScript fails.
Trusted boundary: as in OrdDogecoin.Tap.JsStrings
Main exports: preprocessTokens, serdeChars_preprocessTokens, serdeStrings_preprocess
-/
import OrdDogecoin.Tap.JsStrings

namespace OrdDogecoin.Tap

open Utf16
open Option (bind_eq_some_iff map_eq_some_iff bind_some map_some)
open List (mem_cons_of_mem mem_singleton forall_mem_cons cons_append flatMap_cons singleton_append take_left drop_left)

/-! ### Hexadecimal digits -/

theorem parseHex_append_singleton (text : Text) (c : Char) :
    parseHex (text ++ [c]) =
      (parseHex text).bind fun n => (toDigit 16 c).map fun digit => n * 16 + digit := by
  unfold parseHex
  simp only [List.foldlM_append, List.foldlM_cons, List.foldlM_nil, Option.bind_eq_bind,
    Option.pure_def, Option.bind_fun_some]

theorem length_paddedHex (width : ℕ) : ∀ n, (paddedHex width n).length = width := by
  induction width with
  | zero => exact fun n => rfl
  | succ width ih =>
      intro n
      rw [paddedHex, List.length_append, ih]
      rfl

/-- A padded number is read back. -/
theorem parseHex_paddedHex (width : ℕ) : ∀ n < 16 ^ width, parseHex (paddedHex width n) = some n := by
  induction width with
  | zero =>
      intro n hn
      obtain rfl : n = 0 := by omega
      rfl
  | succ width ih =>
      intro n hn
      have hhead : n / 16 < 16 ^ width := by
        rw [Nat.div_lt_iff_lt_mul (by decide)]
        rwa [pow_succ] at hn
      rw [paddedHex, parseHex_append_singleton, ih (n / 16) hhead, bind_some,
        toDigit_digitChar (n % 16) (Nat.mod_lt n (by decide)), map_some]
      congr 1
      omega

variable {c : Char}

/-- A hexadecimal digit is an ordinary character of a string literal. -/
theorem digit_bounds {digit : ℕ} (hdigit : toDigit 16 c = some digit) :
    digit < 16 ∧ (48 ≤ c.toNat ∧ c.toNat ≤ 57 ∨ 97 ≤ c.toNat ∧ c.toNat ≤ 102 ∨
      65 ≤ c.toNat ∧ c.toNat ≤ 70) := by
  unfold toDigit at hdigit
  dsimp only at hdigit
  generalize c.toNat = n at hdigit ⊢
  split_ifs at hdigit with hdecimal hsmall hlower hsmall hupper hsmall hnone
  · cases hdigit
    omega
  · cases hdigit
    omega
  · cases hdigit
    omega
  · omega

theorem lt_of_parseHex {text : Text} : ∀ {n : ℕ}, parseHex text = some n → n < 16 ^ text.length := by
  induction text using List.reverseRecOn with
  | nil =>
      intro n hn
      cases hn
      decide
  | append_singleton text c ih =>
      intro n hn
      rw [parseHex_append_singleton] at hn
      obtain ⟨high, hhigh, hn⟩ := bind_eq_some_iff.1 hn
      obtain ⟨digit, hdigit, rfl⟩ := map_eq_some_iff.1 hn
      have hsmall := (digit_bounds hdigit).1
      have hhigh := ih hhigh
      rw [List.length_append, List.length_singleton, pow_succ]
      omega

theorem mem_of_parseHex {text : Text} : ∀ {n : ℕ}, parseHex text = some n →
    ∀ c ∈ text, ∃ digit, toDigit 16 c = some digit := by
  induction text using List.reverseRecOn with
  | nil => exact fun _ c hc => by cases hc
  | append_singleton text c ih =>
      intro n hn other hother
      rw [parseHex_append_singleton] at hn
      obtain ⟨high, hhigh, hn⟩ := bind_eq_some_iff.1 hn
      obtain ⟨digit, hdigit, rfl⟩ := map_eq_some_iff.1 hn
      rcases List.mem_append.1 hother with hmem | hmem
      · exact ih hhigh other hmem
      · rw [mem_singleton.1 hmem]
        exact ⟨digit, hdigit⟩

/-! ### Reading a literal -/

/-- A character that stands for itself in a string literal. -/
def Plain (c : Char) : Prop := c ≠ '"' ∧ c ≠ '\\' ∧ 0x20 ≤ c.toNat

theorem plain_of_toNat (hc : 48 ≤ c.toNat) (hslash : c.toNat ≠ 92) : Plain c := by
  refine ⟨?_, ?_, by omega⟩
  · rintro rfl
    exact absurd hc (by decide)
  · rintro rfl
    exact hslash rfl

theorem plain_of_digit {digit : ℕ} (hdigit : toDigit 16 c = some digit) : Plain c := by
  have hbounds := (digit_bounds hdigit).2
  exact plain_of_toNat (by omega) (by omega)

section Lex

variable {c : Char} {rest tail : Text} {token : LiteralToken}

theorem lexLiteral_quote (rest : Text) : lexLiteral ('"' :: rest) = some ([], rest) := by
  rw [lexLiteral, if_pos rfl]

theorem lexLiteral_cons (hquote : c ≠ '"') (htoken : lexToken (c :: rest) = some (token, tail)) :
    lexLiteral (c :: rest) = (lexLiteral tail).map fun found => (token :: found.1, found.2) := by
  rw [lexLiteral, if_neg hquote]
  split
  next hnone => simp [htoken] at hnone
  next other more hsome =>
    rw [htoken] at hsome
    cases hsome
    rfl

theorem lexLiteral_none (hquote : c ≠ '"') (htoken : lexToken (c :: rest) = none) :
    lexLiteral (c :: rest) = none := by
  rw [lexLiteral, if_neg hquote]
  split
  next => rfl
  next hsome => simp [htoken] at hsome

/-- Plain characters at the front of a literal are read as they are. -/
theorem lexLiteral_plain {chars : Text} (hplain : ∀ c ∈ chars, Plain c) :
    lexLiteral (chars ++ tail) =
      (lexLiteral tail).map fun found => (chars.map .plain ++ found.1, found.2) := by
  induction chars with
  | nil => simp
  | cons c chars ih =>
      obtain ⟨⟨hquote, hslash, hprints⟩, hchars⟩ := forall_mem_cons.1 hplain
      have htoken : lexToken (c :: (chars ++ tail)) = some (.plain c, chars ++ tail) := by
        rw [lexToken.eq_def]
        dsimp only
        rw [if_neg hslash, if_neg (by simp [hquote, hprints])]
      rw [cons_append, lexLiteral_cons hquote htoken, ih hchars, Option.map_map]
      rfl

/-- The shape of a `\\u` escape. -/
theorem parseUEscape_eq_some {text : Text} {code : ℕ} (hcode : parseUEscape text = some code) :
    ∃ digits tail, text = '\\' :: 'u' :: (digits ++ tail) ∧ digits.length = 4 ∧
      parseHex digits = some code := by
  unfold parseUEscape at hcode
  split at hcode
  next rest =>
    split at hcode
    · cases hcode
    next hlength =>
      refine ⟨rest.take 4, rest.drop 4, by rw [List.take_append_drop], ?_, hcode⟩
      rw [List.length_take]
      omega
  next => cases hcode

theorem parseUEscape_append {digits : Text} {code : ℕ} (hlength : digits.length = 4)
    (hdigits : parseHex digits = some code) (tail : Text) :
    parseUEscape ('\\' :: 'u' :: (digits ++ tail)) = some code := by
  rw [parseUEscape, if_neg (by rw [List.length_append]; omega), ← hlength, take_left]
  exact hdigits

theorem code_lt {text : Text} {code : ℕ} (hcode : parseUEscape text = some code) :
    code < 0x10000 := by
  obtain ⟨digits, tail, -, hlength, hdigits⟩ := parseUEscape_eq_some hcode
  have hlt := lt_of_parseHex hdigits
  rwa [hlength] at hlt

/-- A `\\u` escape at the front of a literal. -/
theorem lexLiteral_unicode {digits : Text} {code : ℕ} (hlength : digits.length = 4)
    (hdigits : parseHex digits = some code) (tail : Text) :
    lexLiteral ('\\' :: 'u' :: (digits ++ tail)) =
      (lexLiteral tail).map fun found => (.unicode code :: found.1, found.2) := by
  have htoken : lexToken ('\\' :: 'u' :: (digits ++ tail)) = some (.unicode code, tail) := by
    rw [lexToken, if_pos rfl, parseUEscape_append hlength hdigits]
    dsimp only
    rw [List.drop_succ_cons, ← hlength, drop_left]
  exact lexLiteral_cons (by decide) htoken

/-- Any other escape at the front of a literal. -/
theorem lexLiteral_escape {escaped : Char} (hcode : parseUEscape ('\\' :: escaped :: tail) = none) :
    lexLiteral ('\\' :: escaped :: tail) =
      (simpleEscape escaped).bind fun value =>
        (lexLiteral tail).map fun found => (.escaped value :: found.1, found.2) := by
  have htoken : lexToken ('\\' :: escaped :: tail) =
      (simpleEscape escaped).map fun value => (.escaped value, tail) := by
    rw [lexToken, if_pos rfl, hcode]
  cases hvalue : simpleEscape escaped with
  | none =>
      rw [hvalue] at htoken
      exact lexLiteral_none (by decide) htoken
  | some value =>
      rw [hvalue] at htoken
      exact lexLiteral_cons (by decide) htoken

theorem parseUEscape_of_ne (hslash : c ≠ '\\') : parseUEscape (c :: rest) = none := by
  unfold parseUEscape
  split
  next heq => exact absurd (List.cons.inj heq).1 hslash
  next => rfl

theorem lexToken_unicode_iff {text : Text} (htoken : lexToken text = some (token, tail)) (code : ℕ) :
    token = .unicode code ↔ parseUEscape text = some code := by
  unfold lexToken at htoken
  split at htoken
  · cases htoken
  next c rest =>
    split at htoken
    · split at htoken
      next found hfound =>
        cases htoken
        rw [hfound, LiteralToken.unicode.injEq, Option.some_inj]
      next hnone =>
        split at htoken
        · cases htoken
        · obtain ⟨value, -, heq⟩ := map_eq_some_iff.1 htoken
          cases heq
          simp [hnone]
    next hslash =>
      split at htoken
      · cases htoken
      · cases htoken
        simp [parseUEscape_of_ne hslash]

/-- A literal starts with a `\\u` escape exactly when its first part is one. -/
theorem lexLiteral_head {text : Text} {tokens : List LiteralToken} {rest : Text}
    (hlex : lexLiteral text = some (tokens, rest)) (code : ℕ) :
    tokens.head? = some (.unicode code) ↔ parseUEscape text = some code := by
  cases text with
  | nil => simp [lexLiteral] at hlex
  | cons c text =>
      by_cases hquote : c = '"'
      · subst hquote
        rw [lexLiteral_quote] at hlex
        cases hlex
        simp [parseUEscape]
      · cases htoken : lexToken (c :: text) with
        | none =>
            rw [lexLiteral_none hquote htoken] at hlex
            cases hlex
        | some found =>
            obtain ⟨token, tail⟩ := found
            rw [lexLiteral_cons hquote htoken] at hlex
            obtain ⟨⟨more, final⟩, -, heq⟩ := map_eq_some_iff.1 hlex
            cases heq
            rw [List.head?_cons, Option.some_inj]
            exact lexToken_unicode_iff htoken code

end Lex

/-! ### Preprocessing a literal -/

/-- A `\\u` escape after preprocessing, when it is not half of a pair. -/
def markUnicode (code : ℕ) : List LiteralToken :=
  if IsHigh code ∨ IsLow code then (jsInternalSurrogateMarker code).map .plain
  else if isJsInternalMarkerChar (Char.ofNat code) then
    (jsInternalScalarMarker (Char.ofNat code)).map .plain
  else [.unicode code]

/-- What preprocessing does to the parts of a literal. -/
def preprocessTokens : List LiteralToken → List LiteralToken
  | [] => []
  | .plain c :: tokens => (markChar c).map .plain ++ preprocessTokens tokens
  | .escaped c :: tokens => .escaped c :: preprocessTokens tokens
  | .unicode high :: .unicode low :: tokens =>
      if IsHigh high ∧ IsLow low then .unicode high :: .unicode low :: preprocessTokens tokens
      else markUnicode high ++ preprocessTokens (.unicode low :: tokens)
  | .unicode code :: tokens => markUnicode code ++ preprocessTokens tokens

theorem preprocessTokens_unicode {code : ℕ} {tokens : List LiteralToken}
    (hunpaired : IsHigh code → ∀ low, tokens.head? = some (.unicode low) → ¬ IsLow low) :
    preprocessTokens (.unicode code :: tokens) = markUnicode code ++ preprocessTokens tokens := by
  cases tokens with
  | nil => rfl
  | cons token tokens =>
      cases token with
      | plain c => rfl
      | escaped c => rfl
      | unicode low =>
          rw [preprocessTokens, if_neg fun hpair => hunpaired hpair.1 low rfl hpair.2]

section Preprocess

variable {c : Char} {rest : Text}

theorem preprocess_nil (inString : Bool) : preprocess inString [] = [] := by
  rw [preprocess]

theorem preprocess_quote (rest : Text) : preprocess true ('"' :: rest) = '"' :: preprocess false rest := by
  rw [preprocess.eq_def]
  simp

theorem preprocess_plain (hquote : c ≠ '"') (hslash : c ≠ '\\') :
    preprocess true (c :: rest) = markChar c ++ preprocess true rest := by
  rw [preprocess.eq_def]
  simp only [if_neg hquote, if_neg hslash, markChar, Bool.true_eq_false, if_false]
  split
  · rfl
  · rfl

theorem preprocess_escape {escaped : Char} (hcode : parseUEscape ('\\' :: escaped :: rest) = none) :
    preprocess true ('\\' :: escaped :: rest) = '\\' :: escaped :: preprocess true rest := by
  rw [preprocess.eq_def]
  simp only [hcode, Bool.true_eq_false, if_false, if_true, if_neg (show '\\' ≠ '"' by decide)]

/-- The text a `\\u` escape is replaced by. -/
def markUnicodeText (code : ℕ) (escape : Text) : Text :=
  if IsHigh code ∨ IsLow code then jsInternalSurrogateMarker code
  else if isJsInternalMarkerChar (Char.ofNat code) then jsInternalScalarMarker (Char.ofNat code)
  else escape

theorem preprocess_unicode {code : ℕ} (hcode : parseUEscape ('\\' :: rest) = some code)
    (hunpaired : IsHigh code → ∀ low, parseUEscape (rest.drop 5) = some low → ¬ IsLow low) :
    preprocess true ('\\' :: rest) =
      markUnicodeText code (('\\' :: rest).take 6) ++ preprocess true (rest.drop 5) := by
  rw [preprocess.eq_def]
  simp only [hcode, Bool.true_eq_false, if_false, if_true, if_neg (show '\\' ≠ '"' by decide),
    markUnicodeText]
  by_cases hhigh : IsHigh code
  · rw [if_pos hhigh, if_pos (Or.inl hhigh)]
    split
    next low hlow => rw [if_neg (hunpaired hhigh low hlow)]
    next => rfl
  · rw [if_neg hhigh]
    by_cases hlow : IsLow code
    · rw [if_pos hlow, if_pos (Or.inr hlow)]
    · rw [if_neg hlow, if_neg (not_or.2 ⟨hhigh, hlow⟩)]
      split
      · rfl
      · rfl

theorem preprocess_pair {high low : ℕ} (hcode : parseUEscape ('\\' :: rest) = some high)
    (hnext : parseUEscape (rest.drop 5) = some low) (hhigh : IsHigh high) (hlow : IsLow low) :
    preprocess true ('\\' :: rest) =
      ('\\' :: rest).take 12 ++ preprocess true (rest.drop 11) := by
  rw [preprocess.eq_def]
  simp only [hcode, hnext, Bool.true_eq_false, if_false, if_true,
    if_neg (show '\\' ≠ '"' by decide), if_pos hhigh, if_pos hlow]

theorem mem_paddedHex {width : ℕ} : ∀ {n : ℕ} {c : Char}, c ∈ paddedHex width n →
    ∃ digit, toDigit 16 c = some digit := by
  induction width with
  | zero => exact fun hc => by cases hc
  | succ width ih =>
      intro n c hc
      rcases List.mem_append.1 hc with hmem | hmem
      · exact ih hmem
      · rw [mem_singleton.1 hmem]
        exact ⟨_, toDigit_digitChar (n % 16) (Nat.mod_lt n (by decide))⟩

/-- A marker is made of plain characters. -/
theorem plain_marker {kind : Char} (hkind : Plain kind) (width value : ℕ) :
    ∀ c ∈ markerStart :: kind :: (paddedHex width value ++ [markerEnd]), Plain c := by
  have hstart : Plain markerStart := plain_of_toNat (by decide) (by decide)
  have hend : Plain markerEnd := plain_of_toNat (by decide) (by decide)
  refine forall_mem_cons.2 ⟨hstart, forall_mem_cons.2 ⟨hkind, fun c hc => ?_⟩⟩
  rcases List.mem_append.1 hc with hmem | hmem
  · obtain ⟨digit, hdigit⟩ := mem_paddedHex hmem
    exact plain_of_digit hdigit
  · rw [mem_singleton.1 hmem]
    exact hend

theorem plain_surrogateMarker (code : ℕ) : ∀ c ∈ jsInternalSurrogateMarker code, Plain c :=
  plain_marker (plain_of_toNat (by decide) (by decide)) 4 code

theorem plain_scalarMarker (c : Char) : ∀ other ∈ jsInternalScalarMarker c, Plain other :=
  plain_marker (plain_of_toNat (by decide) (by decide)) 6 c.toNat

/-- Preprocessing an escape leaves no digit at its front. -/
theorem preprocess_slash_head (rest : Text) :
    ∃ c tail, preprocess true ('\\' :: rest) = c :: tail ∧ toDigit 16 c = none := by
  cases hcode : parseUEscape ('\\' :: rest) with
  | none =>
      cases rest with
      | nil =>
          rw [preprocess.eq_def]
          simp only [hcode]
          exact ⟨'\\', [], by simp, by decide⟩
      | cons escaped rest => exact ⟨'\\', _, preprocess_escape hcode, by decide⟩
  | some code =>
      by_cases hpair : IsHigh code ∧ ∃ low, parseUEscape (rest.drop 5) = some low ∧ IsLow low
      · obtain ⟨hhigh, low, hnext, hlow⟩ := hpair
        exact ⟨'\\', _, preprocess_pair hcode hnext hhigh hlow, by decide⟩
      · rw [preprocess_unicode hcode fun hhigh low hnext hlow => hpair ⟨hhigh, low, hnext, hlow⟩]
        unfold markUnicodeText
        split
        · exact ⟨markerStart, _, rfl, by decide⟩
        · split
          · exact ⟨markerStart, _, rfl, by decide⟩
          · exact ⟨'\\', _, rfl, by decide⟩

/-- Digits at the front of a preprocessed text were there before. -/
theorem digits_of_preprocess {digits : Text} :
    ∀ {text tail : Text}, preprocess true text = digits ++ tail →
      (∀ c ∈ digits, ∃ digit, toDigit 16 c = some digit) → ∃ tail', text = digits ++ tail' := by
  induction digits with
  | nil => exact fun {text} _ _ _ => ⟨text, rfl⟩
  | cons d digits ih =>
      intro text tail hsame hdigits
      obtain ⟨⟨digit, hd⟩, hdigits⟩ := forall_mem_cons.1 hdigits
      cases text with
      | nil =>
          rw [preprocess_nil] at hsame
          cases hsame
      | cons c rest =>
          by_cases hquote : c = '"'
          · subst hquote
            rw [preprocess_quote, cons_append] at hsame
            rw [← (List.cons.inj hsame).1, show toDigit 16 '"' = none by decide] at hd
            cases hd
          · by_cases hslash : c = '\\'
            · subst hslash
              obtain ⟨first, more, hfirst, hnone⟩ := preprocess_slash_head rest
              rw [hfirst, cons_append] at hsame
              rw [← (List.cons.inj hsame).1, hnone] at hd
              cases hd
            · rw [preprocess_plain hquote hslash, cons_append] at hsame
              unfold markChar at hsame
              split at hsame
              · rw [← (List.cons.inj hsame).1, show toDigit 16 markerStart = none by decide] at hd
                cases hd
              · rw [singleton_append] at hsame
                obtain ⟨hfirst, hrest⟩ := List.cons.inj hsame
                obtain ⟨tail', htail⟩ := ih hrest hdigits
                exact ⟨tail', by rw [hfirst, htail, cons_append]⟩

/-- Preprocessing makes no `\\u` escape out of a malformed one. -/
theorem parseUEscape_preprocess {text : Text} (hcode : parseUEscape ('\\' :: 'u' :: text) = none) :
    parseUEscape ('\\' :: 'u' :: preprocess true text) = none := by
  by_contra hsome
  obtain ⟨code, hfound⟩ := Option.ne_none_iff_exists'.1 hsome
  obtain ⟨digits, tail, heq, hlength, hdigits⟩ := parseUEscape_eq_some hfound
  obtain ⟨tail', rfl⟩ := digits_of_preprocess (List.cons.inj (List.cons.inj heq).2).2
    (mem_of_parseHex hdigits)
  rw [parseUEscape_append hlength hdigits] at hcode
  cases hcode

/-- What is made of a `\\u` escape is read as `markUnicode` says. -/
theorem lexLiteral_markUnicode {digits : Text} {code : ℕ} (hlength : digits.length = 4)
    (hdigits : parseHex digits = some code) (tail : Text) :
    lexLiteral (markUnicodeText code ('\\' :: 'u' :: digits) ++ tail) =
      (lexLiteral tail).map fun found => (markUnicode code ++ found.1, found.2) := by
  unfold markUnicodeText markUnicode
  split
  · exact lexLiteral_plain (plain_surrogateMarker code)
  · split
    · exact lexLiteral_plain (plain_scalarMarker _)
    · rw [cons_append, cons_append, lexLiteral_unicode hlength hdigits]
      rfl

theorem lexLiteral_markChar (hplain : Plain c) (tail : Text) :
    lexLiteral (markChar c ++ tail) =
      (lexLiteral tail).map fun found => ((markChar c).map .plain ++ found.1, found.2) := by
  apply lexLiteral_plain
  unfold markChar
  split
  · exact plain_scalarMarker c
  · simpa using hplain

/-- Preprocessing the text of a literal is preprocessing its parts. -/
def PreprocessesParts (text : Text) : Prop :=
  lexLiteral (preprocess true text) =
    (lexLiteral text).map fun found => (preprocessTokens found.1, preprocess false found.2)

theorem preprocessesParts_char (hquote : c ≠ '"') (hslash : c ≠ '\\') (hrest : PreprocessesParts rest) :
    PreprocessesParts (c :: rest) := by
  unfold PreprocessesParts
  rw [preprocess_plain hquote hslash]
  by_cases hprints : 0x20 ≤ c.toNat
  · have hplain : Plain c := ⟨hquote, hslash, hprints⟩
    have hone := @lexLiteral_plain rest [c] (by simpa using hplain)
    rw [lexLiteral_markChar hplain, hrest, ← singleton_append, hone, Option.map_map,
      Option.map_map]
    rfl
  · -- a control character is an error for both readers
    have hnone : ∀ tail, lexLiteral (c :: tail) = none := by
      intro tail
      apply lexLiteral_none hquote
      rw [lexToken.eq_def]
      dsimp only
      rw [if_neg hslash, if_pos (.inr (by omega))]
    have hsame : markChar c = [c] := by
      have hmarker : isJsInternalMarkerChar c = false := by
        unfold isJsInternalMarkerChar
        rw [Bool.or_eq_false_iff]
        constructor
        · rw [decide_eq_false_iff_not]
          rintro rfl
          exact hprints (by decide)
        · rw [decide_eq_false_iff_not]
          rintro rfl
          exact hprints (by decide)
      rw [markChar, hmarker]
      rfl
    rw [hsame, singleton_append, hnone, hnone]
    rfl

theorem preprocessesParts_escape {escaped : Char}
    (hcode : parseUEscape ('\\' :: escaped :: rest) = none) (hrest : PreprocessesParts rest) :
    PreprocessesParts ('\\' :: escaped :: rest) := by
  have hcode' : parseUEscape ('\\' :: escaped :: preprocess true rest) = none := by
    by_cases hu : escaped = 'u'
    · subst hu
      exact parseUEscape_preprocess hcode
    · unfold parseUEscape
      split
      next heq => exact absurd (List.cons.inj (List.cons.inj heq).2).1 hu
      next => rfl
  unfold PreprocessesParts
  rw [preprocess_escape hcode, lexLiteral_escape hcode', lexLiteral_escape hcode, hrest]
  cases simpleEscape escaped with
  | none => rfl
  | some value =>
      cases lexLiteral rest with
      | none => rfl
      | some found => rfl

theorem preprocessesParts_pair {digits digits' tail : Text} {high low : ℕ}
    (hlength : digits.length = 4) (hdigits : parseHex digits = some high)
    (hlength' : digits'.length = 4) (hdigits' : parseHex digits' = some low)
    (hhigh : IsHigh high) (hlow : IsLow low) (htail : PreprocessesParts tail) :
    PreprocessesParts ('\\' :: 'u' :: (digits ++ '\\' :: 'u' :: (digits' ++ tail))) := by
  have hdrop : ('u' :: (digits ++ '\\' :: 'u' :: (digits' ++ tail))).drop 5 =
      '\\' :: 'u' :: (digits' ++ tail) := by
    rw [List.drop_succ_cons, ← hlength, drop_left]
  have hsplit : '\\' :: 'u' :: (digits ++ '\\' :: 'u' :: (digits' ++ tail)) =
      ('\\' :: 'u' :: (digits ++ '\\' :: 'u' :: digits')) ++ tail := by simp
  have hwidth : ('\\' :: 'u' :: (digits ++ '\\' :: 'u' :: digits')).length = 12 := by
    simp [hlength, hlength']
  have hdrop' : ('u' :: (digits ++ '\\' :: 'u' :: (digits' ++ tail))).drop 11 = tail := by
    rw [show 11 = 4 + 6 + 1 by rfl, List.drop_succ_cons, ← List.drop_drop, ← hlength, drop_left,
      show 6 = 4 + 1 + 1 by rfl, List.drop_succ_cons, List.drop_succ_cons, ← hlength',
      drop_left]
  have hpre : preprocess true ('\\' :: 'u' :: (digits ++ '\\' :: 'u' :: (digits' ++ tail))) =
      '\\' :: 'u' :: (digits ++ '\\' :: 'u' :: (digits' ++ preprocess true tail)) := by
    have hnext := parseUEscape_append hlength' hdigits' tail
    rw [← hdrop] at hnext
    rw [preprocess_pair (parseUEscape_append hlength hdigits _) hnext hhigh hlow, hdrop', hsplit,
      ← hwidth, take_left]
    simp
  unfold PreprocessesParts
  rw [hpre, lexLiteral_unicode hlength hdigits, lexLiteral_unicode hlength' hdigits', htail,
    lexLiteral_unicode hlength hdigits, lexLiteral_unicode hlength' hdigits']
  cases lexLiteral tail with
  | none => rfl
  | some found =>
      simp only [map_some, preprocessTokens, if_pos (And.intro hhigh hlow)]

theorem preprocessesParts_unicode {digits tail : Text} {code : ℕ} (hlength : digits.length = 4)
    (hdigits : parseHex digits = some code)
    (hunpaired : IsHigh code → ∀ low, parseUEscape tail = some low → ¬ IsLow low)
    (htail : PreprocessesParts tail) : PreprocessesParts ('\\' :: 'u' :: (digits ++ tail)) := by
  have hdrop : ('u' :: (digits ++ tail)).drop 5 = tail := by
    rw [List.drop_succ_cons, ← hlength, drop_left]
  have htake : ('\\' :: 'u' :: (digits ++ tail)).take 6 = '\\' :: 'u' :: digits := by
    rw [show 6 = 4 + 1 + 1 by rfl, List.take_succ_cons, List.take_succ_cons, ← hlength,
      take_left]
  unfold PreprocessesParts
  rw [preprocess_unicode (parseUEscape_append hlength hdigits tail) (by rw [hdrop]; exact hunpaired),
    hdrop, htake, lexLiteral_markUnicode hlength hdigits, htail, lexLiteral_unicode hlength hdigits]
  cases hlex : lexLiteral tail with
  | none => rfl
  | some found =>
      obtain ⟨tokens, rest⟩ := found
      simp only [map_some]
      rw [preprocessTokens_unicode fun hhigh low hhead =>
        hunpaired hhigh low ((lexLiteral_head hlex low).1 hhead)]

theorem lexLiteral_preprocess (text : Text) : PreprocessesParts text := by
  induction hsize : text.length using Nat.strong_induction_on generalizing text with
  | _ size ih =>
      subst hsize
      cases text with
      | nil =>
          unfold PreprocessesParts
          rw [preprocess_nil]
          simp [lexLiteral]
      | cons c rest =>
          by_cases hquote : c = '"'
          · subst hquote
            unfold PreprocessesParts
            rw [preprocess_quote, lexLiteral_quote, lexLiteral_quote]
            rfl
          by_cases hslash : c = '\\'
          · subst hslash
            cases hcode : parseUEscape ('\\' :: rest) with
            | none =>
                cases rest with
                | nil =>
                    have hnone : lexLiteral ['\\'] = none := lexLiteral_none (by decide) (by
                      rw [lexToken, if_pos rfl, hcode])
                    have hsame : preprocess true ['\\'] = ['\\'] := by
                      rw [preprocess.eq_def]
                      simp [hcode]
                    unfold PreprocessesParts
                    rw [hsame, hnone]
                    rfl
                | cons escaped rest =>
                    exact preprocessesParts_escape hcode
                      (ih rest.length (by simp only [List.length_cons]; omega) rest rfl)
            | some code =>
                obtain ⟨digits, tail, heq, hlength, hdigits⟩ := parseUEscape_eq_some hcode
                rw [(List.cons.inj heq).2] at ih ⊢
                by_cases hpair : IsHigh code ∧ ∃ low, parseUEscape tail = some low ∧ IsLow low
                · obtain ⟨hhigh, low, hnext, hlow⟩ := hpair
                  obtain ⟨digits', tail', rfl, hlength', hdigits'⟩ := parseUEscape_eq_some hnext
                  exact preprocessesParts_pair hlength hdigits hlength' hdigits' hhigh hlow
                    (ih tail'.length (by simp; omega) tail' rfl)
                · exact preprocessesParts_unicode hlength hdigits
                    (fun hhigh low hnext hlow => hpair ⟨hhigh, low, hnext, hlow⟩)
                    (ih tail.length (by simp; omega) tail rfl)
          · exact preprocessesParts_char hquote hslash (ih rest.length (by simp) rest rfl)

end Preprocess

/-! ### The string of a sequence of code units -/

/-- A code point in a string of the engine. -/
def codePointText (point : ℕ) : Text :=
  if IsHigh point ∨ IsLow point then jsInternalSurrogateMarker point else markChar (Char.ofNat point)

/-- The string of the engine for a sequence of code units. -/
def modelString (units : List ℕ) : Text := (codePoints units).flatMap codePointText

/-- Code units have 16 bits. -/
def CodeUnits (units : List ℕ) : Prop := ∀ unit ∈ units, unit < 0x10000

theorem not_surrogate (c : Char) : ¬ (IsHigh c.toNat ∨ IsLow c.toNat) := by
  have hvalid : c.toNat.isValidChar := c.valid
  unfold IsHigh IsLow
  rcases hvalid with hsmall | ⟨hlarge, -⟩
  · omega
  · omega

theorem toNat_lt (c : Char) : c.toNat < 0x110000 := by
  have hvalid : c.toNat.isValidChar := c.valid
  rcases hvalid with hsmall | ⟨-, hlarge⟩
  · omega
  · exact hlarge

theorem isJsInternalMarkerChar_iff :
    isJsInternalMarkerChar c = true ↔ c.toNat = 0xe000 ∨ c.toNat = 0xe001 := by
  unfold isJsInternalMarkerChar
  rw [Bool.or_eq_true, decide_eq_true_iff, decide_eq_true_iff, ← Char.toNat_inj, ← Char.toNat_inj]
  exact Iff.rfl

theorem markChar_of_not_marker (hlow : c.toNat ≠ 0xe000) (hhigh : c.toNat ≠ 0xe001) :
    markChar c = [c] := by
  rw [markChar, if_neg]
  rw [isJsInternalMarkerChar_iff]
  omega

theorem codePointText_toNat (c : Char) : codePointText c.toNat = markChar c := by
  rw [codePointText, if_neg (not_surrogate c), Char.ofNat_toNat]

section ModelString

variable {units : List ℕ}

theorem modelString_cons {unit : ℕ} (hunpaired : IsHigh unit → ∀ next ∈ units.head?, ¬ IsLow next) :
    modelString (unit :: units) = codePointText unit ++ modelString units := by
  rw [modelString, codePoints_cons hunpaired, flatMap_cons]
  rfl

theorem modelString_pair {high low : ℕ} (hhigh : IsHigh high) (hlow : IsLow low) :
    modelString (high :: low :: units) = Char.ofNat (pair high low) :: modelString units := by
  have hvalid : (pair high low).isValidChar := by
    refine .inr ⟨?_, pair_lt hhigh hlow⟩
    unfold pair
    omega
  have htext : codePointText (pair high low) = [Char.ofNat (pair high low)] := by
    rw [codePointText, if_neg (not_or.2 ⟨not_isHigh_pair _ _, not_isLow_pair _ _⟩)]
    have hlarge : 0x10000 ≤ pair high low := by
      unfold pair
      omega
    apply markChar_of_not_marker
    · rw [Utf8.toNat_ofNat hvalid]
      omega
    · rw [Utf8.toNat_ofNat hvalid]
      omega
  rw [modelString, codePoints, if_pos ⟨hhigh, hlow⟩, flatMap_cons, htext]
  rfl

theorem modelString_char (c : Char) :
    modelString (pointUnits c.toNat ++ units) = markChar c ++ modelString units := by
  rw [← codePointText_toNat]
  by_cases hsmall : c.toNat < 0x10000
  · rw [pointUnits, if_pos hsmall, singleton_append, modelString_cons]
    exact fun hhigh => absurd (.inl hhigh) (not_surrogate c)
  · obtain ⟨high, low, hhigh, hlow, hunits, hpair⟩ := pair_of_pointUnits hsmall (toNat_lt c)
    rw [hunits, cons_append, singleton_append, modelString, codePoints,
      if_pos ⟨hhigh, hlow⟩, hpair, flatMap_cons]
    rfl

end ModelString

/-! ### What `serde_json` reads -/

/-- A part of a literal as a literal can hold it. -/
def LiteralToken.Valid : LiteralToken → Prop
  | .plain _ => True
  | .escaped c => c.toNat < 0x80
  | .unicode code => code < 0x10000

section Serde

theorem serdeChars_plain (chars : Text) (tokens : List LiteralToken) :
    serdeChars (chars.map .plain ++ tokens) = (serdeChars tokens).map (chars ++ ·) := by
  induction chars with
  | nil => simp
  | cons c chars ih =>
      rw [List.map_cons, cons_append, serdeChars, ih, Option.map_map]
      rfl

theorem serdeChars_unicode {code : ℕ} (hscalar : ¬ (IsHigh code ∨ IsLow code))
    (tokens : List LiteralToken) :
    serdeChars (.unicode code :: tokens) = (serdeChars tokens).map (Char.ofNat code :: ·) := by
  obtain ⟨hhigh, hlow⟩ := not_or.1 hscalar
  cases tokens with
  | nil => simp [serdeChars, hhigh, hlow]
  | cons token tokens =>
      cases token with
      | plain c => simp [serdeChars, hhigh, hlow]
      | escaped c => simp [serdeChars, hhigh, hlow]
      | unicode low => rw [serdeChars, if_neg hlow, if_neg hhigh]

/-- An unpaired `\\u` escape after preprocessing is read as the text of its code point. -/
theorem serdeChars_markUnicode (code : ℕ) (tokens : List LiteralToken) :
    serdeChars (markUnicode code ++ tokens) = (serdeChars tokens).map (codePointText code ++ ·) := by
  unfold markUnicode codePointText
  by_cases hsurrogate : IsHigh code ∨ IsLow code
  · rw [if_pos hsurrogate, if_pos hsurrogate]
    exact serdeChars_plain _ tokens
  · rw [if_neg hsurrogate, if_neg hsurrogate]
    by_cases hmarker : isJsInternalMarkerChar (Char.ofNat code) = true
    · rw [if_pos hmarker, markChar, if_pos hmarker]
      exact serdeChars_plain _ tokens
    · rw [if_neg hmarker, markChar, if_neg hmarker]
      exact serdeChars_unicode hsurrogate tokens

/-- The first code unit of a character is no low surrogate. -/
theorem not_isLow_char {c : Char} {units : List ℕ} {unit : ℕ}
    (hunit : unit ∈ (pointUnits c.toNat ++ units).head?) : ¬ IsLow unit := by
  by_cases hsmall : c.toNat < 0x10000
  · rw [pointUnits, if_pos hsmall, singleton_append, List.head?_cons, Option.mem_some_iff] at hunit
    rw [← hunit]
    exact fun hlow => not_surrogate c (.inr hlow)
  · obtain ⟨high, low, hhigh, -, hunits, -⟩ := pair_of_pointUnits hsmall (toNat_lt c)
    rw [hunits, cons_append, List.head?_cons, Option.mem_some_iff] at hunit
    rw [← hunit]
    exact not_isLow_of_isHigh hhigh

/-- The first code unit of a literal is a low surrogate only in a `\\u` escape. -/
theorem isLow_units {tokens : List LiteralToken} {unit : ℕ}
    (hunit : unit ∈ (tokens.flatMap LiteralToken.units).head?) (hlow : IsLow unit) :
    tokens.head? = some (.unicode unit) := by
  cases tokens with
  | nil => cases hunit
  | cons token tokens =>
      rw [flatMap_cons] at hunit
      cases token with
      | plain c => exact absurd hlow (not_isLow_char hunit)
      | escaped c => exact absurd hlow (not_isLow_char hunit)
      | unicode code =>
          rw [LiteralToken.units, singleton_append, List.head?_cons, Option.mem_some_iff] at hunit
          rw [hunit]
          rfl

theorem modelString_unicode {code : ℕ} {tokens : List LiteralToken}
    (hunpaired : IsHigh code → ∀ unit, tokens.head? = some (.unicode unit) → ¬ IsLow unit) :
    modelString ((LiteralToken.unicode code :: tokens).flatMap LiteralToken.units) =
      codePointText code ++ modelString (tokens.flatMap LiteralToken.units) := by
  rw [flatMap_cons, LiteralToken.units, singleton_append, modelString_cons]
  exact fun hhigh unit hunit hlow => hunpaired hhigh unit (isLow_units hunit hlow) hlow

/-- `serde_json` reads the string of the code units. -/
theorem serdeChars_preprocessTokens {tokens : List LiteralToken}
    (hvalid : ∀ token ∈ tokens, token.Valid) :
    serdeChars (preprocessTokens tokens) =
      some (modelString (tokens.flatMap LiteralToken.units)) := by
  fun_induction preprocessTokens tokens with
  | case1 => rfl
  | case2 c tokens ih =>
      rw [serdeChars_plain, ih fun token hmem => hvalid token (mem_cons_of_mem _ hmem),
        flatMap_cons, LiteralToken.units, modelString_char, map_some]
  | case3 c tokens ih =>
      have hascii : c.toNat < 0x80 := hvalid (.escaped c) List.mem_cons_self
      rw [serdeChars, ih fun token hmem => hvalid token (mem_cons_of_mem _ hmem),
        flatMap_cons, LiteralToken.units, modelString_char,
        markChar_of_not_marker (by omega) (by omega), map_some, singleton_append]
  | case4 high low tokens hpair ih =>
      rw [serdeChars, if_neg (not_isLow_of_isHigh hpair.1), if_pos hpair.1, if_pos hpair.2,
        ih fun token hmem => hvalid token (mem_cons_of_mem _ (mem_cons_of_mem _ hmem)),
        flatMap_cons, flatMap_cons, LiteralToken.units, LiteralToken.units,
        singleton_append, singleton_append, modelString_pair hpair.1 hpair.2,
        map_some]
  | case5 high low tokens hpair ih =>
      have hstring := @modelString_unicode high (.unicode low :: tokens) (by
        intro hhigh unit hhead hlow
        cases hhead
        exact hpair ⟨hhigh, hlow⟩)
      rw [serdeChars_markUnicode, hstring,
        ih fun token hmem => hvalid token (mem_cons_of_mem _ hmem), map_some]
  | case6 code tokens hne ih =>
      rw [serdeChars_markUnicode, ih fun token hmem => hvalid token (mem_cons_of_mem _ hmem),
        map_some, modelString_unicode]
      intro hhigh unit hhead hlow
      cases tokens with
      | nil => cases hhead
      | cons token tokens =>
          cases hhead
          exact hne unit tokens rfl

theorem simpleEscape_ascii {c value : Char} (hvalue : simpleEscape c = some value) :
    value.toNat < 0x80 := by
  unfold simpleEscape at hvalue
  split_ifs at hvalue <;> cases hvalue <;> decide

theorem valid_of_lexToken {text tail : Text} {token : LiteralToken}
    (htoken : lexToken text = some (token, tail)) : token.Valid := by
  unfold lexToken at htoken
  split at htoken
  · cases htoken
  · split at htoken
    · split at htoken
      next code hcode =>
        cases htoken
        exact code_lt hcode
      next =>
        split at htoken
        · cases htoken
        next escaped rest =>
          obtain ⟨value, hvalue, heq⟩ := map_eq_some_iff.1 htoken
          cases heq
          exact simpleEscape_ascii hvalue
    · split at htoken
      · cases htoken
      · cases htoken
        trivial

theorem valid_of_lexLiteral (text : Text) : ∀ {tokens : List LiteralToken} {rest : Text},
    lexLiteral text = some (tokens, rest) → ∀ token ∈ tokens, token.Valid := by
  induction hsize : text.length using Nat.strong_induction_on generalizing text with
  | _ size ih =>
      intro tokens rest hlex
      subst hsize
      cases text with
      | nil => simp [lexLiteral] at hlex
      | cons c text =>
          by_cases hquote : c = '"'
          · subst hquote
            rw [lexLiteral_quote] at hlex
            cases hlex
            simp
          · cases htoken : lexToken (c :: text) with
            | none =>
                rw [lexLiteral_none hquote htoken] at hlex
                cases hlex
            | some found =>
                obtain ⟨token, tail⟩ := found
                rw [lexLiteral_cons hquote htoken] at hlex
                obtain ⟨⟨more, final⟩, hmore, heq⟩ := map_eq_some_iff.1 hlex
                cases heq
                exact forall_mem_cons.2 ⟨valid_of_lexToken htoken,
                  ih tail.length (length_of_lexToken htoken) tail rfl hmore⟩

end Serde

/-! ### The strings of a JSON text -/

theorem scanLiterals_skip {rest : Text} (hquote : c ≠ '"') :
    scanLiterals (c :: rest) = scanLiterals rest := by
  rw [scanLiterals, if_neg hquote]

theorem scanLiterals_quote (rest : Text) :
    scanLiterals ('"' :: rest) =
      (lexLiteral rest).bind fun found => (scanLiterals found.2).map (found.1 :: ·) := by
  rw [scanLiterals, if_pos rfl]
  split
  next hnone => rw [hnone]; rfl
  next tokens tail hsome => rw [hsome]; rfl

theorem scanLiterals_append {chars rest : Text} (hquote : '"' ∉ chars) :
    scanLiterals (chars ++ rest) = scanLiterals rest := by
  induction chars with
  | nil => rfl
  | cons c chars ih =>
      obtain ⟨hc, hchars⟩ := not_or.1 (mt List.mem_cons.2 hquote)
      rw [cons_append, scanLiterals_skip fun heq => hc heq.symm, ih hchars]

/-- The bytes of a character other than a quote are no quotes. -/
theorem quote_not_mem_bytesAsChars (hquote : c ≠ '"') : '"' ∉ bytesAsChars c := by
  intro hmem
  obtain ⟨byte, hbyte, heq⟩ := List.mem_map.1 hmem
  have hvalue : byte.toNat = 34 := by
    have hnat := congrArg Char.toNat heq
    have hvalid : byte.toNat.isValidChar := .inl (by have := byte.toNat_lt; omega)
    rwa [Utf8.toNat_ofNat hvalid] at hnat
  rcases Utf8.byte_of_encodeChar c byte hbyte with hsame | hlarge
  · exact hquote (Char.toNat_inj.1 (hsame.symm.trans hvalue))
  · omega

theorem bytesAsChars_quote : bytesAsChars '"' = ['"'] := by decide

theorem preprocess_outside (c : Char) (rest : Text) :
    preprocess false (c :: rest) = bytesAsChars c ++ preprocess (c = '"') rest := by
  rw [preprocess.eq_def]
  simp

/-- The literals of a preprocessed text are the preprocessed literals. -/
theorem scanLiterals_preprocess (text : Text) :
    scanLiterals (preprocess false text) = (scanLiterals text).map (List.map preprocessTokens) := by
  induction hsize : text.length using Nat.strong_induction_on generalizing text with
  | _ size ih =>
      subst hsize
      cases text with
      | nil =>
          rw [preprocess_nil]
          simp [scanLiterals]
      | cons c rest =>
          rw [preprocess_outside]
          by_cases hquote : c = '"'
          · subst hquote
            have hlex : PreprocessesParts rest := lexLiteral_preprocess rest
            unfold PreprocessesParts at hlex
            rw [bytesAsChars_quote, singleton_append, decide_eq_true rfl, scanLiterals_quote,
              scanLiterals_quote, hlex]
            cases hfound : lexLiteral rest with
            | none => rfl
            | some found =>
                obtain ⟨tokens, tail⟩ := found
                have hshorter := length_of_lexLiteral hfound
                have htail := ih tail.length (by rw [List.length_cons]; omega) tail rfl
                simp only [map_some, bind_some, htail, Option.map_map]
                rfl
          · rw [scanLiterals_append (quote_not_mem_bytesAsChars hquote), scanLiterals_skip hquote,
              decide_eq_false hquote]
            exact ih rest.length (by simp) rest rfl

theorem valid_of_scanLiterals (text : Text) : ∀ {literals : List (List LiteralToken)},
    scanLiterals text = some literals → ∀ tokens ∈ literals, ∀ token ∈ tokens, token.Valid := by
  induction hsize : text.length using Nat.strong_induction_on generalizing text with
  | _ size ih =>
      intro literals hscan
      subst hsize
      cases text with
      | nil =>
          rw [scanLiterals] at hscan
          cases hscan
          simp
      | cons c rest =>
          by_cases hquote : c = '"'
          · subst hquote
            rw [scanLiterals_quote] at hscan
            obtain ⟨⟨tokens, tail⟩, hlex, hscan⟩ := bind_eq_some_iff.1 hscan
            obtain ⟨more, hmore, rfl⟩ := map_eq_some_iff.1 hscan
            have hshorter := length_of_lexLiteral hlex
            exact forall_mem_cons.2 ⟨valid_of_lexLiteral rest hlex,
              ih tail.length (by rw [List.length_cons]; omega) tail rfl hmore⟩
          · rw [scanLiterals_skip hquote] at hscan
            exact ih rest.length (by simp) rest rfl hscan

theorem mapM_serdeChars {literals : List (List LiteralToken)}
    (hvalid : ∀ tokens ∈ literals, ∀ token ∈ tokens, token.Valid) :
    (literals.map preprocessTokens).mapM serdeChars =
      some (literals.map fun tokens => modelString (tokens.flatMap LiteralToken.units)) := by
  induction literals with
  | nil => rfl
  | cons tokens literals ih =>
      obtain ⟨htokens, hliterals⟩ := forall_mem_cons.1 hvalid
      rw [List.map_cons, List.mapM_cons, serdeChars_preprocessTokens htokens, ih hliterals]
      rfl

/-- Preprocessing makes `serde_json` read the string of the code units that JavaScript reads, for every
literal of a text. -/
theorem serdeStrings_preprocess (text : Text) :
    serdeStrings (preprocessJsJsonForSerde text) = (jsStrings text).map (List.map modelString) := by
  unfold serdeStrings preprocessJsJsonForSerde jsStrings
  rw [scanLiterals_preprocess]
  cases hscan : scanLiterals text with
  | none => rfl
  | some literals =>
      simp only [map_some, bind_some, List.map_map]
      exact mapM_serdeChars (valid_of_scanLiterals text hscan)

theorem codeUnits_of_jsStrings {text : Text} {strings : List (List ℕ)}
    (hstrings : jsStrings text = some strings) : ∀ units ∈ strings, CodeUnits units := by
  obtain ⟨literals, hscan, rfl⟩ := map_eq_some_iff.1 hstrings
  intro units hunits unit hunit
  obtain ⟨tokens, htokens, rfl⟩ := List.mem_map.1 hunits
  obtain ⟨token, htoken, hunit⟩ := List.mem_flatMap.1 hunit
  have hvalid := valid_of_scanLiterals text hscan tokens htokens token htoken
  cases token with
  | plain c => exact pointUnits_lt (toNat_lt c) unit hunit
  | escaped c => exact pointUnits_lt (toNat_lt c) unit hunit
  | unicode code =>
      rw [mem_singleton.1 hunit]
      exact hvalid

end OrdDogecoin.Tap
