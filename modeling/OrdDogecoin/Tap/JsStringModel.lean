/-
Module: OrdDogecoin.Tap.JsStringModel
Purpose: The engine's strings are JavaScript's: different code units are different strings,
  `JSON.stringify` and reading undo each other on them, lower-casing leads from such strings to such
  strings, and so a token's key is a key of its lower-case name.
Trusted boundary: as in OrdDogecoin.Tap.JsStrings
Main exports: pieces_points, parse_stringify, jsStrings_faithful
-/
import OrdDogecoin.Tap.JsLiterals

namespace OrdDogecoin.Tap

open Utf16
open Option (bind_some map_some bind_eq_bind)

/-! ### The parts of a string -/

/-- The part of a string for a code point. -/
def pointPiece (point : ℕ) : Piece :=
  if IsHigh point ∨ IsLow point then .marker 's' point
  else if isJsInternalMarkerChar (Char.ofNat point) then .marker 'u' point
  else .char (Char.ofNat point)

/-- Code points, surrogates included. -/
def CodePoints (points : List ℕ) : Prop := ∀ point ∈ points, point < 0x110000

theorem isValidChar_of_not_surrogate {point : ℕ} (hpoint : point < 0x110000)
    (hscalar : ¬ (IsHigh point ∨ IsLow point)) : point.isValidChar := by
  unfold IsHigh IsLow at hscalar
  by_cases hsmall : point < 0xd800
  · exact .inl hsmall
  · exact .inr ⟨by omega, hpoint⟩

theorem markerShape_s : markerShape 's' = some (4, 0xd800, 0xdfff) := by decide

theorem markerShape_u : markerShape 'u' = some (6, 0, 0x10ffff) := by decide

/-- A marker at the front of a text is found. -/
theorem jsInternalMarkerAt_marker {kind : Char} {width min max value : ℕ}
    (hshape : markerShape kind = some (width, min, max)) (hvalue : value < 16 ^ width)
    (hmin : min ≤ value) (hmax : value ≤ max) (rest : Text) :
    jsInternalMarkerAt (markerStart :: kind :: (paddedHex width value ++ [markerEnd]) ++ rest) =
      some (kind, value, rest) := by
  have htext : markerStart :: kind :: (paddedHex width value ++ [markerEnd]) ++ rest =
      markerStart :: kind :: (paddedHex width value ++ markerEnd :: rest) := by simp
  have hwidth := length_paddedHex width value
  have hdrop : (paddedHex width value ++ markerEnd :: rest).drop width = markerEnd :: rest := by
    rw [← hwidth, hwidth, List.drop_left' hwidth]
  have htake : (paddedHex width value ++ markerEnd :: rest).take width = paddedHex width value :=
    List.take_left' hwidth
  have hafter : (paddedHex width value ++ markerEnd :: rest).drop (width + 1) = rest := by
    rw [← List.drop_drop, hdrop, List.drop_succ_cons, List.drop_zero]
  rw [htext, jsInternalMarkerAt]
  simp only [hshape, bind_eq_bind, bind_some, hdrop, htake, hafter,
    parseHex_paddedHex width value hvalue, List.head?_cons, and_self, if_true]
  rw [if_neg (by omega)]

theorem jsInternalMarkerAt_of_ne {c : Char} {rest : Text} (hc : c ≠ markerStart) :
    jsInternalMarkerAt (c :: rest) = none := by
  cases rest with
  | nil => rfl
  | cons kind rest =>
      rw [jsInternalMarkerAt]
      cases markerShape kind with
      | none => rfl
      | some shape =>
          obtain ⟨width, min, max⟩ := shape
          simp only [bind_eq_bind, bind_some, hc, false_and, if_false]

theorem pieces_marker {text rest : Text} {kind : Char} {value : ℕ}
    (hmarker : jsInternalMarkerAt text = some (kind, value, rest)) :
    pieces text = .marker kind value :: pieces rest := by
  cases text with
  | nil => simp [jsInternalMarkerAt] at hmarker
  | cons c text =>
      rw [pieces]
      split
      next found hsome =>
        rw [hmarker] at hsome
        cases hsome
        rfl
      next hnone => simp [hmarker] at hnone

theorem pieces_char {c : Char} {rest : Text} (hc : c ≠ markerStart) :
    pieces (c :: rest) = .char c :: pieces rest := by
  rw [pieces]
  split
  next hsome => simp [jsInternalMarkerAt_of_ne hc] at hsome
  next => rfl

theorem pieces_point {point : ℕ} (hpoint : point < 0x110000) (rest : Text) :
    pieces (codePointText point ++ rest) = pointPiece point :: pieces rest := by
  unfold codePointText pointPiece
  by_cases hsurrogate : IsHigh point ∨ IsLow point
  · rw [if_pos hsurrogate, if_pos hsurrogate]
    unfold IsHigh IsLow at hsurrogate
    exact pieces_marker
      (jsInternalMarkerAt_marker markerShape_s (by omega) (by omega) (by omega) rest)
  · rw [if_neg hsurrogate, if_neg hsurrogate]
    have hnat := Utf8.toNat_ofNat (isValidChar_of_not_surrogate hpoint hsurrogate)
    unfold markChar
    split
    · rw [jsInternalScalarMarker, hnat]
      exact pieces_marker
        (jsInternalMarkerAt_marker markerShape_u (by omega) (by omega) (by omega) rest)
    next hmarker =>
      refine pieces_char fun hstart => hmarker ?_
      rw [hstart]
      decide

variable {points : List ℕ}

theorem pieces_points (hpoints : CodePoints points) :
    pieces (points.flatMap codePointText) = points.map pointPiece := by
  induction points with
  | nil => simp [pieces]
  | cons point points ih =>
      obtain ⟨hpoint, hpoints⟩ := List.forall_mem_cons.1 hpoints
      rw [List.flatMap_cons, pieces_point hpoint, ih hpoints, List.map_cons]

theorem pointPiece_inj {point other : ℕ} (hpoint : point < 0x110000) (hother : other < 0x110000)
    (hsame : pointPiece point = pointPiece other) : point = other := by
  unfold pointPiece at hsame
  by_cases hsurrogate : IsHigh point ∨ IsLow point
  · rw [if_pos hsurrogate] at hsame
    split_ifs at hsame
    · exact (Piece.marker.inj hsame).2
    · exact absurd (Piece.marker.inj hsame).1 (by decide)
  · rw [if_neg hsurrogate] at hsame
    split_ifs at hsame with hmarker hother hmarker' hother hmarker'
    · exact absurd (Piece.marker.inj hsame).1 (by decide)
    · exact (Piece.marker.inj hsame).2
    · have hchar := congrArg Char.toNat (Piece.char.inj hsame)
      rwa [Utf8.toNat_ofNat (isValidChar_of_not_surrogate hpoint hsurrogate),
        Utf8.toNat_ofNat (isValidChar_of_not_surrogate ‹_› hother)] at hchar

/-- Different code points are different strings. -/
theorem points_of_text {points others : List ℕ} (hpoints : CodePoints points)
    (hothers : CodePoints others)
    (hsame : points.flatMap codePointText = others.flatMap codePointText) : points = others := by
  have hpieces : points.map pointPiece = others.map pointPiece := by
    rw [← pieces_points hpoints, ← pieces_points hothers, hsame]
  clear hsame
  induction points generalizing others with
  | nil =>
      cases others with
      | nil => rfl
      | cons other others => cases hpieces
  | cons point points ih =>
      cases others with
      | nil => cases hpieces
      | cons other others =>
          obtain ⟨hpoint, hpoints⟩ := List.forall_mem_cons.1 hpoints
          obtain ⟨hother, hothers⟩ := List.forall_mem_cons.1 hothers
          obtain ⟨hhead, htail⟩ := List.cons.inj hpieces
          rw [pointPiece_inj hpoint hother hhead, ih hpoints hothers htail]

theorem modelString_injective {units others : List ℕ} (hunits : CodeUnits units)
    (hothers : CodeUnits others) (hsame : modelString units = modelString others) :
    units = others := by
  have hpoints := points_of_text (lt_of_mem_codePoints hunits) (lt_of_mem_codePoints hothers) hsame
  rw [← units_codePoints hunits, hpoints, units_codePoints hothers]

/-! ### `JSON.stringify` -/

/-- A code point in `JSON.stringify`. -/
def pointJson (point : ℕ) : Text :=
  if IsHigh point ∨ IsLow point then '\\' :: 'u' :: paddedHex 4 point
  else escapeChar (Char.ofNat point)

theorem walkSegments_json (hpoints : CodePoints points) :
    ∀ segment, walkSegments (List.flatMap escapeChar) jsonMarker segment (points.map pointPiece) =
      segment.flatMap escapeChar ++ points.flatMap pointJson := by
  induction points with
  | nil => simp [walkSegments]
  | cons point points ih =>
      intro segment
      obtain ⟨hpoint, hpoints⟩ := List.forall_mem_cons.1 hpoints
      rw [List.map_cons, List.flatMap_cons, pointPiece, pointJson]
      by_cases hsurrogate : IsHigh point ∨ IsLow point
      · rw [if_pos hsurrogate, if_pos hsurrogate, walkSegments, ih hpoints]
        rfl
      · rw [if_neg hsurrogate, if_neg hsurrogate]
        split
        · have hchar : charFromU32 point = some (Char.ofNat point) :=
            if_pos (isValidChar_of_not_surrogate hpoint hsurrogate)
          have hmarker : jsonMarker 'u' point = escapeChar (Char.ofNat point) := by
            rw [jsonMarker, if_neg (by decide), hchar]
          rw [walkSegments, hmarker, ih hpoints]
          rfl
        · rw [walkSegments, ih hpoints]
          simp

/-- Without a marker, every code point is one character. -/
theorem codePointText_of_not_mem {point : ℕ} (hstart : markerStart ∉ codePointText point) :
    ¬ (IsHigh point ∨ IsLow point) ∧ isJsInternalMarkerChar (Char.ofNat point) = false ∧
      codePointText point = [Char.ofNat point] := by
  unfold codePointText at hstart ⊢
  by_cases hsurrogate : IsHigh point ∨ IsLow point
  · rw [if_pos hsurrogate] at hstart
    exact absurd List.mem_cons_self hstart
  · rw [if_neg hsurrogate] at hstart ⊢
    unfold markChar at hstart ⊢
    by_cases hmarker : isJsInternalMarkerChar (Char.ofNat point) = true
    · rw [if_pos hmarker] at hstart
      exact absurd List.mem_cons_self hstart
    · rw [if_neg hmarker]
      exact ⟨hsurrogate, by simpa using hmarker, rfl⟩

theorem stringify_points (hpoints : CodePoints points) :
    jsJsonStringifyStr (points.flatMap codePointText) =
      '"' :: (points.flatMap pointJson ++ ['"']) := by
  unfold jsJsonStringifyStr
  split
  · rw [pieces_points hpoints, walkSegments_json hpoints]
    rfl
  next hstart =>
    have hsame : (points.flatMap codePointText).flatMap escapeChar = points.flatMap pointJson := by
      rw [List.flatMap_assoc]
      refine List.flatMap_congr fun point hpoint => ?_
      obtain ⟨hscalar, -, htext⟩ := codePointText_of_not_mem fun hmem =>
        hstart (List.mem_flatMap.2 ⟨point, hpoint, hmem⟩)
      rw [htext, pointJson, if_neg hscalar]
      simp
    rw [jsonString, hsame]

theorem lexLiteral_simple {letter value : Char} (hvalue : simpleEscape letter = some value)
    (hletter : letter ≠ 'u') (tail : Text) :
    lexLiteral ('\\' :: letter :: tail) =
      (lexLiteral tail).map fun found => (.escaped value :: found.1, found.2) := by
  have hcode : parseUEscape ('\\' :: letter :: tail) = none := by
    unfold parseUEscape
    split
    next heq => exact absurd (List.cons.inj (List.cons.inj heq).2).1 hletter
    next => rfl
  rw [lexLiteral_escape hcode, hvalue, bind_some]

/-- An escaped character is read as one part of a literal. -/
theorem lexLiteral_escapeChar (c : Char) :
    ∃ token : LiteralToken, token.units = pointUnits c.toNat ∧
      ∀ tail, lexLiteral (escapeChar c ++ tail) =
        (lexLiteral tail).map fun found => (token :: found.1, found.2) := by
  have hsimple : ∀ letter, letter ≠ 'u' → simpleEscape letter = some c →
      ∃ token : LiteralToken, token.units = pointUnits c.toNat ∧
        ∀ tail, lexLiteral (['\\', letter] ++ tail) =
          (lexLiteral tail).map fun found => (token :: found.1, found.2) :=
    fun letter hne hvalue => ⟨.escaped c, rfl, lexLiteral_simple hvalue hne⟩
  unfold escapeChar
  split_ifs with hquote hslash hb ht hn hf hr hcontrol
  · exact hsimple '"' (by decide) (by rw [hquote]; decide)
  · exact hsimple '\\' (by decide) (by rw [hslash]; decide)
  · exact hsimple 'b' (by decide) (by rw [hb]; decide)
  · exact hsimple 't' (by decide) (by rw [ht]; decide)
  · exact hsimple 'n' (by decide) (by rw [hn]; decide)
  · exact hsimple 'f' (by decide) (by rw [hf]; decide)
  · exact hsimple 'r' (by decide) (by rw [hr]; decide)
  · refine ⟨.unicode c.toNat, ?_, fun tail => ?_⟩
    · rw [pointUnits, if_pos (by omega)]
      rfl
    · refine @lexLiteral_unicode ['0', '0', Nat.digitChar (c.toNat / 16), Nat.digitChar (c.toNat % 16)]
        c.toNat rfl ?_ tail
      have hzero : toDigit 16 '0' = some 0 := by decide
      have hhigh := toDigit_digitChar (c.toNat / 16) (by omega)
      have hlow := toDigit_digitChar (c.toNat % 16) (by omega)
      simp only [parseHex, List.foldlM_cons, List.foldlM_nil, hzero, hhigh, hlow, map_some,
        bind_eq_bind, bind_some, Option.pure_def, Option.some_inj]
      omega
  · refine ⟨.plain c, rfl, fun tail => ?_⟩
    have hplain : Plain c := ⟨hquote, hslash, by omega⟩
    exact lexLiteral_plain (List.forall_mem_singleton.2 hplain)

/-- The literal that `JSON.stringify` writes has the units of the code points. -/
theorem lexLiteral_points (hpoints : CodePoints points) (tail : Text) :
    ∃ tokens, lexLiteral (points.flatMap pointJson ++ '"' :: tail) = some (tokens, tail) ∧
      tokens.flatMap LiteralToken.units = points.flatMap pointUnits := by
  induction points with
  | nil => exact ⟨[], lexLiteral_quote tail, rfl⟩
  | cons point points ih =>
      obtain ⟨hpoint, hpoints⟩ := List.forall_mem_cons.1 hpoints
      obtain ⟨tokens, hlex, hunits⟩ := ih hpoints
      have hfirst : ∃ token : LiteralToken, token.units = pointUnits point ∧
          ∀ tail, lexLiteral (pointJson point ++ tail) =
            (lexLiteral tail).map fun found => (token :: found.1, found.2) := by
        unfold pointJson
        by_cases hsurrogate : IsHigh point ∨ IsLow point
        · rw [if_pos hsurrogate]
          unfold IsHigh IsLow at hsurrogate
          refine ⟨.unicode point, ?_, fun tail => ?_⟩
          · rw [pointUnits, if_pos (by omega)]
            rfl
          · exact lexLiteral_unicode (length_paddedHex 4 point)
              (parseHex_paddedHex 4 point (by omega)) tail
        · rw [if_neg hsurrogate]
          have hchar := lexLiteral_escapeChar (Char.ofNat point)
          rwa [Utf8.toNat_ofNat (isValidChar_of_not_surrogate hpoint hsurrogate)] at hchar
      obtain ⟨token, htoken, hread⟩ := hfirst
      refine ⟨token :: tokens, ?_, ?_⟩
      · rw [List.flatMap_cons, List.append_assoc, hread, hlex]
        rfl
      · rw [List.flatMap_cons, List.flatMap_cons, htoken, hunits]

/-- `JSON.stringify` is undone by reading. -/
theorem parse_stringify (hunsplit : Unsplit points) (hpoints : CodePoints points) :
    jsJsonStringParseStr (jsJsonStringifyStr (points.flatMap codePointText)) =
      some (points.flatMap codePointText) := by
  obtain ⟨tokens, hlex, hunits⟩ := lexLiteral_points hpoints []
  have hbody : PreprocessesParts (points.flatMap pointJson ++ ['"']) := lexLiteral_preprocess _
  unfold PreprocessesParts at hbody
  rw [hlex, map_some, preprocess_nil] at hbody
  have hpre : preprocessJsJsonForSerde ('"' :: (points.flatMap pointJson ++ ['"'])) =
      '"' :: preprocess true (points.flatMap pointJson ++ ['"']) := by
    rw [preprocessJsJsonForSerde, preprocess_outside, bytesAsChars_quote, decide_eq_true rfl]
    rfl
  rw [stringify_points hpoints, jsJsonStringParseStr, hpre, serdeStringValue,
    List.dropWhile_cons_of_neg (by decide)]
  simp only [hbody, bind_eq_bind, bind_some, List.all_nil, if_true]
  rw [serdeChars_preprocessTokens (valid_of_lexLiteral _ hlex), hunits, modelString,
    codePoints_units hunsplit hpoints]

/-! ### Lower case -/

/-- A text without marker characters is the string of its characters. -/
theorem flatMap_toNat {text : Text} (hplain : ∀ c ∈ text, isJsInternalMarkerChar c = false) :
    (text.map Char.toNat).flatMap codePointText = text := by
  induction text with
  | nil => rfl
  | cons c text ih =>
      obtain ⟨hc, htext⟩ := List.forall_mem_cons.1 hplain
      rw [List.map_cons, List.flatMap_cons, codePointText_toNat, ih htext, markChar, hc]
      rfl

theorem codePoints_toNat (text : Text) : CodePoints (text.map Char.toNat) := by
  intro point hpoint
  obtain ⟨c, -, rfl⟩ := List.mem_map.1 hpoint
  exact toNat_lt c

/-- Characters before some code points split no pair. -/
theorem unsplit_append {text : Text} (hunsplit : Unsplit points) :
    Unsplit (text.map Char.toNat ++ points) := by
  induction text with
  | nil => exact hunsplit
  | cons c text ih =>
      exact List.IsChain.cons ih fun point _ hpair => not_surrogate c (.inl hpair.1)

section Lower

variable {lib : CaseLib} {points : List ℕ}

/-- A marker keeps its code point in lower case. -/
theorem lowerMarker_point (lawful : lib.Lawful) {point : ℕ} (hpoint : point < 0x110000)
    {kind : Char} {value : ℕ} (hmarker : pointPiece point = .marker kind value) :
    lowerMarker lib kind value = codePointText point := by
  unfold pointPiece at hmarker
  unfold lowerMarker codePointText
  by_cases hsurrogate : IsHigh point ∨ IsLow point
  · rw [if_pos hsurrogate] at hmarker
    cases hmarker
    rw [if_pos rfl, if_pos hsurrogate]
  · rw [if_neg hsurrogate] at hmarker
    split_ifs at hmarker with hchar
    cases hmarker
    have hvalue : charFromU32 point = some (Char.ofNat point) :=
      if_pos (isValidChar_of_not_surrogate hpoint hsurrogate)
    rw [if_neg (by decide), hvalue, if_neg hsurrogate]
    dsimp only
    rw [lawful.lowerChar_marker _ hchar]
    simp

/-- A text that lower-casing can lead to, given the characters before it and the code points after. -/
def Lowered (segment : Text) (points : List ℕ) (text : Text) : Prop :=
  ∃ lowered, Unsplit lowered ∧ CodePoints lowered ∧ text = lowered.flatMap codePointText ∧
    ∀ first ∈ lowered.head?, IsLow first → segment = [] ∧ ∃ point ∈ points.head?, IsLow point

/-- A lowered segment before a lowered text. -/
theorem Lowered.segment (lawful : lib.Lawful) {segment : Text}
    (hsegment : ∀ c ∈ segment, isJsInternalMarkerChar c = false) {text : Text}
    (lowered : Lowered [] points text) : Lowered segment points (lib.lower segment ++ text) := by
  obtain ⟨after, hunsplit, hpoints, rfl, hfirst⟩ := lowered
  refine ⟨(lib.lower segment).map Char.toNat ++ after, unsplit_append hunsplit, ?_, ?_, ?_⟩
  · intro point hpoint
    rcases List.mem_append.1 hpoint with hmem | hmem
    · exact codePoints_toNat _ point hmem
    · exact hpoints point hmem
  · rw [List.flatMap_append, flatMap_toNat (lawful.lower_plain segment hsegment)]
  · intro first hhead hlow
    cases hlower : lib.lower segment with
    | nil =>
        have hempty : segment = [] := by
          by_contra hne
          exact lawful.lower_ne_nil segment hne hlower
        rw [hlower] at hhead
        exact ⟨hempty, (hfirst first hhead hlow).2⟩
    | cons c rest =>
        rw [hlower, List.map_cons, List.cons_append, List.head?_cons, Option.mem_some_iff] at hhead
        rw [← hhead] at hlow
        exact absurd (.inr hlow) (not_surrogate c)

/-- A code point before a lowered text. -/
theorem Lowered.cons {point : ℕ} {text : Text} (hpoint : point < 0x110000)
    (hunsplit : Unsplit (point :: points)) (lowered : Lowered [] points text) :
    Lowered [] (point :: points) (codePointText point ++ text) := by
  obtain ⟨after, hafter, hpoints, rfl, hfirst⟩ := lowered
  refine ⟨point :: after, hafter.cons fun first hhead hpair => ?_,
    List.forall_mem_cons.2 ⟨hpoint, hpoints⟩, rfl, fun first hhead hlow => ?_⟩
  · obtain ⟨-, next, hnext, hlow⟩ := hfirst first hhead hpair.2
    exact (List.isChain_cons.1 hunsplit).1 next hnext ⟨hpair.1, hlow⟩
  · exact ⟨rfl, first, hhead, hlow⟩

theorem Lowered.nil : Lowered [] [] [] :=
  ⟨[], .nil, by simp [CodePoints], rfl, by simp⟩

theorem walkSegments_lower (lawful : lib.Lawful) :
    ∀ {segment : Text}, (∀ c ∈ segment, isJsInternalMarkerChar c = false) → Unsplit points →
      CodePoints points →
      Lowered segment points
        (walkSegments lib.lower (lowerMarker lib) segment (points.map pointPiece)) := by
  induction points with
  | nil =>
      intro segment hsegment hunsplit hpoints
      have lowered := Lowered.nil.segment lawful hsegment
      rwa [List.append_nil] at lowered
  | cons point points ih =>
      intro segment hsegment hunsplit hpoints
      obtain ⟨hpoint, hpoints⟩ := List.forall_mem_cons.1 hpoints
      rw [List.map_cons]
      cases hpiece : pointPiece point with
      | char c =>
          have hc : isJsInternalMarkerChar c = false := by
            unfold pointPiece at hpiece
            split_ifs at hpiece with hsurrogate hmarker
            cases hpiece
            simpa using hmarker
          have hlonger : ∀ other ∈ segment ++ [c], isJsInternalMarkerChar other = false := by
            intro other hother
            rcases List.mem_append.1 hother with hmem | hmem
            · exact hsegment other hmem
            · rw [List.mem_singleton.1 hmem]
              exact hc
          obtain ⟨lowered, hlowered, hvalid, htext, hfirst⟩ := ih hlonger hunsplit.tail hpoints
          refine ⟨lowered, hlowered, hvalid, htext, fun first hhead hlow => ?_⟩
          exact absurd (hfirst first hhead hlow).1 (by simp)
      | marker kind value =>
          have hnone : ∀ c ∈ ([] : Text), isJsInternalMarkerChar c = false := by simp
          rw [walkSegments, lowerMarker_point lawful hpoint hpiece]
          exact ((ih hnone hunsplit.tail hpoints).cons hpoint hunsplit).segment lawful hsegment

/-- Lower-casing leads from strings of code units to such strings. -/
theorem toLowercase_points (lawful : lib.Lawful) (hunsplit : Unsplit points)
    (hpoints : CodePoints points) :
    ∃ lowered, Unsplit lowered ∧ CodePoints lowered ∧
      jsToLowercase lib (points.flatMap codePointText) = lowered.flatMap codePointText := by
  unfold jsToLowercase
  split
  · rw [pieces_points hpoints]
    obtain ⟨lowered, hlowered, hvalid, htext, -⟩ :=
      @walkSegments_lower lib points lawful [] (by simp) hunsplit hpoints
    exact ⟨lowered, hlowered, hvalid, htext⟩
  next hstart =>
    have hplain : ∀ c ∈ points.flatMap codePointText, isJsInternalMarkerChar c = false := by
      intro c hc
      obtain ⟨point, hpoint, hc⟩ := List.mem_flatMap.1 hc
      obtain ⟨-, hmarker, htext⟩ := codePointText_of_not_mem fun hmem =>
        hstart (List.mem_flatMap.2 ⟨point, hpoint, hmem⟩)
      rw [htext, List.mem_singleton] at hc
      rwa [hc]
    have lowered := Lowered.nil.segment lawful hplain
    obtain ⟨lowered, hlowered, hvalid, htext, -⟩ := lowered
    rw [List.append_nil] at htext
    exact ⟨lowered, hlowered, hvalid, htext⟩

end Lower

/-! ### The model -/

/-- What makes the engine's strings a model of JavaScript's. -/
structure StringModel (lib : CaseLib) : Prop where
  /-- `serde_json` reads one string of the engine for each string that JavaScript reads. -/
  reads : ∀ text strings, serdeStrings (preprocessJsJsonForSerde text) = some strings →
    ∃ values, jsStrings text = some values ∧ (∀ units ∈ values, CodeUnits units) ∧
      strings = values.map modelString
  /-- It reads every text that JavaScript reads. -/
  accepts : ∀ text values, jsStrings text = some values →
    serdeStrings (preprocessJsJsonForSerde text) = some (values.map modelString)
  /-- Equal strings have equal code units. -/
  unique : ∀ units others, CodeUnits units → CodeUnits others →
    (modelString units = modelString others ↔ units = others)
  roundTrip : ∀ units, CodeUnits units →
    jsJsonStringParseStr (jsJsonStringifyStr (modelString units)) = some (modelString units)
  /-- Keys are equal exactly when the lower-case names are. -/
  keys : ∀ units others, CodeUnits units → CodeUnits others →
    (lib.jsonStringifyLower (modelString units) = lib.jsonStringifyLower (modelString others) ↔
      jsToLowercase lib (modelString units) = jsToLowercase lib (modelString others))

theorem stringify_inj {points others : List ℕ} (hunsplit : Unsplit points)
    (hpoints : CodePoints points) (hunsplit' : Unsplit others) (hothers : CodePoints others)
    (hsame : jsJsonStringifyStr (points.flatMap codePointText) =
      jsJsonStringifyStr (others.flatMap codePointText)) :
    points.flatMap codePointText = others.flatMap codePointText := by
  have hread := parse_stringify hunsplit hpoints
  rw [hsame, parse_stringify hunsplit' hothers] at hread
  exact (Option.some_inj.1 hread).symm

/-- The engine's strings are a faithful model of JavaScript's. -/
theorem jsStrings_faithful (lib : CaseLib) (lawful : lib.Lawful) : StringModel lib where
  reads := by
    intro text strings hread
    rw [serdeStrings_preprocess] at hread
    obtain ⟨values, hvalues, rfl⟩ := Option.map_eq_some_iff.1 hread
    exact ⟨values, hvalues, codeUnits_of_jsStrings hvalues, rfl⟩
  accepts := by
    intro text values hvalues
    rw [serdeStrings_preprocess, hvalues]
    rfl
  unique := fun units others hunits hothers =>
    ⟨modelString_injective hunits hothers, fun heq => heq ▸ rfl⟩
  roundTrip := fun units hunits =>
    parse_stringify (unsplit_codePoints units) (lt_of_mem_codePoints hunits)
  keys := by
    intro units others hunits hothers
    obtain ⟨lowered, hunsplit, hpoints, htext⟩ :=
      toLowercase_points lawful (unsplit_codePoints units) (lt_of_mem_codePoints hunits)
    obtain ⟨lowered', hunsplit', hpoints', htext'⟩ :=
      toLowercase_points lawful (unsplit_codePoints others) (lt_of_mem_codePoints hothers)
    unfold CaseLib.jsonStringifyLower modelString
    rw [htext, htext']
    exact ⟨stringify_inj hunsplit hpoints hunsplit' hpoints', fun heq => by rw [heq]⟩

/-- Lower-casing of ASCII letters. -/
def asciiLower (c : Char) : Char :=
  if 65 ≤ c.toNat ∧ c.toNat ≤ 90 then Char.ofNat (c.toNat + 32) else c

def asciiCase : CaseLib where
  lower := List.map asciiLower
  lowerChar := fun c => [asciiLower c]

theorem isMarker_asciiLower (c : Char) :
    isJsInternalMarkerChar (asciiLower c) = isJsInternalMarkerChar c := by
  unfold asciiLower
  split
  next hupper =>
    have hnat : (Char.ofNat (c.toNat + 32)).toNat = c.toNat + 32 :=
      Utf8.toNat_ofNat (.inl (by omega))
    rw [Bool.eq_iff_iff, isJsInternalMarkerChar_iff, isJsInternalMarkerChar_iff, hnat]
    omega
  next => rfl

theorem asciiCase_lawful : asciiCase.Lawful where
  lower_ne_nil := fun text hne hnil => hne (List.map_eq_nil_iff.1 hnil)
  lower_plain := by
    intro text hplain c hc
    obtain ⟨other, hother, rfl⟩ := List.mem_map.1 hc
    rw [isMarker_asciiLower]
    exact hplain other hother
  lowerChar_marker := by
    intro c hmarker
    rw [isJsInternalMarkerChar_iff] at hmarker
    change [asciiLower c] = [c]
    rw [asciiLower, if_neg (by omega)]

/-- A lone high surrogate, a pair and a marker character: their string is written and read back. -/
theorem mixedUnits_roundTrip :
    StringModel asciiCase ∧
      jsJsonStringParseStr (jsJsonStringifyStr (modelString [0xd800, 0xd83d, 0xde00, 0xe000])) =
        some (modelString [0xd800, 0xd83d, 0xde00, 0xe000]) :=
  ⟨jsStrings_faithful asciiCase asciiCase_lawful,
    (jsStrings_faithful asciiCase asciiCase_lawful).roundTrip _ (by unfold CodeUnits; decide)⟩

end OrdDogecoin.Tap
