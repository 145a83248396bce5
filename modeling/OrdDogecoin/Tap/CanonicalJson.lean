/-
Module: OrdDogecoin.Tap.CanonicalJson
Purpose: The canonical JSON text under which control policies, payloads and certificates are hashed.
  Equal texts come from values that differ in the order of members only, and that order does not matter.
Trusted boundary: `serde_json::to_string` of a string is `jsonString`
Main exports: jsonString, canonicalJson_of_sortMembers, canonicalJson_eq_iff
-/
import OrdDogecoin.Tap.Json
import OrdDogecoin.Lib.PrefixCode
import OrdDogecoin.Lib.SortByKey
import Mathlib.Data.List.Lex
import Mathlib.Data.Char

namespace OrdDogecoin.Tap

open Option (bind_eq_some_iff map_eq_some_iff)

/-! ### Strings -/

/-- One character in `serde_json::to_string`. -/
def escapeChar (c : Char) : Text :=
  if c = '"' then ['\\', '"']
  else if c = '\\' then ['\\', '\\']
  else if c = Char.ofNat 8 then ['\\', 'b']
  else if c = Char.ofNat 9 then ['\\', 't']
  else if c = Char.ofNat 10 then ['\\', 'n']
  else if c = Char.ofNat 12 then ['\\', 'f']
  else if c = Char.ofNat 13 then ['\\', 'r']
  else if c.toNat < 32 then
    ['\\', 'u', '0', '0', Nat.digitChar (c.toNat / 16), Nat.digitChar (c.toNat % 16)]
  else [c]

/-- `serde_json::to_string` of a string. -/
def jsonString (text : Text) : Text := '"' :: (text.flatMap escapeChar ++ ['"'])

example : jsonString "a\"\n".toList = "\"a\\\"\\n\"".toList := by decide

/-- Reads one character of a string back; nothing at its end. -/
def readChar : Text → Option (Char × Text)
  | '\\' :: 'u' :: _ :: _ :: high :: low :: rest =>
      some (Char.ofNat ((toDigit 16 high).getD 0 * 16 + (toDigit 16 low).getD 0), rest)
  | '\\' :: 'b' :: rest => some (Char.ofNat 8, rest)
  | '\\' :: 't' :: rest => some (Char.ofNat 9, rest)
  | '\\' :: 'n' :: rest => some (Char.ofNat 10, rest)
  | '\\' :: 'f' :: rest => some (Char.ofNat 12, rest)
  | '\\' :: 'r' :: rest => some (Char.ofNat 13, rest)
  | '\\' :: c :: rest => some (c, rest)
  | '"' :: _ => none
  | c :: rest => some (c, rest)
  | [] => none

/-- What is written for a character is read back. -/
theorem readChar_escapeChar (c : Char) (rest : Text) :
    readChar (escapeChar c ++ rest) = some (c, rest) := by
  unfold escapeChar
  by_cases hquote : c = '"'
  · subst hquote; simp [readChar]
  by_cases hslash : c = '\\'
  · subst hslash; simp [readChar]
  by_cases hb : c = Char.ofNat 8
  · subst hb; simp [readChar]
  by_cases ht : c = Char.ofNat 9
  · subst ht; simp [readChar]
  by_cases hn : c = Char.ofNat 10
  · subst hn; simp [readChar]
  by_cases hf : c = Char.ofNat 12
  · subst hf; simp [readChar]
  by_cases hr : c = Char.ofNat 13
  · subst hr; simp [readChar]
  rw [if_neg hquote, if_neg hslash, if_neg hb, if_neg ht, if_neg hn, if_neg hf, if_neg hr]
  by_cases hcontrol : c.toNat < 32
  · have hhigh := toDigit_digitChar (c.toNat / 16) (by omega)
    have hlow := toDigit_digitChar (c.toNat % 16) (by omega)
    have hvalue : c.toNat / 16 * 16 + c.toNat % 16 = c.toNat := by omega
    simp [hcontrol, readChar, hhigh, hlow, hvalue]
  · rw [if_neg hcontrol]
    simp [readChar, hslash]

@[simp] theorem readChar_quote (rest : Text) : readChar ('"' :: rest) = none := by simp [readChar]

/-- A quoted string is cancelled from the front of a text. -/
theorem jsonString_cancel {text other : Text} {rest rest' : Text}
    (hsame : jsonString text ++ rest = jsonString other ++ rest') : text = other ∧ rest = rest' := by
  simp only [jsonString, List.cons_append, List.append_assoc, List.cons.injEq, true_and,
    List.nil_append] at hsame
  induction text generalizing other with
  | nil =>
      cases other with
      | nil => simpa using hsame
      | cons d other =>
          have hread := congrArg readChar hsame
          simp [readChar_escapeChar] at hread
  | cons c text ih =>
      cases other with
      | nil =>
          have hread := congrArg readChar hsame
          simp [readChar_escapeChar] at hread
      | cons d other =>
          have hread := congrArg readChar hsame
          simp only [List.flatMap_cons, List.append_assoc, readChar_escapeChar, Option.some.injEq,
            Prod.mk.injEq] at hread
          obtain ⟨rfl, hrest⟩ := hread
          obtain ⟨rfl, rfl⟩ := ih hrest
          exact ⟨rfl, rfl⟩

/-! ### The encoder -/

/-- `Value::as_i64`. -/
def Json.asI64 : Json → Option ℤ
  | .number text => (parseI64 text).filter fun n => intText n = text
  | _ => none

/-- A number in `certified_control_canonical_json`: an integer that JavaScript holds exactly. -/
def canonicalNumber (json : Json) : Option Text :=
  (json.asI64.filter fun n => -9007199254740991 ≤ n ∧ n ≤ 9007199254740991).map intText

/-- The members of an object in the order of their names. -/
def sortByName {β : Type} (members : List (Text × β)) : List (Text × β) :=
  members.insertionSort fun a b => a.1 ≤ b.1

/-- A member of an object, with the text of its value. -/
def memberJson (member : Text × Text) : Text := jsonString member.1 ++ ':' :: member.2

mutual

def certifiedControlCanonicalJson : Json → Option Text
  | .null => some "null".toList
  | .bool true => some "true".toList
  | .bool false => some "false".toList
  | .number text => canonicalNumber (.number text)
  | .double _ => none
  | .string text => some (jsonString text)
  | .array items =>
      (canonicalItems items).map fun parts => '[' :: (List.intercalate [','] parts ++ [']'])
  | .object fields =>
      (canonicalMembers fields).map fun members =>
        '\x7b' :: (List.intercalate [','] ((sortByName members).map memberJson) ++ ['\x7d'])

def canonicalItems : List Json → Option (List Text)
  | [] => some []
  | item :: items => do
      let part ← certifiedControlCanonicalJson item
      let parts ← canonicalItems items
      some (part :: parts)

def canonicalMembers : List (Text × Json) → Option (List (Text × Text))
  | [] => some []
  | (key, value) :: fields => do
      let part ← certifiedControlCanonicalJson value
      let members ← canonicalMembers fields
      some ((key, part) :: members)

end

/-! ### Values up to the order of members -/

mutual

/-- The value with the members of every object in the order of their names. -/
def Json.sortMembers : Json → Json
  | .null => .null
  | .bool value => .bool value
  | .number text => .number text
  | .double text => .double text
  | .string text => .string text
  | .array items => .array (sortItems items)
  | .object fields => .object (sortByName (sortFields fields))

def sortItems : List Json → List Json
  | [] => []
  | item :: items => item.sortMembers :: sortItems items

def sortFields : List (Text × Json) → List (Text × Json)
  | [] => []
  | (key, value) :: fields => (key, value.sortMembers) :: sortFields fields

end

def sortedMember (field : Text × Json) : Text × Json := (field.1, field.2.sortMembers)

theorem sortItems_eq_map (items : List Json) : sortItems items = items.map Json.sortMembers := by
  induction items with
  | nil => simp [sortItems]
  | cons item items ih => simp [sortItems, ih]

theorem sortFields_eq_map (fields : List (Text × Json)) : sortFields fields = fields.map sortedMember := by
  induction fields with
  | nil => simp [sortFields]
  | cons field fields ih => simp [sortFields, sortedMember, ih]

/-- Sorting the members comes before or after sorting their values. -/
theorem map_sortByName (fields : List (Text × Json)) :
    (sortByName fields).map sortedMember = sortByName (fields.map sortedMember) :=
  List.map_insertionSort _ _ _ _ fun _ _ _ _ => Iff.rfl

/-- Objects with the same members have the same sorted form. -/
theorem sortMembers_of_perm {fields fields' : List (Text × Json)} (hperm : fields.Perm fields')
    (hnames : (fields.map Prod.fst).Nodup) :
    (Json.object fields).sortMembers = (Json.object fields').sortMembers := by
  simp only [Json.sortMembers, sortFields_eq_map, ← map_sortByName]
  have hsame : sortByName fields = sortByName fields' :=
    SortByKey.insertionSort_of_perm Prod.fst hperm hnames
  rw [hsame]

/-! ### The text determines the value -/

def ValueText (json : Json) (word : Text) : Prop := certifiedControlCanonicalJson json = some word

def MemberText (field : Text × Json) (word : Text) : Prop :=
  ∃ part, ValueText field.2 part ∧ word = memberJson (field.1, part)

theorem canonicalItems_spec : ∀ {items : List Json} {parts : List Text},
    canonicalItems items = some parts → List.Forall₂ ValueText items parts
  | [], parts, hparts => by
      cases hparts
      exact .nil
  | item :: items, parts, hparts => by
      simp only [canonicalItems] at hparts
      obtain ⟨part, hpart, hparts⟩ := bind_eq_some_iff.1 hparts
      obtain ⟨rest, hrest, hparts⟩ := bind_eq_some_iff.1 hparts
      cases hparts
      exact .cons hpart (canonicalItems_spec hrest)

theorem canonicalMembers_spec : ∀ {fields : List (Text × Json)} {members : List (Text × Text)},
    canonicalMembers fields = some members →
      List.Forall₂ (fun field member => field.1 = member.1 ∧ ValueText field.2 member.2) fields members
  | [], members, hmembers => by
      cases hmembers
      exact .nil
  | (key, value) :: fields, members, hmembers => by
      simp only [canonicalMembers] at hmembers
      obtain ⟨part, hpart, hmembers⟩ := bind_eq_some_iff.1 hmembers
      obtain ⟨rest, hrest, hmembers⟩ := bind_eq_some_iff.1 hmembers
      cases hmembers
      exact .cons ⟨rfl, hpart⟩ (canonicalMembers_spec hrest)

variable {fields : List (Text × Json)}

/-- The words of an object are those of its members in the order of their names. -/
theorem forall₂_memberText {members : List (Text × Text)}
    (hmembers : canonicalMembers fields = some members) :
    List.Forall₂ MemberText (sortByName fields) ((sortByName members).map memberJson) := by
  rw [List.forall₂_map_right_iff]
  have hsorted := SortByKey.forall₂_insertionSort (fun _ _ hmember => hmember.1)
    (canonicalMembers_spec hmembers)
  refine hsorted.imp fun field member hmember => ⟨member.2, hmember.2, ?_⟩
  rw [hmember.1]

def numberChar (c : Char) : Bool := c.isDigit || c = '-'

/-- What follows a word does not go on with a number. -/
def Ends (rest : Text) : Prop := ∀ c ∈ rest.head?, numberChar c = false

theorem numberChar_intText (n : ℤ) : ∀ c ∈ intText n, numberChar c = true := by
  intro c hc
  cases n with
  | ofNat n =>
      have hdigit := Nat.isDigit_of_mem_toDigits (by decide) (by decide) hc
      simp [numberChar, hdigit]
  | negSucc n =>
      rcases List.mem_cons.1 hc with rfl | hc
      · decide
      · have hdigit := Nat.isDigit_of_mem_toDigits (by decide) (by decide) hc
        simp [numberChar, hdigit]

theorem intText_ne_nil (n : ℤ) : intText n ≠ [] := by
  cases n with
  | ofNat n => simp [intText]
  | negSucc n => simp [intText]

theorem asI64_eq_some {text : Text} {n : ℤ} (hn : (Json.number text).asI64 = some n) :
    intText n = text := of_decide_eq_true (Option.filter_eq_some_iff.1 hn).2

/-- A number is its own canonical text. -/
theorem valueText_number {text word : Text} (hword : ValueText (.number text) word) :
    word = text ∧ ∃ n, intText n = text := by
  simp only [ValueText, certifiedControlCanonicalJson, canonicalNumber] at hword
  obtain ⟨n, hn, rfl⟩ := map_eq_some_iff.1 hword
  have htext := asI64_eq_some (Option.filter_eq_some_iff.1 hn).1
  exact ⟨htext, n, htext⟩

/-- Two numbers at the front of a text are the same. -/
theorem number_cancel {m n : ℤ} {rest rest' : Text} (hends : Ends rest) (hends' : Ends rest')
    (hsame : intText m ++ rest = intText n ++ rest') : intText m = intText n ∧ rest = rest' := by
  have htake : ∀ (k : ℤ) {rest : Text}, Ends rest →
      (intText k ++ rest).takeWhile numberChar = intText k := by
    intro k rest hends
    rw [List.takeWhile_append_of_pos (numberChar_intText k)]
    cases rest with
    | nil => simp
    | cons c rest => simp [hends c (by simp)]
  have hnumber : intText m = intText n := by rw [← htake m hends, hsame, htake n hends']
  rw [hnumber] at hsame
  exact ⟨hnumber, List.append_cancel_left hsame⟩

/-! ### First characters -/

/-- The first character of a text, with all numbers alike. -/
def leadOf (c : Char) : Char := if numberChar c then '0' else c

def Json.lead : Json → Char
  | .null => 'n'
  | .bool true => 't'
  | .bool false => 'f'
  | .number _ | .double _ => '0'
  | .string _ => '"'
  | .array _ => '['
  | .object _ => '\x7b'

theorem valueText_lead {json : Json} {word : Text} (hword : ValueText json word) :
    ∃ first tail, word = first :: tail ∧ leadOf first = json.lead := by
  cases json with
  | null =>
      cases hword
      exact ⟨_, _, rfl, by decide⟩
  | bool value =>
      cases value with
      | false =>
          cases hword
          exact ⟨_, _, rfl, by decide⟩
      | true =>
          cases hword
          exact ⟨_, _, rfl, by decide⟩
  | number text =>
      obtain ⟨rfl, n, rfl⟩ := valueText_number hword
      cases htext : intText n with
      | nil => exact absurd htext (intText_ne_nil n)
      | cons first tail =>
          have hnumber := numberChar_intText n first (by simp [htext])
          exact ⟨first, tail, rfl, by simp [leadOf, Json.lead, hnumber]⟩
  | double text => simp [ValueText, certifiedControlCanonicalJson] at hword
  | string text =>
      simp only [ValueText, certifiedControlCanonicalJson, Option.some.injEq] at hword
      exact ⟨_, _, hword.symm, rfl⟩
  | array items =>
      simp only [ValueText, certifiedControlCanonicalJson] at hword
      obtain ⟨parts, -, rfl⟩ := map_eq_some_iff.1 hword
      exact ⟨_, _, rfl, rfl⟩
  | object fields =>
      simp only [ValueText, certifiedControlCanonicalJson] at hword
      obtain ⟨members, -, rfl⟩ := map_eq_some_iff.1 hword
      exact ⟨_, _, rfl, rfl⟩

variable {json other : Json}

/-- Two values at the front of a text are of the same kind. -/
theorem lead_eq {word word' rest rest' : Text} (hword : ValueText json word)
    (hword' : ValueText other word') (hsame : word ++ rest = word' ++ rest') :
    json.lead = other.lead := by
  obtain ⟨first, tail, rfl, hfirst⟩ := valueText_lead hword
  obtain ⟨first', tail', rfl, hfirst'⟩ := valueText_lead hword'
  rw [← hfirst, ← hfirst', (List.cons.inj hsame).1]

/-! ### Injectivity -/

/-- A value at the front of a text is determined up to the order of its members. -/
def ValueCancels : Json → Prop := PrefixCode.Cancels ValueText Json.sortMembers Ends

theorem ends_comma (rest : Text) : Ends (',' :: rest) := by
  intro c hc
  cases hc
  decide

theorem ends_bracket (rest : Text) : Ends (']' :: rest) := by
  intro c hc
  cases hc
  decide

theorem ends_brace (rest : Text) : Ends ('\x7d' :: rest) := by
  intro c hc
  cases hc
  decide

/-- No value starts with a closing character. -/
theorem valueText_head_ne {close : Char} (hnumber : numberChar close = false)
    (hclose : ∀ json : Json, json.lead ≠ close) (json : Json) (word : Text)
    (hword : ValueText json word) : ∃ first tail, word = first :: tail ∧ first ≠ close := by
  obtain ⟨first, tail, hsplit, hlead⟩ := valueText_lead hword
  refine ⟨first, tail, hsplit, ?_⟩
  rintro rfl
  rw [leadOf, if_neg (by simp [hnumber])] at hlead
  exact hclose json hlead.symm

theorem lead_ne_bracket (json : Json) : json.lead ≠ ']' := by
  cases json with
  | bool value => cases value <;> simp [Json.lead]
  | _ => simp [Json.lead]

/-- A member at the front of a text is determined when its value is. -/
theorem member_cancels {field : Text × Json} (hvalue : ValueCancels field.2) :
    PrefixCode.Cancels MemberText sortedMember Ends field := by
  rintro other word word' rest rest' ⟨part, hpart, rfl⟩ ⟨part', hpart', rfl⟩ hends hends' hsame
  simp only [memberJson, List.append_assoc, List.cons_append] at hsame
  obtain ⟨hname, hrest⟩ := jsonString_cancel hsame
  obtain ⟨hsorted, hrest⟩ := hvalue hpart hpart' hends hends' (List.cons.inj hrest).2
  exact ⟨by simp only [sortedMember, hname, hsorted], hrest⟩

theorem array_cancels {items : List Json} (hitems : ∀ item ∈ items, ValueCancels item) :
    ValueCancels (.array items) := by
  intro other word word' rest rest' hword hword' _ _ hsame
  have hlead := lead_eq hword hword' hsame
  cases other with
  | array items' =>
      simp only [ValueText, certifiedControlCanonicalJson] at hword hword'
      obtain ⟨parts, hparts, rfl⟩ := map_eq_some_iff.1 hword
      obtain ⟨parts', hparts', rfl⟩ := map_eq_some_iff.1 hword'
      simp only [List.cons_append, List.append_assoc, List.cons.injEq, true_and,
        List.nil_append] at hsame
      obtain ⟨hsorted, hrest⟩ := PrefixCode.cancel_intercalate ends_comma ends_bracket (by decide)
        (valueText_head_ne (by decide) lead_ne_bracket) hitems (canonicalItems_spec hparts)
        (canonicalItems_spec hparts') hsame
      exact ⟨by simp only [Json.sortMembers, sortItems_eq_map, hsorted], hrest⟩
  | bool value => cases value <;> simp [Json.lead] at hlead
  | _ => simp [Json.lead] at hlead

theorem object_cancels (hfields : ∀ field ∈ fields, ValueCancels field.2) :
    ValueCancels (.object fields) := by
  intro other word word' rest rest' hword hword' _ _ hsame
  have hlead := lead_eq hword hword' hsame
  cases other with
  | object fields' =>
      simp only [ValueText, certifiedControlCanonicalJson] at hword hword'
      obtain ⟨members, hmembers, rfl⟩ := map_eq_some_iff.1 hword
      obtain ⟨members', hmembers', rfl⟩ := map_eq_some_iff.1 hword'
      simp only [List.cons_append, List.append_assoc, List.cons.injEq, true_and,
        List.nil_append] at hsame
      have hhead : ∀ field word, MemberText field word → ∃ first tail, word = first :: tail ∧
          first ≠ '\x7d' := by
        rintro field word ⟨part, -, rfl⟩
        exact ⟨_, _, rfl, by decide⟩
      have hcancels : ∀ field ∈ sortByName fields, PrefixCode.Cancels MemberText sortedMember Ends field :=
        fun field hfield => member_cancels (hfields field ((List.mem_insertionSort _).1 hfield))
      obtain ⟨hsorted, hrest⟩ := PrefixCode.cancel_intercalate ends_comma ends_brace (by decide) hhead
        hcancels (forall₂_memberText hmembers) (forall₂_memberText hmembers') hsame
      rw [map_sortByName, map_sortByName] at hsorted
      exact ⟨by simp only [Json.sortMembers, sortFields_eq_map, hsorted], hrest⟩
  | bool value => cases value <;> simp [Json.lead] at hlead
  | _ => simp [Json.lead] at hlead

/-- A value whose text is a fixed word. -/
theorem cancels_of_lead {json : Json} {first : Text} (hfixed : ValueText json first)
    (hlead : ∀ other : Json, json.lead = other.lead → other = json) : ValueCancels json := by
  intro other word word' rest rest' hword hword' _ _ hsame
  obtain rfl := hlead other (lead_eq hword hword' hsame)
  obtain rfl : word = word' := Option.some.inj (hword.symm.trans hword')
  exact ⟨rfl, List.append_cancel_left hsame⟩

theorem number_cancels (text : Text) : ValueCancels (.number text) := by
  intro other word word' rest rest' hword hword' hends hends' hsame
  have hlead := lead_eq hword hword' hsame
  cases other with
  | number text' =>
      obtain ⟨rfl, m, rfl⟩ := valueText_number hword
      obtain ⟨rfl, n, rfl⟩ := valueText_number hword'
      obtain ⟨hnumber, hrest⟩ := number_cancel hends hends' hsame
      exact ⟨by rw [hnumber], hrest⟩
  | double text' => simp [ValueText, certifiedControlCanonicalJson] at hword'
  | bool value => cases value <;> simp [Json.lead] at hlead
  | _ => simp [Json.lead] at hlead

theorem string_cancels (text : Text) : ValueCancels (.string text) := by
  intro other word word' rest rest' hword hword' _ _ hsame
  have hlead := lead_eq hword hword' hsame
  cases other with
  | string text' =>
      simp only [ValueText, certifiedControlCanonicalJson, Option.some.injEq] at hword hword'
      rw [← hword, ← hword'] at hsame
      obtain ⟨rfl, hrest⟩ := jsonString_cancel hsame
      exact ⟨rfl, hrest⟩
  | bool value => cases value <;> simp [Json.lead] at hlead
  | _ => simp [Json.lead] at hlead

mutual

theorem valueText_cancels : ∀ json : Json, ValueCancels json
  | .null => by
      refine cancels_of_lead rfl fun other hlead => ?_
      cases other with
      | null => rfl
      | bool value => cases value <;> simp [Json.lead] at hlead
      | _ => simp [Json.lead] at hlead
  | .bool true => by
      refine cancels_of_lead rfl fun other hlead => ?_
      cases other with
      | bool value => cases value <;> simp [Json.lead] at hlead ⊢
      | _ => simp [Json.lead] at hlead
  | .bool false => by
      refine cancels_of_lead rfl fun other hlead => ?_
      cases other with
      | bool value => cases value <;> simp [Json.lead] at hlead ⊢
      | _ => simp [Json.lead] at hlead
  | .number text => number_cancels text
  | .double text => by
      intro other word word' rest rest' hword
      simp [ValueText, certifiedControlCanonicalJson] at hword
  | .string text => string_cancels text
  | .array items => array_cancels (items_cancel items)
  | .object fields => object_cancels (fields_cancel fields)

theorem items_cancel : ∀ items : List Json, ∀ item ∈ items, ValueCancels item
  | [] => by simp
  | item :: items => by
      intro other hother
      rcases List.mem_cons.1 hother with hfirst | hother
      · exact hfirst ▸ valueText_cancels item
      · exact items_cancel items other hother

theorem fields_cancel : ∀ fields : List (Text × Json), ∀ field ∈ fields, ValueCancels field.2
  | [] => by simp
  | (key, value) :: fields => by
      intro other hother
      rcases List.mem_cons.1 hother with hfirst | hother
      · exact hfirst ▸ valueText_cancels value
      · exact fields_cancel fields other hother

end

/-- Values with the same canonical text differ in the order of their members only. -/
theorem sortMembers_eq_of_text {text : Text}
    (htext : certifiedControlCanonicalJson json = some text)
    (hother : certifiedControlCanonicalJson other = some text) :
    json.sortMembers = other.sortMembers :=
  have hends : Ends [] := by simp [Ends]
  (valueText_cancels json htext hother hends hends rfl).1

/-! ### The order of members does not matter -/

theorem canonicalItems_of_forall₂ {items : List Json} {parts : List Text}
    (hparts : List.Forall₂ ValueText items parts) : canonicalItems items = some parts := by
  induction hparts with
  | nil => simp [canonicalItems]
  | cons hpart _ ih =>
      rw [ValueText] at hpart
      simp [canonicalItems, hpart, ih]

theorem canonicalMembers_isSome : ∀ {fields : List (Text × Json)},
    (∀ field ∈ fields, ∃ word, ValueText field.2 word) → ∃ members, canonicalMembers fields = some members
  | [], _ => ⟨[], by simp [canonicalMembers]⟩
  | (key, value) :: fields, hfields => by
      obtain ⟨part, hpart⟩ := hfields (key, value) (List.mem_cons_self ..)
      obtain ⟨members, hmembers⟩ :=
        canonicalMembers_isSome fun field hfield => hfields field (List.mem_cons_of_mem _ hfield)
      rw [ValueText] at hpart
      exact ⟨(key, part) :: members, by simp [canonicalMembers, hpart, hmembers]⟩

theorem memberText_unique : Relator.RightUnique MemberText := by
  rintro field word word' ⟨part, hpart, rfl⟩ ⟨part', hpart', rfl⟩
  rw [Option.some.inj (hpart.symm.trans hpart')]

theorem valueText_array {items : List Json} {word : Text} : ValueText (.array items) word ↔
    ∃ parts, List.Forall₂ ValueText items parts ∧
      word = '[' :: (List.intercalate [','] parts ++ [']']) := by
  rw [ValueText, certifiedControlCanonicalJson, map_eq_some_iff]
  constructor
  · rintro ⟨parts, hparts, rfl⟩
    exact ⟨parts, canonicalItems_spec hparts, rfl⟩
  · rintro ⟨parts, hparts, rfl⟩
    exact ⟨parts, canonicalItems_of_forall₂ hparts, rfl⟩

theorem valueText_object {word : Text} :
    ValueText (.object fields) word ↔ ∃ words, List.Forall₂ MemberText (sortByName fields) words ∧
      word = '\x7b' :: (List.intercalate [','] words ++ ['\x7d']) := by
  rw [ValueText, certifiedControlCanonicalJson, map_eq_some_iff]
  constructor
  · rintro ⟨members, hmembers, rfl⟩
    exact ⟨_, forall₂_memberText hmembers, rfl⟩
  · rintro ⟨words, hwords, rfl⟩
    have hfields : ∀ field ∈ fields, ∃ word, ValueText field.2 word := by
      intro field hfield
      obtain ⟨word, part, hpart, -⟩ :=
        PrefixCode.exists_word hwords field ((List.mem_insertionSort _).2 hfield)
      exact ⟨part, hpart⟩
    obtain ⟨members, hmembers⟩ := canonicalMembers_isSome hfields
    have hsame : (sortByName members).map memberJson = words :=
      List.right_unique_forall₂' memberText_unique (forall₂_memberText hmembers) hwords
    exact ⟨members, hmembers, by rw [hsame]⟩

theorem sortByName_idem {β : Type} (members : List (Text × β)) :
    sortByName (sortByName members) = sortByName members := by
  have : Std.Total fun a b : Text × β => a.1 ≤ b.1 := ⟨fun a b => le_total a.1 b.1⟩
  have : IsTrans (Text × β) fun a b => a.1 ≤ b.1 := ⟨fun a b c => le_trans⟩
  exact (List.pairwise_insertionSort (fun a b : Text × β => a.1 ≤ b.1) members).insertionSort_eq

mutual

theorem valueText_sortMembers : ∀ (json : Json) (word : Text),
    ValueText json.sortMembers word ↔ ValueText json word
  | .null, word => by rw [Json.sortMembers]
  | .bool value, word => by rw [Json.sortMembers]
  | .number text, word => by rw [Json.sortMembers]
  | .double text, word => by rw [Json.sortMembers]
  | .string text, word => by rw [Json.sortMembers]
  | .array items, word => by
      rw [Json.sortMembers, sortItems_eq_map, valueText_array, valueText_array]
      simp only [List.forall₂_map_left_iff, PrefixCode.forall₂_congr (items_sortMembers items)]
  | .object fields, word => by
      have hmember : ∀ field ∈ sortByName fields, ∀ word,
          MemberText (sortedMember field) word ↔ MemberText field word := by
        intro field hfield word
        have hvalue := fields_sortMembers fields field ((List.mem_insertionSort _).1 hfield)
        simp only [MemberText, sortedMember, hvalue]
      rw [Json.sortMembers, sortFields_eq_map, valueText_object, valueText_object, sortByName_idem,
        ← map_sortByName]
      simp only [List.forall₂_map_left_iff, PrefixCode.forall₂_congr hmember]

theorem items_sortMembers : ∀ (items : List Json), ∀ item ∈ items, ∀ word,
    ValueText item.sortMembers word ↔ ValueText item word
  | [] => by simp
  | item :: items => by
      intro other hother
      rcases List.mem_cons.1 hother with hfirst | hother
      · exact hfirst ▸ valueText_sortMembers item
      · exact items_sortMembers items other hother

theorem fields_sortMembers : ∀ (fields : List (Text × Json)), ∀ field ∈ fields, ∀ word,
    ValueText field.2.sortMembers word ↔ ValueText field.2 word
  | [] => by simp
  | (key, value) :: fields => by
      intro other hother
      rcases List.mem_cons.1 hother with hfirst | hother
      · exact hfirst ▸ valueText_sortMembers value
      · exact fields_sortMembers fields other hother

end

/-- The canonical text is the same for all orders of the members. -/
theorem canonicalJson_of_sortMembers (hsorted : json.sortMembers = other.sortMembers) :
    certifiedControlCanonicalJson json = certifiedControlCanonicalJson other := by
  ext text
  exact (valueText_sortMembers json text).symm.trans (hsorted ▸ valueText_sortMembers other text)

/-- The canonical text is the same for all orders of the members, and two values with a canonical text
have the same one only then. -/
theorem canonicalJson_eq_iff {text : Text} (htext : certifiedControlCanonicalJson json = some text) :
    certifiedControlCanonicalJson other = some text ↔ json.sortMembers = other.sortMembers := by
  constructor
  · exact sortMembers_eq_of_text htext
  · intro hsorted
    rw [← canonicalJson_of_sortMembers hsorted, htext]

end OrdDogecoin.Tap
