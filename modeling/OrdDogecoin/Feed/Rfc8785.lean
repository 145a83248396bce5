/-
Module: OrdDogecoin.Feed.Rfc8785
Purpose: The RFC 8785 text of the objects the feed hashes.  A value without numbers is read back from its
  text up to the order of members, and that order does not change the text.
Trusted boundary: `serde_json::Value` is `Json` with distinct member names; `serde_json` reads a text by
  `serdeFromStr`
Main exports: rfc8785, readValue_rfc8785, rfc8785_eq_iff
-/
import OrdDogecoin.Lib.Results
import OrdDogecoin.Feed.Wire
import OrdDogecoin.Tap.CanonicalJson
import OrdDogecoin.Tap.ValueReading

namespace OrdDogecoin.Feed

open Results
open Tap (Json)
open Option (bind_some map_some bind_eq_bind)
open List (mem_map mem_cons map_cons cons_append append_assoc pairwise_cons)

/-! ### The writer -/

inductive Rfc8785Error where
  | number
deriving DecidableEq, Repr

/-- `encode_utf16`. -/
def encodeUtf16 (text : Text) : List ℕ := text.flatMap fun c => Utf16.pointUnits c.toNat

/-- `{:04x}`. -/
def hexFour (n : ℕ) : Text := (Nat.toDigits 16 n).leftpad 4 '0'

/-- One character in `write_string`. -/
def writeChar (c : Char) : Text :=
  if c = '"' then ['\\', '"']
  else if c = '\\' then ['\\', '\\']
  else if c = Char.ofNat 0x08 then ['\\', 'b']
  else if c = Char.ofNat 0x0c then ['\\', 'f']
  else if c = '\n' then ['\\', 'n']
  else if c = '\r' then ['\\', 'r']
  else if c = '\t' then ['\\', 't']
  else if c.toNat < 0x20 then '\\' :: 'u' :: hexFour c.toNat
  else [c]

def writeString (string : Text) : Text := '"' :: (string.flatMap writeChar ++ ['"'])

/-- `keys.sort_by` with the UTF-16 units of the names. -/
def sortByUtf16 {β : Type} (members : List (Text × β)) : List (Text × β) :=
  members.insertionSort fun a b => encodeUtf16 a.1 ≤ encodeUtf16 b.1

/-- A member of an object, with the text of its value. -/
def writeMember (member : Text × Text) : Text := writeString member.1 ++ ':' :: member.2

mutual

/-- `write_value`; there is one error, so the members may be written before they are sorted. -/
def writeValue : Json → Except Rfc8785Error Text
  | .null => .ok "null".toList
  | .bool true => .ok "true".toList
  | .bool false => .ok "false".toList
  | .number _ => .error .number
  | .double _ => .error .number
  | .string string => .ok (writeString string)
  | .array items => do
      let parts ← writeItems items
      .ok ('[' :: (List.intercalate [','] parts ++ [']']))
  | .object members => do
      let parts ← writeMembers members
      .ok ('\x7b' :: (List.intercalate [','] ((sortByUtf16 parts).map writeMember) ++ ['\x7d']))

def writeItems : List Json → Except Rfc8785Error (List Text)
  | [] => .ok []
  | item :: items => do
      let part ← writeValue item
      let parts ← writeItems items
      .ok (part :: parts)

def writeMembers : List (Text × Json) → Except Rfc8785Error (List (Text × Text))
  | [] => .ok []
  | (key, value) :: members => do
      let part ← writeValue value
      let parts ← writeMembers members
      .ok ((key, part) :: parts)

end

/-- `rfc8785`. -/
def rfc8785 (value : Json) : Except Rfc8785Error Text := writeValue value

-- U+1F436 comes before U+FF5E by units and after it by code points
example : rfc8785 (.object [([Char.ofNat 0xff5e], .null), ([Char.ofNat 0x1f436], .string ['\t'])]) =
    .ok ("\x7b\"".toList ++ Char.ofNat 0x1f436 :: "\":\"\\t\",\"".toList ++
      Char.ofNat 0xff5e :: "\":null\x7d".toList) := by decide

/-! ### Strings are read back -/

theorem hexFour_control : ∀ n < 0x20, Tap.parseHex (hexFour n) = some n ∧ (hexFour n).length = 4 := by
  decide

/-- What is written for a character is one token, which is read as the character. -/
theorem lexLiteral_writeChar (c : Char) :
    ∃ token, (∀ rest, Tap.lexLiteral (writeChar c ++ rest) =
        (Tap.lexLiteral rest).map fun found => (token :: found.1, found.2)) ∧
      ∀ tokens, Tap.serdeChars (token :: tokens) = (Tap.serdeChars tokens).map (c :: ·) := by
  have hescape : ∀ escaped : Char, escaped ≠ 'u' → Tap.simpleEscape escaped = some c →
      ∃ token, (∀ rest, Tap.lexLiteral (['\\', escaped] ++ rest) =
          (Tap.lexLiteral rest).map fun found => (token :: found.1, found.2)) ∧
        ∀ tokens, Tap.serdeChars (token :: tokens) = (Tap.serdeChars tokens).map (c :: ·) := by
    intro escaped hu hvalue
    refine ⟨.escaped c, fun rest => ?_, fun tokens => by rw [Tap.serdeChars]⟩
    have hcode : Tap.parseUEscape ('\\' :: escaped :: rest) = none := by
      unfold Tap.parseUEscape
      split
      next heq => exact absurd (List.cons.inj (List.cons.inj heq).2).1 hu
      next => rfl
    rw [cons_append, List.singleton_append, Tap.lexLiteral_escape hcode, hvalue]
    rfl
  unfold writeChar
  split
  next hc => exact hescape '"' (by decide) (by rw [hc]; decide)
  split
  next hc => exact hescape '\\' (by decide) (by rw [hc]; decide)
  split
  next hc => exact hescape 'b' (by decide) (by rw [hc]; decide)
  split
  next hc => exact hescape 'f' (by decide) (by rw [hc]; decide)
  split
  next hc => exact hescape 'n' (by decide) (by rw [hc]; decide)
  split
  next hc => exact hescape 'r' (by decide) (by rw [hc]; decide)
  split
  next hc => exact hescape 't' (by decide) (by rw [hc]; decide)
  split
  next hcontrol =>
    obtain ⟨hcode, hlength⟩ := hexFour_control c.toNat hcontrol
    refine ⟨.unicode c.toNat, fun rest => ?_, fun tokens => ?_⟩
    · rw [cons_append, cons_append, Tap.lexLiteral_unicode hlength hcode]
    · rw [Tap.serdeChars_unicode (by unfold Utf16.IsHigh Utf16.IsLow; omega), Char.ofNat_toNat]
  next hquote hslash _ _ _ _ _ hprints =>
    refine ⟨.plain c, fun rest => ?_, fun tokens => by rw [Tap.serdeChars]⟩
    have hplain : ∀ d ∈ [c], Tap.Plain d := by
      intro d hd
      rw [List.mem_singleton.1 hd]
      exact ⟨hquote, hslash, Nat.le_of_not_lt hprints⟩
    rw [Tap.lexLiteral_plain hplain]
    rfl

/-- What is written for a string is read back. -/
theorem readString_flatMap (string rest : Text) :
    Tap.readString (string.flatMap writeChar ++ '"' :: rest) = some (string, rest) := by
  have hlex : ∃ tokens, Tap.lexLiteral (string.flatMap writeChar ++ '"' :: rest) = some (tokens, rest) ∧
      Tap.serdeChars tokens = some string := by
    induction string with
    | nil => exact ⟨[], Tap.lexLiteral_quote rest, by rw [Tap.serdeChars]⟩
    | cons c string ih =>
        obtain ⟨tokens, htokens, hstring⟩ := ih
        obtain ⟨token, htoken, hchar⟩ := lexLiteral_writeChar c
        refine ⟨token :: tokens, ?_, ?_⟩
        · rw [List.flatMap_cons, append_assoc, htoken, htokens, map_some]
        · rw [hchar, hstring, map_some]
  obtain ⟨tokens, htokens, hstring⟩ := hlex
  rw [Tap.readString, htokens]
  dsimp only [bind_eq_bind, bind_some]
  rw [hstring]
  rfl

/-! ### Values -/

/-- The members of every object have different names, as those of a `Map` do. -/
inductive Distinct : Json → Prop where
  | null : Distinct .null
  | bool (value : Bool) : Distinct (.bool value)
  | number (text : Text) : Distinct (.number text)
  | double (text : Text) : Distinct (.double text)
  | string (text : Text) : Distinct (.string text)
  | array {items : List Json} (hitems : ∀ item ∈ items, Distinct item) : Distinct (.array items)
  | object {members : List (Text × Json)} (hnames : (members.map Prod.fst).Nodup)
      (hvalues : ∀ member ∈ members, Distinct member.2) : Distinct (.object members)

/-- The value holds no number. -/
inductive NumberFree : Json → Prop where
  | null : NumberFree .null
  | bool (value : Bool) : NumberFree (.bool value)
  | string (text : Text) : NumberFree (.string text)
  | array {items : List Json} (hitems : ∀ item ∈ items, NumberFree item) : NumberFree (.array items)
  | object {members : List (Text × Json)} (hvalues : ∀ member ∈ members, NumberFree member.2) :
      NumberFree (.object members)

mutual

/-- How deep arrays and objects are nested. -/
def depth : Json → ℕ
  | .array items => depthItems items + 1
  | .object members => depthMembers members + 1
  | _ => 0

def depthItems : List Json → ℕ
  | [] => 0
  | item :: items => max (depth item) (depthItems items)

def depthMembers : List (Text × Json) → ℕ
  | [] => 0
  | (_, value) :: members => max (depth value) (depthMembers members)

end

theorem depth_le_items {items : List Json} {item : Json} (hitem : item ∈ items) :
    depth item ≤ depthItems items := by
  induction hitem with
  | head items => exact le_max_left _ _
  | tail other _ ih => exact ih.trans (le_max_right _ _)

variable {members : List (Text × Json)}

theorem depth_le_members {member : Text × Json} (hmember : member ∈ members) :
    depth member.2 ≤ depthMembers members := by
  induction hmember with
  | head members => exact le_max_left _ _
  | tail other _ ih => exact ih.trans (le_max_right _ _)

theorem writeItems_eq_ok {items : List Json} {parts : List Text} : writeItems items = .ok parts ↔
    List.Forall₂ (fun item part => writeValue item = .ok part) items parts := by
  induction items generalizing parts with
  | nil => simp [writeItems, eq_comm]
  | cons item items ih =>
      rw [writeItems, cons_eq_ok, List.forall₂_cons_left_iff]
      simp only [ih]

def Written (member : Text × Json) (part : Text × Text) : Prop :=
  member.1 = part.1 ∧ writeValue member.2 = .ok part.2

theorem writeMembers_eq_ok {parts : List (Text × Text)} :
    writeMembers members = .ok parts ↔ List.Forall₂ Written members parts := by
  induction members generalizing parts with
  | nil => simp [writeMembers, eq_comm]
  | cons member members ih =>
      obtain ⟨key, value⟩ := member
      rw [writeMembers, List.forall₂_cons_left_iff]
      rw [bind_eq_ok]
      constructor
      · rintro ⟨part, hpart, hparts⟩
        obtain ⟨rest, hrest, heq⟩ := bind_eq_ok.1 hparts
        cases heq
        exact ⟨(key, part), rest, ⟨rfl, hpart⟩, ih.1 hrest, rfl⟩
      · rintro ⟨⟨name, part⟩, rest, ⟨hname, hpart⟩, hrest, rfl⟩
        cases hname
        exact ⟨part, hpart, bind_eq_ok.2 ⟨rest, ih.2 hrest, rfl⟩⟩

theorem names_of_written {parts : List (Text × Text)}
    (hwritten : List.Forall₂ Written members parts) : parts.map Prod.fst = members.map Prod.fst := by
  induction hwritten with
  | nil => rfl
  | cons hfirst _ ih => rw [map_cons, map_cons, hfirst.1, ih]

/-! ### Reading lists -/

section Read

variable {read : Text → Option (Json × Text)}

/-- The text starts as a value does and is read as the value. -/
def Reads (read : Text → Option (Json × Text)) (value : Json) (part : Text) : Prop :=
  Tap.StartsValue part ∧ ∀ rest, read (part ++ rest) = some (value, rest)

theorem skipSpace_of_startsValue {part : Text} (hstarts : Tap.StartsValue part) (rest : Text) :
    Tap.skipSpace (part ++ rest) = part ++ rest := by
  obtain ⟨c, tail, rfl, -, hprints, -⟩ := hstarts
  have hne : ∀ d : Char, d.toNat ≤ 0x20 → c ≠ d := by
    rintro d hd rfl
    omega
  apply Tap.skipSpace_cons
  simp [Tap.isJsonWhitespace, hne ' ' (by decide), hne '\t' (by decide), hne '\n' (by decide),
    hne '\r' (by decide)]

theorem intercalate_cons {part : Text} {parts : List Text} (hne : parts ≠ []) :
    List.intercalate [','] (part :: parts) = part ++ ',' :: List.intercalate [','] parts := by
  cases parts with
  | nil => exact absurd rfl hne
  | cons next parts => rfl

/-- Items that are read one by one are read as the items of an array. -/
theorem readItems_intercalate {items : List Json} {parts : List Text}
    (hreads : List.Forall₂ (Reads read) items parts) (hne : parts ≠ []) (rest : Text) :
    ∀ {count : ℕ}, parts.length ≤ count →
      Tap.readItems read count (List.intercalate [','] parts ++ ']' :: rest) = some (items, rest) := by
  induction hreads with
  | nil => exact absurd rfl hne
  | @cons item part items parts hfirst hreads ih =>
      intro count hcount
      obtain ⟨count, rfl⟩ := Nat.exists_eq_add_of_le' (Nat.le_trans (Nat.succ_pos _) hcount)
      obtain ⟨hstarts, hread⟩ := hfirst
      by_cases hlast : parts = []
      · subst hlast
        cases hreads
        rw [List.intercalate_singleton, Tap.readItems, skipSpace_of_startsValue hstarts, hread]
        dsimp only [bind_eq_bind, bind_some]
        rw [Tap.skipSpace_cons (by decide)]
        rfl
      · rw [intercalate_cons hlast, append_assoc, cons_append, Tap.readItems,
          skipSpace_of_startsValue hstarts, hread]
        dsimp only [bind_eq_bind, bind_some]
        rw [Tap.skipSpace_cons (by decide)]
        exact congrArg (Option.map fun found => (item :: found.1, found.2))
          (ih hlast (Nat.le_of_succ_le_succ hcount))

/-- A member that is read as the member of the same name with this value. -/
def ReadsMember (read : Text → Option (Json × Text)) (member : Text × Json) (part : Text × Text) : Prop :=
  member.1 = part.1 ∧ Reads read member.2 part.2

theorem readMember_writeMember {member : Text × Json} {part : Text × Text}
    (hreads : ReadsMember read member part) (rest : Text) :
    Tap.readMember read (writeMember part ++ rest) = some (member, rest) := by
  obtain ⟨key, value⟩ := member
  obtain ⟨hname, hstarts, hread⟩ := hreads
  have htext : writeMember part ++ rest =
      '"' :: (key.flatMap writeChar ++ '"' :: ':' :: (part.2 ++ rest)) := by
    simp [writeMember, writeString, ← hname]
  rw [htext, Tap.readMember, readString_flatMap]
  dsimp only [bind_eq_bind, bind_some]
  rw [Tap.skipSpace_cons (by decide)]
  change Option.map _ (read (Tap.skipSpace (part.2 ++ rest))) = _
  rw [skipSpace_of_startsValue hstarts, hread]
  rfl

theorem startsValue_writeMember (part : Text × Text) : Tap.StartsValue (writeMember part) :=
  ⟨'"', _, rfl, by decide⟩

/-- Members that are read one by one are read as the members of an object. -/
theorem readMembers_intercalate {members : List (Text × Json)} {parts : List (Text × Text)}
    (hreads : List.Forall₂ (ReadsMember read) members parts) (hne : parts ≠ []) (rest : Text) :
    ∀ {count : ℕ}, parts.length ≤ count →
      Tap.readMembers read count (List.intercalate [','] (parts.map writeMember) ++ '\x7d' :: rest) =
        some (members, rest) := by
  induction hreads with
  | nil => exact absurd rfl hne
  | @cons member part members parts hfirst hreads ih =>
      intro count hcount
      obtain ⟨count, rfl⟩ := Nat.exists_eq_add_of_le' (Nat.le_trans (Nat.succ_pos _) hcount)
      have hread := readMember_writeMember hfirst
      have hstarts := startsValue_writeMember part
      rw [map_cons]
      by_cases hlast : parts = []
      · subst hlast
        cases hreads
        rw [List.map_nil, List.intercalate_singleton, Tap.readMembers, skipSpace_of_startsValue hstarts,
          hread]
        dsimp only [bind_eq_bind, bind_some]
        rw [Tap.skipSpace_cons (by decide)]
        rfl
      · rw [intercalate_cons (by simpa using hlast), append_assoc, cons_append, Tap.readMembers,
          skipSpace_of_startsValue hstarts, hread]
        dsimp only [bind_eq_bind, bind_some]
        rw [Tap.skipSpace_cons (by decide)]
        exact congrArg (Option.map fun found => (member :: found.1, found.2))
          (ih hlast (Nat.le_of_succ_le_succ hcount))

end Read

/-! ### Members in a map -/

variable {value : Json}

theorem perm_insertMember {key : Text} {fields : List (Text × Json)}
    (hfresh : key ∉ fields.map Prod.fst) :
    (Tap.insertMember key value fields).Perm ((key, value) :: fields) := by
  induction fields with
  | nil => exact .refl _
  | cons field fields ih =>
      obtain ⟨hne, hfresh⟩ := not_or.1 (mem_cons.not.1 hfresh)
      rw [Tap.insertMember, if_neg hne]
      split
      next => exact .refl _
      next => exact ((ih hfresh).cons field).trans (.swap _ _ _)

theorem pairwise_insertMember {key : Text} {fields : List (Text × Json)}
    (hfresh : key ∉ fields.map Prod.fst) (hsorted : fields.Pairwise fun a b => a.1 < b.1) :
    (Tap.insertMember key value fields).Pairwise fun a b => a.1 < b.1 := by
  induction fields with
  | nil => exact List.pairwise_singleton _ _
  | cons field fields ih =>
      obtain ⟨hne, hfresh⟩ := not_or.1 (mem_cons.not.1 hfresh)
      obtain ⟨hfirst, hsorted⟩ := pairwise_cons.1 hsorted
      rw [Tap.insertMember, if_neg hne]
      split
      next hlt =>
        refine pairwise_cons.2 ⟨fun other hother => ?_, pairwise_cons.2 ⟨hfirst, hsorted⟩⟩
        rcases mem_cons.1 hother with rfl | hother
        · exact hlt
        · exact lt_trans hlt (hfirst other hother)
      next hle =>
        refine pairwise_cons.2 ⟨fun other hother => ?_, ih hfresh hsorted⟩
        rcases mem_cons.1 ((perm_insertMember hfresh).mem_iff.1 hother) with rfl | hother
        · exact lt_of_le_of_ne (not_lt.1 hle) (Ne.symm hne)
        · exact hfirst other hother

/-- Members of different names are collected in the order of their names. -/
theorem collectMembers_eq_sortByName (hnames : (members.map Prod.fst).Nodup) :
    Tap.collectMembers members = Tap.sortByName members := by
  have hcollect : (Tap.collectMembers members).Perm members ∧
      (Tap.collectMembers members).Pairwise fun a b => a.1 < b.1 := by
    induction members using List.reverseRecOn with
    | nil => exact ⟨.refl _, .nil⟩
    | append_singleton members member ih =>
        rw [List.map_append, List.map_singleton] at hnames
        obtain ⟨hnames, -, hfresh⟩ := List.nodup_append.1 hnames
        obtain ⟨hperm, hsorted⟩ := ih hnames
        have hfresh : member.1 ∉ (Tap.collectMembers members).map Prod.fst := by
          rw [(hperm.map Prod.fst).mem_iff]
          exact fun hmem => hfresh _ hmem _ (List.mem_singleton_self _) rfl
        rw [Tap.collectMembers, List.foldl_append]
        refine ⟨(perm_insertMember hfresh).trans ?_, pairwise_insertMember hfresh hsorted⟩
        exact (hperm.cons member).trans (List.perm_append_singleton member members).symm
  exact SortByKey.eq_insertionSort Prod.fst hnames hcollect.1 hcollect.2

/-! ### Values are read back -/

theorem length_le_intercalate {parts : List Text} (hstarts : ∀ part ∈ parts, Tap.StartsValue part) :
    parts.length ≤ (List.intercalate [','] parts).length := by
  induction parts with
  | nil => exact Nat.zero_le _
  | cons part parts ih =>
      obtain ⟨hfirst, hstarts⟩ := List.forall_mem_cons.1 hstarts
      have hpos := hfirst.length_pos
      by_cases hlast : parts = []
      · rw [hlast, List.intercalate_singleton]
        exact hpos
      · have hrest := ih hstarts
        rw [intercalate_cons hlast, List.length_cons, List.length_append, List.length_cons]
        omega

/-- A list of texts with commas between starts as its first text does. -/
theorem startsValue_intercalate {parts : List Text} (hne : parts ≠ [])
    (hstarts : ∀ part ∈ parts, Tap.StartsValue part) (rest : Text) :
    ∃ c tail, List.intercalate [','] parts ++ rest = c :: tail ∧
      Tap.skipSpace (c :: tail) = c :: tail ∧ c ≠ ']' ∧ c ≠ '\x7d' := by
  obtain ⟨part, parts, rfl⟩ := List.exists_cons_of_ne_nil hne
  have hfirst := hstarts part List.mem_cons_self
  obtain ⟨more, hmore⟩ : ∃ more, List.intercalate [','] (part :: parts) = part ++ more := by
    by_cases hlast : parts = []
    · exact ⟨[], by rw [hlast, List.intercalate_singleton, List.append_nil]⟩
    · exact ⟨_, intercalate_cons hlast⟩
  have hskip := skipSpace_of_startsValue hfirst (more ++ rest)
  obtain ⟨c, tail, rfl, -, -, hbracket, hbrace⟩ := hfirst
  exact ⟨c, tail ++ (more ++ rest), by rw [hmore, append_assoc, cons_append],
    by simpa using hskip, hbracket, hbrace⟩

section Read

variable {read : Text → Option (Json × Text)}

theorem startsValue_of_reads {items : List Json} {parts : List Text}
    (hreads : List.Forall₂ (Reads read) items parts) : ∀ part ∈ parts, Tap.StartsValue part := by
  induction hreads with
  | nil => exact fun _ hpart => absurd hpart List.not_mem_nil
  | cons hfirst _ ih => exact List.forall_mem_cons.2 ⟨hfirst.1, ih⟩

theorem readArray_intercalate {items : List Json} {parts : List Text}
    (hreads : List.Forall₂ (Reads read) items parts) (rest : Text) :
    Tap.readArray read (List.intercalate [','] parts ++ ']' :: rest) = some (.array items, rest) := by
  by_cases hnone : parts = []
  · subst hnone
    cases hreads
    have hskip : Tap.skipSpace (']' :: rest) = ']' :: rest := Tap.skipSpace_cons (by decide) rest
    rw [Tap.readArray, List.intercalate_nil, List.nil_append, hskip]
    rfl
  · have hstarts := startsValue_of_reads hreads
    have hcount : parts.length ≤ (List.intercalate [','] parts ++ ']' :: rest).length := by
      rw [List.length_append]
      exact (length_le_intercalate hstarts).trans (Nat.le_add_right _ _)
    have hread := readItems_intercalate hreads hnone rest hcount
    obtain ⟨c, tail, htext, hskip, hbracket, -⟩ := startsValue_intercalate hnone hstarts (']' :: rest)
    rw [htext] at hread ⊢
    rw [Tap.readArray, hskip]
    split
    next heq => exact absurd (List.cons.inj heq).1 hbracket
    next => rw [hread]; rfl

/-- The members of an object are read in any order. -/
theorem readObject_intercalate {members : List (Text × Json)} {parts : List (Text × Text)}
    (hreads : List.Forall₂ (ReadsMember read) members parts)
    (hnames : (members.map Prod.fst).Nodup) (rest : Text) :
    Tap.readObject read (List.intercalate [','] (parts.map writeMember) ++ '\x7d' :: rest) =
      some (.object (Tap.sortByName members), rest) := by
  by_cases hnone : parts = []
  · subst hnone
    cases hreads
    have hskip : Tap.skipSpace ('\x7d' :: rest) = '\x7d' :: rest := Tap.skipSpace_cons (by decide) rest
    rw [Tap.readObject, List.map_nil, List.intercalate_nil, List.nil_append, hskip]
    rfl
  · have hstarts : ∀ word ∈ parts.map writeMember, Tap.StartsValue word := by
      intro word hword
      obtain ⟨part, -, rfl⟩ := mem_map.1 hword
      exact startsValue_writeMember part
    have hlength : (parts.map writeMember).length = parts.length := List.length_map _
    have hcount : parts.length ≤
        (List.intercalate [','] (parts.map writeMember) ++ '\x7d' :: rest).length := by
      rw [List.length_append, ← hlength]
      exact (length_le_intercalate hstarts).trans (Nat.le_add_right _ _)
    have hread := readMembers_intercalate hreads hnone rest hcount
    obtain ⟨c, tail, htext, hskip, -, hbrace⟩ :=
      startsValue_intercalate (by simpa using hnone) hstarts ('\x7d' :: rest)
    rw [htext] at hread ⊢
    rw [Tap.readObject, hskip]
    split
    next heq => exact absurd (List.cons.inj heq).1 hbrace
    next => rw [hread, map_some, collectMembers_eq_sortByName hnames]

end Read

/-- A value is read back from its text in front of anything, the members in the order of their names. -/
theorem reads_writeValue (lib : Tap.NumberLib) (hdistinct : Distinct value) :
    ∀ {part : Text} {limit : ℕ}, writeValue value = .ok part → depth value ≤ limit →
      Reads (Tap.readValue lib limit) value.sortMembers part := by
  induction hdistinct with
  | null =>
      intro part limit hpart _
      cases hpart
      exact ⟨⟨'n', _, rfl, by decide⟩, fun rest => Tap.readValue_scalar (by decide) (by decide) _⟩
  | bool value =>
      intro part limit hpart _
      cases value with
      | true =>
          cases hpart
          exact ⟨⟨'t', _, rfl, by decide⟩, fun rest => Tap.readValue_scalar (by decide) (by decide) _⟩
      | false =>
          cases hpart
          exact ⟨⟨'f', _, rfl, by decide⟩, fun rest => Tap.readValue_scalar (by decide) (by decide) _⟩
  | number text =>
      intro part limit hpart _
      cases hpart
  | double text =>
      intro part limit hpart _
      cases hpart
  | string text =>
      intro part limit hpart _
      cases hpart
      refine ⟨⟨'"', _, rfl, by decide⟩, fun rest => ?_⟩
      have hread := readString_flatMap text rest
      rw [writeString, cons_append, append_assoc, List.singleton_append,
        Tap.readValue_scalar (by decide) (by decide), Tap.readScalar, hread, Json.sortMembers]
      rfl
  | @array items _ ih =>
      intro part limit hpart hdepth
      rw [writeValue] at hpart
      obtain ⟨parts, hparts, hpart⟩ := bind_eq_ok.1 hpart
      cases hpart
      rw [depth] at hdepth
      obtain ⟨limit, rfl⟩ := Nat.exists_eq_add_of_le' (Nat.le_trans (Nat.succ_pos _) hdepth)
      refine ⟨⟨'[', _, rfl, by decide⟩, fun rest => ?_⟩
      have hreads : List.Forall₂ (Reads (Tap.readValue lib limit)) (items.map Json.sortMembers) parts := by
        rw [List.forall₂_map_left_iff]
        have hwritten := (List.forall₂_and_left _ _).2 ⟨fun _ hitem => hitem, writeItems_eq_ok.1 hparts⟩
        refine hwritten.imp fun item part hboth => ?_
        obtain ⟨hitem, hpart⟩ := hboth
        exact ih item hitem hpart ((depth_le_items hitem).trans (Nat.le_of_succ_le_succ hdepth))
      rw [cons_append, append_assoc, List.singleton_append, Json.sortMembers,
        Tap.sortItems_eq_map]
      exact readArray_intercalate hreads rest
  | @object members hnames _ ih =>
      intro part limit hpart hdepth
      rw [writeValue] at hpart
      obtain ⟨parts, hparts, hpart⟩ := bind_eq_ok.1 hpart
      cases hpart
      rw [depth] at hdepth
      obtain ⟨limit, rfl⟩ := Nat.exists_eq_add_of_le' (Nat.le_trans (Nat.succ_pos _) hdepth)
      refine ⟨⟨'\x7b', _, rfl, by decide⟩, fun rest => ?_⟩
      have hreads : List.Forall₂ (ReadsMember (Tap.readValue lib limit))
          (members.map Tap.sortedMember) parts := by
        rw [List.forall₂_map_left_iff]
        have hwritten := (List.forall₂_and_left _ _).2 ⟨fun _ hmember => hmember, writeMembers_eq_ok.1 hparts⟩
        refine hwritten.imp fun member part hboth => ?_
        obtain ⟨hmember, hname, hpart⟩ := hboth
        exact ⟨hname, ih member hmember hpart
          ((depth_le_members hmember).trans (Nat.le_of_succ_le_succ hdepth))⟩
      have hsorted : List.Forall₂ (ReadsMember (Tap.readValue lib limit))
          (sortByUtf16 (members.map Tap.sortedMember)) (sortByUtf16 parts) :=
        SortByKey.forall₂_insertionSort (fun _ _ hread => congrArg encodeUtf16 hread.1) hreads
      have hperm : (sortByUtf16 (members.map Tap.sortedMember)).Perm (members.map Tap.sortedMember) :=
        List.perm_insertionSort _ _
      have hnames : ((sortByUtf16 (members.map Tap.sortedMember)).map Prod.fst).Nodup := by
        rw [(hperm.map Prod.fst).nodup_iff, List.map_map]
        exact hnames
      have hread := readObject_intercalate hsorted hnames rest
      rw [Tap.sortByName, SortByKey.insertionSort_of_perm Prod.fst hperm hnames] at hread
      rw [cons_append, append_assoc, List.singleton_append, Json.sortMembers,
        Tap.sortFields_eq_map]
      exact hread

/-! ### The order of members -/

theorem encodeUtf16_injective : Function.Injective encodeUtf16 := by
  intro text other hsame
  have hunits : ∀ text : Text, Utf16.codePoints (encodeUtf16 text) = text.map Char.toNat := by
    intro text
    have hpoints := @Utf16.codePoints_units (text.map Char.toNat)
    rw [List.flatMap_map] at hpoints
    refine hpoints ?_ ?_
    · refine List.Pairwise.isChain (List.pairwise_of_forall_mem_list ?_)
      intro point hpoint next _ hsplit
      obtain ⟨c, -, rfl⟩ := mem_map.1 hpoint
      exact Tap.not_surrogate c (.inl hsplit.1)
    · intro point hpoint
      obtain ⟨c, -, rfl⟩ := mem_map.1 hpoint
      exact Tap.toNat_lt c
  have hcodes : text.map Char.toNat = other.map Char.toNat := by rw [← hunits, hsame, hunits]
  exact List.map_injective_iff.2 (fun _ _ => Char.toNat_inj.1) hcodes

/-- The text does not depend on the order of members. -/
theorem writeValue_sortMembers (hdistinct : Distinct value) :
    ∀ {part : Text}, writeValue value = .ok part → writeValue value.sortMembers = .ok part := by
  induction hdistinct with
  | null => exact fun hpart => hpart
  | bool value => exact fun hpart => hpart
  | number text => exact fun hpart => hpart
  | double text => exact fun hpart => hpart
  | string text => exact fun hpart => hpart
  | @array items _ ih =>
      intro part hpart
      rw [writeValue] at hpart
      obtain ⟨parts, hparts, hpart⟩ := bind_eq_ok.1 hpart
      have hwritten := (List.forall₂_and_left _ _).2 ⟨fun _ hitem => hitem, writeItems_eq_ok.1 hparts⟩
      have hsorted : writeItems (items.map Json.sortMembers) = .ok parts := by
        rw [writeItems_eq_ok, List.forall₂_map_left_iff]
        exact hwritten.imp fun item part ⟨hitem, hpart⟩ => ih item hitem hpart
      rw [Json.sortMembers, Tap.sortItems_eq_map, writeValue, hsorted]
      exact hpart
  | @object members hnames _ ih =>
      intro part hpart
      rw [writeValue] at hpart
      obtain ⟨parts, hparts, hpart⟩ := bind_eq_ok.1 hpart
      have hwritten := writeMembers_eq_ok.1 hparts
      have hmembers : List.Forall₂ Written (members.map Tap.sortedMember) parts := by
        rw [List.forall₂_map_left_iff]
        exact ((List.forall₂_and_left _ _).2 ⟨fun _ hmember => hmember, hwritten⟩).imp
          fun member part ⟨hmember, hname, hpart⟩ => ⟨hname, ih member hmember hpart⟩
      have hsorted : writeMembers (Tap.sortByName (members.map Tap.sortedMember)) =
          .ok (Tap.sortByName parts) :=
        writeMembers_eq_ok.2 (SortByKey.forall₂_insertionSort (fun _ _ hmember => hmember.1) hmembers)
      have hnames : (parts.map fun part => encodeUtf16 part.1).Nodup := by
        rw [← names_of_written hwritten] at hnames
        have hunits := hnames.map encodeUtf16_injective
        rwa [List.map_map] at hunits
      have hunits : sortByUtf16 (Tap.sortByName parts) = sortByUtf16 parts :=
        (SortByKey.insertionSort_of_perm (fun part : Text × Text => encodeUtf16 part.1)
          (List.perm_insertionSort _ _).symm hnames).symm
      rw [Json.sortMembers, Tap.sortFields_eq_map, writeValue, hsorted, ok_bind, hunits]
      exact hpart

/-! ### Values without numbers -/

theorem exists_forall₂ {α β : Type} {R : α → β → Prop} {items : List α}
    (hitems : ∀ item ∈ items, ∃ part, R item part) : ∃ parts, List.Forall₂ R items parts := by
  induction items with
  | nil => exact ⟨[], .nil⟩
  | cons item items ih =>
      obtain ⟨⟨part, hpart⟩, hitems⟩ := List.forall_mem_cons.1 hitems
      obtain ⟨parts, hparts⟩ := ih hitems
      exact ⟨part :: parts, .cons hpart hparts⟩

/-- A value without numbers has a text. -/
theorem NumberFree.writeValue_ok (hfree : NumberFree value) :
    ∃ part, writeValue value = .ok part := by
  induction hfree with
  | null => exact ⟨_, rfl⟩
  | bool value => cases value <;> exact ⟨_, rfl⟩
  | string text => exact ⟨_, rfl⟩
  | array _ ih =>
      obtain ⟨parts, hparts⟩ := exists_forall₂ ih
      exact ⟨_, by rw [writeValue, writeItems_eq_ok.2 hparts, ok_bind]⟩
  | @object members _ ih =>
      have hmembers : ∀ member ∈ members, ∃ part, Written member part := by
        intro member hmember
        obtain ⟨part, hpart⟩ := ih member hmember
        exact ⟨(member.1, part), rfl, hpart⟩
      obtain ⟨parts, hparts⟩ := exists_forall₂ hmembers
      exact ⟨_, by rw [writeValue, writeMembers_eq_ok.2 hparts, ok_bind]⟩

/-- A text is read as the value it was written for, the members in the order of their names. -/
theorem readValue_rfc8785 (lib : Tap.NumberLib) (hdistinct : Distinct value) {text : Text}
    (htext : rfc8785 value = .ok text) {limit : ℕ} (hdepth : depth value ≤ limit) :
    Tap.readValue lib limit text = some (value.sortMembers, []) := by
  have hread := (reads_writeValue lib hdistinct htext hdepth).2 []
  rwa [List.append_nil] at hread

/-- `serde_json` reads it as far as it reads nested values at all. -/
theorem serdeFromStr_rfc8785 (lib : Tap.NumberLib) (hdistinct : Distinct value) {text : Text}
    (htext : rfc8785 value = .ok text) (hdepth : depth value ≤ Tap.nestingLimit) :
    Tap.serdeFromStr lib text = some value.sortMembers := by
  have hstarts := (reads_writeValue lib hdistinct htext hdepth).1
  have hskip := skipSpace_of_startsValue hstarts []
  rw [List.append_nil] at hskip
  rw [Tap.serdeFromStr, hskip, readValue_rfc8785 lib hdistinct htext hdepth]
  rfl

/-- A reader of numbers that reads none. -/
def noNumbers : Tap.NumberLib where
  readDouble _ := none

/-- Values of one text differ in the order of members at most. -/
theorem sortMembers_eq_of_rfc8785 {value other : Json} (hdistinct : Distinct value)
    (hdistinct' : Distinct other) {text : Text} (htext : rfc8785 value = .ok text)
    (htext' : rfc8785 other = .ok text) : value.sortMembers = other.sortMembers := by
  have hread := readValue_rfc8785 noNumbers hdistinct htext (Nat.le_max_left (depth value) (depth other))
  have hread' :=
    readValue_rfc8785 noNumbers hdistinct' htext' (Nat.le_max_right (depth value) (depth other))
  rw [hread] at hread'
  exact (Prod.mk.inj (Option.some.inj hread')).1

/-- Values without numbers have one text when they differ in the order of members at most. -/
theorem rfc8785_eq_iff {value other : Json} (hdistinct : Distinct value) (hdistinct' : Distinct other)
    (hfree : NumberFree value) (hfree' : NumberFree other) :
    rfc8785 value = rfc8785 other ↔ value.sortMembers = other.sortMembers := by
  obtain ⟨text, htext⟩ := hfree.writeValue_ok
  obtain ⟨text', htext'⟩ := hfree'.writeValue_ok
  constructor
  · intro hsame
    exact sortMembers_eq_of_rfc8785 hdistinct hdistinct' htext (hsame ▸ htext)
  · intro hsorted
    have hwritten := writeValue_sortMembers hdistinct htext
    rw [hsorted, writeValue_sortMembers hdistinct' htext'] at hwritten
    rw [rfc8785, rfc8785, htext, htext', hwritten]

end OrdDogecoin.Feed
