/-
Module: OrdDogecoin.Feed.EventsHash
Purpose: The object that is hashed into the eventsHash of a block.  Its text determines the header and the
  projected events.
Trusted boundary: as in OrdDogecoin.Feed.Rfc8785; SHA-256 is a function of the bytes of the text
Main exports: Value, eventsHash, eventsHash_canonical
-/
import OrdDogecoin.Feed.Rfc8785

namespace OrdDogecoin.Feed

open Tap (Json)

/-! ### The hashed object -/

/-- `serde_json::Value`, with the members of an object in any order. -/
abbrev Value := { json : Json // Distinct json }

/-- The constants that enter the hash. -/
def feedVersion : String := "dogemap-feed-v1"

def parserProfile : String := "doginals-trac-1.0.2-compat-v1"

def orderProfile : String := "ord-dogecoin-inscription-number-v1"

def candidateFilter : String := "dogemap-candidate-prefilter-v1"

/-- What the hash says of the block beside its events. -/
structure EventsHashHeader where
  network : Text
  genesisHash : Text
  height : UInt32
  blockHash : Text
  parentHash : Option Text
  transfersScope : Text
  creationCount : UInt64
deriving DecidableEq, Repr

/-- An event less the fields of its transport. -/
def withoutTransport : Json → Json
  | .object rawBody =>
      .object (rawBody.filter fun member =>
        member.1 ≠ "bytes".toList && member.1 ≠ "bodyRef".toList)
  | value => value

def projectEvent : Json → Json
  | .object members =>
      .object (members.map fun member =>
        if member.1 = "rawBody".toList then (member.1, withoutTransport member.2) else member)
  | event => event

/-- A decimal number, as a text. -/
def decimalJson (n : ℕ) : Json := .string (Nat.toDigits 10 n)

def scopeMembers (transfersScope : Text) : List (Text × Json) :=
  [("creations".toList, .string candidateFilter.toList), ("transfers".toList, .string transfersScope)]

/-- The members in the order in which they are inserted. -/
def inputMembers (header : EventsHashHeader) (events : List Json) : List (Text × Json) :=
  [("feedVersion".toList, .string feedVersion.toList),
    ("parserProfile".toList, .string parserProfile.toList),
    ("orderProfile".toList, .string orderProfile.toList),
    ("candidateFilter".toList, .string candidateFilter.toList),
    ("network".toList, .string header.network),
    ("genesisHash".toList, .string header.genesisHash),
    ("height".toList, decimalJson header.height.toNat),
    ("blockHash".toList, .string header.blockHash),
    ("parentHash".toList, (header.parentHash.map Json.string).getD .null),
    ("scope".toList, .object (scopeMembers header.transfersScope)),
    ("creationCount".toList, decimalJson header.creationCount.toNat),
    ("events".toList, .array (events.map projectEvent))]

def eventsHashInput (header : EventsHashHeader) (events : List Json) : Json :=
  .object (inputMembers header events)

/-- `events_hash`; `sha256Hex` is the lower-case hexadecimal text of SHA-256. -/
def eventsHash (sha256Hex : List UInt8 → Text) (header : EventsHashHeader) (events : List Json) :
    Except Rfc8785Error Text :=
  (rfc8785 (eventsHashInput header events)).map fun text => sha256Hex (Utf8.encode text)

/-! ### The object is well formed -/

/-- Dropping fields keeps the names distinct. -/
theorem distinct_withoutTransport {value : Json} (hvalue : Distinct value) :
    Distinct (withoutTransport value) := by
  cases hvalue with
  | object hnames hvalues =>
      exact .object ((List.filter_sublist.map Prod.fst).nodup hnames)
        fun member hmember => hvalues member (List.mem_of_mem_filter hmember)
  | null => exact .null
  | bool value => exact .bool value
  | number text => exact .number text
  | double text => exact .double text
  | string text => exact .string text
  | array hitems => exact .array hitems

theorem distinct_projectEvent {event : Json} (hevent : Distinct event) :
    Distinct (projectEvent event) := by
  cases hevent with
  | @object members hnames hvalues =>
      rw [projectEvent]
      refine .object ?_ fun member hmember => ?_
      · have hsame : (members.map fun member => if member.1 = "rawBody".toList then
            (member.1, withoutTransport member.2) else member).map Prod.fst = members.map Prod.fst := by
          rw [List.map_map]
          refine List.map_congr_left fun member _ => ?_
          rw [Function.comp_apply]
          split <;> rfl
        rw [hsame]
        exact hnames
      · obtain ⟨field, hfield, rfl⟩ := List.mem_map.1 hmember
        split
        next => exact distinct_withoutTransport (hvalues field hfield)
        next => exact hvalues field hfield
  | null => exact .null
  | bool value => exact .bool value
  | number text => exact .number text
  | double text => exact .double text
  | string text => exact .string text
  | array hitems => exact .array hitems

theorem names_inputMembers (header : EventsHashHeader) (events : List Json) :
    ((inputMembers header events).map Prod.fst).Nodup := by
  simp only [inputMembers, List.map_cons, List.map_nil]
  decide

theorem names_scopeMembers (scope : Text) : ((scopeMembers scope).map Prod.fst).Nodup := by
  simp only [scopeMembers, List.map_cons, List.map_nil]
  decide

theorem distinct_eventsHashInput (header : EventsHashHeader) {events : List Json}
    (hevents : ∀ event ∈ events, Distinct event) : Distinct (eventsHashInput header events) := by
  refine .object (names_inputMembers header events) ?_
  have hscope : Distinct (.object (scopeMembers header.transfersScope)) :=
    .object (names_scopeMembers header.transfersScope) (by simp [scopeMembers, Distinct.string])
  have hparent : Distinct ((header.parentHash.map Json.string).getD .null) := by
    cases header.parentHash with
    | none => exact .null
    | some hash => exact .string hash
  have hprojected : Distinct (.array (events.map projectEvent)) :=
    .array fun item hitem => by
      obtain ⟨event, hevent, rfl⟩ := List.mem_map.1 hitem
      exact distinct_projectEvent (hevents event hevent)
  simp [inputMembers, decimalJson, Distinct.string, hscope, hparent, hprojected]

/-! ### The text determines the block -/

/-- Members of one name list that are the same in order are the same. -/
theorem eq_of_sortByName {members others : List (Text × Json)}
    (hsame : members.map Prod.fst = others.map Prod.fst) (hnames : (others.map Prod.fst).Nodup)
    (hsorted : Tap.sortByName members = Tap.sortByName others) : members = others := by
  have hperm : members.Perm others := by
    have hsort := List.perm_insertionSort (fun a b : Text × Json => a.1 ≤ b.1) members
    have hsort' := List.perm_insertionSort (fun a b : Text × Json => a.1 ≤ b.1) others
    rw [Tap.sortByName, Tap.sortByName] at hsorted
    exact hsort.symm.trans (hsorted ▸ hsort')
  clear hsorted
  induction members generalizing others with
  | nil => exact (List.map_eq_nil_iff.1 hsame.symm).symm
  | cons member members ih =>
      cases others with
      | nil => cases hsame
      | cons other others =>
          rw [List.map_cons, List.map_cons, List.cons.injEq] at hsame
          rw [List.map_cons, List.nodup_cons] at hnames
          have hmember : member = other := by
            rcases List.mem_cons.1 (hperm.mem_iff.1 List.mem_cons_self) with heq | hmem
            · exact heq
            · exact absurd (hsame.1 ▸ List.mem_map_of_mem hmem) hnames.1
          subst hmember
          rw [ih hsame.2 hnames.2 hperm.cons_inv]

theorem names_sortedMember (fields : List (Text × Json)) :
    (fields.map Tap.sortedMember).map Prod.fst = fields.map Prod.fst := by
  rw [List.map_map]
  rfl

/-- The parent hash and the scope are read back from the object. -/
theorem eq_of_parentHash {hash hash' : Option Text}
    (hsorted : ((hash.map Json.string).getD .null).sortMembers =
      ((hash'.map Json.string).getD .null).sortMembers) : hash = hash' := by
  cases hash with
  | none =>
      cases hash' with
      | none => rfl
      | some hash' => exact absurd hsorted (by simp [Json.sortMembers])
  | some hash =>
      cases hash' with
      | none => exact absurd hsorted (by simp [Json.sortMembers])
      | some hash' => simpa [Json.sortMembers] using hsorted

theorem eq_of_scope {scope scope' : Text}
    (hsorted : Tap.sortByName (Tap.sortFields (scopeMembers scope)) =
      Tap.sortByName (Tap.sortFields (scopeMembers scope'))) : scope = scope' := by
  rw [Tap.sortFields_eq_map, Tap.sortFields_eq_map] at hsorted
  have hmembers := eq_of_sortByName (by rw [names_sortedMember, names_sortedMember]; rfl)
    (by rw [names_sortedMember]; exact names_scopeMembers scope') hsorted
  simpa [scopeMembers, Tap.sortedMember, Json.sortMembers] using hmembers

/-- The header and the sorted events can be read off the sorted object. -/
theorem eq_of_sortMembers {header header' : EventsHashHeader} {events events' : List Json}
    (hsorted : (eventsHashInput header events).sortMembers =
      (eventsHashInput header' events').sortMembers) :
    header = header' ∧ events.map (fun event => (projectEvent event).sortMembers) =
      events'.map fun event => (projectEvent event).sortMembers := by
  simp only [eventsHashInput, Json.sortMembers, Json.object.injEq, Tap.sortFields_eq_map] at hsorted
  have hmembers := eq_of_sortByName (by rw [names_sortedMember, names_sortedMember]; rfl)
    (by rw [names_sortedMember]; exact names_inputMembers header' events') hsorted
  simp only [inputMembers, List.map_cons, List.map_nil, Tap.sortedMember, List.cons.injEq, Prod.mk.injEq,
    true_and, and_true, Json.sortMembers, Json.string.injEq, decimalJson] at hmembers
  obtain ⟨hnetwork, hgenesis, hheight, hblock, hparent, hscope, hcount, hevents⟩ := hmembers
  rw [Json.object.injEq] at hscope
  rw [Json.array.injEq, Tap.sortItems_eq_map, Tap.sortItems_eq_map, List.map_map, List.map_map] at hevents
  have hheight := UInt32.toNat_inj.1 (Tap.toDigits_injective hheight)
  have hcount := UInt64.toNat_inj.1 (Tap.toDigits_injective hcount)
  have hparent := eq_of_parentHash hparent
  have hscope := eq_of_scope hscope
  refine ⟨?_, hevents⟩
  obtain ⟨_, _, _, _, _, _, _⟩ := header
  obtain ⟨_, _, _, _, _, _, _⟩ := header'
  cases hnetwork
  cases hgenesis
  cases hheight
  cases hblock
  cases hparent
  cases hscope
  cases hcount
  rfl

/-- Values without numbers have one text when they are equal up to the order of members, and are read
back from it; blocks of one hashed text have one header and the same projected events. -/
theorem eventsHash_canonical :
    (∀ value other : Value, NumberFree value.1 → NumberFree other.1 →
      (rfc8785 value.1 = rfc8785 other.1 ↔ value.1.sortMembers = other.1.sortMembers)) ∧
    (∀ (lib : Tap.NumberLib) (value : Value), NumberFree value.1 →
      ∃ text, rfc8785 value.1 = .ok text ∧
        (∀ limit, depth value.1 ≤ limit →
          Tap.readValue lib limit text = some (value.1.sortMembers, [])) ∧
        (depth value.1 ≤ Tap.nestingLimit →
          Tap.serdeFromStr lib text = some value.1.sortMembers)) ∧
    ∀ (header header' : EventsHashHeader) (events events' : List Value) (text : Text),
      rfc8785 (eventsHashInput header (events.map Subtype.val)) = .ok text →
      rfc8785 (eventsHashInput header' (events'.map Subtype.val)) = .ok text →
        header = header' ∧
          events.map (fun event => (projectEvent event.1).sortMembers) =
            events'.map fun event => (projectEvent event.1).sortMembers := by
  refine ⟨fun value other hfree hfree' => rfc8785_eq_iff value.2 other.2 hfree hfree',
    fun lib value hfree => ?_, fun header header' events events' text htext htext' => ?_⟩
  · obtain ⟨text, htext⟩ := hfree.writeValue_ok
    exact ⟨text, htext, fun limit hdepth => readValue_rfc8785 lib value.2 htext hdepth,
      serdeFromStr_rfc8785 lib value.2 htext⟩
  · have hdistinct : ∀ events : List Value, ∀ event ∈ events.map Subtype.val, Distinct event := by
      intro events event hevent
      obtain ⟨value, -, rfl⟩ := List.mem_map.1 hevent
      exact value.2
    have hsorted := sortMembers_eq_of_rfc8785 (distinct_eventsHashInput header (hdistinct events))
      (distinct_eventsHashInput header' (hdistinct events')) htext htext'
    have hsame := eq_of_sortMembers hsorted
    rwa [List.map_map, List.map_map] at hsame

end OrdDogecoin.Feed
