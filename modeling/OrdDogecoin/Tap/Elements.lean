/-
Module: OrdDogecoin.Tap.Elements
Purpose: The registry of DMT elements: how an element text is taken apart, which texts are
  registered, and what the registry keeps over every run of element inscriptions.
Trusted boundary: the fields of `ElementEnv` stand for the Unicode, JSON and RE2 libraries
Main exports: ElementText, Registered, registry_sound_of_narrow
-/
import OrdDogecoin.Tap.Store
import OrdDogecoin.Lib.Run
import OrdDogecoin.Lib.Utf8

namespace OrdDogecoin.Tap

open Chain KeyTable

/-! ### Element texts -/

/-- What the element handler uses of the libraries. -/
structure ElementEnv extends TapEnv where
  /-- `re2_accepts`. -/
  re2Accepts : Text → Bool
  /-- `serde_json::to_string` of a text. -/
  jsonString : Text → Text

/-- `<name>[.<pattern>].<field>.<tag>`; dots between the name and the field belong to the pattern. -/
structure ElementText where
  name : Text
  pattern : Option Text
  field : Text
  tag : Text
deriving DecidableEq, Repr

/-- The parts of a text: at least three. -/
def splitElement (text : Text) : Option ElementText :=
  match text.splitOn '.' with
  | [] => none
  | name :: parts =>
      match parts.reverse with
      | tag :: field :: pattern =>
          some
            { name := name
              pattern := if pattern.isEmpty then none
                else some (List.intercalate ['.'] pattern.reverse)
              field := field
              tag := tag }
      | _ => none

/-- A character that no element name has. -/
def invalidNameChar (c : Char) : Bool :=
  ['/', '.', '[', ']', '\x7b', '\x7d', ':', ';', '"', '\x27'].contains c || isJsWhitespace c

section Element

variable (env : ElementEnv) (context : TapContext)

/-- The field of an element: the parsed integer goes through `i64` into `u32`. -/
def elementField (field : Text) : Option ℕ := do
  let parsed ← jsParseInt (.string field)
  if parsed < -2 ^ 63 ∨ 2 ^ 63 ≤ parsed then none
  else if featureEnabled env.toTapEnv context .dmtParseintActivation && field ≠ intText parsed then
    none
  else if parsed < 0 then none
  else
    let fld := parsed.toNat % 2 ^ 32
    if fld = 4 ∨ fld = 10 ∨ fld = 11 then some fld else none

/-- The element text of a new inscription, seen in its own transaction. -/
def elementText (created : Created) : Option ElementText := do
  if created.satpoint.outpoint.txid ≠ created.inscriptionId.txid then none
  else if !featureEnabled env.toTapEnv context .dmt then none
  else if !featureEnabled env.toTapEnv context .tapStart then none
  else
    let body ← created.body
    let text := trimJsWhitespace (Utf8.fromLossy body)
    if !".element".toList.isSuffixOf (env.jsToLowercase text) then none
    else splitElement text

/-- The checks on an element text that need no rows: the number of its field when it passes. -/
def checkElement (element : ElementText) : Option ℕ := do
  if element.tag ≠ "element".toList then none
  else if (env.jsToLowercase element.name).any invalidNameChar then none
  else
    let fld ← elementField env context element.field
    if (element.pattern.map env.re2Accepts).getD true then some fld else none

/-! ### The registry -/

/-- `dmt-el/<name>`, less the time. -/
structure DmtElementRecord where
  tick : Text
  blck : ℕ
  tx : Txid
  vo : ℕ
  ins : InscriptionId
  num : ℤ
  addr : Address
  pat : Option Text
  fld : ℕ
deriving DecidableEq, Repr

/-- The rows of the element handler, less the lists of pointers by transaction and by block. -/
structure ElementStore where
  el : KeyTable Text DmtElementRecord
  sig : KeyTable Text Unit
  named : KeyTable InscriptionId Text
  ell : List Text

def ElementStore.empty : ElementStore := { el := ∅, sig := ∅, named := ∅, ell := [] }

/-- The key of an element's name. -/
def elementKey (element : ElementText) : Text :=
  env.jsJsonStringifyStr (env.jsToLowercase element.name)

/-- The key of an element's pattern and field: the JSON text of the two, one after the other. -/
def elementSig (element : ElementText) : Text :=
  env.jsonString (element.pattern.getD [] ++ element.field)

/-- The rows of a new element. -/
def putElement (created : Created) (element : ElementText) (fld : ℕ) (store : ElementStore) :
    ElementStore :=
  let name := env.jsToLowercase element.name
  { el := store.el.insert (elementKey env element)
      { tick := name
        blck := context.height
        tx := created.satpoint.outpoint.txid
        vo := created.satpoint.outpoint.vout
        ins := created.inscriptionId
        num := created.inscriptionNumber
        addr := created.ownerAddress
        pat := element.pattern
        fld := fld }
    sig := store.sig.insert (elementSig env element) ()
    named := store.named.insert created.inscriptionId name
    ell := store.ell ++ [name] }

/-- `index_dmt_element_created`: the element registered, its field, and the rows then. -/
def indexDmtElementCreated (created : Created) (store : ElementStore) :
    Option (ElementText × ℕ × ElementStore) := do
  let element ← elementText env context created
  let fld ← checkElement env context element
  if (store.el.lookup (elementKey env element)).isSome then none
  else if (store.sig.lookup (elementSig env element)).isSome then none
  else some (element, fld, putElement env context created element fld store)

end Element

/-! ### Runs -/

/-- An element that was registered: its text, and the number stored as its field. -/
structure Registered where
  element : ElementText
  fld : ℕ
deriving DecidableEq, Repr

/-- The pattern, empty when there is none, and the stored field. -/
def Registered.pair (entry : Registered) : Text × ℕ := (entry.element.pattern.getD [], entry.fld)

/-- The rows, and every element registered so far. -/
structure ElementState where
  store : ElementStore
  registered : List Registered

def ElementState.empty : ElementState := { store := .empty, registered := [] }

/-- One new inscription. -/
def elementStep (env : ElementEnv) (state : ElementState) (action : TapContext × Created) :
    Option ElementState :=
  match indexDmtElementCreated env action.1 action.2 state.store with
  | none => some state
  | some (element, fld, store) =>
      some { store := store, registered := state.registered ++ [⟨element, fld⟩] }

/-- No two elements share a name or a pattern and field, and every field is 4, 10 or 11. -/
structure RegistrySound (env : ElementEnv) (registered : List Registered) : Prop where
  names : (registered.map fun entry => env.jsToLowercase entry.element.name).Nodup
  pairs : (registered.map Registered.pair).Nodup
  fields : ∀ entry ∈ registered, ∃ n ∈ [4, 10, 11], entry.element.field = Nat.toDigits 10 n

def ParseIntActive (env : ElementEnv) (action : TapContext × Created) : Prop :=
  featureEnabled env.toTapEnv action.1 .dmtParseintActivation = true

/-- The number in the field of the element text fits 32 bits. -/
def NarrowField (env : ElementEnv) (action : TapContext × Created) : Prop :=
  ∀ element ∈ elementText env action.1 action.2, ∀ n ∈ jsParseInt (.string element.field), n < 2 ^ 32

variable {env : ElementEnv} {context : TapContext}

/-- Below 32 bits the stored field is what the text says. -/
theorem elementField_spec {field : Text} {fld : ℕ}
    (hactive : featureEnabled env.toTapEnv context .dmtParseintActivation = true)
    (hnarrow : ∀ n ∈ jsParseInt (.string field), n < 2 ^ 32)
    (hfield : elementField env context field = some fld) :
    fld ∈ [4, 10, 11] ∧ field = Nat.toDigits 10 fld := by
  unfold elementField at hfield
  obtain ⟨parsed, hparsed, hrest⟩ := Option.bind_eq_some_iff.1 hfield
  have hsmall := hnarrow parsed hparsed
  rw [hactive, Bool.true_and] at hrest
  split at hrest
  · cases hrest
  split at hrest
  · cases hrest
  next htext =>
    split at hrest
    · cases hrest
    next hnonneg =>
      lift parsed to ℕ using by omega with n
      have hmod : n % 2 ^ 32 = n := Nat.mod_eq_of_lt (by omega)
      simp only [Int.toNat_natCast, hmod] at hrest
      split at hrest
      next hmember =>
        cases hrest
        have hsame : field = intText (fld : ℤ) := not_not.1 fun hother => htext (decide_eq_true hother)
        exact ⟨by simpa using hmember, hsame⟩
      next => cases hrest

theorem checkElement_field {element : ElementText} {fld : ℕ}
    (hcheck : checkElement env context element = some fld) :
    elementField env context element.field = some fld := by
  unfold checkElement at hcheck
  split at hcheck
  · cases hcheck
  split at hcheck
  · cases hcheck
  obtain ⟨found, hfound, hrest⟩ := Option.bind_eq_some_iff.1 hcheck
  split at hrest
  · cases hrest
    exact hfound
  · cases hrest

/-- What a registration has checked. -/
theorem indexDmtElementCreated_spec {created : Created} {before after : ElementStore}
    {element : ElementText} {fld : ℕ}
    (hcreated : indexDmtElementCreated env context created before = some (element, fld, after)) :
    elementText env context created = some element ∧ checkElement env context element = some fld ∧
      before.el.lookup (elementKey env element) = none ∧
      before.sig.lookup (elementSig env element) = none ∧
      after = putElement env context created element fld before := by
  unfold indexDmtElementCreated at hcreated
  obtain ⟨text, htext, hrest⟩ := Option.bind_eq_some_iff.1 hcreated
  obtain ⟨number, hnumber, hrest⟩ := Option.bind_eq_some_iff.1 hrest
  split at hrest
  · cases hrest
  next hname =>
    split at hrest
    · cases hrest
    next hsig =>
      cases hrest
      exact ⟨htext, hnumber, by simpa using hname, by simpa using hsig, rfl⟩

/-- The registry is sound, and its rows show every element that is in it. -/
structure RegistryKept (env : ElementEnv) (state : ElementState) : Prop
    extends RegistrySound env state.registered where
  taken : ∀ entry ∈ state.registered, (state.store.el.lookup (elementKey env entry.element)).isSome
  signed : ∀ entry ∈ state.registered, (state.store.sig.lookup (elementSig env entry.element)).isSome
  stored : ∀ entry ∈ state.registered, entry.element.field = Nat.toDigits 10 entry.fld

namespace RegistryKept

theorem empty (env : ElementEnv) : RegistryKept env .empty where
  names := List.nodup_nil
  pairs := List.nodup_nil
  fields entry hentry := by cases hentry
  taken entry hentry := by cases hentry
  signed entry hentry := by cases hentry
  stored entry hentry := by cases hentry

/-- A new element whose field is what its text says. -/
theorem register {state : ElementState} {element : ElementText} {fld : ℕ} (created : Created)
    (kept : RegistryKept env state)
    (hname : state.store.el.lookup (elementKey env element) = none)
    (hsig : state.store.sig.lookup (elementSig env element) = none)
    (hfld : fld ∈ [4, 10, 11]) (hfield : element.field = Nat.toDigits 10 fld) :
    RegistryKept env
      { store := putElement env context created element fld state.store
        registered := state.registered ++ [⟨element, fld⟩] } where
  names := by
    rw [List.map_append, List.nodup_append]
    refine ⟨kept.names, List.nodup_singleton _, ?_⟩
    rintro _ hold _ hnew rfl
    obtain ⟨entry, hentry, hsame⟩ := List.mem_map.1 hold
    obtain rfl := List.mem_singleton.1 hnew
    have htaken := kept.taken entry hentry
    rw [elementKey, hsame, ← elementKey, hname] at htaken
    cases htaken
  pairs := by
    rw [List.map_append, List.nodup_append]
    refine ⟨kept.pairs, List.nodup_singleton _, ?_⟩
    rintro _ hold _ hnew rfl
    obtain ⟨entry, hentry, hsame⟩ := List.mem_map.1 hold
    obtain rfl := List.mem_singleton.1 hnew
    obtain ⟨hpattern, hnumber⟩ := Prod.mk.inj hsame
    have hfields : entry.element.field = element.field := by
      rw [kept.stored entry hentry, hfield, hnumber]
    have hsigned := kept.signed entry hentry
    rw [elementSig, hpattern, hfields, ← elementSig, hsig] at hsigned
    cases hsigned
  fields entry hentry := by
    rcases List.mem_append.1 hentry with hold | hnew
    · exact kept.fields entry hold
    · obtain rfl := List.mem_singleton.1 hnew
      exact ⟨fld, hfld, hfield⟩
  taken entry hentry := by
    simp only [putElement, lookup_insert_ite]
    split
    · rfl
    next hother =>
      rcases List.mem_append.1 hentry with hold | hnew
      · exact kept.taken entry hold
      · obtain rfl := List.mem_singleton.1 hnew
        exact absurd rfl hother
  signed entry hentry := by
    simp only [putElement, lookup_insert_ite]
    split
    · rfl
    next hother =>
      rcases List.mem_append.1 hentry with hold | hnew
      · exact kept.signed entry hold
      · obtain rfl := List.mem_singleton.1 hnew
        exact absurd rfl hother
  stored entry hentry := by
    rcases List.mem_append.1 hentry with hold | hnew
    · exact kept.stored entry hold
    · obtain rfl := List.mem_singleton.1 hnew
      exact hfield

theorem step {state state' : ElementState} {action : TapContext × Created}
    (kept : RegistryKept env state) (hactive : ParseIntActive env action)
    (hnarrow : NarrowField env action) (hstep : elementStep env state action = some state') :
    RegistryKept env state' := by
  unfold elementStep at hstep
  split at hstep
  · cases hstep
    exact kept
  next element fld after hcreated =>
    cases hstep
    obtain ⟨htext, hcheck, hname, hsig, rfl⟩ := indexDmtElementCreated_spec hcreated
    obtain ⟨hfld, hfield⟩ := elementField_spec hactive (hnarrow element htext)
      (checkElement_field hcheck)
    exact kept.register action.2 hname hsig hfld hfield

end RegistryKept

/-- Over every run with the parse-int rule active in which the number of every field fits 32 bits,
the registry is sound. -/
theorem registry_sound_of_narrow (env : ElementEnv) {state : ElementState}
    (reaches : Run.Reaches (elementStep env)
      (fun _ action => ParseIntActive env action ∧ NarrowField env action) .empty state) :
    RegistrySound env state.registered := by
  have kept : RegistryKept env state :=
    reaches.invariant (RegistryKept env)
      (fun kept hallowed hstep => kept.step hallowed.1 hallowed.2 hstep) (.empty env)
  exact kept.toRegistrySound

/-! ### Two elements -/

/-- The libraries on ASCII texts; every pattern is accepted. -/
def plainElementEnv : ElementEnv where
  mainnet := true
  parse _ := none
  toLowercase text := text.map Char.toLower
  jsToLowercase text := text.map Char.toLower
  jsJsonStringifyStr text := '"' :: (text ++ ['"'])
  visibleLength text := text.length
  dogeAddressVersion _ := none
  countGlobalMatches _ _ := none
  sha256 _ := 0
  verifyPrivilege _ _ _ _ _ := none
  re2Accepts _ := true
  jsonString text := '"' :: (text ++ ['"'])

def elementContext : TapContext where
  height := 6000000
  prains _ := false
  prac _ := false
  bltr _ := false
  dmtRewardAddress _ := false
  lockedAmount _ _ := 0
  obligationLockedAmount _ _ := 0
  elementName _ := none
  element _ := none
  bitmap _ := none
  header _ := none
  ordinalAvailable _ := false

/-- The text inscribed by transaction `txid`. -/
def inscribedElement (txid : Txid) (text : String) : TapContext × Created :=
  (elementContext,
    { inscriptionId := ⟨txid, 0⟩
      inscriptionNumber := txid
      satpoint := ⟨⟨txid, 0⟩, 0⟩
      body := some (text.toList.map fun c => c.toNat.toUInt8)
      ownerAddress := "D5EQRCnPMXmRvUoZwC7gu7fYspean3PQ9a".toList
      parents := [] })

instance (action : TapContext × Created) : Decidable (ParseIntActive env action) :=
  inferInstanceAs (Decidable (_ = true))

instance (action : TapContext × Created) : Decidable (NarrowField env action) :=
  inferInstanceAs (Decidable (∀ element ∈ elementText env action.1 action.2,
    ∀ n ∈ jsParseInt (.string element.field), n < 2 ^ 32))

/-- A name in other letters is not registered again, another name and pattern is. -/
theorem threeElements_sound :
    ∃ state, Run.Reaches (elementStep plainElementEnv)
        (fun _ action => ParseIntActive plainElementEnv action ∧ NarrowField plainElementEnv action)
        .empty state ∧
      state.registered.map Registered.pair = [([], 4), ("[0-9]".toList, 11)] ∧
      RegistrySound plainElementEnv state.registered := by
  have hexec : (Run.exec (elementStep plainElementEnv)
      (fun _ action => decide (ParseIntActive plainElementEnv action ∧
        NarrowField plainElementEnv action))
      [inscribedElement 1 "nat.4.element", inscribedElement 2 "NAT.10.element",
        inscribedElement 3 "more.[0-9].11.element"] .empty).map
          (fun state => state.registered.map Registered.pair) =
      some [([], 4), ("[0-9]".toList, 11)] := by decide +kernel
  obtain ⟨state, reaches, hpairs⟩ := Run.exists_reaches_of_exec of_decide_eq_true hexec
  exact ⟨state, reaches, hpairs, registry_sound_of_narrow plainElementEnv reaches⟩

/-- The field 4294967300 is stored as 4, next to the element that already has this field. -/
theorem wideField_not_sound :
    ∃ state, Run.Reaches (elementStep plainElementEnv)
        (fun _ action => ParseIntActive plainElementEnv action) .empty state ∧
      state.registered.map (fun entry => (entry.element.field, entry.pair)) =
        [("4".toList, [], 4), ("4294967300".toList, [], 4)] ∧
      ¬ RegistrySound plainElementEnv state.registered := by
  have hexec : (Run.exec (elementStep plainElementEnv)
      (fun _ action => decide (ParseIntActive plainElementEnv action))
      [inscribedElement 1 "nat.4.element", inscribedElement 2 "more.4294967300.element"]
        .empty).map ElementState.registered =
      some [⟨⟨"nat".toList, none, "4".toList, "element".toList⟩, 4⟩,
        ⟨⟨"more".toList, none, "4294967300".toList, "element".toList⟩, 4⟩] := by decide +kernel
  obtain ⟨state, reaches, hregistered⟩ := Run.exists_reaches_of_exec of_decide_eq_true hexec
  refine ⟨state, reaches, ?_, fun sound => ?_⟩
  · rw [hregistered]
    rfl
  · rw [hregistered] at sound
    exact absurd sound.pairs (by decide)

end OrdDogecoin.Tap
