/-
Module: OrdDogecoin.Tap.LockForms
Purpose: The normal form of a token lock: the metadata that its data may hold, the data and the condition
  of each kind of lock, and the action that `validate_token_proof_lock_action` leaves.
Trusted boundary: the members of an object come in the order of its map, and a member that is inserted
  comes last, where the map of `serde_json` is sorted
Main exports: safeId, lockAddressed, lockNormalForm
-/
import OrdDogecoin.Tap.CertifiedControl

namespace OrdDogecoin.Tap

/-! ### Metadata -/

/-- `Number.MAX_SAFE_INTEGER`. -/
def jsMaxSafeInteger : ℕ := 9007199254740991

/-- `token_proof_safe_id`. -/
def safeId (maxBytes : ℕ) (value : Text) : Bool :=
  !value.isEmpty && utf8Length value ≤ maxBytes &&
    value.all fun c => c.isAlphanum || c = '.' || c = '_' || c = ':' || c = '-'

/-- `token_proof_safe_uint_number`. -/
def safeUintNumber : Json → Option ℕ
  | .number text => (parseDigits text).filter (· ≤ jsMaxSafeInteger)
  -- an integral double up to the bound prints as its decimal digits
  | .double text => (parseDigits text).filter (· ≤ jsMaxSafeInteger)
  | _ => none

/-- A text of at most 512 bytes. -/
def shortText (text : Text) : Option Json :=
  if utf8Length text ≤ 512 then some (.string text) else none

/-- `normalize_token_proof_metadata_object`, given the normal form of its values. -/
def metadataObject (value : Json → Option Json) (object : Json) : Option Json := do
  guard object.isObject
  let members ← (sortByName object.fields).mapM fun member => do
    guard (safeId 64 member.1)
    some (member.1, ← value member.2)
  guard (utf8Length (jsJsonStringify (.object members)) ≤ 1024)
  some (.object members)

/-- `normalize_token_proof_metadata_value`, with the number of levels that are left: five at depth 0. -/
def metadataValue : ℕ → Json → Option Json
  | 0, _ => none
  | left + 1, value =>
      match value with
      | .null => some .null
      | .bool value => some (.bool value)
      | .string text => shortText text
      | .number _ | .double _ => (safeUintNumber value).map numberJson
      | .object _ => metadataObject (metadataValue left) value
      | .array _ => none

/-- `normalize_token_proof_optional_data`. -/
def normalizeOptionalData : Option Json → Option (Option Json)
  | none => some none
  | some value =>
      match value with
      | .string text => (shortText text).map some
      | .bool value => some (some (.bool value))
      | .number _ | .double _ => (safeUintNumber value).map fun n => some (numberJson n)
      | .object _ => (metadataObject (metadataValue 5) value).map some
      | .null | .array _ => none

/-- `token_proof_data_string`. -/
def dataString (value : Json) : Option Json := do
  let text ← value.asStr
  guard (!text.isEmpty)
  shortText text

/-- One member of the data of an application. -/
def appDataMember (required : List Text) (member : Text × Json) : Option Json :=
  if member.1 ∈ required then dataString member.2
  else if member.1 = "ext".toList then metadataObject (metadataValue 5) member.2
  else if safeId 64 member.1 then dataString member.2
  else none

/-- `token_proof_validate_app_data`. -/
def validateAppData (action : Json) (required : List String) : Option Json := do
  let data ← action.get "data"
  guard (data.isObject ∧ required.all fun field => (data.get field).isSome)
  let members ← (sortByName data.fields).mapM fun member =>
    (appDataMember (required.map String.toList) member).map fun value => (member.1, value)
  let data : Json := .object members
  guard (["dom", "ref"].all fun field =>
    ((data.get field).bind Json.asStr).all (safeId 128))
  some data

/-! ### Conditions -/

/-- A condition in its normal form. -/
def LockCondition.json : LockCondition → Json
  | .hashlock hash => .object [("hash".toList, .string hash), ("type".toList, .string "hashlock".toList)]
  | .height min => .object [("min".toList, numberJson min), ("type".toList, .string "height".toList)]
  | .authority auth =>
      .object [("auth".toList, .string auth), ("type".toList, .string "authority".toList)]

def authorityCondition (condition : Json) : Option LockCondition := do
  some (.authority (← (← condition.get "auth").asStr))

section Forms

variable (env : ProofEnv) (context : TapContext)

/-- `validate_token_proof_lock_kind`: the condition and the data.  Whether the authority of a condition
is active is asked of the rows. -/
def lockKindForm (action : Json) (kind : Text) (link : TokenAuthCreateRecord) :
    Option (LockCondition × Option Json) := do
  let condition ← action.get "condition"
  let conditionType := env.toLowercase (condition.text "type")
  let hasRefund :=
    ((action.get "refund").bind Json.asStr).isSome && (storageHeight (action.get "refund_after")).isSome
  let noRefund := (action.get "refund").isNone && (action.get "refund_after").isNone
  let defaultData ← normalizeOptionalData (action.get "data")
  if kind = "htlc".toList then
    guard (conditionType = "hashlock".toList ∧ hasRefund)
    some (← hashCondition env condition, defaultData)
  else if kind = "vesting".toList ∨ kind = "cooldown".toList then
    let min ← storageHeight (condition.get "min")
    guard (conditionType = "height".toList ∧ noRefund)
    guard (kind = "vesting".toList ∨ (action.get "claim").bind Json.asStr = some link.addr)
    some (.height min, some (← validateAppData action ["dom", "ref"]))
  else if kind = "escrow".toList then
    let fields := ["dom", "ref", "payer", "payee"]
    let _ ← validateAppData action fields
    let given ← action.get "data"
    let payer := normalizeAddress env (← (← given.get "payer").asStr)
    let payee := normalizeAddress env (← (← given.get "payee").asStr)
    let data ← validateAppData
      (action.set "data" ((given.set "payer" (.string payer)).set "payee" (.string payee))) fields
    guard (conditionType = "authority".toList ∧ hasRefund ∧ payer = link.addr ∧
      (action.get "claim").bind Json.asStr = some payee)
    some (← authorityCondition condition, some data)
  else if kind = "otc".toList then
    guard hasRefund
    let data ← validateAppData action ["dom", "ref", "cp"]
    if conditionType = "hashlock".toList then some (← hashCondition env condition, some data)
    else do
      guard (conditionType = "authority".toList)
      some (← authorityCondition condition, some data)
  else none

/-! ### Actions -/

/-- Insert a member into an object, at its end; the map of `serde_json` is sorted. -/
def Json.insert (json : Json) (key : String) (value : Json) : Json :=
  match json with
  | .object fields =>
      if (json.get key).isSome then json.set key value else .object (fields ++ [(key.toList, value)])
  | other => other

/-- Remove a member from an object. -/
def Json.remove (json : Json) (key : String) : Json :=
  match json with
  | .object fields => .object (fields.filter fun field => field.1 ≠ key.toList)
  | other => other

def Json.insertOrRemove (json : Json) (key : String) : Option Json → Json
  | some value => json.insert key value
  | none => json.remove key

/-- The action with the normal forms of its addresses. -/
def lockAddressed (action : Json) : Option Json := do
  let claim := normalizeAddress env (← (← action.get "claim").asStr)
  guard (isValidBitcoinAddress env context claim)
  let refund ← lockRefund env context action
  let action := action.set "claim" (.string claim)
  some (refund.elim action fun refund => action.set "refund" (.string refund))

/-- What `validate_token_proof_lock_action` makes of an action, and the condition of the lock: addresses,
condition, data and control policy take their normal forms. -/
def lockNormalForm (action : Json) (link : TokenAuthCreateRecord) : Option (Json × LockCondition) := do
  let kind ← (action.get "kind").bind Json.asStr
  let action ← lockAddressed env context action
  let (condition, data) ← lockKindForm env action (env.toLowercase kind) link
  let action := (action.insert "condition" condition.json).insertOrRemove "data" data
  guard (action.get "cert").isNone
  let control ← normalizeCertifiedControlPolicy env (action.get "control") action
  some (action.insertOrRemove "control" control, condition)

end Forms

/-! ### Members -/

theorem Json.get_set_self (json : Json) (key : String) (value : Json) :
    (json.set key value).get key = (json.get key).map fun _ => value := by
  cases json with
  | object fields =>
      simp only [Json.set, Json.get]
      induction fields with
      | nil => rfl
      | cons field fields ih =>
          by_cases hkey : field.1 = key.toList
          · simp [hkey]
          · simpa [hkey] using ih
  | _ => rfl

theorem Json.get_insert_self {json : Json} (hobject : json.isObject = true) (key : String) (value : Json) :
    (json.insert key value).get key = some value := by
  cases json with
  | object fields =>
      unfold Json.insert
      dsimp only
      split
      next hfound =>
        rw [Json.get_set_self]
        obtain ⟨old, hold⟩ := Option.isSome_iff_exists.1 hfound
        rw [hold]
        rfl
      next hnone =>
        have hmissing : fields.find? (fun field => decide (field.1 = key.toList)) = none := by
          rw [Bool.not_eq_true, Option.isSome_eq_false_iff, Option.isNone_iff_eq_none, Json.get,
            Option.map_eq_none_iff] at hnone
          exact hnone
        simp [Json.get, List.find?_append, hmissing]
  | _ => cases hobject

theorem Json.isObject_insert (json : Json) (key : String) (value : Json) :
    (json.insert key value).isObject = json.isObject := by
  cases json with
  | object fields =>
      unfold Json.insert
      dsimp only
      split
      next => rfl
      next => rfl
  | _ => rfl

theorem Json.isObject_insertOrRemove (json : Json) (key : String) (value : Option Json) :
    (json.insertOrRemove key value).isObject = json.isObject := by
  cases value with
  | none => cases json <;> rfl
  | some value => exact Json.isObject_insert json key value

theorem Json.get_insert_of_ne {key other : String} (hne : other ≠ key) (json value : Json) :
    (json.insert key value).get other = json.get other := by
  cases json with
  | object fields =>
      unfold Json.insert
      dsimp only
      split
      · exact Json.get_set_of_ne hne _ _
      · have hkey : key.toList ≠ other.toList := fun hsame => hne (String.toList_inj.1 hsame).symm
        simp [Json.get, List.find?_append, hkey]
  | _ => rfl

theorem Json.get_remove_of_ne {key other : String} (hne : other ≠ key) (json : Json) :
    (json.remove key).get other = json.get other := by
  cases json with
  | object fields =>
      have hkey : other.toList ≠ key.toList := fun hsame => hne (String.toList_inj.1 hsame)
      simp only [Json.remove, Json.get]
      induction fields with
      | nil => rfl
      | cons field fields ih =>
          by_cases hremoved : field.1 = key.toList
          · simpa [hremoved, hkey.symm] using ih
          · by_cases hfound : field.1 = other.toList
            · simp [hfound, hkey]
            · simpa [hremoved, hfound] using ih
  | _ => rfl

theorem Json.get_remove_self (json : Json) (key : String) : (json.remove key).get key = none := by
  cases json with
  | object fields => simp [Json.remove, Json.get]
  | _ => rfl

theorem Json.get_insertOrRemove_self {json : Json} (hobject : json.isObject = true) (key : String)
    (value : Option Json) : (json.insertOrRemove key value).get key = value := by
  cases value with
  | none => exact Json.get_remove_self json key
  | some value => exact Json.get_insert_self hobject key value

theorem Json.get_insertOrRemove_of_ne {key other : String} (hne : other ≠ key) (json : Json)
    (value : Option Json) : (json.insertOrRemove key value).get other = json.get other := by
  cases value with
  | none => exact Json.get_remove_of_ne hne json
  | some value => exact Json.get_insert_of_ne hne json value

end OrdDogecoin.Tap
