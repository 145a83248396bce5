/-
Module: OrdDogecoin.Tap.DelegationSafety
Purpose: A delegation is used once at most, by a lock, an action or a cancellation, and what is executed
  under it is the signed template with its placeholders filled.
Trusted boundary: none
Main exports: fillPlaceholders, delegationStep, delegations_single_use
-/
import OrdDogecoin.Tap.Delegation
import OrdDogecoin.Tap.RedeemAtomicity

namespace OrdDogecoin.Tap

open AtomicBatch Proc
open Option (bind_eq_some_iff map_eq_some_iff bind_some map_some)

/-! ### Templates -/

mutual

/-- The value with every placeholder replaced; nothing else changes, and what is put in is not looked
at again. -/
def fillPlaceholders (fill : Json) : Json → Json
  | .string text => ((placeholderName text).bind fill.field).getD (.string text)
  | .array items => .array (fillItems fill items)
  | .object fields => .object (fillMembers fill fields)
  | .null => .null
  | .bool value => .bool value
  | .number text => .number text
  | .double text => .double text

def fillItems (fill : Json) : List Json → List Json
  | [] => []
  | item :: items => fillPlaceholders fill item :: fillItems fill items

def fillMembers (fill : Json) : List (Text × Json) → List (Text × Json)
  | [] => []
  | (key, child) :: fields => (key, fillPlaceholders fill child) :: fillMembers fill fields

end

mutual

def placeholders : Json → List Text
  | .string text => (placeholderName text).toList
  | .array items => placeholdersOfItems items
  | .object fields => placeholdersOfFields fields
  | .null => []
  | .bool _ => []
  | .number _ => []
  | .double _ => []

def placeholdersOfItems : List Json → List Text
  | [] => []
  | item :: items => placeholders item ++ placeholdersOfItems items

def placeholdersOfFields : List (Text × Json) → List Text
  | [] => []
  | (_, child) :: fields => placeholders child ++ placeholdersOfFields fields

end

mutual

theorem substitute_eq_some (fill : Json) : ∀ {value action : Json} {used : List Text},
    substitute fill value = some (action, used) →
      action = fillPlaceholders fill value ∧ used = placeholders value
  | .string text, action, used, hresult => by
      simp only [substitute] at hresult
      split at hresult
      next name hname =>
        obtain ⟨value, hvalue, hpair⟩ := map_eq_some_iff.1 hresult
        cases hpair
        simp [fillPlaceholders, placeholders, hname, hvalue]
      next hname =>
        cases hresult
        simp [fillPlaceholders, placeholders, hname]
  | .array items, action, used, hresult => by
      simp only [substitute] at hresult
      obtain ⟨⟨filled, names⟩, hitems, hpair⟩ := map_eq_some_iff.1 hresult
      cases hpair
      obtain ⟨rfl, rfl⟩ := substituteItems_eq_some fill hitems
      exact ⟨by rw [fillPlaceholders], by rw [placeholders]⟩
  | .object fields, action, used, hresult => by
      simp only [substitute] at hresult
      obtain ⟨⟨filled, names⟩, hfields, hpair⟩ := map_eq_some_iff.1 hresult
      cases hpair
      obtain ⟨rfl, rfl⟩ := substituteFields_eq_some fill hfields
      exact ⟨by rw [fillPlaceholders], by rw [placeholders]⟩
  | .null, action, used, hresult => by
      simp only [substitute, Option.some.injEq, Prod.mk.injEq] at hresult
      simp [fillPlaceholders, placeholders, hresult]
  | .bool value, action, used, hresult => by
      simp only [substitute, Option.some.injEq, Prod.mk.injEq] at hresult
      simp [fillPlaceholders, placeholders, hresult]
  | .number text, action, used, hresult => by
      simp only [substitute, Option.some.injEq, Prod.mk.injEq] at hresult
      simp [fillPlaceholders, placeholders, hresult]
  | .double text, action, used, hresult => by
      simp only [substitute, Option.some.injEq, Prod.mk.injEq] at hresult
      simp [fillPlaceholders, placeholders, hresult]

theorem substituteItems_eq_some (fill : Json) : ∀ {items filled : List Json} {used : List Text},
    substituteItems fill items = some (filled, used) →
      filled = fillItems fill items ∧ used = placeholdersOfItems items
  | [], filled, used, hresult => by
      cases hresult
      exact ⟨by rw [fillItems], by rw [placeholdersOfItems]⟩
  | item :: items, filled, used, hresult => by
      simp only [substituteItems] at hresult
      obtain ⟨⟨head, names⟩, hhead, hresult⟩ := bind_eq_some_iff.1 hresult
      obtain ⟨⟨tail, namesToo⟩, htail, hresult⟩ := bind_eq_some_iff.1 hresult
      cases hresult
      obtain ⟨rfl, rfl⟩ := substitute_eq_some fill hhead
      obtain ⟨rfl, rfl⟩ := substituteItems_eq_some fill htail
      exact ⟨by rw [fillItems], by rw [placeholdersOfItems]⟩

theorem substituteFields_eq_some (fill : Json) : ∀ {fields filled : List (Text × Json)}
    {used : List Text}, substituteFields fill fields = some (filled, used) →
      filled = fillMembers fill fields ∧ used = placeholdersOfFields fields
  | [], filled, used, hresult => by
      cases hresult
      exact ⟨by rw [fillMembers], by rw [placeholdersOfFields]⟩
  | (key, child) :: fields, filled, used, hresult => by
      simp only [substituteFields] at hresult
      obtain ⟨⟨head, names⟩, hhead, hresult⟩ := bind_eq_some_iff.1 hresult
      obtain ⟨⟨tail, namesToo⟩, htail, hresult⟩ := bind_eq_some_iff.1 hresult
      cases hresult
      obtain ⟨rfl, rfl⟩ := substitute_eq_some fill hhead
      obtain ⟨rfl, rfl⟩ := substituteFields_eq_some fill htail
      exact ⟨by rw [fillMembers], by rw [placeholdersOfFields]⟩

end

/-! ### Members -/

theorem Json.eq_string_of_asStr {value : Json} {text : Text} (htext : value.asStr = some text) :
    value = .string text := by
  cases value with
  | string found =>
      cases htext
      rfl
  | _ => cases htext

/-! ### What a delegated action has passed -/

/-- The action is the signed template with its placeholders filled; what was filled in and the other
paths that are constrained meet their constraints. -/
def TemplateFilled (env : AuthEnv) (context : TapContext) (delegation fill final : Json) : Prop :=
  ∃ template, delegation.get "template" = some template ∧ final = fillPlaceholders fill template ∧
    (∀ name ∈ placeholders template, ∃ value constraint, fill.field name = some value ∧
      (delegationConstraints delegation).field name = some constraint ∧
      validateDelegationConstraint env context value constraint = true) ∧
    ∀ path constraint, (path, constraint) ∈ (delegationConstraints delegation).fields →
      path ∉ placeholders template → ∃ value, getPathValue final path = some value ∧
        validateDelegationConstraint env context value constraint = true

/-- The members of a lock that take a normal form. -/
def normalizedMembers : List String := ["claim", "refund", "condition", "data", "control"]

/-- A lock in its normal form: its addresses, its condition, its data and its control policy are the normal
forms of those of the filled action, and no other member changes. -/
structure LockNormalized (env : AuthEnv) (context : TapContext) (link : TokenAuthRecord)
    (final action : Json) : Prop where
  kept : ∀ key, key ∉ normalizedMembers → action.get key = final.get key
  claim : ∃ address, final.get "claim" = some (.string address) ∧
    action.get "claim" = some (.string (normalizeAddress env address))
  refund : action.get "refund" = (final.get "refund").map fun value =>
    .string (normalizeAddress env (value.asStr.getD []))
  kind : ∃ kind addressed condition data, (final.get "kind").bind Json.asStr = some kind ∧
    lockAddressed env context final = some addressed ∧
    lockKindForm env addressed (env.toLowercase kind) link.toTokenAuthCreateRecord =
      some (condition, data) ∧
    action.get "condition" = some condition.json ∧ action.get "data" = data
  control : normalizeCertifiedControlPolicy env (final.get "control") action =
    some (action.get "control")

/-- The signatures that a delegation of a kind needs. -/
def DelegationSigned (env : AuthEnv) (kind : DelegationKind) (delegation : Json) (pubkey : Text) :
    Prop :=
  match kind with
  | .lock => validateDelegationSignatures env delegation pubkey = true
  | .action => validateActionDelegationSignatures env delegation pubkey = true
  | .cancelled => False

/-- What is executed under a delegation: before its expiry, under the key of the authority that it names in
the rows, the filled template, which a lock puts into its normal form. -/
structure Faithful (env : AuthEnv) (context : TapContext) (rows : TapKey → Option TapRow)
    (kind : DelegationKind) (delegated : DelegatedAction) : Prop where
  auth : delegated.terms.delegation.get "auth" = some (.string delegated.terms.auth)
  nonce : delegated.terms.delegation.get "nonce" = some (.string delegated.terms.nonce)
  expiry : ∃ expiry, (delegated.terms.delegation.get "expiry").bind jsParseInt = some expiry ∧
    (context.height : ℤ) ≤ expiry
  link : validAuthLink env rows delegated.terms.auth = some delegated.link
  signed : ∃ pubkey, authPubkey env delegated.link = some pubkey ∧
    DelegationSigned env kind delegated.terms.delegation (env.toLowercase pubkey)
  filled : TemplateFilled env context delegated.terms.delegation delegated.terms.fill delegated.final
  executed : match kind with
    | .lock => LockNormalized env context delegated.link delegated.final delegated.action
    | _ => delegated.action = delegated.final

section Validators

variable {env : AuthEnv} {context : TapContext} {handlers : DelegationHandlers}

theorem filledTemplate_eq_some {terms : DelegationTerms} {signed : Bool} {final : Json}
    {used : List Text} (hfilled : filledTemplate env context terms signed = some (final, used)) :
    signed = true ∧ TemplateFilled env context terms.delegation terms.fill final := by
  unfold filledTemplate at hfilled
  obtain ⟨hsigned, hfilled⟩ := guard_bind_eq_some.1 hfilled
  obtain ⟨template, htemplate, hfilled⟩ := bind_eq_some_iff.1 hfilled
  unfold applyDelegationTemplate at hfilled
  replace hfilled := of_guard hfilled
  obtain ⟨⟨action, names⟩, hsubstituted, hfilled⟩ := bind_eq_some_iff.1 hfilled
  obtain ⟨hused, hfilled⟩ := guard_bind_eq_some.1 hfilled
  obtain ⟨hpaths, hfilled⟩ := guard_bind_eq_some.1 hfilled
  cases hfilled
  obtain ⟨rfl, rfl⟩ := substitute_eq_some terms.fill hsubstituted
  refine ⟨hsigned, template, htemplate, rfl, fun name hname => ?_, fun path constraint hmem hpath => ?_⟩
  · have hvalid := List.all_eq_true.1 hused name hname
    obtain ⟨value, hvalue, hvalid⟩ := (Option.any_eq_true _ _).1 hvalid
    obtain ⟨constraint, hconstraint, hvalid⟩ := (Option.any_eq_true _ _).1 hvalid
    exact ⟨value, constraint, hvalue, hconstraint, hvalid⟩
  · have hvalid := List.all_eq_true.1 hpaths (path, constraint) hmem
    simp only [Bool.or_eq_true, decide_eq_true_eq, hpath, false_or] at hvalid
    exact (Option.any_eq_true _ _).1 hvalid

theorem delegationTerms_eq_some {op : String} {accepts : Json → Bool} {action : Json}
    {terms : DelegationTerms} (hterms : delegationTerms env context op accepts action = some terms) :
    terms.delegation.get "auth" = some (.string terms.auth) ∧
      terms.delegation.get "nonce" = some (.string terms.nonce) ∧
      ∃ expiry, (terms.delegation.get "expiry").bind jsParseInt = some expiry ∧
        (context.height : ℤ) ≤ expiry := by
  unfold delegationTerms at hterms
  replace hterms := of_guard hterms
  obtain ⟨delegation, hterms⟩ := of_bind hterms
  replace hterms := of_guard hterms
  obtain ⟨fill, hterms⟩ := of_bind hterms
  replace hterms := of_guard hterms
  replace hterms := of_guard hterms
  replace hterms := of_guard hterms
  obtain ⟨authValue, hauth, hterms⟩ := bind_eq_some_iff.1 hterms
  obtain ⟨auth, hauthText, hterms⟩ := bind_eq_some_iff.1 hterms
  obtain ⟨nonceValue, hnonce, hterms⟩ := bind_eq_some_iff.1 hterms
  obtain ⟨nonce, hnonceText, hterms⟩ := bind_eq_some_iff.1 hterms
  replace hterms := of_guard hterms
  obtain ⟨expiry, hexpiry, hterms⟩ := bind_eq_some_iff.1 hterms
  obtain ⟨hheight, hterms⟩ := guard_bind_eq_some.1 hterms
  cases hterms
  refine ⟨?_, ?_, expiry, hexpiry, hheight⟩
  · rw [← Json.eq_string_of_asStr hauthText]
    exact hauth
  · rw [← Json.eq_string_of_asStr hnonceText]
    exact hnonce

/-- The addresses of a lock, and what else stays. -/
theorem lockAddressed_eq_some {final addressed : Json}
    (haddressed : lockAddressed env context final = some addressed) :
    final.isObject = true ∧ addressed.isObject = true ∧
      (∀ key, key ∉ ["claim", "refund"] → addressed.get key = final.get key) ∧
      (∃ address, final.get "claim" = some (.string address) ∧
        addressed.get "claim" = some (.string (normalizeAddress env address))) ∧
      addressed.get "refund" = (final.get "refund").map fun value =>
        .string (normalizeAddress env (value.asStr.getD [])) := by
  unfold lockAddressed at haddressed
  obtain ⟨claimValue, hclaim, haddressed⟩ := bind_eq_some_iff.1 haddressed
  obtain ⟨claim, hclaimText, haddressed⟩ := bind_eq_some_iff.1 haddressed
  replace haddressed := of_guard haddressed
  obtain ⟨refund, hrefund, haddressed⟩ := bind_eq_some_iff.1 haddressed
  cases haddressed
  obtain rfl := Json.eq_string_of_asStr hclaimText
  obtain ⟨fields, rfl⟩ : ∃ fields, final = .object fields := by
    cases final with
    | object fields => exact ⟨fields, rfl⟩
    | _ => cases hclaim
  set changed := (Json.object fields).set "claim" (.string (normalizeAddress env claim)) with hset
  have hclaimed : changed.get "claim" = some (.string (normalizeAddress env claim)) := by
    rw [hset, Json.get_set_self, hclaim, map_some]
  have hothers : ∀ key, key ≠ "claim" → changed.get key = (Json.object fields).get key :=
    fun key hkey => Json.get_set_of_ne hkey _ _
  unfold lockRefund at hrefund
  cases hfound : (Json.object fields).get "refund" with
  | none =>
      rw [hfound] at hrefund
      cases hrefund
      refine ⟨rfl, rfl, fun key hkey => hothers key ?_, ⟨claim, hclaim, hclaimed⟩, ?_⟩
      · exact fun hsame => hkey (by simp [hsame])
      · exact (hothers "refund" (by decide)).trans hfound
  | some value =>
      rw [hfound] at hrefund
      obtain ⟨text, htext, hrefund⟩ := bind_eq_some_iff.1 hrefund
      replace hrefund := of_guard hrefund
      cases hrefund
      refine ⟨rfl, rfl, fun key hkey => ?_, ⟨claim, hclaim, ?_⟩, ?_⟩
      · simp only [List.mem_cons, List.not_mem_nil, or_false, not_or] at hkey
        exact (Json.get_set_of_ne hkey.2 _ _).trans (hothers key hkey.1)
      · exact (Json.get_set_of_ne (by decide) _ _).trans hclaimed
      · have hset : (changed.set "refund" (.string (normalizeAddress env text))).get "refund" =
            some (.string (normalizeAddress env text)) := by
          rw [Json.get_set_self, hothers "refund" (by decide), hfound, map_some]
        rw [map_some, htext]
        exact hset

/-- The normalizer of a policy looks at the refund of the action only. -/
theorem normalizeCertifiedControlPolicy_congr {action other : Json} (control : Option Json)
    (hrefund : action.get "refund" = other.get "refund")
    (hafter : action.get "refund_after" = other.get "refund_after") :
    normalizeCertifiedControlPolicy env control action =
      normalizeCertifiedControlPolicy env control other := by
  unfold normalizeCertifiedControlPolicy refundControllable
  rw [hrefund, hafter]

/-- What a lock action becomes. -/
theorem lockNormalized_of_lockNormalForm {link : TokenAuthRecord} {final action : Json}
    {condition : LockCondition}
    (hnormal : lockNormalForm env context final link.toTokenAuthCreateRecord =
      some (action, condition)) : LockNormalized env context link final action := by
  unfold lockNormalForm at hnormal
  obtain ⟨kind, hkind, hnormal⟩ := bind_eq_some_iff.1 hnormal
  obtain ⟨addressed, haddressed, hnormal⟩ := bind_eq_some_iff.1 hnormal
  obtain ⟨⟨found, data⟩, hform, hnormal⟩ := bind_eq_some_iff.1 hnormal
  replace hnormal := of_guard hnormal
  obtain ⟨control, hcontrol, hnormal⟩ := bind_eq_some_iff.1 hnormal
  cases hnormal
  obtain ⟨-, hobject, hkept, hclaim, hrefund⟩ := lockAddressed_eq_some haddressed
  have hinserted : (addressed.insert "condition" condition.json).isObject = true :=
    (Json.isObject_insert _ _ _).trans hobject
  have hformed : ((addressed.insert "condition" condition.json).insertOrRemove "data" data).isObject =
      true := (Json.isObject_insertOrRemove _ _ _).trans hinserted
  -- the last three edits change members of their own only
  have hlast : ∀ key, key ∉ ["condition", "data", "control"] →
      (((addressed.insert "condition" condition.json).insertOrRemove "data" data).insertOrRemove
        "control" control).get key = addressed.get key := by
    intro key hkey
    simp only [List.mem_cons, List.not_mem_nil, or_false, not_or] at hkey
    rw [Json.get_insertOrRemove_of_ne hkey.2.2, Json.get_insertOrRemove_of_ne hkey.2.1,
      Json.get_insert_of_ne hkey.1]
  constructor
  case kept =>
    intro key hkey
    simp only [normalizedMembers, List.mem_cons, List.not_mem_nil, or_false, not_or] at hkey
    rw [hlast key (by simp [hkey]), hkept key (by simp [hkey])]
  case claim =>
    obtain ⟨address, hfinal, hnormal⟩ := hclaim
    exact ⟨address, hfinal, (hlast "claim" (by decide)).trans hnormal⟩
  case refund => exact (hlast "refund" (by decide)).trans hrefund
  case kind =>
    refine ⟨kind, addressed, condition, data, hkind, haddressed, hform, ?_, ?_⟩
    · rw [Json.get_insertOrRemove_of_ne (by decide), Json.get_insertOrRemove_of_ne (by decide),
        Json.get_insert_self hobject]
    · rw [Json.get_insertOrRemove_of_ne (by decide), Json.get_insertOrRemove_self hinserted]
  case control =>
    rw [Json.get_insertOrRemove_self hformed, ← hcontrol, ← hkept "control" (by decide),
      Json.get_insertOrRemove_of_ne (by decide), Json.get_insert_of_ne (by decide)]
    refine normalizeCertifiedControlPolicy_congr _ ?_ ?_
    · exact Json.get_insertOrRemove_of_ne (by decide) _ _
    · exact Json.get_insertOrRemove_of_ne (by decide) _ _

/-- The nonce of an authority is neither used nor cancelled. -/
structure Unused (kv : TapKv) (auth nonce : Text) : Prop where
  unspent : TapRow.isText (kv.get (delegationNonceKey auth nonce)) = false
  uncancelled : TapRow.isText (kv.get (delegationCancelKey auth nonce)) = false

theorem whenUnused_eq_some {α : Type} {auth nonce : Text} {next : TapProgram (Option α)} {kv : TapKv}
    {value : α} (hvalue : ((whenUnused auth nonce next).exec lengthRow kv).1 = some value) :
    Unused kv auth nonce ∧ (next.exec lengthRow kv).1 = some value := by
  unfold whenUnused at hvalue
  simp only [Program.exec] at hvalue
  split at hvalue
  · cases hvalue
  next hunused =>
    simp only [Bool.or_eq_true, not_or, Bool.not_eq_true] at hunused
    exact ⟨⟨hunused.1, hunused.2⟩, hvalue⟩

theorem whenUnused_avoids {α : Type} {guarded : TapKey → Prop} {auth nonce : Text}
    {next : TapProgram (Option α)} (avoids : next.Avoids guarded) :
    (whenUnused auth nonce next).Avoids guarded := by
  refine .get fun used => .get fun cancelled => ?_
  split
  · exact .pure _
  · exact avoids

theorem validAuthLinkProgram_eq_some {auth pubkey : Text} {link : TokenAuthRecord} {kv : TapKv}
    (hfound : ((validAuthLinkProgram env auth).exec lengthRow kv).1 = some (link, pubkey)) :
    validAuthLink env kv.get auth = some link ∧
      ∃ signer, authPubkey env link = some signer ∧ pubkey = env.toLowercase signer := by
  unfold validAuthLinkProgram at hfound
  simp only [Program.exec] at hfound
  split at hfound
  · cases hfound
  next pointer hpointer =>
    simp only [Program.exec] at hfound
    split at hfound
    · cases hfound
    next found hauthority =>
      simp only [Program.exec] at hfound
      split at hfound
      · cases hfound
      next hactive =>
        obtain ⟨signer, hsigner, hpair⟩ := map_eq_some_iff.1 hfound
        cases hpair
        have hlink : authLink kv.get auth = some link := by
          obtain ⟨row, hrow, hpointer⟩ := bind_eq_some_iff.1 hpointer
          obtain ⟨record, hrecord, hauthority⟩ := bind_eq_some_iff.1 hauthority
          simp [authLink, hrow, hpointer, hrecord, hauthority]
        refine ⟨?_, signer, hsigner, rfl⟩
        simp [validAuthLink, hlink, hactive, hsigner]

theorem validAuthLinkProgram_avoids (guarded : TapKey → Prop) (auth : Text) :
    (validAuthLinkProgram env auth).Avoids guarded := by
  refine .get fun row => ?_
  split
  · exact .pure _
  · refine .get fun row => ?_
    split
    · exact .pure _
    · refine .get fun row => ?_
      split <;> exact .pure _

theorem validateLock_eq_some {action normal : Json} {link : TokenAuthRecord} {kv : TapKv}
    (hnormal : ((validateLock env context handlers action link).exec lengthRow kv).1 = some normal) :
    ∃ condition, lockNormalForm env context action link.toTokenAuthCreateRecord =
      some (normal, condition) := by
  unfold validateLock at hnormal
  split at hnormal
  · cases hnormal
  next found condition hform =>
    simp only [Program.exec_bind, Program.exec] at hnormal
    split at hnormal
    · cases hnormal
      exact ⟨condition, hform⟩
    · cases hnormal

theorem validateLock_avoids (action : Json) (link : TokenAuthRecord) :
    (validateLock env context handlers action link).Avoids protectedKey := by
  unfold validateLock
  split
  · exact .pure _
  next normal condition hform =>
    refine Program.Avoids.bind ?_ fun active => (handlers.lockCovered_protects _ _).bind fun _ => .pure _
    cases condition with
    | authority auth => exact .get fun row => .get fun cancelled => .pure _
    | hashlock hash => exact .pure _
    | height min => exact .pure _

theorem validateDelegatedExecute_eq_some {action : Json} {ins : Text} {index : ℕ} {kv : TapKv}
    {delegated : DelegatedAction}
    (hvalid : ((validateDelegatedExecute env context handlers action ins index).exec lengthRow kv).1 =
      some delegated) :
    Unused kv delegated.terms.auth delegated.terms.nonce ∧
      Faithful env context kv.get .lock delegated := by
  unfold validateDelegatedExecute at hvalid
  split at hvalid
  · cases hvalid
  next terms hterms =>
    obtain ⟨hauth, hnonce, hexpiry⟩ := delegationTerms_eq_some hterms
    obtain ⟨unused, hvalid⟩ := whenUnused_eq_some hvalid
    rw [Program.exec_bind] at hvalid
    split at hvalid
    · cases hvalid
    next link pubkey hlink =>
      obtain ⟨hvalidLink, signer, hsigner, rfl⟩ := validAuthLinkProgram_eq_some hlink
      split at hvalid
      · cases hvalid
      next final used hfinal =>
        unfold finalLock at hfinal
        obtain ⟨⟨found, names⟩, hfilled, hfinal⟩ := bind_eq_some_iff.1 hfinal
        replace hfinal := of_guard hfinal
        replace hfinal := of_guard hfinal
        cases hfinal
        obtain ⟨hsigned, hfilled⟩ := filledTemplate_eq_some hfilled
        rw [Program.exec_bind] at hvalid
        split at hvalid
        · cases hvalid
        next normal hnormal =>
          obtain ⟨condition, hnormal⟩ := validateLock_eq_some hnormal
          split at hvalid
          · simp only [Program.exec] at hvalid
            split at hvalid
            · cases hvalid
            · cases hvalid
              exact ⟨unused, hauth, hnonce, hexpiry, hvalidLink, ⟨signer, hsigner, hsigned⟩, hfilled,
                lockNormalized_of_lockNormalForm hnormal⟩
          · cases hvalid

theorem validateDelegatedExecute_avoids (action : Json) (ins : Text) (index : ℕ) :
    (validateDelegatedExecute env context handlers action ins index).Avoids protectedKey := by
  unfold validateDelegatedExecute
  split
  · exact .pure _
  · refine whenUnused_avoids ((validAuthLinkProgram_avoids _ _).bind fun found => ?_)
    split
    · exact .pure _
    · split
      · exact .pure _
      · refine (validateLock_avoids _ _).bind fun normal => ?_
        split
        · exact .pure _
        · split
          · refine .get fun row => ?_
            split <;> exact .pure _
          · exact .pure _

theorem validateGenericDelegated_eq_some {action : Json} {ins : Text} {index : ℕ} {kv : TapKv}
    {delegated : DelegatedAction}
    (hvalid : ((validateGenericDelegated env context handlers action ins index).exec lengthRow kv).1 =
      some delegated) :
    Unused kv delegated.terms.auth delegated.terms.nonce ∧
      Faithful env context kv.get .action delegated := by
  unfold validateGenericDelegated at hvalid
  split at hvalid
  · cases hvalid
  next terms hterms =>
    obtain ⟨hauth, hnonce, hexpiry⟩ := delegationTerms_eq_some hterms
    obtain ⟨unused, hvalid⟩ := whenUnused_eq_some hvalid
    rw [Program.exec_bind] at hvalid
    split at hvalid
    next link pubkey family hlink hfamily =>
      obtain ⟨hvalidLink, signer, hsigner, rfl⟩ := validAuthLinkProgram_eq_some hlink
      split at hvalid
      · cases hvalid
      next final hfinal =>
        unfold finalAction at hfinal
        obtain ⟨⟨found, names⟩, hfilled, hfinal⟩ := bind_eq_some_iff.1 hfinal
        replace hfinal := of_guard hfinal
        replace hfinal := of_guard hfinal
        cases hfinal
        obtain ⟨hsigned, hfilled⟩ := filledTemplate_eq_some hfilled
        rw [Program.exec_bind] at hvalid
        split at hvalid
        · cases hvalid
          exact ⟨unused, hauth, hnonce, hexpiry, hvalidLink, ⟨signer, hsigner, hsigned⟩, hfilled, rfl⟩
        · cases hvalid
    · cases hvalid

theorem validateGenericDelegated_avoids (action : Json) (ins : Text) (index : ℕ) :
    (validateGenericDelegated env context handlers action ins index).Avoids protectedKey := by
  unfold validateGenericDelegated
  split
  · exact .pure _
  · refine whenUnused_avoids ((validAuthLinkProgram_avoids _ _).bind fun found => ?_)
    split
    · split
      · exact .pure _
      · refine (handlers.validatePerp_protects _ _ _ _ _).bind fun tick => ?_
        split <;> exact .pure _
    · exact .pure _

end Validators

/-! ### Actions -/

/-- What an event says of what was executed over the rows. -/
def DelegationEvent.IsFaithful (env : AuthEnv) (rows : TapKey → Option TapRow)
    (event : DelegationEvent) : Prop :=
  match event.executed with
  | none => event.kind = .cancelled
  | some delegated => Faithful env event.context rows event.kind delegated ∧
      delegated.terms.auth = event.auth ∧ delegated.terms.nonce = event.nonce

/-- An action that was processed: nonces stay used, and one that it uses up was unused before and is
used now. -/
structure ActionDone (env : AuthEnv) (rows : TapKey → Option TapRow) (kv after : TapKv)
    (event : Option DelegationEvent) : Prop where
  keeps : ∀ key, delegationKey key → TapRow.isText (kv.get key) = true →
    TapRow.isText (after.get key) = true
  used : ∀ found ∈ event, Unused kv found.auth found.nonce ∧
    ¬ Unused after found.auth found.nonce ∧ found.IsFaithful env rows

section Actions

variable {env : AuthEnv} {context : TapContext} {handlers : DelegationHandlers}
  {rows : TapKey → Option TapRow} {kv : TapKv} {after : TapKv} {event : Option DelegationEvent}
  {action done : Json} {input : ProofInput}

/-- A program that leaves the rows of nonces alone. -/
theorem ActionDone.of_avoids {α : Type} {program : TapProgram α} (avoids : program.Avoids protectedKey) :
    ActionDone env rows kv (program.exec lengthRow kv).2 none where
  keeps key hkey htext := by
    rw [avoids.get_exec lengthRow (Or.inr hkey)]
    exact htext
  used found hfound := nomatch hfound

/-- Where the rows of nonces are the same the same nonces are unused. -/
theorem unused_congr {auth nonce : Text}
    (hget : ∀ key, delegationKey key → after.get key = kv.get key) :
    Unused after auth nonce ↔ Unused kv auth nonce := by
  have hnonce := hget (delegationNonceKey auth nonce) (.inl rfl)
  have hcancel := hget (delegationCancelKey auth nonce) (.inr rfl)
  constructor
  · exact fun unused => ⟨hnonce ▸ unused.unspent, hcancel ▸ unused.uncancelled⟩
  · exact fun unused => ⟨hnonce.symm ▸ unused.unspent, hcancel.symm ▸ unused.uncancelled⟩

theorem unused_exec_iff {α : Type} {program : TapProgram α} (avoids : program.Avoids protectedKey)
    {auth nonce : Text} : Unused (program.exec lengthRow kv).2 auth nonce ↔ Unused kv auth nonce :=
  unused_congr fun _ hkey => avoids.get_exec lengthRow (.inr hkey) kv

theorem ActionDone.after_avoids {α : Type} {program : TapProgram α}
    (avoids : program.Avoids protectedKey)
    (done : ActionDone env rows (program.exec lengthRow kv).2 after event) :
    ActionDone env rows kv after event where
  keeps key hkey htext := by
    refine done.keeps key hkey ?_
    rw [avoids.get_exec lengthRow (.inr hkey)]
    exact htext
  used found hfound := by
    obtain ⟨unused, hspent, hfaithful⟩ := done.used found hfound
    exact ⟨(unused_exec_iff avoids).1 unused, hspent, hfaithful⟩

/-- Marking the nonce of a delegated action. -/
theorem actionDone_useNonce {kind : DelegationKind} {delegated : DelegatedAction}
    {processed : Bool}
    (unused : Unused kv delegated.terms.auth delegated.terms.nonce)
    (faithful : Faithful env context rows kind delegated)
    (hdone : (useNonce context kind delegated action processed).exec lengthRow kv =
      (some (done, event), after)) : ActionDone env rows kv after event := by
  unfold useNonce at hdone
  split at hdone
  · simp only [Program.exec, Prod.mk.injEq, Option.some.injEq] at hdone
    obtain ⟨⟨-, rfl⟩, rfl⟩ := hdone
    constructor
    · intro key hkey htext
      by_cases hsame : key = delegationNonceKey delegated.terms.auth delegated.terms.nonce
      · rw [hsame, Store.get_put_self]
        rfl
      · rw [Store.get_put_of_ne hsame]
        exact htext
    · intro found hfound
      cases hfound
      refine ⟨unused, fun still => ?_, faithful, rfl, rfl⟩
      have hunspent := still.unspent
      rw [executedEvent, Store.get_put_self] at hunspent
      cases hunspent
  · cases hdone

theorem actionDone_processExecute {index : ℕ}
    (hdone : (processExecute env context handlers input index action).exec lengthRow kv =
      (some (done, event), after)) : ActionDone env kv.get kv after event := by
  unfold processExecute at hdone
  split at hdone
  · cases hdone
  · rw [Program.exec_bind] at hdone
    split at hdone
    · cases hdone
    next delegated hdelegated =>
      obtain ⟨unused, faithful⟩ := validateDelegatedExecute_eq_some hdelegated
      rw [Program.exec_bind] at hdone
      have hvalidate : (validateDelegatedExecute env context handlers action input.place.ins
        index).Avoids protectedKey := validateDelegatedExecute_avoids _ _ _
      have hprocess := handlers.processLock_protects delegated.action index delegated.link input.place
      refine .after_avoids hvalidate (.after_avoids hprocess (actionDone_useNonce ?_ faithful hdone))
      exact (unused_exec_iff hprocess).2 ((unused_exec_iff hvalidate).2 unused)

theorem actionDone_processExecuteAction {index : ℕ}
    (hdone : (processExecuteAction env context handlers input index action).exec lengthRow kv =
      (some (done, event), after)) : ActionDone env kv.get kv after event := by
  unfold processExecuteAction at hdone
  split at hdone
  · cases hdone
  · rw [Program.exec_bind] at hdone
    split at hdone
    · cases hdone
    next delegated hdelegated =>
      obtain ⟨unused, faithful⟩ := validateGenericDelegated_eq_some hdelegated
      rw [Program.exec_bind] at hdone
      have hvalidate : (validateGenericDelegated env context handlers action input.place.ins
        index).Avoids protectedKey := validateGenericDelegated_avoids _ _ _
      have hprocess := handlers.processPerp_protects delegated.family delegated.action delegated.link
        input.place index
      refine .after_avoids hvalidate (.after_avoids hprocess (actionDone_useNonce ?_ faithful hdone))
      exact (unused_exec_iff hprocess).2 ((unused_exec_iff hvalidate).2 unused)

theorem cancelLog_avoids (input : ProofInput) (link : TokenAuthRecord) (auth nonce : Text)
    (record : TapRow) : (cancelLog input link auth nonce record).Avoids protectedKey := by
  refine .put ?_ (tapSetListRecord_avoids ?_ fun _ => tapSetListRecord_avoids ?_ fun _ =>
    logRecord_avoids ?_ (.pure _))
  · rintro ((hkey | hkey) | hkey | hkey) <;> simp at hkey
  · rintro key ((hkey | hkey) | hkey | hkey) <;> simp [hkey]
  · rintro key ((hkey | hkey) | hkey | hkey) <;> simp [hkey]
  · rintro key ((hkey | hkey) | hkey | hkey) <;> simp [hkey]

theorem actionDone_processCancelDelegation
    (hdone : (processCancelDelegation context input action).exec lengthRow kv =
      (some (done, event), after)) : ActionDone env kv.get kv after event := by
  unfold processCancelDelegation at hdone
  split at hdone
  · cases hdone
  next link hlink =>
    split at hdone
    · cases hdone
    next auth nonce hterms =>
      have hsome := congrArg Prod.fst hdone
      obtain ⟨unused, -⟩ := whenUnused_eq_some hsome
      unfold whenUnused at hdone
      simp only [Program.exec, unused.unspent, unused.uncancelled, Bool.or_self, Bool.false_eq_true,
        if_false, Program.exec_bind, Prod.mk.injEq, Option.some.injEq] at hdone
      obtain ⟨⟨-, rfl⟩, rfl⟩ := hdone
      have havoids := cancelLog_avoids input link auth nonce (cancelRecord input link auth nonce)
      have hget : ∀ key, delegationKey key → ((cancelLog input link auth nonce
          (cancelRecord input link auth nonce)).exec lengthRow
            (kv.put (delegationCancelKey auth nonce) (.text []))).2.get key =
          (kv.put (delegationCancelKey auth nonce) (.text [])).get key :=
        fun key hkey => havoids.get_exec lengthRow (Or.inr hkey) _
      constructor
      · intro key hkey htext
        rw [hget key hkey]
        by_cases hsame : key = delegationCancelKey auth nonce
        · rw [hsame, Store.get_put_self]
          rfl
        · rw [Store.get_put_of_ne hsame]
          exact htext
      · intro found hfound
        cases hfound
        refine ⟨unused, fun still => ?_, rfl⟩
        have huncancelled := still.uncancelled
        rw [hget _ (Or.inr rfl), Store.get_put_self] at huncancelled
        cases huncancelled

theorem actionDone_delegatedProcess {op : Text} {index : ℕ}
    (hdone : (delegatedProcess env context handlers op input index action).exec lengthRow kv =
      (some (done, event), after)) : ActionDone env kv.get kv after event := by
  unfold delegatedProcess at hdone
  split at hdone
  · exact actionDone_processExecute hdone
  split at hdone
  · exact actionDone_processExecuteAction hdone
  split at hdone
  · exact actionDone_processCancelDelegation hdone
  · rw [Program.exec_bind] at hdone
    simp only [Program.exec, Prod.mk.injEq] at hdone
    obtain ⟨hprocessed, rfl⟩ := hdone
    obtain ⟨processed, -, hpair⟩ := map_eq_some_iff.1 hprocessed
    cases hpair
    exact .of_avoids (handlers.process_protects op input index action)

theorem guardedKey_protected : ∀ key, guardedKey key → protectedKey key := fun _ hkey => .inl hkey

theorem useNonce_avoids (kind : DelegationKind) (delegated : DelegatedAction) (action : Json)
    (processed : Bool) : (useNonce context kind delegated action processed).Avoids guardedKey := by
  unfold useNonce
  split
  · refine .put ?_ (.pure _)
    rintro (hkey | hkey) <;> simp [delegationNonceKey] at hkey
  · exact .pure _

/-- None of the handlers writes a replay row or the list of redeems. -/
theorem delegatedProcess_avoids (op : Text) (input : ProofInput) (index : ℕ) (action : Json) :
    (delegatedProcess env context handlers op input index action).Avoids guardedKey := by
  unfold delegatedProcess
  split
  · unfold processExecute
    split
    · exact .pure _
    · refine ((validateDelegatedExecute_avoids _ _ _).mono guardedKey_protected).bind fun delegated => ?_
      split
      · exact .pure _
      · exact ((handlers.processLock_protects _ _ _ _).mono guardedKey_protected).bind
          (useNonce_avoids _ _ _)
  split
  · unfold processExecuteAction
    split
    · exact .pure _
    · refine ((validateGenericDelegated_avoids _ _ _).mono guardedKey_protected).bind fun delegated => ?_
      split
      · exact .pure _
      · exact ((handlers.processPerp_protects _ _ _ _ _).mono guardedKey_protected).bind
          (useNonce_avoids _ _ _)
  split
  · unfold processCancelDelegation
    split
    · exact .pure _
    · split
      · exact .pure _
      · refine whenUnused_avoids (.put ?_ ?_)
        · rintro (hkey | hkey) <;> simp [delegationCancelKey] at hkey
        · exact ((cancelLog_avoids _ _ _ _ _).mono guardedKey_protected).bind fun _ => .pure _
  · exact (handlers.process_avoids _ _ _ _).bind fun _ => .pure _

end Actions

/-- The handlers of a redeem, with those of delegated actions. -/
def delegationHandlers (env : AuthEnv) (context : TapContext) (handlers : DelegationHandlers) :
    AuthHandlers where
  validateAction := handlers.validateAction
  sendItem := handlers.sendItem
  process op input index action :=
    (delegatedProcess env context handlers op input index action).bind fun processed =>
      .pure (processed.map Prod.fst)
  sendItem_avoids := handlers.sendItem_avoids
  process_avoids op input index action :=
    (delegatedProcess_avoids op input index action).bind fun _ => .pure _

/-! ### The loop over the actions -/

section Loop

variable (env : AuthEnv) (context : TapContext) (handlers : DelegationHandlers)

/-- One action of the loop, with the nonce it uses up. -/
def delegatedAction (input : ProofInput) (index : ℕ) (action : Json) :
    TapProgram (Option (Json × Option DelegationEvent)) :=
  match (action.get "op").bind Json.asStr with
  | none => .pure none
  | some op =>
      let op := env.toLowercase op
      if op ∈ proofOps.map String.toList then
        delegatedProcess env context handlers op input index action
      else .pure none

/-- An event, with the rows over which its action was processed. -/
structure LoggedEvent extends DelegationEvent where
  rows : TapKey → Option TapRow

/-- The nonces that the loop uses up, when it gets to its end. -/
def loopEvents (input : ProofInput) : ℕ → List Json → TapKv → List LoggedEvent
  | _, [], _ => []
  | index, action :: actions, kv =>
      let outcome := (delegatedAction env context handlers input index action).exec lengthRow kv
      (outcome.1.bind Prod.snd).toList.map (fun event => { event with rows := kv.get }) ++
        loopEvents input (index + 1) actions outcome.2

/-- The nonces that a new inscription uses up: those of the actions of a redeem that was committed. -/
def createdEvents (created : AuthCreated) (kv : TapKv) : List LoggedEvent :=
  let authHandlers := delegationHandlers env context handlers
  let place := created.place context
  match redeemBody env context created with
  | none => []
  | some (redeem, sig, hash, salt) =>
      match redeemPlan env context authHandlers kv.get
          (inscriptionText created.inscriptionId) redeem sig hash salt with
      | .error _ => []
      | .ok plan =>
          match performRedeem env context authHandlers plan created.ownerAddress place kv,
            kv.begin.bind (sendItems authHandlers plan.addr place plan.items) with
          | some (some _, _), some sent =>
              loopEvents env context handlers (plan.input created.ownerAddress place) 0
                (plan.actions.getD []) sent
          | _, _ => []

end Loop

section LoopProofs

variable {env : AuthEnv} {context : TapContext} {handlers : DelegationHandlers}

/-- The loop of a redeem runs these actions, and only drops the events. -/
theorem processAction_delegationHandlers (input : ProofInput) (index : ℕ) (action : Json) (kv : TapKv) :
    (processAction env (delegationHandlers env context handlers) input index action).exec
        lengthRow kv =
      (((delegatedAction env context handlers input index action).exec lengthRow kv).1.map Prod.fst,
        ((delegatedAction env context handlers input index action).exec lengthRow kv).2) := by
  unfold processAction delegatedAction
  cases (action.get "op").bind Json.asStr with
  | none => rfl
  | some op =>
      dsimp only
      by_cases hknown : env.toLowercase op ∈ proofOps.map String.toList
      · rw [if_pos hknown, if_pos hknown]
        exact Program.exec_bind lengthRow _ _ kv
      · rw [if_neg hknown, if_neg hknown]
        rfl

/-- The actions of a loop that got to its end. -/
structure LoopDone (env : AuthEnv) (kv after : TapKv) (events : List LoggedEvent) : Prop where
  keeps : ∀ key, delegationKey key → TapRow.isText (kv.get key) = true →
    TapRow.isText (after.get key) = true
  unused : ∀ event ∈ events, Unused kv event.auth event.nonce
  used : ∀ event ∈ events, ¬ Unused after event.auth event.nonce
  once : (events.map fun event => (event.auth, event.nonce)).Nodup
  faithful : ∀ event ∈ events, event.IsFaithful env event.rows

theorem LoopDone.of_get_eq {kv after : TapKv}
    (hget : ∀ key, delegationKey key → after.get key = kv.get key) : LoopDone env kv after [] where
  keeps key hkey htext := by
    rw [hget key hkey]
    exact htext
  unused _ hevent := nomatch hevent
  used _ hevent := nomatch hevent
  once := List.nodup_nil
  faithful _ hevent := nomatch hevent

/-- A nonce that is unused later was unused before. -/
theorem unused_of_keeps {kv after : TapKv} {auth nonce : Text} (unused : Unused after auth nonce)
    (hkeeps : ∀ key, delegationKey key → TapRow.isText (kv.get key) = true →
      TapRow.isText (after.get key) = true) : Unused kv auth nonce where
  unspent := by
    rw [Bool.eq_false_iff]
    intro htext
    have hlater := hkeeps _ (.inl rfl) htext
    rw [unused.unspent] at hlater
    cases hlater
  uncancelled := by
    rw [Bool.eq_false_iff]
    intro htext
    have hlater := hkeeps _ (.inr rfl) htext
    rw [unused.uncancelled] at hlater
    cases hlater

/-- One more action before the loop. -/
theorem LoopDone.cons {kv middle after : TapKv} {event : Option DelegationEvent}
    {events : List LoggedEvent} (head : ActionDone env kv.get kv middle event)
    (tail : LoopDone env middle after events) :
    LoopDone env kv after
      (event.toList.map (fun event => { event with rows := kv.get }) ++ events) := by
  cases event with
  | none => exact ⟨fun key hkey htext => tail.keeps key hkey (head.keeps key hkey htext),
      fun found hfound => unused_of_keeps (tail.unused found hfound) head.keeps, tail.used, tail.once,
      tail.faithful⟩
  | some event =>
      obtain ⟨hunused, hspent, hfaithful⟩ := head.used event rfl
      constructor
      case keeps => exact fun key hkey htext => tail.keeps key hkey (head.keeps key hkey htext)
      case unused =>
        rintro found (_ | ⟨_, hfound⟩)
        · exact hunused
        · exact unused_of_keeps (tail.unused found hfound) head.keeps
      case used =>
        rintro found (_ | ⟨_, hfound⟩)
        · exact fun still => hspent (unused_of_keeps still tail.keeps)
        · exact tail.used found hfound
      case once =>
        refine List.nodup_cons.2 ⟨fun hmem => hspent ?_, tail.once⟩
        obtain ⟨found, hfound, hpair⟩ := List.mem_map.1 hmem
        obtain ⟨hauth, hnonce⟩ := Prod.mk.inj hpair
        exact hauth ▸ hnonce ▸ tail.unused found hfound
      case faithful =>
        rintro found (_ | ⟨_, hfound⟩)
        · exact hfaithful
        · exact tail.faithful found hfound

theorem loopDone_of_processed {input : ProofInput} {index : ℕ} {actions processed : List Json}
    {kv acted : TapKv}
    (done : ProcessedInOrder env (delegationHandlers env context handlers) input index actions
      kv processed acted) :
    LoopDone env kv acted (loopEvents env context handlers input index actions kv) := by
  induction done with
  | nil => exact .of_get_eq fun _ _ => rfl
  | @cons index action done actions rest kv next last head tail ih =>
      rw [processAction_delegationHandlers] at head
      rw [loopEvents]
      rcases hexec : (delegatedAction env context handlers input index action).exec lengthRow kv with
        ⟨outcome, after⟩
      rw [hexec] at head
      simp only [Prod.mk.injEq] at head
      obtain ⟨hsome, rfl⟩ := head
      obtain ⟨⟨found, event⟩, rfl, -⟩ := map_eq_some_iff.1 hsome
      refine LoopDone.cons ?_ ih
      unfold delegatedAction at hexec
      split at hexec
      · cases hexec
      · dsimp only at hexec
        split at hexec
        · exact actionDone_delegatedProcess hexec
        · cases hexec

theorem loopEvents_overlaid {base : TapKv} (input : ProofInput) :
    ∀ (index : ℕ) (actions : List Json) {store plain : TapKv}, Overlaid base store plain →
      loopEvents env context handlers input index actions store =
        loopEvents env context handlers input index actions plain
  | _, [], _, _, _ => rfl
  | index, action :: actions, store, plain, overlaid => by
      obtain ⟨hhead, hnext⟩ := overlaid.exec lengthRow
        (delegatedAction env context handlers input index action)
      have hrows : store.get = plain.get := funext overlaid.get_eq
      rw [loopEvents, loopEvents, hhead, hrows, loopEvents_overlaid input (index + 1) actions hnext]

end LoopProofs

/-! ### Runs -/

/-- The store with the signatures used up, and the nonces used up so far. -/
structure DelegationRun where
  auth : AuthRun
  log : List LoggedEvent

/-- A new or a moved `token-auth`, or the writes of another handler. -/
inductive DelegationStep where
  | created (context : TapContext) (handlers : DelegationHandlers) (created : AuthCreated)
  | executed (context : TapContext) (moved : AuthMoved)
  | other (program : TapProgram Unit) (avoids : program.Avoids protectedKey)

/-- One step; there is none when the process panics. -/
def delegationStep (env : AuthEnv) (run : DelegationRun) : DelegationStep → Option DelegationRun
  | .created context handlers created =>
      (authStep env run.auth
        (.created context (delegationHandlers env context handlers) created)).map fun auth =>
          { auth := auth, log := run.log ++ createdEvents env context handlers created run.auth.kv }
  | .executed context moved =>
      (authStep env run.auth (.executed context moved)).map fun auth =>
        { run with auth := auth }
  | .other program avoids =>
      (authStep env run.auth (.other program (avoids.mono guardedKey_protected))).map
        fun auth => { run with auth := auth }

/-- The nonces of the log are used, each once, and what was executed for them is as signed. -/
structure DelegationsSound (env : AuthEnv) (run : DelegationRun) : Prop where
  sound : run.auth.Sound
  used : ∀ event ∈ run.log, ¬ Unused run.auth.kv event.auth event.nonce
  once : (run.log.map fun event => (event.auth, event.nonce)).Nodup
  faithful : ∀ event ∈ run.log, event.IsFaithful env event.rows

section Runs

variable {env : AuthEnv} {run : DelegationRun}

theorem outsideAuth_delegationKey : OutsideAuth delegationKey := by
  rintro key (hkey | hkey) <;> rw [hkey] <;> decide

/-- A step in which the loop gets to its end, or nothing happens to nonces. -/
theorem DelegationsSound.step {events : List LoggedEvent} {auth : AuthRun}
    (inv : DelegationsSound env run) (sound : auth.Sound)
    (done : LoopDone env run.auth.kv auth.kv events) :
    DelegationsSound env { auth := auth, log := run.log ++ events } where
  sound := sound
  used event hevent := by
    rcases List.mem_append.1 hevent with hold | hnew
    · exact fun still => inv.used event hold (unused_of_keeps still done.keeps)
    · exact done.used event hnew
  once := by
    rw [List.map_append, List.nodup_append]
    refine ⟨inv.once, done.once, ?_⟩
    rintro pair hold other hnew rfl
    obtain ⟨event, hevent, rfl⟩ := List.mem_map.1 hold
    obtain ⟨found, hfound, hpair⟩ := List.mem_map.1 hnew
    have hunused := done.unused found hfound
    simp only [Prod.mk.injEq] at hpair
    rw [hpair.1, hpair.2] at hunused
    exact inv.used event hevent hunused
  faithful event hevent := by
    rcases List.mem_append.1 hevent with hold | hnew
    · exact inv.faithful event hold
    · exact done.faithful event hnew

/-- The loop between steps that leave nonces alone. -/
theorem LoopDone.frame {kv sent acted after : TapKv} {events : List LoggedEvent}
    (done : LoopDone env sent acted events)
    (hbefore : ∀ key, delegationKey key → sent.get key = kv.get key)
    (hafter : ∀ key, delegationKey key → after.get key = acted.get key) :
    LoopDone env kv after events where
  keeps key hkey htext := by
    rw [hafter key hkey]
    exact done.keeps key hkey (by rw [hbefore key hkey]; exact htext)
  unused event hevent := (unused_congr hbefore).1 (done.unused event hevent)
  used event hevent still := done.used event hevent ((unused_congr hafter).1 still)
  once := done.once
  faithful := done.faithful

/-- A new inscription: the loop of a redeem that is committed, or nothing that concerns nonces. -/
theorem loopDone_created {context : TapContext} {handlers : DelegationHandlers} {created : AuthCreated}
    {kv : TapKv} {outcome : Option Text × TapKv} (ready : ReadyKv kv)
    (hcreated : tokenAuthCreated env context (delegationHandlers env context handlers) created
      kv = some outcome) :
    LoopDone env kv outcome.2 (createdEvents env context handlers created kv) := by
  unfold createdEvents
  cases hbody : redeemBody env context created with
  | none =>
      obtain ⟨program, avoids, -, hprogram⟩ := tokenAuthCreated_of_no_body
        (delegationHandlers env context handlers) hbody kv
      cases hprogram.symm.trans hcreated
      exact .of_get_eq fun key hkey => (avoids _ outsideAuth_delegationKey).get_exec lengthRow hkey kv
  | some body =>
      obtain ⟨redeem, sig, hash, salt⟩ := body
      rw [tokenAuthCreated_of_body _ hbody] at hcreated
      rcases hplan : redeemPlan env context (delegationHandlers env context handlers) kv.get
          (inscriptionText created.inscriptionId) redeem sig hash salt with stop | plan
      · rw [hplan] at hcreated
        dsimp only
        rw [hplan]
        cases stop with
        | refused =>
            cases hcreated
            exact .of_get_eq fun _ _ => rfl
        | panicked => cases hcreated
        | unfinished => cases hcreated
      · rw [hplan] at hcreated
        dsimp only at hcreated ⊢
        rw [hplan]
        dsimp only
        obtain ⟨planned, -⟩ := redeemPlan_spec hplan
        have hitems : ∀ item ∈ plan.items, (item.get "amt").isSome := by
          by_contra hmissing
          rw [performRedeem_eq_none hmissing] at hcreated
          cases hcreated
        rcases performRedeem_spec ready planned hitems with
          hrefused | ⟨after, copy, acted, processed, length, hcommitted, done⟩
        · cases hrefused.symm.trans hcreated
          rw [hrefused]
          exact .of_get_eq fun _ _ => rfl
        · cases hcommitted.symm.trans hcreated
          obtain ⟨opened, hopened⟩ : ∃ opened, kv.begin = some opened := by
            unfold Store.begin
            rw [ready.closed]
            exact ⟨_, rfl⟩
          obtain ⟨sent, found, hsent, hfound, overlaid⟩ : ∃ sent found,
              sendItems (delegationHandlers env context handlers) plan.addr (created.place context)
                plan.items opened = some sent ∧
              sendItems (delegationHandlers env context handlers) plan.addr (created.place context)
                plan.items kv.copy = some found ∧ Overlaid kv sent found :=
            sendItems_overlaid hitems (Overlaid.of_begin hopened)
          obtain rfl : copy = found := Option.some.inj (done.items.symm.trans hfound)
          rw [hcommitted, hopened, bind_some, hsent]
          dsimp only
          rw [loopEvents_overlaid _ 0 _ overlaid]
          refine (loopDone_of_processed done.actions).frame (fun key hkey => ?_) fun key hkey => ?_
          · have hprotects : ∀ addr item amt place, ((delegationHandlers env context handlers).sendItem
                addr item amt place).Avoids protectedKey := handlers.sendItem_protects
            rw [get_sendItems hprotects (.inr hkey) done.items, get_copy ready.closed]
          · have havoids : (recordRedeem (plan.record created.ownerAddress (created.place context)
                (plan.actions.map fun _ => processed)) plan.compactSig).Avoids delegationKey := by
              apply recordRedeem_avoids
              · exact outsideAuth_delegationKey.tables (by decide)
              · rintro (htable | htable) <;> simp at htable
              · rintro (htable | htable) <;> simp at htable
            rw [done.rows, havoids.get_exec lengthRow hkey]

theorem get_tokenAuthExecuted {context : TapContext} {moved : AuthMoved} {kv : TapKv} {key : TapKey}
    (hkey : delegationKey key) :
    (tokenAuthExecuted env context moved kv).2.get key = kv.get key := by
  have hentry : ¬ delegationKey { table := "a", parts := [inscriptionText moved.inscriptionId] } := by
    rintro (htable | htable) <;> simp at htable
  have hprogram : ∀ program : TapProgram Unit, program.Avoids delegationKey →
      (program.exec lengthRow kv).2.get key = kv.get key :=
    fun program avoids => avoids.get_exec lengthRow hkey kv
  unfold tokenAuthExecuted
  dsimp only
  split
  · rfl
  · split
    · rfl
    · split
      · exact hprogram _ (cancelAuthority_avoids outsideAuth_delegationKey _ _ _ hentry)
      · split
        · exact hprogram _ (.del hentry (.pure ()))
        · refine hprogram _ (createAuthority_avoids _ _ outsideAuth_delegationKey ?_)
          rintro (htable | htable) <;> simp at htable

theorem delegationStep_sound {step : DelegationStep} {next : DelegationRun}
    (inv : DelegationsSound env run) (hstep : delegationStep env run step = some next) :
    DelegationsSound env next := by
  cases step with
  | created context handlers created =>
      obtain ⟨auth, hauth, rfl⟩ := map_eq_some_iff.1 hstep
      have sound := authStep_sound inv.sound hauth
      obtain ⟨outcome, houtcome, rfl⟩ := map_eq_some_iff.1 hauth
      exact inv.step sound (loopDone_created inv.sound.ready houtcome)
  | executed context moved =>
      unfold delegationStep at hstep
      obtain ⟨auth, hauth, rfl⟩ := map_eq_some_iff.1 hstep
      have sound := authStep_sound inv.sound hauth
      cases hauth
      have hnext := inv.step sound (.of_get_eq fun key hkey => get_tokenAuthExecuted hkey)
      rwa [List.append_nil] at hnext
  | other program avoids =>
      unfold delegationStep at hstep
      obtain ⟨auth, hauth, rfl⟩ := map_eq_some_iff.1 hstep
      have sound := authStep_sound inv.sound hauth
      cases hauth
      have hnext := inv.step sound
        (.of_get_eq fun key hkey => avoids.get_exec lengthRow (.inr hkey) run.auth.kv)
      rwa [List.append_nil] at hnext

end Runs

/-- Over every run a nonce of an authority is used once at most, by a delegated lock, a delegated action
or a cancellation; and what is executed under a delegation is its signed template with the placeholders
filled, within its constraints and before its expiry, a lock in the normal form that locks have. -/
theorem delegations_single_use (env : AuthEnv) {start : TapKv} (ready : ReadyKv start)
    {run : DelegationRun}
    (reaches : Run.Reaches (delegationStep env) (fun _ _ => True)
      { auth := { kv := start, signed := [] }, log := [] } run) :
    (run.log.map fun event => (event.auth, event.nonce)).Nodup ∧
      ∀ event ∈ run.log, event.IsFaithful env event.rows := by
  have inv : DelegationsSound env run := by
    apply reaches.invariant (DelegationsSound env)
    · exact fun inv _ hstep => delegationStep_sound inv hstep
    · exact ⟨⟨ready, fun _ hsig => (nomatch hsig), List.nodup_nil⟩, fun _ hevent => (nomatch hevent),
        List.nodup_nil, fun _ hevent => (nomatch hevent)⟩
  exact ⟨inv.once, inv.faithful⟩

/-! ### A delegated lock -/

/-- The SHA-256 hash of a secret. -/
def sampleHash : String := "2bb80d537b1da3e38bd30361aa855686bde0eacd7162fef6a25fe97bf527a25b"

/-- The condition of a hash time lock. -/
def sampleCondition : Json := textObject [("type", "hashlock"), ("hash", sampleHash)]

/-- A lock of the amount that the fill names. -/
def lockTemplate (claim : String) : Json :=
  .object ([("op", "lock"), ("kind", "htlc"), ("tick", "dog"), ("amt", "$amt"), ("claim", claim),
      ("refund", "n1"), ("refund_after", "150")].map (fun field =>
        (field.1.toList, Json.string field.2.toList)) ++ [("condition".toList, sampleCondition)])

def lockDelegation (claim : String) : Json :=
  .object [("auth".toList, .string "1i0".toList), ("nonce".toList, .string "n".toList),
    ("expiry".toList, .string "200".toList), ("threshold".toList, .string "1".toList),
    ("signers".toList, .array [.string "02".toList]),
    ("template".toList, lockTemplate claim),
    ("constraints".toList, .object
      [("amt".toList, .object [("allowed".toList, .array [.string "5".toList])])]),
    ("sigs".toList, .array [.object [("sig".toList, textObject [("r", "4"), ("s", "1")]),
      ("hash".toList, .string "00".toList)]]),
    ("salt".toList, .string "7".toList)]

/-- An inscription that executes the delegation; `r` is the signature of the redeem. -/
def executeDocument (r claim : String) : Json :=
  signedJson r "redeem" (.object [("data".toList, .string []), ("actions".toList, .array
    [.object [("op".toList, .string "execute".toList), ("delegation".toList, lockDelegation claim),
      ("fill".toList, textObject [("amt", "5")])]])])

/-- The libraries on these documents, with one key that signs everything. -/
def delegationEnv : AuthEnv :=
  { signedEnv with
    toProofEnv := { signedEnv.toProofEnv with
      parse := fun body => [executeDocument "2" "n1", executeDocument "3" "n1",
        executeDocument "2" " n1"].find? fun json => json.body = body } }

/-- The checks of this lock, which is covered, and the row it writes. -/
def lockHandlers : DelegationHandlers where
  validateAction _ _ _ _ action := some action
  sendItem _ _ _ _ := .pure ()
  process _ _ _ _ := .pure none
  sendItem_avoids _ _ _ _ := .pure _
  process_avoids := refuse_avoids
  lockCovered _ _ := .pure true
  processLock action index _ place :=
    .put { table := "l", parts := [tokenProofLockId ⟨place.ins, index⟩] } (.json action) (.pure true)
  validatePerp _ _ _ _ _ := .pure none
  processPerp _ _ _ _ _ := .pure false
  sendItem_protects _ _ _ _ := .pure _
  process_protects _ _ _ _ := .pure _
  lockCovered_protects _ _ := .pure _
  processLock_protects _ _ _ _ := .put (by rintro ((hkey | hkey) | hkey | hkey) <;> simp at hkey) (.pure _)
  validatePerp_protects _ _ _ _ _ := .pure _
  processPerp_protects _ _ _ _ _ := .pure _

/-- The rows of the authority `1i0` of `n1`, a ticker and a balance. -/
def authorityRows : List (TapKey × TapRow) :=
  [({ table := "tains", parts := ["1i0".toList] }, .pointer (listItem "tai" ["n1".toList] 0)),
    (listItem "tai" ["n1".toList] 0, .authority
      { addr := "n1".toList, auth := [], ins := "1i0".toList,
        sig := textObject [("r", "1"), ("s", "1")], hash := "00".toList, slt := "7".toList,
        place := { blck := 1, tx := 1, vo := 0, val := none, ins := "1i0".toList, num := 1, ts := 0 } }),
    ({ table := "d", parts := [dogKey] }, .deploy
      { tick := "dog".toList, max := 5, lim := 5, dec := 0, ins := "2i0".toList, dmt := false,
        elem := none, prj := none, dim := none, dt := none, prv := none }),
    ({ table := "b", parts := ["n1".toList, dogKey] }, .text "5".toList)]

def authorityKv : TapKv where
  rows := authorityRows.foldl (fun rows row => rows.insert row.1 row.2) ∅
  lens := ∅
  batch := none

theorem authorityKv_ready : ReadyKv authorityKv where
  closed := rfl
  readable addr row hrow := by
    have hnone : authorityKv.get { table := "tr", parts := [addr] } = none := by
      simp only [authorityKv, authorityRows, Store.get, List.foldl_cons, List.foldl_nil,
        KeyTable.lookup_insert_ite, listItem]
      simp
    rw [hnone] at hrow
    cases hrow

def inscribedDocument (txid : ℕ) (json : Json) : AuthCreated :=
  { newInscription txid "" with body := some json.body }

/-- The text of a member of an executed action. -/
def memberText (json : Json) (key : String) : Option Text := (json.get key).bind Json.asStr

/-- What a run shows of its events: the nonce, the amount, and the claim address before and after the
normal form. -/
def eventView (run : DelegationRun) : List (List (Option Text)) :=
  run.log.map fun event =>
    [some event.auth, some event.nonce,
      event.executed.bind fun delegated => memberText delegated.action "amt",
      event.executed.bind fun delegated => memberText delegated.final "claim",
      event.executed.bind fun delegated => memberText delegated.action "claim"]

def delegationStart : DelegationRun := { auth := { kv := authorityKv, signed := [] }, log := [] }

/-- The delegation is executed, and a second time in vain. -/
theorem executedTwice_single_use :
    ∃ run, Run.Reaches (delegationStep delegationEnv) (fun _ _ => True) delegationStart run ∧
      eventView run = [[some "1i0".toList, some "n".toList, some "5".toList, some "n1".toList,
        some "n1".toList]] ∧
      (run.log.map fun event => (event.auth, event.nonce)).Nodup ∧
      ∀ event ∈ run.log, event.IsFaithful delegationEnv event.rows := by
  have hexec : (Run.exec (delegationStep delegationEnv) (fun _ _ => true)
      [.created plainContext lockHandlers (inscribedDocument 3 (executeDocument "2" "n1")),
        .created plainContext lockHandlers (inscribedDocument 4 (executeDocument "3" "n1"))]
      delegationStart).map eventView = some [[some "1i0".toList, some "n".toList, some "5".toList, some "n1".toList,
        some "n1".toList]] := by decide +kernel
  have hrun : ∃ run, Run.Reaches (delegationStep delegationEnv) (fun _ _ => True) delegationStart run ∧
      eventView run = [[some "1i0".toList, some "n".toList, some "5".toList, some "n1".toList,
        some "n1".toList]] :=
    Run.exists_reaches_of_exec (fun _ => trivial) hexec
  obtain ⟨run, reaches, hview⟩ := hrun
  exact ⟨run, reaches, hview, delegations_single_use delegationEnv authorityKv_ready reaches⟩

/-- A claim address with a blank before it is executed without the blank: the lock that is executed is
not the filled template. -/
theorem executedLock_ne_template :
    ∃ run, Run.Reaches (delegationStep delegationEnv) (fun _ _ => True) delegationStart run ∧
      ∃ event ∈ run.log, ∃ delegated, event.executed = some delegated ∧
        delegated.action ≠ delegated.final := by
  have hexec : (Run.exec (delegationStep delegationEnv) (fun _ _ => true)
      [.created plainContext lockHandlers (inscribedDocument 3 (executeDocument "2" " n1"))]
      delegationStart).map eventView = some [[some "1i0".toList, some "n".toList, some "5".toList, some " n1".toList,
        some "n1".toList]] := by decide +kernel
  have hrun : ∃ run, Run.Reaches (delegationStep delegationEnv) (fun _ _ => True) delegationStart run ∧
      eventView run = [[some "1i0".toList, some "n".toList, some "5".toList, some " n1".toList,
        some "n1".toList]] :=
    Run.exists_reaches_of_exec (fun _ => trivial) hexec
  obtain ⟨run, reaches, hview⟩ := hrun
  refine ⟨run, reaches, ?_⟩
  obtain ⟨event, hlog, hevent⟩ := List.map_eq_singleton_iff.1 hview
  simp only [List.cons.injEq, and_true] at hevent
  obtain ⟨-, -, -, hfinal, haction⟩ := hevent
  obtain ⟨delegated, hexecuted, hfinal⟩ := bind_eq_some_iff.1 hfinal
  rw [hexecuted, bind_some] at haction
  refine ⟨event, by rw [hlog]; exact List.mem_singleton_self _, delegated, hexecuted, fun hsame => ?_⟩
  rw [hsame, hfinal] at haction
  exact absurd haction (by decide)

end OrdDogecoin.Tap
