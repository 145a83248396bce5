/-
Module: OrdDogecoin.Tap.Delegation
Purpose: Delegated actions: the signed template with its placeholders, fill and constraints, the
  signatures under it, and the three actions that use up the nonce of a delegation (a delegated lock, a
  delegated action, a cancellation), as handlers of the loop over the proof actions.
Trusted boundary: `DelegationHandlers` stands for the checks of the amounts of a lock, the handler of a
  lock, and the validators and handlers of perp groups, which write no row of a nonce
Main exports: substitute, delegatedProcess, delegationHandlers
-/
import OrdDogecoin.Tap.Redeem
import OrdDogecoin.Tap.LockForms

namespace OrdDogecoin.Tap

open AtomicBatch

/-! ### Templates -/

/-- `Value::get` with a key that is no literal. -/
def Json.field (json : Json) (key : Text) : Option Json :=
  match json with
  | .object fields => (fields.find? fun field => field.1 = key).map Prod.snd
  | _ => none

/-- The name of a placeholder: what follows the dollar sign of a text. -/
def placeholderName (text : Text) : Option Text :=
  match text with
  | '$' :: name =>
      if !name.isEmpty && name.all fun c => c.isAlphanum || c = '_' || c = '-' then some name else none
  | _ => none

mutual

/-- `substitute`: the value with its placeholders filled, and the names that were used; nothing when the
fill lacks one. -/
def substitute (fill : Json) : Json → Option (Json × List Text)
  | .string text =>
      match placeholderName text with
      | some name => (fill.field name).map fun value => (value, [name])
      | none => some (.string text, [])
  | .array items => (substituteItems fill items).map fun result => (.array result.1, result.2)
  | .object fields => (substituteFields fill fields).map fun result => (.object result.1, result.2)
  | .null => some (.null, [])
  | .bool value => some (.bool value, [])
  | .number text => some (.number text, [])
  | .double text => some (.double text, [])

def substituteItems (fill : Json) : List Json → Option (List Json × List Text)
  | [] => some ([], [])
  | item :: items => do
      let (item, used) ← substitute fill item
      let (items, usedToo) ← substituteItems fill items
      some (item :: items, used ++ usedToo)

def substituteFields (fill : Json) : List (Text × Json) → Option (List (Text × Json) × List Text)
  | [] => some ([], [])
  | (key, child) :: fields => do
      let (child, used) ← substitute fill child
      let (fields, usedToo) ← substituteFields fill fields
      some ((key, child) :: fields, used ++ usedToo)

end

/-- `token_proof_get_path_value`. -/
def getPathValue (value : Json) (path : Text) : Option Json :=
  (path.splitOn '.').foldl (fun current part =>
    current.bind fun value => if part.isEmpty then none else value.field part) (some value)

section Checks

variable (env : AuthEnv) (context : TapContext)

/-- `token_proof_json_equal`. -/
def jsonEqual (left right : Json) : Bool := jsJsonStringify left = jsJsonStringify right

def parseDelegationBlockInteger : Json → Option ℕ
  | .number text => (parseDigits text).filter (· ≤ jsMaxSafeInteger)
  -- an integral double up to the bound prints as its decimal digits
  | .double text => (parseDigits text).filter (· ≤ jsMaxSafeInteger)
  | .string text =>
      if 1 < text.length && text.head? = some '0' then none
      else (parseDigits text).filter (· ≤ jsMaxSafeInteger)
  | _ => none

/-- `token_proof_parse_delegation_block_bound`. -/
def parseDelegationBlockBound : Json → Option ℕ
  | .string text => parseDelegationBlockInteger (.string text)
  | _ => none

/-- A bound of a block offset: absent, or a number. -/
def blockBound (constraint : Json) (key : String) : Option (Option ℕ) :=
  match constraint.get key with
  | none => some none
  | some value => (parseDelegationBlockBound value).map some

def blockOffset (value constraint : Json) : Bool :=
  featureHeight env.mainnet .tokenAuthorityStakingUpgradeActivation ≤ context.height &&
    (constraint.get "base").bind Json.asStr = some "current".toList &&
    ((constraint.get "min").isSome || (constraint.get "max").isSome) &&
    match parseDelegationBlockInteger value, blockBound constraint "min", blockBound constraint "max" with
    | some target, some min, some max =>
        let offset := (target : ℤ) - context.height
        (min.all fun min => max.all fun max => min ≤ max) &&
          (min.all fun (min : ℕ) => (min : ℤ) ≤ offset) && max.all fun (max : ℕ) => offset ≤ max
    | _, _, _ => false

/-- `usize::try_from`, with a default. -/
def toUsizeOr (default : ℕ) (n : ℤ) : ℕ := if 0 ≤ n ∧ n < 2 ^ 64 then n.toNat else default

/-- The constraint `string`: the bytes of the text between two bounds. -/
def boundedString (text : Text) (constraint : Json) : Bool :=
  (((constraint.get "min").bind jsParseInt).all fun min =>
      toUsizeOr (2 ^ 64 - 1) min ≤ utf8Length text) &&
    ((constraint.get "max").bind jsParseInt).all fun max => utf8Length text ≤ toUsizeOr 0 max

/-- The constraint `number-string`. -/
def numberString (text : Text) : Bool :=
  let head := text.takeWhile (· ≠ '.')
  let tail := (text.dropWhile (· ≠ '.')).drop 1
  !head.isEmpty && head.all Char.isDigit && tail.all Char.isDigit

/-- The value has the type that a constraint names. -/
def hasConstraintType (value constraint : Json) (kind : Text) : Bool :=
  if kind = "btc-address".toList then
    value.asStr.any fun address =>
      isValidBitcoinAddress env context (normalizeAddress env address)
  else if kind = "sha256".toList then value.asStr.any isValidSha256Hex
  else if kind = "string".toList then value.asStr.any (boundedString · constraint)
  else if kind = "number-string".toList then value.asStr.any numberString
  else if kind = "block-offset".toList then blockOffset env context value constraint
  else false

/-- `token_proof_validate_delegation_constraint`. -/
def validateDelegationConstraint (value constraint : Json) : Bool :=
  constraint.isObject &&
    ((constraint.get "equals").all (jsonEqual value)) &&
    (((constraint.get "allowed").bind Json.asArray).all fun allowed =>
      allowed.any (jsonEqual value)) &&
    ((constraint.get "type").bind Json.asStr).all fun kind =>
      hasConstraintType env context value constraint (env.toLowercase kind)

/-- `token_proof_apply_delegation_template`: the action, and the names of the placeholders used. -/
def applyDelegationTemplate (template fill constraints : Json) : Option (Json × List Text) := do
  guard (template.isObject ∧ fill.isObject ∧ constraints.isObject)
  let (action, used) ← substitute fill template
  guard (used.all fun name =>
    (fill.field name).any fun value =>
      (constraints.field name).any (validateDelegationConstraint env context value))
  guard (constraints.fields.all fun member =>
    member.1 ∈ used || (getPathValue action member.1).any fun value =>
      validateDelegationConstraint env context value member.2)
  some (action, used)

/-! ### Signatures -/

/-- The signers whose signatures under the message are valid; nothing when an entry is malformed. -/
def validPubkeys (signers : List Text) (msgHash : ℕ) (sigs : List Json) : Option (List Text) := do
  let found ← sigs.mapM fun entry => do
    let sig ← entry.get "sig"
    let hash ← (← entry.get "hash").asStr
    match env.verifySig sig hash msgHash with
    | none => some none
    | some (ok, _, pubkey) => do
        let pubkey ← env.compressedPubkey pubkey
        some (if ok && pubkey ∈ signers then some pubkey else none)
  some found.reduceOption.dedup

/-- The check of the signatures in `signatures` by the signers and the threshold of `holder`; a
required signer must be among those who signed. -/
def quorumSigned (holder signatures : Json) (required : Option Text) (message : Option Json) : Bool :=
  Option.isSome do
    let listed ← (← holder.get "signers").asArray
    let sigs ← (← signatures.get "sigs").asArray
    let salt := jsValueToString (← signatures.get "salt")
    let signers ← listed.mapM fun signer => do env.compressedPubkey (← signer.asStr)
    guard signers.Nodup
    guard (!signers.isEmpty ∧ signers.length ≤ 8)
    let threshold ← (holder.get "threshold").bind jsParseInt
    guard (0 < threshold ∧ threshold ≤ signers.length ∧ threshold ≤ 8)
    let pubkeys ← validPubkeys env signers (env.sha256JsonPlusSalt (← message) salt) sigs
    guard (threshold ≤ pubkeys.length)
    match required with
    | none => some ()
    | some pubkey => do
        let signer ← env.compressedPubkey pubkey
        guard (signer ∈ signers ∧ signer ∈ pubkeys)

/-- The constraints of a delegation, empty by default. -/
def delegationConstraints (delegation : Json) : Json := (delegation.get "constraints").getD (.object [])

/-- `token_proof_delegation_message`. -/
def delegationMessage (delegation : Json) : Option Json := do
  let shared := [← delegation.get "auth", ← delegation.get "nonce", ← delegation.get "expiry",
    ← delegation.get "threshold", ← delegation.get "signers", ← delegation.get "template",
    delegationConstraints delegation]
  match delegation.get "finalizers" with
  | some finalizers => some (.array (.string "tap-delegated-lock-v2".toList :: shared ++ [finalizers]))
  | none => some (.array (.string "tap-delegated-lock-v1".toList :: shared))

/-- `token_proof_action_delegation_message`. -/
def actionDelegationMessage (delegation : Json) : Option Json := do
  some (.array [.string "tap-delegated-action-v1".toList, .string "tap".toList,
    ← delegation.get "kind", ← delegation.get "v", ← delegation.get "auth", ← delegation.get "nonce",
    ← delegation.get "expiry", ← delegation.get "family", ← delegation.get "threshold",
    ← delegation.get "signers", ← delegation.get "template", delegationConstraints delegation,
    (delegation.get "finalizers").getD .null])

/-- `token_proof_validate_delegation_signatures`. -/
def validateDelegationSignatures (delegation : Json) (authPubkey : Text) : Bool :=
  quorumSigned env delegation delegation (some authPubkey) (delegationMessage delegation)

/-- A delegation of an action, in its first version. -/
def isActionDelegation (delegation : Json) : Bool :=
  (delegation.get "kind").bind Json.asStr = some "action".toList &&
    (delegation.get "v").map jsValueToString = some "1".toList &&
    ((delegation.get "family").bind Json.asStr).isSome

/-- `token_proof_validate_action_delegation_signatures`. -/
def validateActionDelegationSignatures (delegation : Json) (authPubkey : Text) : Bool :=
  isActionDelegation delegation &&
    quorumSigned env delegation delegation (some authPubkey) (actionDelegationMessage delegation)

/-- `token_proof_final_action_message` and `token_proof_action_final_message`, over the message of the
delegation. -/
def finalMessage (message : Option Json) (finalizers finalAction : Json) : Option Json := do
  some (.array [.string "tap-delegated-final-action-v1".toList, ← message,
    ← finalizers.get "threshold", ← finalizers.get "signers", finalAction])

/-- `token_proof_validate_final_action_signatures` and
`token_proof_validate_action_final_signatures`. -/
def validateFinalSignatures (action delegation finalAction : Json) (message : Option Json) : Bool :=
  match delegation.get "finalizers", action.get "final" with
  | some finalizers, some final =>
      finalizers.isObject && final.isObject &&
        quorumSigned env finalizers final none (finalMessage message finalizers finalAction)
  | _, _ => false

/-- `token_proof_delegation_constraint_is_exact`. -/
def constraintIsExact (constraint : Json) : Bool :=
  constraint.isObject &&
    ((constraint.get "equals").isSome ||
      ((constraint.get "allowed").bind Json.asArray).any fun allowed => !allowed.isEmpty)

/-- `token_proof_delegation_needs_final_fill`. -/
def needsFinalFill (used : List Text) (constraints : Json) : Bool :=
  !constraints.isObject || used.any fun name => (constraints.field name).all (!constraintIsExact ·)

/-- The delegation or its action is of the kind that others sign at the end. -/
def hasFinalShape (action delegation : Json) : Bool :=
  (delegation.get "finalizers").isSome || (action.get "final").isSome

/-- The final action is signed where that is asked for. -/
def finalSigned (action delegation finalAction : Json) (used : List Text) (message : Option Json) :
    Bool :=
  !featureEnabled env context .tokenAuthorityStakingUpgradeActivation ||
    !(hasFinalShape action delegation || needsFinalFill used (delegationConstraints delegation)) ||
    validateFinalSignatures env action delegation finalAction message

end Checks

/-! ### Locks -/

/-- The rows of the nonces of delegations. -/
def delegationKey (key : TapKey) : Prop := key.table = "tdn" ∨ key.table = "tdc"

/-- `token_proof_delegation_nonce_key`. -/
def delegationNonceKey (auth nonce : Text) : TapKey := { table := "tdn", parts := [auth, nonce] }

/-- `token_proof_delegation_cancel_key`. -/
def delegationCancelKey (auth nonce : Text) : TapKey := { table := "tdc", parts := [auth, nonce] }

/-- The rows that the handlers of other actions leave alone. -/
def protectedKey (key : TapKey) : Prop := guardedKey key ∨ delegationKey key

/-- The functions that delegated actions lead to: the checks of the ticker, the amounts and the balance of a
lock, the handler of a lock, and the validators (with the ticker of the collateral) and handlers of
`perp-join` and `perp-close`. -/
structure DelegationHandlers extends AuthHandlers where
  lockCovered : Json → TokenAuthRecord → TapProgram Bool
  processLock : Json → ℕ → TokenAuthRecord → RecordPlace → TapProgram Bool
  validatePerp : Text → Json → TokenAuthRecord → Text → ℕ → TapProgram (Option Text)
  processPerp : Text → Json → TokenAuthRecord → RecordPlace → ℕ → TapProgram Bool
  sendItem_protects : ∀ addr item amt place, (sendItem addr item amt place).Avoids protectedKey
  process_protects : ∀ op input index action, (process op input index action).Avoids protectedKey
  lockCovered_protects : ∀ action link, (lockCovered action link).Avoids protectedKey
  processLock_protects : ∀ action index link place, (processLock action index link place).Avoids
    protectedKey
  validatePerp_protects : ∀ family action link ins index,
    (validatePerp family action link ins index).Avoids protectedKey
  processPerp_protects : ∀ family action link place index,
    (processPerp family action link place index).Avoids protectedKey

/-- `token_proof_authority_condition_active`, for a condition that names an authority. -/
def conditionActive : LockCondition → TapProgram Bool
  | .authority auth =>
      .get { table := "tains", parts := [auth] } fun row =>
        .get { table := "tac", parts := [auth] } fun cancelled =>
          .pure (TapRow.isText row && !TapRow.isText cancelled)
  | _ => .pure true

section Actions

variable (env : AuthEnv) (context : TapContext) (handlers : DelegationHandlers)

/-- `validate_token_proof_lock_action`, with the action as it changes it. -/
def validateLock (action : Json) (link : TokenAuthRecord) : TapProgram (Option Json) :=
  match lockNormalForm env context action link.toTokenAuthCreateRecord with
  | none => .pure none
  | some (normal, condition) =>
      (conditionActive condition).bind fun active =>
        (handlers.lockCovered action link).bind fun covered =>
          .pure (if active && covered then some normal else none)

/-! ### Delegated actions -/

/-- `token_proof_valid_delegation_nonce`. -/
def validDelegationNonce (nonce : Text) : Bool :=
  !nonce.isEmpty && nonce.length ≤ 128 &&
    nonce.all fun c => c.isAlphanum || c = '.' || c = '_' || c = ':' || c = '-'

/-- What the two kinds of delegated actions have in common. -/
structure DelegationTerms where
  delegation : Json
  fill : Json
  auth : Text
  nonce : Text

/-- The first checks of both validators: the delegation is well formed and has not expired. -/
def delegationTerms (op : String) (accepts : Json → Bool) (action : Json) : Option DelegationTerms := do
  guard (hasOp action [op])
  let delegation ← action.get "delegation"
  guard delegation.isObject
  let fill ← action.get "fill"
  guard fill.isObject
  guard (accepts delegation)
  guard (!hasFinalShape action delegation ||
    featureEnabled env context .tokenAuthorityStakingUpgradeActivation)
  let auth ← (← delegation.get "auth").asStr
  let nonce ← (← delegation.get "nonce").asStr
  guard (validDelegationNonce nonce)
  let expiry ← (delegation.get "expiry").bind jsParseInt
  guard ((context.height : ℤ) ≤ expiry)
  some { delegation := delegation, fill := fill, auth := auth, nonce := nonce }

/-- Go on when the nonce is neither used nor cancelled. -/
def whenUnused {α : Type} (auth nonce : Text) (next : TapProgram (Option α)) : TapProgram (Option α) :=
  .get (delegationNonceKey auth nonce) fun used =>
    .get (delegationCancelKey auth nonce) fun cancelled =>
      if TapRow.isText used || TapRow.isText cancelled then .pure none else next

/-- `token_proof_valid_auth_link`, with the public key of the authority. -/
def validAuthLinkProgram (auth : Text) : TapProgram (Option (TokenAuthRecord × Text)) :=
  .get { table := "tains", parts := [auth] } fun row =>
    match row.bind TapRow.asPointer with
    | none => .pure none
    | some pointer =>
        .get pointer fun row =>
          match row.bind TapRow.asAuthority with
          | none => .pure none
          | some link =>
              .get { table := "tac", parts := [link.ins] } fun row =>
                if TapRow.isText row then .pure none
                else .pure ((authPubkey env link).map fun pubkey =>
                  (link, env.toLowercase pubkey))

/-- The template, filled, when the delegation is signed and its constraints hold. -/
def filledTemplate (terms : DelegationTerms) (signed : Bool) : Option (Json × List Text) := do
  guard signed
  applyDelegationTemplate env context (← terms.delegation.get "template") terms.fill
    (delegationConstraints terms.delegation)

/-- The ticker is one that the authority was signed for. -/
def tickAllowed (link : TokenAuthRecord) (tick : Option Text) : Bool :=
  link.auth.isEmpty || tick.any fun tick => tick ∈ link.auth

/-- A delegated action that has passed its checks: the template filled, and the action to execute. -/
structure DelegatedAction where
  terms : DelegationTerms
  family : Text
  final : Json
  action : Json
  link : TokenAuthRecord

/-- The final action of a delegated lock. -/
def finalLock (terms : DelegationTerms) (link : TokenAuthRecord) (pubkey : Text) :
    Option (Json × List Text) := do
  let (final, used) ← filledTemplate env context terms
    (validateDelegationSignatures env terms.delegation pubkey)
  guard (hasOp final ["lock"])
  guard (tickAllowed link ((final.get "tick").bind Json.asStr))
  some (final, used)

/-- `validate_token_proof_delegated_execute_action`. -/
def validateDelegatedExecute (action : Json) (ins : Text) (index : ℕ) :
    TapProgram (Option DelegatedAction) :=
  match delegationTerms env context "execute" (fun _ => true) action with
  | none => .pure none
  | some terms =>
      whenUnused terms.auth terms.nonce <|
        (validAuthLinkProgram env terms.auth).bind fun found =>
          match found with
          | none => .pure none
          | some (link, pubkey) =>
              match finalLock env context terms link pubkey with
              | none => .pure none
              | some (final, used) =>
                  (validateLock env context handlers final link).bind fun normal =>
                    match normal with
                    | none => .pure none
                    | some normal =>
                        if finalSigned env context action terms.delegation normal used
                            (delegationMessage terms.delegation) then
                          .get { table := "l", parts := [tokenProofLockId ⟨ins, index⟩] } fun row =>
                            if row.isSome then .pure none
                            else .pure (some
                              { terms := terms
                                family := "lock".toList
                                final := final
                                action := normal
                                link := link })
                        else .pure none

/-- The family of a delegation of an action, which is one of two. -/
def delegationFamily (delegation : Json) : Option Text := do
  guard (isActionDelegation delegation)
  let family := env.toLowercase (← (← delegation.get "family").asStr)
  guard (family = "perp-join".toList ∨ family = "perp-close".toList)
  some family

def finalAction (action : Json) (terms : DelegationTerms) (family pubkey : Text) : Option Json := do
  let (final, used) ← filledTemplate env context terms
    (validateActionDelegationSignatures env terms.delegation pubkey)
  guard (((final.get "op").bind Json.asStr).map env.toLowercase = some family)
  guard (finalSigned env context action terms.delegation final used
    (actionDelegationMessage terms.delegation))
  some final

/-- `validate_token_proof_generic_delegated_action`. -/
def validateGenericDelegated (action : Json) (ins : Text) (index : ℕ) :
    TapProgram (Option DelegatedAction) :=
  match delegationTerms env context "execute-action" (fun delegation =>
      (delegationFamily env delegation).isSome) action with
  | none => .pure none
  | some terms =>
      whenUnused terms.auth terms.nonce <|
        (validAuthLinkProgram env terms.auth).bind fun found =>
          match found, delegationFamily env terms.delegation with
          | some (link, pubkey), some family =>
              match finalAction env context action terms family pubkey with
              | none => .pure none
              | some final =>
                  (handlers.validatePerp family final link ins index).bind fun tick =>
                    if tick.isSome && tickAllowed link tick then
                      .pure (some
                        { terms := terms
                          family := family
                          final := final
                          action := final
                          link := link })
                    else .pure none
          | _, _ => .pure none

/-! ### Events -/

/-- The three ways to use up a nonce. -/
inductive DelegationKind where
  | lock
  | action
  | cancelled
deriving DecidableEq, Repr

/-- A nonce that was used up, when, and what was executed for it. -/
structure DelegationEvent where
  kind : DelegationKind
  auth : Text
  nonce : Text
  context : TapContext
  executed : Option DelegatedAction

def executedEvent (kind : DelegationKind) (delegated : DelegatedAction) : DelegationEvent where
  kind := kind
  auth := delegated.terms.auth
  nonce := delegated.terms.nonce
  context := context
  executed := some delegated

/-- Mark the nonce of a delegated action that was processed. -/
def useNonce (kind : DelegationKind) (delegated : DelegatedAction) (action : Json) (processed : Bool) :
    TapProgram (Option (Json × Option DelegationEvent)) :=
  if processed then
    .put (delegationNonceKey delegated.terms.auth delegated.terms.nonce) (.text [])
      (.pure (some (action, some (executedEvent context kind delegated))))
  else .pure none

/-- The branch `execute`: only without an authority of the redeem. -/
def processExecute (input : ProofInput) (index : ℕ) (action : Json) :
    TapProgram (Option (Json × Option DelegationEvent)) :=
  if input.link.isSome then .pure none
  else
    (validateDelegatedExecute env context handlers action input.place.ins index).bind fun delegated =>
      match delegated with
      | none => .pure none
      | some delegated =>
          (handlers.processLock delegated.action index delegated.link input.place).bind
            (useNonce context .lock delegated action)

/-- The branch `execute-action`. -/
def processExecuteAction (input : ProofInput) (index : ℕ) (action : Json) :
    TapProgram (Option (Json × Option DelegationEvent)) :=
  if input.link.isSome then .pure none
  else
    (validateGenericDelegated env context handlers action input.place.ins index).bind fun delegated =>
      match delegated with
      | none => .pure none
      | some delegated =>
          (handlers.processPerp delegated.family delegated.action delegated.link input.place index).bind
            (useNonce context .action delegated action)

/-- The authority and the nonce that a cancellation names. -/
def cancelTerms (action : Json) (link : TokenAuthRecord) : Option (Text × Text) := do
  guard (hasOp action ["cancel-delegation"])
  let nonce ← (← action.get "nonce").asStr
  guard (validDelegationNonce nonce)
  let auth := ((action.get "auth").map jsValueToString).getD link.ins
  guard (auth = link.ins)
  some (auth, nonce)

/-- The row `TokenDelegationCancelRecord`. -/
def cancelRecord (input : ProofInput) (link : TokenAuthRecord) (auth nonce : Text) : TapRow :=
  .json (.object
    [("auth".toList, .string auth), ("nonce".toList, .string nonce), ("addr".toList, .string link.addr),
      ("iaddr".toList, .string input.iaddr), ("rdm".toList, input.redeem), ("sig".toList, input.sig),
      ("hash".toList, .string input.hash), ("slt".toList, .string input.salt),
      ("blck".toList, .number (Nat.toDigits 10 input.place.blck)),
      ("tx".toList, .string ((Nat.toDigits 16 input.place.tx).leftpad 64 '0')),
      ("vo".toList, .number (Nat.toDigits 10 input.place.vo)),
      ("val".toList, .string (Nat.toDigits 10 (input.place.val.getD 0))),
      ("ins".toList, .string input.place.ins), ("num".toList, .number (intText input.place.num)),
      ("ts".toList, .number (Nat.toDigits 10 input.place.ts))])

/-- The record of a cancellation, by nonce, by address, by authority and over all. -/
def cancelLog (input : ProofInput) (link : TokenAuthRecord) (auth nonce : Text) (record : TapRow) :
    TapProgram Unit :=
  .put { table := "tdcr", parts := [auth, nonce] } record <|
    tapSetListRecord "tdca" "tdcai" [link.addr] record fun _ =>
      tapSetListRecord "tdcath" "tdcathi" [auth] record fun _ =>
        logRecord "sftdc" "sftdci" "tdc".toList input.place record (.pure ())

/-- `process_token_proof_delegation_cancel_action`. -/
def processCancelDelegation (input : ProofInput) (action : Json) :
    TapProgram (Option (Json × Option DelegationEvent)) :=
  match input.link with
  | none => .pure none
  | some link =>
      match cancelTerms action link with
      | none => .pure none
      | some (auth, nonce) =>
          let record := cancelRecord input link auth nonce
          let event : DelegationEvent :=
            { kind := .cancelled, auth := auth, nonce := nonce, context := context, executed := none }
          whenUnused auth nonce <|
            .put (delegationCancelKey auth nonce) (.text []) <|
              (cancelLog input link auth nonce record).bind fun _ => .pure (some (action, some event))

/-- The handler of an action, with the nonce it uses up. -/
def delegatedProcess (op : Text) (input : ProofInput) (index : ℕ) (action : Json) :
    TapProgram (Option (Json × Option DelegationEvent)) :=
  if op = "execute".toList then processExecute env context handlers input index action
  else if op = "execute-action".toList then processExecuteAction env context handlers input index action
  else if op = "cancel-delegation".toList then processCancelDelegation context input action
  else
    (handlers.process op input index action).bind fun processed =>
      .pure (processed.map fun action => (action, none))

end Actions

end OrdDogecoin.Tap
