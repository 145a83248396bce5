/-
Module: OrdDogecoin.Tap.Redeem
Purpose: Token authorities and the redeems signed under them, over the key-value store with its atomic
  batch: every early return, the batch, the loop over the proof actions, and the replay rows.
Trusted boundary: `AuthEnv` stands for the signature and hash libraries; `AuthHandlers` stands for the
  validators of the single actions (but for staking configurations, which can end the process), their
  handlers and the internal send, as programs over the four operations of the store; writing a batch to
  disk does not fail
Main exports: TapKey, tokenAuthExecuted, authStep
-/
import OrdDogecoin.Tap.StakingConfig
import OrdDogecoin.Lib.AtomicBatch

namespace OrdDogecoin.Tap

open AtomicBatch Slices
open Chain

/-! ### Rows -/

/-- A key of `TAP_KV`, before its parts are joined by slashes. -/
structure TapKey where
  table : String
  parts : List Text
deriving DecidableEq, Repr

/-- Where a record was written. -/
structure RecordPlace where
  blck : ℕ
  tx : Txid
  vo : ℕ
  val : Option ℕ
  ins : Text
  num : ℤ
  ts : ℕ
deriving DecidableEq, Repr

/-- `TapAccumulatorEntry` of a `token-auth` inscription. -/
structure TokenAuthEntry where
  op : Text
  json : Json
  place : RecordPlace
  addr : Address

/-- `TokenAuthCreateRecord` with the fields that redeems read. -/
structure TokenAuthRecord extends TokenAuthCreateRecord where
  sig : Json
  hash : Text
  slt : Text
  place : RecordPlace

/-- `TokenAuthRedeemRecord`. -/
structure TokenAuthRedeemRecord where
  addr : Address
  iaddr : Address
  rdm : Json
  sig : Json
  hash : Text
  slt : Text
  place : RecordPlace

inductive TapRow where
  | text (text : Text)
  | pointer (key : TapKey)
  | deploy (record : DeployRecord)
  | config (record : AuthorityConfigRecord)
  | accumulator (entry : TokenAuthEntry)
  | authority (record : TokenAuthRecord)
  | redeem (record : TokenAuthRedeemRecord)
  | json (value : Json)

namespace TapRow

/-- The row is read as a string. -/
def isText : Option TapRow → Bool
  | some (.text _) => true
  | some (.pointer _) => true
  | _ => false

def asPointer : TapRow → Option TapKey
  | .pointer key => some key
  | _ => none

def asAuthority : TapRow → Option TokenAuthRecord
  | .authority record => some record
  | _ => none

def asAccumulator : TapRow → Option TokenAuthEntry
  | .accumulator entry => some entry
  | _ => none

def isDeploy : Option TapRow → Bool
  | some (.deploy _) => true
  | _ => false

def isConfig : Option TapRow → Bool
  | some (.config _) => true
  | _ => false

end TapRow

/-- The length row of a list: a text, zero when it is no number. -/
def lengthRow : LengthRow TapRow where
  read row :=
    match row with
    | .text text => some ((parseUsize text).getD 0)
    | .pointer _ => some 0
    | _ => none
  write length := .text (Nat.toDigits 10 length)

abbrev TapKv := AtomicBatch.Store TapKey TapRow

abbrev TapProgram (α : Type) := Program TapKey TapRow α

def listItem (table : String) (parts : List Text) (index : ℕ) : TapKey :=
  { table := table, parts := parts ++ [Nat.toDigits 10 index] }

def tapSetListRecord {α : Type} (lengthTable itemTable : String) (parts : List Text) (data : TapRow)
    (next : Option ℕ → TapProgram α) : TapProgram α :=
  .append { table := lengthTable, parts := parts } (listItem itemTable parts) data next

/-- The index of the last record of a list. -/
def lastIndex (length : ℕ) : ℕ := (length + (2 ^ 64 - 1)) % 2 ^ 64

/-- Append to a list over all addresses, and note the new row by transaction and by block. -/
def logRecord (lengthTable itemTable : String) (log : Text) (place : RecordPlace) (data : TapRow)
    (next : TapProgram Unit) : TapProgram Unit :=
  tapSetListRecord lengthTable itemTable [] data fun length =>
    match length with
    | none => next
    | some length =>
        let pointer := TapRow.pointer (listItem itemTable [] (lastIndex length))
        tapSetListRecord "tx" "txi" [log, Nat.toDigits 16 place.tx] pointer fun _ =>
          tapSetListRecord "blck" "blcki" [log, Nat.toDigits 10 place.blck] pointer fun _ => next

/-- Keep an inscription until it is moved. -/
def accumulate (log : String) (entry : TokenAuthEntry) : TapProgram Unit :=
  .put { table := "a", parts := [entry.place.ins] } (.accumulator entry) <|
    tapSetListRecord "al" "ali" [entry.addr] (.accumulator entry) fun _ =>
      logRecord "al" "ali" log.toList entry.place (.accumulator entry) (.pure ())

/-! ### Environment and handlers -/

/-- The libraries that signatures are checked with. -/
structure AuthEnv extends ProofEnv where
  /-- `build_sha256_json_plus_salt`. -/
  sha256JsonPlusSalt : Json → Text → ℕ
  /-- `verify_sig_obj_against_msg_with_hash`: validity, `r || s`, and the public key. -/
  verifySig : Json → Text → ℕ → Option (Bool × Text × Text)

instance AuthEnv.instCoeProofEnv : Coe AuthEnv ProofEnv := ⟨AuthEnv.toProofEnv⟩

/-- The rows that only redeems and authorities write. -/
def guardedKey (key : TapKey) : Prop := key.table = "tah" ∨ key.table = "tr"

/-- What a proof action is given beside itself. -/
structure ProofInput where
  link : Option TokenAuthRecord
  iaddr : Address
  redeem : Json
  sig : Json
  hash : Text
  salt : Text
  place : RecordPlace

/-- The functions of the single actions: what `validate_token_proof_actions` does with an action that
configures no staking, given the rows and the actions before it, and the normal form it gives the action;
`exec_internal_send_one`; and the handler of each action, which may change the action and returns nothing
when it fails.  None of them writes a replay row or the list of redeems. -/
structure AuthHandlers where
  validateAction : (TapKey → Option TapRow) → Option TokenAuthRecord → Text → List Json → Json →
    Option Json
  sendItem : Address → Json → Json → RecordPlace → TapProgram Unit
  process : Text → ProofInput → ℕ → Json → TapProgram (Option Json)
  sendItem_avoids : ∀ addr item amt place, (sendItem addr item amt place).Avoids guardedKey
  process_avoids : ∀ op input index action, (process op input index action).Avoids guardedKey

/-- A handler that refuses every action touches no row. -/
theorem refuse_avoids : ∀ (_ : Text) (_ : ProofInput) (_ : ℕ) (_ : Json),
    (AtomicBatch.Program.pure none : TapProgram (Option Json)).Avoids guardedKey :=
  fun _ _ _ _ => .pure _

/-! ### Proof actions -/

/-- The operations that `process_token_proof_actions` knows. -/
def proofOps : List String :=
  ["perp-policy", "perp-open-group", "perp-join", "perp-cancel", "perp-refund", "perp-activate",
    "perp-close", "perp-liquidate", "perp-settle", "perp-claim", "lock", "execute", "execute-action",
    "cancel-delegation", "ob-open", "ob-claim", "ob-refund", "ob-final", "auth-cfg", "sync-ext",
    "add-liq", "rm-liq", "swap", "stake", "claim-rwd", "unstake", "fund-sale", "contribute",
    "finalize-sale", "resolve-sale", "claim-sale", "refund-sale", "cancel-sale", "withdraw-sale",
    "claim", "refund"]

section Actions

variable (env : AuthEnv) (context : TapContext) (handlers : AuthHandlers)

/-- One action of the loop; nothing when it is unknown. -/
def processAction (input : ProofInput) (index : ℕ) (action : Json) : TapProgram (Option Json) :=
  match (action.get "op").bind Json.asStr with
  | none => .pure none
  | some op =>
      let op := env.toLowercase op
      if op ∈ proofOps.map String.toList then handlers.process op input index action else .pure none

/-- The loop of `process_token_proof_actions`, up to the first action that fails. -/
def processActions (input : ProofInput) : ℕ → List Json → TapKv → Option (List Json) × TapKv
  | _, [], kv => (some [], kv)
  | index, action :: actions, kv =>
      match (processAction env handlers input index action).exec lengthRow kv with
      | (none, kv) => (none, kv)
      | (some action, kv) =>
          match processActions input (index + 1) actions kv with
          | (none, kv) => (none, kv)
          | (some actions, kv) => (some (action :: actions), kv)

/-- `process_token_proof_actions`: in the batch that is open, or in one of its own. -/
def processTokenProofActions (input : ProofInput) (actions : List Json) (kv : TapKv) :
    Option (Option (List Json) × TapKv) := do
  let started := kv.batch.isNone
  let kv ← if started then kv.begin else some kv
  if !featureEnabled env context .tokenAuthorityStakingUpgradeActivation then
    some (some actions, if started then kv.commit else kv)
  else
    match processActions env handlers input 0 actions kv with
    | (none, kv) => some (none, if started then kv.abort else kv)
    | (some actions, kv) => some (some actions, if started then kv.commit else kv)

/-! ### The checks of a redeem -/

/-- `eq_ignore_ascii_case` with the operation of an action. -/
def hasOp (action : Json) (ops : List String) : Bool :=
  ((action.get "op").bind Json.asStr).any fun op => op.map Char.toLower ∈ ops.map String.toList

/-- `token_proof_is_delegated_action_envelope`. -/
def isDelegatedActionEnvelope (action : Json) : Bool := hasOp action ["execute", "execute-action"]

/-- The actions of a redeem, as far as they are a list. -/
def redeemActions (redeem : Json) : Option (List Json) := (redeem.get "actions").bind Json.asArray

/-- `token_proof_delegated_only_redeem`. -/
def delegatedOnlyRedeem (redeem : Json) : Bool :=
  (redeem.get "auth").isNone &&
    (((redeem.get "items").bind Json.asArray).getD []).isEmpty &&
    (redeemActions redeem).any fun actions =>
      !actions.isEmpty && actions.all isDelegatedActionEnvelope

/-- `token_proof_post_cancel_settlement_actions`. -/
def postCancelSettlementActions (items : List Json) (redeem : Json) : Bool :=
  items.isEmpty &&
    (redeemActions redeem).any fun actions =>
      !actions.isEmpty && actions.all fun action =>
        hasOp action
          ["claim", "refund", "claim-rwd", "unstake", "claim-sale", "refund-sale", "cancel-sale",
            "resolve-sale", "finalize-sale", "withdraw-sale", "rm-liq", "ob-claim", "ob-refund",
            "ob-final", "cancel-delegation", "perp-cancel", "perp-refund", "perp-activate",
            "perp-close", "perp-liquidate", "perp-settle", "perp-claim"]

/-- One item of a redeem with its address in normal form.  Its amount is not looked at. -/
def normalizeItem (item : Json) : Option Json := do
  let tick ← (item.get "tick").bind Json.asStr
  guard (validTapTickerVisibleLen env context
    (env.visibleLength (stripPrefixForLenCheck env tick)))
  let address ← (item.get "address").bind Json.asStr
  let address := normalizeAddress env address
  guard (isValidBitcoinAddress env context address)
  some (item.set "address" (.string address))

/-- The items of a redeem, and the redeem with them in normal form. -/
def redeemItems (redeem : Json) : Option (List Json × Json) :=
  match (redeem.get "items").bind Json.asArray with
  | none => some ([], redeem)
  | some items => do
      let items ← items.mapM (normalizeItem env context)
      some (items, redeem.set "items" (.array items))

/-- The authority that an id names. -/
def authLink (rows : TapKey → Option TapRow) (auth : Text) : Option TokenAuthRecord := do
  let pointer ← (← rows { table := "tains", parts := [auth] }).asPointer
  (← rows pointer).asAuthority

/-- The public key under which an authority was signed, when its signature is valid. -/
def authPubkey (link : TokenAuthRecord) : Option Text := do
  let (ok, _, pubkey) ← env.verifySig link.sig link.hash
    (env.sha256JsonPlusSalt (.array (link.auth.map Json.string)) link.slt)
  guard ok
  some pubkey

/-- `token_proof_valid_auth_link`. -/
def validAuthLink (rows : TapKey → Option TapRow) (auth : Text) : Option TokenAuthRecord := do
  let link ← authLink rows auth
  guard (!TapRow.isText (rows { table := "tac", parts := [link.ins] }))
  let _ ← authPubkey env link
  some link

/-- `token_proof_primary_delegated_link`: all actions are delegated under one authority. -/
def primaryDelegatedLink (rows : TapKey → Option TapRow) (actions : List Json) :
    Option TokenAuthRecord := do
  let auths ← actions.mapM fun action => do
    guard (isDelegatedActionEnvelope action)
    (← (← action.get "delegation").get "auth").asStr
  let auth ← auths.head?
  guard (auths.all (· = auth))
  validAuthLink env rows auth

/-- The tickers a redeem moves are in the list its authority was signed for. -/
def whitelisted (link : TokenAuthRecord) (items : List Json) (actions : Option (List Json)) : Bool :=
  !featureEnabled env context .tokenAuthWhitelistFixActivation || link.auth.isEmpty ||
    ((items ++ (actions.getD []).filter fun action => hasOp action ["lock"]).all fun entry =>
      ((entry.get "tick").bind Json.asStr).any fun tick => tick ∈ link.auth)

/-- An action holds a control policy or a certificate that its operation has no use for. -/
def certMisplaced (action : Json) : Bool :=
  let op := env.toLowercase (action.text "op")
  (op ≠ "lock".toList && (action.get "control").isSome) ||
    (op ∉ ["claim", "refund", "perp-activate", "perp-close", "perp-liquidate",
      "perp-settle"].map String.toList && (action.get "cert").isSome)

/-- An `auth-cfg` that configures neither a pool nor a sale. -/
def configuresStaking (action : Json) : Bool :=
  env.toLowercase (action.text "op") = "auth-cfg".toList &&
    (action.get "k").bind Json.asStr ∉ [some "amm".toList, some "sale".toList]

/-- The rows of a staking configuration: the tickers that are deployed, and the configuration of an
authority. -/
def isDeployed (rows : TapKey → Option TapRow) (tick : TickKey) : Bool :=
  TapRow.isDeploy (rows { table := "d", parts := [tick] })

/-- `tap_token_authority_id`. -/
def isConfigured (rows : TapKey → Option TapRow) (ins : Text) (index : ℕ) : Bool :=
  TapRow.isConfig (rows { table := "ah", parts := [ins ++ ':' :: Nat.toDigits 10 index] })

/-- One round of the loop of `validate_token_proof_actions`. -/
def validateProofAction (rows : TapKey → Option TapRow) (link : Option TokenAuthRecord) (ins : Text)
    (earlier : List Json) (action : Json) : Run Json :=
  if certMisplaced env action then .error .refused
  else if configuresStaking env action then do
    let link ← orRefuse link
    let _ ← stakingPolicy env (isDeployed rows) (isConfigured rows ins earlier.length) link.ins action
    .ok action
  else orRefuse (handlers.validateAction rows link ins earlier action)

def validateLoop (rows : TapKey → Option TapRow) (link : Option TokenAuthRecord) (ins : Text) :
    List Json → List Json → Run (List Json)
  | _, [] => .ok []
  | earlier, action :: actions => do
      let normal ← validateProofAction env handlers rows link ins earlier action
      let rest ← validateLoop rows link ins (earlier ++ [normal]) actions
      .ok (normal :: rest)

def validateTokenProofActions (rows : TapKey → Option TapRow) (link : Option TokenAuthRecord)
    (ins : Text) (actions : List Json) : Run (List Json) :=
  if !featureEnabled env context .tokenAuthorityStakingUpgradeActivation || actions.isEmpty then
    .error .refused
  else validateLoop env handlers rows link ins [] actions

/-- A redeem that has passed its checks. -/
structure RedeemPlan where
  link : Option TokenAuthRecord
  addr : Address
  items : List Json
  actions : Option (List Json)
  redeem : Json
  sig : Json
  hash : Text
  salt : Text
  compactSig : Text

/-- The authority that a redeem names, with the checks of its key, its tickers and its cancellation. -/
def redeemLink (rows : TapKey → Option TapRow) (pubkey : Text) (plan : RedeemPlan) :
    Option TokenAuthRecord := do
  let link ← authLink rows (jsValueToString (← plan.redeem.get "auth"))
  let authPub ← authPubkey env link
  guard (env.toLowercase authPub = env.toLowercase pubkey)
  guard (whitelisted env context link plan.items plan.actions)
  guard (!TapRow.isText (rows { table := "tac", parts := [link.ins] }) ||
    (featureEnabled env context .tokenAuthorityStakingUpgradeActivation &&
      postCancelSettlementActions plan.items plan.redeem))
  some link

/-- The checks of a redeem before its actions are validated.  A redeem whose actions are all delegated
names no authority. -/
def redeemChecks (rows : TapKey → Option TapRow) (redeem sig hash salt : Json) : Option RedeemPlan := do
  guard (redeem.get "data").isSome
  -- the actions count from the activation of proofs on
  let enabled := featureEnabled env context .tokenAuthorityStakingUpgradeActivation
  let actions := (redeemActions redeem).filter fun actions => enabled && !actions.isEmpty
  let delegatedOnly := enabled && delegatedOnlyRedeem redeem
  let (items, redeem) ← redeemItems env context redeem
  guard (!items.isEmpty || actions.isSome)
  let hash ← hash.asStr
  let salt := jsValueToString salt
  let (ok, compactSig, pubkey) ← env.verifySig sig hash (env.sha256JsonPlusSalt redeem salt)
  guard ok
  guard (!TapRow.isText (rows { table := "tah", parts := [compactSig] }))
  let plan : RedeemPlan :=
    { link := none
      addr := []
      items := items
      actions := actions
      redeem := redeem
      sig := sig
      hash := hash
      salt := salt
      compactSig := compactSig }
  if delegatedOnly then some { plan with items := [] }
  else (redeemLink env context rows pubkey plan).map fun link =>
    { plan with link := some link, addr := link.addr }

/-- The part of `index_token_auth_created` before a redeem opens its batch. -/
def redeemPlan (rows : TapKey → Option TapRow) (ins : Text) (redeem sig hash salt : Json) :
    Run RedeemPlan := do
  let plan ← orRefuse (redeemChecks env context rows redeem sig hash salt)
  match plan.actions with
  | none => .ok plan
  | some actions => do
      let actions ← validateTokenProofActions env context handlers rows plan.link ins actions
      -- delegated actions redeem under the authority they name
      let link ← orRefuse (plan.link.or (primaryDelegatedLink env rows actions))
      .ok { plan with
        addr := link.addr
        actions := some actions
        redeem := plan.redeem.set "actions" (.array actions) }

/-! ### The batch of a redeem -/

/-- Send the items of a redeem.  An item without an amount ends the process. -/
def sendItems (addr : Address) (place : RecordPlace) : List Json → TapKv → Option TapKv
  | [], kv => some kv
  | item :: items, kv => do
      let amt ← item.get "amt"
      sendItems addr place items ((handlers.sendItem addr item amt place).exec lengthRow kv).2

/-- The record of a redeem, its log entries, and the replay row of its signature. -/
def recordRedeem (record : TokenAuthRedeemRecord) (compactSig : Text) : TapProgram Unit :=
  let rest := logRecord "sftr" "sftri" "ath-rdm".toList record.place (.redeem record)
    (.put { table := "tah", parts := [compactSig] } (.text []) (.pure ()))
  tapSetListRecord "tr" "tri" [record.addr] (.redeem record) fun length =>
    match length with
    | none => rest
    | some length =>
        .put { table := "trins", parts := [record.place.ins] }
          (.pointer (listItem "tri" [record.addr] (length - 1))) rest

def RedeemPlan.input (plan : RedeemPlan) (iaddr : Address) (place : RecordPlace) : ProofInput where
  link := plan.link
  iaddr := iaddr
  redeem := plan.redeem
  sig := plan.sig
  hash := plan.hash
  salt := plan.salt
  place := place

/-- The record that a redeem leaves, with its actions as they were processed. -/
def RedeemPlan.record (plan : RedeemPlan) (iaddr : Address) (place : RecordPlace)
    (processed : Option (List Json)) : TokenAuthRedeemRecord where
  addr := plan.addr
  iaddr := iaddr
  rdm := processed.elim plan.redeem fun actions => plan.redeem.set "actions" (.array actions)
  sig := plan.sig
  hash := plan.hash
  slt := plan.salt
  place := place

/-- Record the redeem and commit its batch. -/
def finishRedeem (plan : RedeemPlan) (iaddr : Address) (place : RecordPlace)
    (processed : Option (List Json)) (kv : TapKv) : TapKv :=
  ((recordRedeem (plan.record iaddr place processed) plan.compactSig).exec lengthRow kv).2.commit

/-- The batch of a redeem: the signature it used up when it was committed.  There is no result when
the process panics. -/
def performRedeem (plan : RedeemPlan) (iaddr : Address) (place : RecordPlace) (kv : TapKv) :
    Option (Option Text × TapKv) := do
  let kv ← kv.begin
  let kv ← sendItems handlers plan.addr place plan.items kv
  match plan.actions with
  | none => some (some plan.compactSig, finishRedeem plan iaddr place none kv)
  | some actions => do
      let (processed, kv) ← processTokenProofActions env context handlers (plan.input iaddr place)
        actions kv
      match processed with
      | none => some (none, kv.abort)
      | some actions =>
          some (some plan.compactSig, finishRedeem plan iaddr place (some actions) kv)

/-! ### New and moved inscriptions -/

/-- What is known of a new inscription beside its body and owner. -/
structure AuthCreated extends Created where
  outputValueSat : ℕ
  timestamp : ℕ

def AuthCreated.place (created : AuthCreated) : RecordPlace where
  blck := context.height
  tx := created.satpoint.outpoint.txid
  vo := created.satpoint.outpoint.vout
  val := some created.outputValueSat
  ins := inscriptionText created.inscriptionId
  num := created.inscriptionNumber
  ts := created.timestamp

/-- The JSON of an inscription that is a `token-auth`. -/
def tokenAuthJson (created : AuthCreated) : Option Json := do
  let json ← createdJson env context created.toCreated
  guard (env.toLowercase (json.text "p") = "tap".toList ∧
    env.toLowercase (json.text "op") = "token-auth".toList)
  some json

/-- The signature object, the hash and the salt that redeems and authorities need. -/
def signedFields (json : Json) : Option (Json × Json × Json) := do
  let sig ← json.get "sig"
  guard sig.isObject
  some (sig, ← json.get "hash", ← json.get "salt")

/-- The entry under which an inscription is kept. -/
def AuthCreated.entry (created : AuthCreated) (json : Json) (val : Option ℕ) : TokenAuthEntry where
  op := "token-auth".toList
  json := json
  place := { created.place context with val := val }
  addr := created.ownerAddress

/-- `index_token_auth_created`, with the signature of a redeem that was committed. -/
def tokenAuthCreated (created : AuthCreated) (kv : TapKv) : Option (Option Text × TapKv) :=
  match tokenAuthJson env context created with
  | none => some (none, kv)
  | some json =>
      if (json.get "cancel").isSome then
        some (none, ((accumulate "a-athc" (created.entry context json none)).exec lengthRow kv).2)
      else
        match signedFields json, json.get "redeem" with
        | none, _ => some (none, kv)
        | some (sig, hash, salt), some redeem =>
            match redeemPlan env context handlers kv.get (inscriptionText created.inscriptionId) redeem
              sig hash salt with
            | .error .refused => some (none, kv)
            | .error _ => none
            | .ok plan =>
                performRedeem env context handlers plan created.ownerAddress (created.place context) kv
        | some _, none =>
            some (none, ((accumulate "a-ath"
              (created.entry context json (some created.outputValueSat))).exec lengthRow kv).2)

/-- `index_token_auth_created`; there is no result when it panics. -/
def indexTokenAuthCreated (created : AuthCreated) (kv : TapKv) : Option TapKv :=
  (tokenAuthCreated env context handlers created kv).map Prod.snd

/-- What is known of a moved inscription beside its owner. -/
structure AuthMoved extends Moved where
  outputValueSat : ℕ
  timestamp : ℕ

/-- The authority that a kept inscription creates, and the signature it uses up. -/
def authorityRecord (rows : TapKey → Option TapRow) (moved : AuthMoved) (entry : TokenAuthEntry) :
    Option (TokenAuthRecord × Text) := do
  let sig ← entry.json.get "sig"
  let hash ← (entry.json.get "hash").bind Json.asStr
  let salt := jsValueToString (← entry.json.get "salt")
  let auth ← (entry.json.get "auth").bind Json.asArray
  let (ok, compactSig, _) ← env.verifySig sig hash (env.sha256JsonPlusSalt (.array auth) salt)
  guard ok
  guard (!TapRow.isText (rows { table := "tah", parts := [compactSig] }))
  let ticks ← auth.mapM Json.asStr
  guard (ticks.all fun tick =>
    TapRow.isDeploy (rows { table := "d", parts := [jsonStringifyLower env tick] }))
  some
    ({ addr := entry.addr
       auth := ticks
       ins := inscriptionText moved.inscriptionId
       sig := sig
       hash := hash
       slt := salt
       place :=
        { blck := context.height
          tx := moved.newSatpoint.outpoint.txid
          vo := moved.newSatpoint.outpoint.vout
          val := some moved.outputValueSat
          ins := inscriptionText moved.inscriptionId
          num := entry.place.num
          ts := moved.timestamp } }, compactSig)

/-- Write an authority, its log entries and the replay row of its signature. -/
def createAuthority (record : TokenAuthRecord) (compactSig : Text) : TapProgram Unit :=
  let rest : TapProgram Unit := .put { table := "tah", parts := [compactSig] } (.text [])
    (.del { table := "a", parts := [record.ins] } (.pure ()))
  tapSetListRecord "ta" "tai" [record.addr] (.authority record) fun length =>
    match length with
    | none => rest
    | some length =>
        .put { table := "tains", parts := [record.ins] }
          (.pointer (listItem "tai" [record.addr] (lastIndex length)))
          (logRecord "sfta" "sftai" "ath".toList record.place (.authority record) rest)

/-- Cancel the authority that a kept inscription names, when its owner is the same. -/
def cancelAuthority (rows : TapKey → Option TapRow) (entry : TokenAuthEntry) (cancel : Json)
    (key : TapKey) : TapProgram Unit :=
  match (authLink rows (jsValueToString cancel)).filter fun link => link.addr = entry.addr with
  | none => .del key (.pure ())
  | some link => .put { table := "tac", parts := [link.ins] } (.text []) (.del key (.pure ()))

/-- `index_token_auth_executed`, with the signature of the authority that was created. -/
def tokenAuthExecuted (moved : AuthMoved) (kv : TapKv) : Option Text × TapKv :=
  let key : TapKey := { table := "a", parts := [inscriptionText moved.inscriptionId] }
  match (kv.get key).bind TapRow.asAccumulator with
  | none => (none, kv)
  | some entry =>
      if moved.newSatpoint.outpoint.txid = moved.inscriptionId.txid ∨
          entry.addr ≠ moved.ownerAddress ∨ env.toLowercase entry.op ≠ "token-auth".toList then
        (none, kv)
      else
        match entry.json.get "cancel" with
        | some cancel => (none, ((cancelAuthority kv.get entry cancel key).exec lengthRow kv).2)
        | none =>
            match authorityRecord env context kv.get moved entry with
            | none => (none, kv.del key)
            | some (record, compactSig) =>
                (some compactSig, ((createAuthority record compactSig).exec lengthRow kv).2)

end Actions

/-! ### Runs -/

/-- The store, and the signatures of the redeems committed and the authorities created so far. -/
structure AuthRun where
  kv : TapKv
  signed : List Text

/-- What happens to the store: a new or a moved `token-auth`, or the writes of another handler. -/
inductive AuthStep where
  | created (context : TapContext) (handlers : AuthHandlers) (created : AuthCreated)
  | executed (context : TapContext) (moved : AuthMoved)
  | other (program : TapProgram Unit) (avoids : program.Avoids guardedKey)

/-- One step; there is none when the process panics. -/
def authStep (env : AuthEnv) (run : AuthRun) : AuthStep → Option AuthRun
  | .created context handlers created =>
      (tokenAuthCreated env context handlers created run.kv).map fun outcome =>
        { kv := outcome.2, signed := run.signed ++ outcome.1.toList }
  | .executed context moved =>
      let outcome := tokenAuthExecuted env context moved run.kv
      some { kv := outcome.2, signed := run.signed ++ outcome.1.toList }
  | .other program _ => some { run with kv := (program.exec lengthRow run.kv).2 }

end OrdDogecoin.Tap
