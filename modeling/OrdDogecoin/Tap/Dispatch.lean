/-
Module: OrdDogecoin.Tap.Dispatch
Purpose: How an inscribed TAP operation is kept until its inscription moves and then runs: the link
  `tl/<id>` of a transfer, the accumulator `a/<id>` of the other operations, and the stored kind that
  routes a move.
Trusted boundary: handlers that write neither links nor accumulators are given by what they do
  (`CreatedEffects`, `MovedEffects`); blocked addresses are part of the context of each step; the route
  index is never built
Main exports: Kind, tapExecuteAccumulatorForInscription, tapOnInscriptionTransferred
-/
import OrdDogecoin.Tap.Trades

namespace OrdDogecoin.Tap

open Chain TapHandler

/-- `kind/<inscription>`. -/
inductive Kind where
  | bm
  | dmtmh
  | prvins
  | tl
deriving DecidableEq, Repr

/-- The token rows, and the rows that route a move. -/
structure OpStore where
  tap : TapStore
  kind : KeyTable InscriptionId Kind
  bmh : KeyTable InscriptionId Unit
  prvins : KeyTable InscriptionId Unit

def OpStore.empty : OpStore := { tap := .empty, kind := ∅, bmh := ∅, prvins := ∅ }

/-- What a handler does that writes neither links nor accumulators; a deployment stays. -/
def unlinked (effect : TapStore → TapStore) (store : TapStore) : TapStore :=
  { effect store with
    d := store.d ∪ (effect store).d
    tl := store.tl
    atrli := store.atrli
    a := store.a
    dmtmh := store.dmtmh }

/-- The other handlers of a new inscription: those before its transfer, whether it claims a block or is
a DMT mint, a redeem and a DMT deployment, and whether it is a verified privilege. -/
structure CreatedEffects where
  earlier : TapStore → TapStore
  claimed : Bool
  minted : Option DmtHolderRecord
  redeemed : TapStore → TapStore
  verified : Bool

/-- The executed handlers of the two kinds of authorities. -/
structure MovedEffects where
  tokenAuth : TapStore → TapStore
  privilegeAuth : TapStore → TapStore

section Handlers

variable (env : TapEnv) (context : TapContext)

/-! ### Creation -/

/-- A handler that keeps its operation until the inscription moves. -/
def indexAccumulatorCreated (op : String) (accepts : Json → Bool) (created : Created) :
    TapHandler Unit := do
  let json ← get (createdJson env context created)
  require (env.toLowercase (json.text "p") = "tap".toList &&
    env.toLowercase (json.text "op") = op.toList)
  require (accepts json)
  Proc.write (putAccumulator created op json)

/-- What `index_token_auth_created` keeps: a cancel, or an authority that is no redeem. -/
def tokenAuthAccumulates (json : Json) : Bool :=
  (json.get "cancel").isSome ||
    (((json.get "sig").map Json.isObject).getD false && (json.get "hash").isSome &&
      (json.get "salt").isSome && (json.get "redeem").isNone)

def linkTokenAuthCreated : Created → TapHandler Unit :=
  indexAccumulatorCreated env context "token-auth" tokenAuthAccumulates

/-- What `index_privilege_auth_created` keeps: a cancel, or an authority with a name. -/
def privilegeAuthAccumulates (json : Json) : Bool :=
  (json.get "cancel").isSome ||
    (((json.get "sig").map Json.isObject).getD false && (json.get "hash").isSome &&
      (json.get "salt").isSome && ((json.get "auth").map Json.isObject).getD false &&
      (((json.get "auth").bind (·.get "name")).bind Json.asStr).isSome)

def indexPrivilegeAuthCreated : Created → TapHandler Unit :=
  indexAccumulatorCreated env context "privilege-auth" privilegeAuthAccumulates

def indexBlockTransferablesCreated : Created → TapHandler Unit :=
  indexAccumulatorCreated env context "block-transferables" fun _ => true

def indexUnblockTransferablesCreated : Created → TapHandler Unit :=
  indexAccumulatorCreated env context "unblock-transferables" fun _ => true

/-- The handlers that come before the transfer: a claimed block and a DMT mint mark the inscription. -/
def earlierCreated (effects : CreatedEffects) (id : InscriptionId) (state : OpStore) : OpStore :=
  let tap := unlinked effects.earlier state.tap
  let state := { state with tap := tap }
  let state :=
    if effects.claimed then
      { state with bmh := state.bmh.insert id (), kind := state.kind.insert id .bm }
    else state
  match effects.minted with
  | none => state
  | some holder =>
      { state with
        tap := { state.tap with dmtmh := state.tap.dmtmh.insert (inscriptionText id) holder }
        kind := state.kind.insert id .dmtmh }

/-- `index_token_transfer_created`, with the kind that goes with a new link. -/
def transferCreated (created : Created) (state : OpStore) : OpStore :=
  let tap := (indexTokenTransferCreated env context created).after state.tap
  let linked := tap.tl.lookup created.inscriptionId ≠ state.tap.tl.lookup created.inscriptionId
  { state with
    tap := tap
    kind := if linked then state.kind.insert created.inscriptionId .tl else state.kind }

/-- The handlers that keep an accumulator, in their order. -/
def accumulatorsCreated (effects : CreatedEffects) (created : Created) (store : TapStore) : TapStore :=
  let store := (indexTokenSendCreated env context created).after store
  let store := (indexTokenTradeCreated env context created).after store
  let store := (linkTokenAuthCreated env context created).after store
  let store := unlinked effects.redeemed store
  let store := (indexPrivilegeAuthCreated env context created).after store
  let store := (indexBlockTransferablesCreated env context created).after store
  (indexUnblockTransferablesCreated env context created).after store

/-- `tap_on_inscription_created`; before the start of TAP there are claims and deployments only. -/
def tapOnInscriptionCreated (effects : CreatedEffects) (created : Created) (state : OpStore) :
    OpStore :=
  let id := created.inscriptionId
  if !featureEnabled env context .tapStart then
    earlierCreated { effects with minted := none } id state
  else
    let state := transferCreated env context created (earlierCreated effects id state)
    let state := { state with tap := accumulatorsCreated env context effects created state.tap }
    if effects.verified then
      { state with prvins := state.prvins.insert id (), kind := state.kind.insert id .prvins }
    else state

/-! ### Moves -/

/-- `index_token_transfer_executed`, with the kind that goes with the link. -/
def transferExecuted (moved : Moved) (state : OpStore) : OpStore :=
  let tap := (indexTokenTransferExecuted env context moved).after state.tap
  let cleared := tap.tl.lookup moved.inscriptionId ≠ state.tap.tl.lookup moved.inscriptionId
  { state with
    tap := tap
    kind := if cleared then state.kind.erase moved.inscriptionId else state.kind }

/-- The operations that are kept in an accumulator. -/
inductive AccumulatedOp where
  | tokenSend
  | tokenTrade
  | tokenAuth
  | privilegeAuth
  | blockTransferables
  | unblockTransferables
deriving DecidableEq, Repr

def AccumulatedOp.name : AccumulatedOp → String
  | .tokenSend => "token-send"
  | .tokenTrade => "token-trade"
  | .tokenAuth => "token-auth"
  | .privilegeAuth => "privilege-auth"
  | .blockTransferables => "block-transferables"
  | .unblockTransferables => "unblock-transferables"

/-- The operation that an accumulator names. -/
def accumulatedOp (text : Text) : Option AccumulatedOp :=
  [.tokenSend, .tokenTrade, .tokenAuth, .privilegeAuth, .blockTransferables,
    .unblockTransferables].find? fun op => op.name.toList = env.toLowercase text

/-- The executed handler of an operation.  Those of authorities and blocks return in the transaction
of the inscription; what a block changes is no row of the tokens. -/
def executedHandler (effects : MovedEffects) (moved : Moved) (store : TapStore) :
    AccumulatedOp → TapStore
  | .tokenSend => (indexTokenSendExecuted env context moved).after store
  | .tokenTrade => (indexTokenTradeExecuted env context moved).after store
  | .tokenAuth =>
      if moved.newSatpoint.outpoint.txid = moved.inscriptionId.txid then store
      else unlinked effects.tokenAuth store
  | .privilegeAuth =>
      if moved.newSatpoint.outpoint.txid = moved.inscriptionId.txid then store
      else unlinked effects.privilegeAuth store
  | .blockTransferables => store
  | .unblockTransferables => store

def dropAccumulator (id : InscriptionId) (store : TapStore) : TapStore :=
  { store with a := store.a.erase id }

def tapExecuteAccumulatorForInscription (effects : MovedEffects) (moved : Moved) (store : TapStore) :
    TapStore :=
  match store.a.lookup moved.inscriptionId with
  | none => store
  | some acc =>
      if acc.addr ≠ moved.ownerAddress then dropAccumulator moved.inscriptionId store
      else
        let store := match accumulatedOp env acc.op with
          | some op => executedHandler env context effects moved store op
          | none => dropAccumulator moved.inscriptionId store
        dropAccumulator moved.inscriptionId store

/-- `tap_dispatch_transfer_slow`.  The routes of blocks, DMT mints and privileges write rows that no
other route reads. -/
def tapDispatchTransferSlow (effects : MovedEffects) (moved : Moved) (state : OpStore) : OpStore :=
  let id := moved.inscriptionId
  match state.kind.lookup id with
  | some .bm => state
  | some .dmtmh => state
  | some .prvins => state
  | some .tl => transferExecuted env context moved state
  | none =>
      if (state.bmh.lookup id).isSome then { state with kind := state.kind.insert id .bm }
      else if (state.tap.dmtmh.lookup (inscriptionText id)).isSome then
        { state with kind := state.kind.insert id .dmtmh }
      else if (state.prvins.lookup id).isSome then { state with kind := state.kind.insert id .prvins }
      else
        match state.tap.tl.lookup id with
        | some (some _) =>
            transferExecuted env context moved { state with kind := state.kind.insert id .tl }
        | _ =>
            { state with
              tap := tapExecuteAccumulatorForInscription env context effects moved state.tap }

def tapOnInscriptionTransferred (effects : MovedEffects) (moved : Moved) (state : OpStore) : OpStore :=
  if !featureEnabled env context .tapStart then state
  else tapDispatchTransferSlow env context effects moved state

end Handlers

end OrdDogecoin.Tap
