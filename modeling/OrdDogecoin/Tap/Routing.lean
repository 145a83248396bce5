/-
Module: OrdDogecoin.Tap.Routing
Purpose: The rows that route a moved inscription, as the handlers write them under their keys, the two
  ways to find the handler of a move, by the index of routes and by the rows, and the moves of blocks and
  of DMT mints with their caches.
Trusted boundary: rows are the values that were encoded (no accumulator is nested 127 levels deep, which
  serde_json would not read); a batch counts as its committed writes, and
  cached list lengths as the stored ones; what the handlers write besides, under keys of other families,
  is given with the step (`CreatedOutcome`, `MovedHandlers`)
Main exports: RouteRow, tapDispatchTransferRoute, tapOnInscriptionTransferred
-/
import OrdDogecoin.Tap.RouteIndex
import OrdDogecoin.Tap.Dispatch
import OrdDogecoin.Tap.Privileges

namespace OrdDogecoin.Tap

open Chain AtomicBatch

/-! ### Rows -/

/-- The value of a row. -/
inductive RouteRow where
  | text (value : Text)
  | bitmap (record : BitmapRecord)
  | dmtMeta (record : DmtMintMetaRecord)
  | accumulator (acc : TapAccumulatorEntry)
  | json (value : Json)

namespace RouteRow

/-- `as_str` of the value; also `tap_get::<String>`. -/
def asText : RouteRow → Option Text
  | .text value => some value
  | _ => none

def asBitmap : RouteRow → Option BitmapRecord
  | .bitmap record => some record
  | _ => none

def asDmtMeta : RouteRow → Option DmtMintMetaRecord
  | .dmtMeta record => some record
  | _ => none

def asAccumulator : RouteRow → Option TapAccumulatorEntry
  | .accumulator acc => some acc
  | _ => none

end RouteRow

def dmtmhKey (id : InscriptionId) : Text := "dmtmh/".toList ++ inscriptionText id
def dmtmhmKey (id : InscriptionId) : Text := "dmtmhm/".toList ++ inscriptionText id
def dmtmhoKey (id : InscriptionId) : Text := "dmtmho/".toList ++ inscriptionText id
def prvinsKey (id : InscriptionId) : Text := "prvins/".toList ++ inscriptionText id
def tlKey (id : InscriptionId) : Text := "tl/".toList ++ inscriptionText id
def accKey (id : InscriptionId) : Text := "a/".toList ++ inscriptionText id

/-- The families of rows that a route depends on. -/
def routedFamilies : List String :=
  ["kind/", "bmh/", "bm/", "dmtmh/", "dmtmhm/", "dmtmho/", "prvins/", "tl/", "a/"]

def routed (key : Text) : Bool := routedFamilies.any fun front => (strip front key).isSome

/-- The key of the length of the history of a mint. -/
def historyLength (key : Text) : Bool := (strip "dmtmhl/" key).isSome

/-- A write under the key of another family; no value removes the row. -/
structure OtherWrite where
  key : Text
  row : Option RouteRow
  other : routed key = false
  noLength : historyLength key = false

/-- The rows, and the index of routes when there is one. -/
structure RouteState where
  rows : KeyTable Text RouteRow
  routeIndex : Option TapRouteIndex

namespace RouteState

def empty (routeIndex : Option TapRouteIndex) : RouteState := { rows := ∅, routeIndex := routeIndex }

variable (state : RouteState)

/-- `tap_put_encoded_committed`. -/
def tapPut (key : Text) (row : RouteRow) : RouteState where
  rows := state.rows.insert key row
  routeIndex := state.routeIndex.map fun index => index.observePut key row.asText

/-- `tap_del_committed`. -/
def tapDel (key : Text) : RouteState where
  rows := state.rows.erase key
  routeIndex := state.routeIndex.map fun index => index.observeDel key

/-- `tap_get::<String>`. -/
def text (key : Text) : Option Text := (state.rows.lookup key).bind RouteRow.asText

def write (other : OtherWrite) : RouteState :=
  match other.row with
  | some row => state.tapPut other.key row
  | none => state.tapDel other.key

def writeAll (others : List OtherWrite) : RouteState := others.foldl write state

/-- The length of a list after one more record, unless the stored one is no text. -/
def listLength (lengthKey : Text) : Option ℕ :=
  match state.rows.lookup lengthKey with
  | none => some 1
  | some row => row.asText.map fun text => ((parseUsize text).getD 0 + 1) % 2 ^ 64

def tapSetListRecord (lengthKey iteratorKey : Text) (row : RouteRow) : Option ℕ × RouteState :=
  match state.listLength lengthKey with
  | none => (none, state)
  | some length =>
      (some length, (state.tapPut lengthKey (.text (Nat.toDigits 10 length))).tapPut
        (listKey iteratorKey (recordIndex length)) row)

/-- `tap_set_list_record`, when the new length is not used. -/
def appendRow (lengthKey iteratorKey : Text) (row : RouteRow) : RouteState :=
  (state.tapSetListRecord lengthKey iteratorKey row).2

def withIndex (change : TapRouteIndex → TapRouteIndex) : RouteState :=
  { state with routeIndex := state.routeIndex.map change }

/-! ### Blocks -/

section Handlers

variable (env : TapEnv) (context : TapContext) (timestamp : ℕ)

/-- The record joins the history of its number, and is listed by transaction and by block. -/
def listRecord (number : ℕ) (txid : Txid) (record : BitmapRecord) (state : RouteState) : RouteState :=
  let (listLen, state) :=
    state.tapSetListRecord (bmhlKey number) (bmhliKey number) (.bitmap record)
  match listLen with
  | none => state
  | some listLen =>
      let ptr := .text (listKey (bmhliKey number) (recordIndex listLen))
      (state.appendRow (txBmKey txid) (txiBmKey txid) ptr).appendRow (blckBmKey context.height)
        (blckiBmKey context.height) ptr

/-- The number that a new inscription claims. -/
def claimedNumber (created : BitmapCreated) (state : RouteState) : Option ℕ :=
  if created.inscriptionNumber < 0 then none
  else
    created.body.bind fun body =>
      (dogemapNumber context.height body).filter fun number =>
        ((state.rows.lookup (bmKey number)).bind RouteRow.asBitmap).isNone

def indexBitmapCreated (created : BitmapCreated) (state : RouteState) : RouteState :=
  match claimedNumber context created state with
  | none => state
  | some number =>
      let record := createdRecord ⟨context.height, timestamp⟩ created number
      let state := state.tapPut (bmKey number) (.bitmap record)
      let state := state.tapPut (bmhKey created.inscriptionId) (.text (bmKey number))
      let state := listRecord context number created.satpoint.outpoint.txid record state
      let state := state.appendRow (bmlKey created.ownerAddress) (bmliKey created.ownerAddress)
        (.text (inscriptionText created.inscriptionId))
      state.tapPut (kindKey created.inscriptionId) (.text "bm".toList)

/-- The number and the owner of a moved block, as the rows have them. -/
def storedBitmap (id : InscriptionId) (routeBlock : Option ℕ) (state : RouteState) :
    Option (ℕ × Address) := do
  let number ← match routeBlock with
    | some block => some block
    | none => (state.text (bmhKey id)).bind bitmapBlockFromMapping
  let prev ← (state.rows.lookup (bmKey number)).bind RouteRow.asBitmap
  some (number, prev.ownr)

/-- The writes for a moved block. -/
def recordMovedBitmap (moved : BitmapMoved) (number entryNumber : ℕ) (prevOwner : Address)
    (state : RouteState) : RouteState :=
  let record := movedRecord ⟨context.height, timestamp⟩ moved number prevOwner entryNumber
  let owner := recordedOwner moved.ownerAddress
  let state := state.tapPut (bmKey number) (.bitmap record)
  let state := listRecord context number moved.newSatpoint.outpoint.txid record state
  let state := state.appendRow (bmlKey owner) (bmliKey owner)
    (.text (inscriptionText moved.inscriptionId))
  state.withIndex fun index => index.putBitmapHot moved.inscriptionId number owner

def indexBitmapTransferred (moved : BitmapMoved) (routeBlock : Option ℕ) (state : RouteState) :
    RouteState :=
  let hot := state.routeIndex.bind fun index => index.bitmapHot.value moved.inscriptionId
  let state := state.withIndex fun index => index.touchBitmapHot moved.inscriptionId
  let found := match hot with
    | some entry => some (entry.block, entry.currentOwner)
    | none => storedBitmap moved.inscriptionId routeBlock state
  match found, moved.entryNumber with
  | some (number, prevOwner), some entryNumber =>
      recordMovedBitmap context timestamp moved number entryNumber prevOwner state
  | _, _ => state

/-! ### DMT mints -/

/-- A DMT mint that went through its checks: what its holder record says, and the rows of balances and
logs written before and after it. -/
structure DmtMinted where
  tick : Text
  elem : Text
  dmtblck : ℕ
  blckdrp : Bool
  dep : Text
  prts : Option Text
  fail : Bool
  before : List OtherWrite
  after : List OtherWrite

/-- The record of the holder of a mint. -/
def holderJson (ownr : Text) (prv elem : Json) (tick : Text) (txid : Txid) (vout valueSat : ℕ)
    (id : InscriptionId) (num : ℤ) (dmtblck : ℕ) (blckdrp : Bool) (dep : Text) (prts : Option Text) :
    Json :=
  .object
    [("ownr".toList, .string ownr), ("prv".toList, prv), ("tick".toList, .string tick),
      ("elem".toList, elem), ("blck".toList, .number (Nat.toDigits 10 context.height)),
      ("tx".toList, .string (txidText txid)), ("vo".toList, .number (Nat.toDigits 10 vout)),
      ("val".toList, .string (Nat.toDigits 10 valueSat)),
      ("ins".toList, .string (inscriptionText id)), ("num".toList, .number (intText num)),
      ("ts".toList, .number (Nat.toDigits 10 timestamp)),
      ("dmtblck".toList, .number (Nat.toDigits 10 dmtblck)), ("blckdrp".toList, .bool blckdrp),
      ("dep".toList, .string dep), ("prts".toList, (prts.map Json.string).getD .null)]

def partsKey (family : String) (parts : List Text) : Text :=
  family.toList ++ List.intercalate ['/'] parts

/-- The lists that every holder record joins. -/
def listHolder (tickKey ptr owner : Text) (txid : Txid) (id : InscriptionId) (state : RouteState) :
    RouteState :=
  let txs := txidText txid
  let height := Nat.toDigits 10 context.height
  let state := state.appendRow (partsKey "tx/dmt-md/" [txs]) (partsKey "txi/dmt-md/" [txs]) (.text ptr)
  let state := state.appendRow (partsKey "txt/dmt-md/" [tickKey, txs])
    (partsKey "txti/dmt-md/" [tickKey, txs]) (.text ptr)
  let state := state.appendRow (partsKey "blck/dmt-md/" [height]) (partsKey "blcki/dmt-md/" [height])
    (.text ptr)
  let state := state.appendRow (partsKey "blckt/dmt-md/" [tickKey, height])
    (partsKey "blckti/dmt-md/" [tickKey, height]) (.text ptr)
  state.appendRow (partsKey "dmtmwl/" [owner]) (partsKey "dmtmwli/" [owner])
    (.text (inscriptionText id))

/-- The history of a mint begins with its holder record; its length is counted by hand here. -/
def beginHistory (id : InscriptionId) (holder : Json) (state : RouteState) : ℕ × RouteState :=
  let lenKey := partsKey "dmtmhl/" [inscriptionText id]
  let curLen := ((state.text lenKey).bind parseUsize).getD 0
  let state := state.tapPut (listKey (partsKey "dmtmhli/" [inscriptionText id]) curLen) (.json holder)
  (curLen, state.tapPut lenKey (.text (Nat.toDigits 10 (curLen + 1))))

/-- The holder record of a new mint and its pointers. -/
def recordHolder (created : BitmapCreated) (minted : DmtMinted) (state : RouteState) : RouteState :=
  let id := created.inscriptionId
  let tickKey := env.jsJsonStringifyStr minted.tick
  let holder := holderJson context timestamp created.ownerAddress .null (.string minted.elem) minted.tick
    created.satpoint.outpoint.txid created.satpoint.outpoint.vout created.outputValueSat id
    created.inscriptionNumber minted.dmtblck minted.blckdrp minted.dep minted.prts
  let state := state.tapPut (dmtmhKey id) (.json holder)
  let state := state.tapPut (partsKey "dmtmhb/" [tickKey, Nat.toDigits 10 minted.dmtblck])
    (.text (dmtmhKey id))
  let (last, state) := beginHistory id holder state
  let ptr := listKey (partsKey "dmtmhli/" [inscriptionText id]) last
  let state := listHolder context tickKey ptr created.ownerAddress created.satpoint.outpoint.txid id state
  state.tapPut (partsKey "dmt-blk/" [minted.tick, Nat.toDigits 10 minted.dmtblck]) (.text [])

/-- The rows of a new mint whose owner has an address; the ticker joins the list of the owner. -/
def recordMeta (created : BitmapCreated) (minted : DmtMinted) (state : RouteState) : RouteState :=
  let id := created.inscriptionId
  let owner := created.ownerAddress
  let tickKey := env.jsJsonStringifyStr minted.tick
  let record : DmtMintMetaRecord :=
    { tick := minted.tick
      elem := .string minted.elem
      dmtblck := minted.dmtblck
      blckdrp := minted.blckdrp
      dep := minted.dep
      prts := minted.prts
      num := created.inscriptionNumber }
  let state := state.tapPut (dmtmhmKey id) (.dmtMeta record)
  let state := state.tapPut (dmtmhoKey id) (.text owner)
  let state := state.tapPut (kindKey id) (.text "dmtmh".toList)
  if (state.text (partsKey "ato/" [owner, tickKey])).isSome then state
  else
    (state.appendRow (partsKey "atl/" [owner]) (partsKey "atli/" [owner]) (.text minted.tick)).tapPut
      (partsKey "ato/" [owner, tickKey]) (.text [])

/-- The writes of `index_dmt_mint`. -/
def recordDmtMint (created : BitmapCreated) (minted : DmtMinted) (state : RouteState) : RouteState :=
  let state := state.writeAll minted.before
  let state := if minted.fail then state else recordHolder env context timestamp created minted state
  let state :=
    if trimJsWhitespace created.ownerAddress = "-".toList || minted.fail then state
    else recordMeta env created minted state
  state.writeAll minted.after

/-- The stored record and owner of a moved mint. -/
def storedMint (id : InscriptionId) (state : RouteState) : Option (DmtMintMetaRecord × Address) := do
  let record ← (state.rows.lookup (dmtmhmKey id)).bind RouteRow.asDmtMeta
  let owner ← state.text (dmtmhoKey id)
  some (record, owner)

def recordMovedMint (moved : BitmapMoved) (record : DmtMintMetaRecord) (prevOwner : Address)
    (state : RouteState) : RouteState :=
  let id := moved.inscriptionId
  let owner := recordedOwner moved.ownerAddress
  let holder := holderJson context timestamp owner (.string prevOwner) record.elem record.tick
    moved.newSatpoint.outpoint.txid moved.newSatpoint.outpoint.vout moved.outputValueSat id record.num
    record.dmtblck record.blckdrp record.dep record.prts
  let state := state.tapPut (dmtmhKey id) (.json holder)
  let state := state.tapPut (dmtmhoKey id) (.text owner)
  let iteratorKey := partsKey "dmtmhli/" [inscriptionText id]
  match state.tapSetListRecord (partsKey "dmtmhl/" [inscriptionText id]) iteratorKey (.json holder) with
  | (none, state) => state
  | (some listLen, state) =>
      let tickKey := env.jsJsonStringifyStr (env.jsToLowercase record.tick)
      let state := listHolder context tickKey (listKey iteratorKey (listLen - 1)) owner
        moved.newSatpoint.outpoint.txid id state
      state.withIndex fun index => index.putDmtHot id record owner

def indexDmtMintTransferred (moved : BitmapMoved) (state : RouteState) : RouteState :=
  if moved.newSatpoint.outpoint.txid = moved.inscriptionId.txid then state
  else
    let hot := state.routeIndex.bind fun index => index.dmtHot.value moved.inscriptionId
    let state := state.withIndex fun index => index.touchDmtHot moved.inscriptionId
    let found := match hot with
      | some entry => some (entry.record, entry.currentOwner)
      | none => storedMint moved.inscriptionId state
    match found with
    | none => state
    | some (record, prevOwner) =>
        recordMovedMint env context timestamp moved record prevOwner state

/-! ### Creation -/

/-- What the checks of the handlers of a new inscription come to, and what they write besides: deployments
and elements; the DMT mint; the pointer of a transfer; the document of an accumulator; a verified item;
and the rows of the other handlers and of logs. -/
structure CreatedOutcome where
  earlier : List OtherWrite
  minted : Option DmtMinted
  linked : Option (Text × TickKey × ℕ)
  accumulated : Option Json
  verified : Option VerifyFields
  later : List OtherWrite

/-- The operation that a body names. -/
def tapOperation (created : BitmapCreated) : Option Text := do
  let json ← parseTapJsonValue env context (← created.body)
  if env.toLowercase (json.text "p") = "tap".toList then some (env.toLowercase (json.text "op")) else none

def ifOperation {α : Type} (op : String) (created : BitmapCreated) (outcome : Option α) : Option α :=
  if tapOperation env context created = some op.toList then outcome else none

def indexDmtMint (created : BitmapCreated) (outcome : CreatedOutcome) (state : RouteState) : RouteState :=
  match ifOperation env context "dmt-mint" created outcome.minted with
  | none => state
  | some minted => recordDmtMint env context timestamp created minted state

/-- The link of `index_token_transfer_created`. -/
def indexTokenTransferCreated (created : BitmapCreated) (outcome : CreatedOutcome) (state : RouteState) :
    RouteState :=
  match ifOperation env context "token-transfer" created outcome.linked with
  | none => state
  | some (owner, tickKey, position) =>
      (state.tapPut (tlKey created.inscriptionId)
        (.text (listKey (partsKey "atrli/" [owner, tickKey]) position))).tapPut
          (kindKey created.inscriptionId) (.text "tl".toList)

/-- The handlers that keep an operation until its inscription moves. -/
def indexAccumulatorCreated (created : BitmapCreated) (outcome : CreatedOutcome) (state : RouteState)
    (op : AccumulatedOp) : RouteState :=
  match ifOperation env context op.name created outcome.accumulated with
  | none => state
  | some json =>
      state.tapPut (accKey created.inscriptionId)
        (.accumulator { op := op.name.toList, json := json, addr := created.ownerAddress })

/-- The links of `index_privilege_verify_created`. -/
def indexPrivilegeVerifyCreated (created : BitmapCreated) (outcome : CreatedOutcome)
    (state : RouteState) : RouteState :=
  match ifOperation env context "privilege-auth" created outcome.verified with
  | none => state
  | some fields =>
      let path := "prvins/".toList ++ fields.path env
      let state := state.tapPut path (.text (inscriptionText created.inscriptionId))
      let state := state.tapPut (prvinsKey created.inscriptionId) (.text path)
      state.tapPut (kindKey created.inscriptionId) (.text "prvins".toList)

/-- The feature `Bitmap`, which begins at the height of `TapStart`. -/
def bitmapEnabled : Bool := featureEnabled env context .tapStart

/-- `tap_on_inscription_created`: claims and deployments before the start of TAP, and every operation
from then on. -/
def tapOnInscriptionCreated (created : BitmapCreated) (outcome : CreatedOutcome) (state : RouteState) :
    RouteState :=
  if !bitmapEnabled env context then state
  else
    let state := (indexBitmapCreated context timestamp created state).writeAll outcome.earlier
    if !featureEnabled env context .tapStart then state
    else
      let state := indexDmtMint env context timestamp created outcome state
      let state := indexTokenTransferCreated env context created outcome state
      let state := [.tokenSend, .tokenTrade, .tokenAuth, .privilegeAuth, .blockTransferables,
        .unblockTransferables].foldl (indexAccumulatorCreated env context created outcome) state
      (indexPrivilegeVerifyCreated env context created outcome state).writeAll outcome.later

/-! ### Moves -/

/-- What the handlers of a moved inscription write besides, as they read the rows: the transfer, unless
it returns before, the privilege, and the operations of accumulators. -/
structure MovedHandlers where
  transfer : KeyTable Text RouteRow → Option (List OtherWrite)
  privilege : KeyTable Text RouteRow → List OtherWrite
  accumulated : AccumulatedOp → KeyTable Text RouteRow → List OtherWrite

/-- `index_token_transfer_executed`: the link is emptied and the kind removed at its end. -/
def indexTokenTransferExecuted (handlers : MovedHandlers) (moved : BitmapMoved) (state : RouteState) :
    RouteState :=
  let id := moved.inscriptionId
  if moved.newSatpoint.outpoint.txid = id.txid then state
  else
    match (state.text (tlKey id)).filter (· ≠ []), handlers.transfer state.rows with
    | some _, some writes =>
        ((state.writeAll writes).tapPut (tlKey id) (.text [])).tapDel (kindKey id)
    | _, _ => state

def indexPrivilegeVerifyTransferred (handlers : MovedHandlers) (state : RouteState) : RouteState :=
  state.writeAll (handlers.privilege state.rows)

def tapExecuteAccumulatorForInscription (handlers : MovedHandlers) (moved : BitmapMoved)
    (state : RouteState) : RouteState :=
  let key := accKey moved.inscriptionId
  match (state.rows.lookup key).bind RouteRow.asAccumulator with
  | none => state
  | some acc =>
      if acc.addr ≠ moved.ownerAddress then state.tapDel key
      else
        match accumulatedOp env acc.op with
        | some op => (state.writeAll (handlers.accumulated op state.rows)).tapDel key
        | none => (state.tapDel key).tapDel key

def kind (id : InscriptionId) (state : RouteState) : Option Text := state.text (kindKey id)

def present (key : Text) (state : RouteState) : Bool := (state.rows.lookup key).isSome

/-- The block that a stored mapping names. -/
def mappedBlock (id : InscriptionId) (state : RouteState) : Option ℕ :=
  (state.text (bmhKey id)).bind bitmapBlockFromMapping

def presentRoute (id : InscriptionId) (state : RouteState) : Option TapRoute :=
  if (state.text (bmhKey id)).isSome then some (.bitmap (mappedBlock id state))
  else if present (dmtmhKey id) state then some .dmtMint
  else if present (prvinsKey id) state then some .privilege
  else if (state.text (tlKey id)).any fun link => link ≠ [] then some .transferLink
  else none

/-- The route of a kind, if it is one of the four. -/
def kindRoute (id : InscriptionId) (kind : Text) (state : RouteState) : Option TapRoute :=
  (routeOfKind kind).map fun
    | .bitmap _ => .bitmap (mappedBlock id state)
    | route => route

def tapClassifyTransferRouteSlow (id : InscriptionId) (state : RouteState) : Option TapRoute :=
  let route := match kind id state with
    | some kind => kindRoute id kind state
    | none => presentRoute id state
  route <|> if ((state.rows.lookup (accKey id)).bind RouteRow.asAccumulator).isSome then
    some .accumulator else none

def tapDispatchTransferRoute (handlers : MovedHandlers) (moved : BitmapMoved) (state : RouteState) :
    TapRoute → RouteState
  | .bitmap block => indexBitmapTransferred context timestamp moved block state
  | .dmtMint => indexDmtMintTransferred env context timestamp moved state
  | .privilege => indexPrivilegeVerifyTransferred handlers state
  | .transferLink => indexTokenTransferExecuted handlers moved state
  | .accumulator => tapExecuteAccumulatorForInscription env handlers moved state

/-- `tap_dispatch_transfer_slow`: by the stored kind, or by the rows there are, which stores the kind. -/
def tapDispatchTransferSlow (handlers : MovedHandlers) (moved : BitmapMoved) (state : RouteState) :
    RouteState :=
  let id := moved.inscriptionId
  let run := tapDispatchTransferRoute env context timestamp handlers moved
  match kind id state with
  | some kind =>
      match routeOfKind kind with
      | some route => run state route
      | none => run state .accumulator
  | none =>
      let hinted (kind : String) := state.tapPut (kindKey id) (.text kind.toList)
      if present (bmhKey id) state then run (hinted "bm") (.bitmap none)
      else if present (dmtmhKey id) state then run (hinted "dmtmh") .dmtMint
      else if present (prvinsKey id) state then run (hinted "prvins") .privilege
      else if (state.text (tlKey id)).any fun link => link ≠ [] then run (hinted "tl") .transferLink
      else run state .accumulator

/-- The dispatch of `tap_on_inscription_transferred`: by the route when the index has one, by the rows
when it is not ready, and not at all when it is ready and has none.  With `verify`, the route is compared
with the one by the rows, which then also decide; a difference panics. -/
def tapDispatchTransfer (verify : Bool) (handlers : MovedHandlers) (moved : BitmapMoved)
    (state : RouteState) : Option RouteState :=
  let slow := tapDispatchTransferSlow env context timestamp handlers moved state
  match state.routeIndex with
  | none => some slow
  | some index =>
      let route := index.routeFor moved.inscriptionId
      if verify && index.ready then
        if route = tapClassifyTransferRouteSlow moved.inscriptionId state then some slow else none
      else
        match route with
        | some route =>
            some (tapDispatchTransferRoute env context timestamp handlers moved state route)
        | none => if index.ready then some state else some slow

def tapOnInscriptionTransferred (verify : Bool) (handlers : MovedHandlers) (moved : BitmapMoved)
    (state : RouteState) : Option RouteState :=
  if !bitmapEnabled env context then some state
  else if !featureEnabled env context .tapStart then
    some (indexBitmapTransferred context timestamp moved none state)
  else tapDispatchTransfer env context timestamp verify handlers moved state

end Handlers

end RouteState

end OrdDogecoin.Tap
