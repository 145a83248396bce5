/-
Module: OrdDogecoin.Drc20.Messages
Purpose: From the operations of the inscription updater to the ledger: reading an inscription as a
  DRC-20 operation, resolving the operations of a transaction along its inputs, the look-ups behind an
  execution message, and the pass over a block.  The state also keeps what was read, for the proofs.
Trusted boundary: `MessageEnv` stands for serde_json, `str::to_lowercase`, the address library and the
  node; the prefetch of satpoint transactions repeats look-ups at the node
Main exports: MessageEnv, indexBlock, drc20Protocols
-/
import OrdDogecoin.Drc20.Ledger
import OrdDogecoin.Inscriptions.Updater
import OrdDogecoin.Tap.Json

namespace OrdDogecoin.Drc20

open Chain
open Inscriptions (Inscription InscriptionOp InscriptionEntry)
open Tap (Json)

/-- The options of the DRC-20 index and what is outside of it. -/
structure MessageEnv extends Env where
  indexTransactions : Bool
  reorgEpoch : ℕ
  /-- `serde_json::from_str` to a value. -/
  parseJson : Inscriptions.Bytes → Option Json
  /-- `str::to_lowercase`. -/
  lowercase : Text → Text
  /-- `ScriptKey::from_script` on the network of the index. -/
  scriptKey : Script → ScriptKey

/-! ### Operations -/

/-- `RawOperation`, tagged by the field `op`. -/
inductive RawOperation where
  | deploy (deploy : Deploy)
  | mint (mint : Mint)
  | transfer (transfer : Transfer)
deriving DecidableEq, Repr

/-- A field of type `String`. -/
def stringField (json : Json) (key : String) : Option Text := (json.get key).bind Json.asStr

/-- A field of type `Option<String>`: `none` when it is there and neither a string nor null. -/
def optionalField (json : Json) (key : String) : Option (Option Text) :=
  match json.get key with
  | none | some .null => some none
  | some (.string text) => some (some text)
  | some _ => none

/-- `serde_json::from_value::<RawOperation>`. -/
def RawOperation.fromValue (json : Json) : Option RawOperation :=
  if stringField json "op" = some "deploy".toList then do
    let tick ← stringField json "tick"
    let maxSupply ← stringField json "max"
    let mintLimit ← optionalField json "lim"
    let decimals ← optionalField json "dec"
    some (.deploy
      { tick := tick, maxSupply := maxSupply, mintLimit := mintLimit, decimals := decimals })
  else if stringField json "op" = some "mint".toList then do
    let tick ← stringField json "tick"
    let amount ← stringField json "amt"
    some (.mint { tick := tick, amount := amount })
  else if stringField json "op" = some "transfer".toList then do
    let tick ← stringField json "tick"
    let amount ← stringField json "amt"
    some (.transfer { tick := tick, amount := amount })
  else none

section Resolve

variable (env : MessageEnv)

/-- `deserialize_drc20`. -/
def deserializeDrc20 (content : Inscriptions.Bytes) : Option RawOperation := do
  let json ← env.parseJson content
  if stringField json "p" = some "drc-20".toList then RawOperation.fromValue json else none

/-- `deserialize_drc20_operation` for a new inscription; the caller drops the error. -/
def deserializeDrc20Operation (inscription : Inscription) : Option Operation := do
  let body ← inscription.body
  if !Inscriptions.validUtf8 body || body.length < 40 || !inscription.isText then none
  else
    match ← deserializeDrc20 env body with
    | .deploy deploy => some (.deploy deploy)
    | .mint mint => some (.mint mint)
    | .transfer transfer => some (.inscribeTransfer transfer)

/-! ### Messages -/

structure Message where
  txid : Txid
  inscriptionId : InscriptionId
  oldSatpoint : SatPoint
  newSatpoint : SatPoint
  op : Operation
  satInOutputs : Bool
deriving DecidableEq, Repr

/-- The inscriptions that a transaction holds on its own. -/
def newInscriptions (tx : Transaction) : List Inscription :=
  match Inscriptions.fromTransactions [tx] with
  | .complete inscription => [inscription]
  | _ => []

/-- The DRC-20 operation that a new inscription of a transaction stands for. -/
def inscribedOperation (tx : Transaction) (id : InscriptionId) : Option Operation :=
  deserializeDrc20Operation env
    ((newInscriptions tx)[id.index]?.getD { body := none, contentType := none, delegate := none })

/-- What an operation of the inscription updater means for the ledger. -/
def ledgerOperation (inscribeTransfer : KeyTable InscriptionId TransferInfo) (tx : Transaction)
    (op : InscriptionOp) : Option Operation :=
  match op.action with
  | .new _ =>
      if op.newSatpoint.outpoint.txid = op.txid then inscribedOperation env tx op.inscriptionId
      else none
  | .transfer =>
      match inscribeTransfer.lookup op.inscriptionId with
      | none => none
      | some info =>
          -- ignore moves that are not the first
          if op.inscriptionId.txid = op.oldSatpoint.outpoint.txid then
            some (.transfer
              { tick := env.lowercase info.tick.chars, amount := (toString info.amt).toList })
          else none

def Message.resolve (inscribeTransfer : KeyTable InscriptionId TransferInfo) (tx : Transaction)
    (op : InscriptionOp) : Option Message :=
  (ledgerOperation env inscribeTransfer tx op).map fun operation =>
    { txid := op.txid
      inscriptionId := op.inscriptionId
      oldSatpoint := op.oldSatpoint
      newSatpoint := op.newSatpoint
      op := operation
      satInOutputs := op.newSatpoint.outpoint.txid = op.txid }

/-- The loops of `resolve_message` over the inputs: the operations that were read, each with its
message, and those that were not. -/
def readOperations (inscribeTransfer : KeyTable InscriptionId TransferInfo) (tx : Transaction) :
    List TxIn → List InscriptionOp → List (InscriptionOp × Option Message) × List InscriptionOp
  | [], operations => ([], operations)
  | input :: inputs, operations =>
      let here := operations.takeWhile fun op => op.oldSatpoint.outpoint = input.previousOutput
      let rest := operations.dropWhile fun op => op.oldSatpoint.outpoint = input.previousOutput
      let (read, left) := readOperations inscribeTransfer tx inputs rest
      (here.map (fun op => (op, Message.resolve env inscribeTransfer tx op)) ++ read, left)

def resolveMessage (inscribeTransfer : KeyTable InscriptionId TransferInfo) (tx : Transaction)
    (operations : List InscriptionOp) : List Message :=
  (readOperations env inscribeTransfer tx tx.input operations).1.filterMap Prod.snd

end Resolve

/-! ### Execution -/

/-- What ends the index: an error that is not a recorded rejection. -/
inductive Halt where
  /-- "failed to get inscription number! error: inscription id .. not found" -/
  | numberNotFound (id : InscriptionId)
  /-- "failed to get tx out! error: outpoint .. not found" -/
  | outpointNotFound (outpoint : OutPoint)
deriving DecidableEq, Repr

/-- The block and the tables that an execution message is made from. -/
structure Lookups where
  txdata : List Transaction
  idToEntry : KeyTable InscriptionId InscriptionEntry
  transactions : KeyTable Txid Transaction
  /-- The node's answer to `get_raw_transaction`. -/
  rawTransaction : Txid → Option Transaction

section Execute

variable (env : MessageEnv) (lookups : Lookups)

/-- The transaction behind a satpoint: of the block, stored by the transaction index, or the node's. -/
def Lookups.transaction (txid : Txid) : Option Transaction :=
  (lookups.txdata.find? fun tx => tx.txid = txid).or
    ((lookups.transactions.lookup txid).or (lookups.rawTransaction txid))

def getScriptKeyOnSatpoint (satpoint : SatPoint) : Except Halt ScriptKey :=
  match (lookups.transaction satpoint.outpoint.txid).bind fun tx =>
      tx.output[satpoint.outpoint.vout]? with
  | some output => .ok (env.scriptKey output.scriptPubkey)
  | none => .error (.outpointNotFound satpoint.outpoint)

def getInscriptionNumberById (id : InscriptionId) : Except Halt ℕ :=
  match lookups.idToEntry.lookup id with
  | some entry => .ok entry.inscriptionNumber
  | none => .error (.numberNotFound id)

def createExecutionMessage (msg : Message) : Except Halt ExecutionMessage := do
  let number ← getInscriptionNumberById lookups msg.inscriptionId
  let fromKey ← getScriptKeyOnSatpoint env lookups msg.oldSatpoint
  let toKey ←
    if msg.satInOutputs then (getScriptKeyOnSatpoint env lookups msg.newSatpoint).map some
    else .ok none
  .ok
    { txid := msg.txid
      inscriptionId := msg.inscriptionId
      inscriptionNumber := number
      newSatpoint := msg.newSatpoint
      fromKey := fromKey
      toKey := toKey
      op := msg.op }

/-- Create and execute the messages of a transaction, in order. -/
def runMessages (context : BlockContext) : List Message → Ledger → Except Halt Ledger
  | [], ledger => .ok ledger
  | msg :: messages, ledger => do
      let execution ← createExecutionMessage env lookups msg
      runMessages context messages (executeMessage env.toEnv context execution ledger)

end Execute

/-! ### Blocks -/

/-- The tables of the DRC-20 index, with the transactions that `--index-transactions` stores, and what
has been read of the operations of all blocks. -/
structure Drc20State where
  ledger : Ledger
  transactions : KeyTable Txid Transaction
  /-- The operations read so far, in order, each with the message it gave. -/
  trail : List (InscriptionOp × Option Message)
  /-- The operations of transactions other than coinbases that were never read. -/
  unread : List InscriptionOp

def Drc20State.empty : Drc20State where
  ledger := Ledger.empty
  transactions := ∅
  trail := []
  unread := []

section Block

variable (env : MessageEnv)

/-- One transaction of `index_block`; the coinbase is skipped. -/
def indexTransaction (context : BlockContext) (lookups : Lookups)
    (operations : KeyTable Txid (List InscriptionOp)) (state : Drc20State) (tx : Transaction) :
    Except Halt Drc20State :=
  if tx.isCoinbase then .ok state
  else
    let txOperations := (operations.lookup tx.txid).getD []
    let messages := resolveMessage env state.ledger.inscribeTransfer tx txOperations
    let read := readOperations env state.ledger.inscribeTransfer tx tx.input txOperations
    (runMessages env lookups context messages state.ledger).map fun ledger =>
      { state with
        ledger := ledger
        trail := state.trail ++ read.1
        unread := state.unread ++ read.2 }

/-- The transactions of a block, stored with `--index-transactions`. -/
def storeTransactions (txdata : List Transaction) (transactions : KeyTable Txid Transaction) :
    KeyTable Txid Transaction :=
  if env.indexTransactions then
    txdata.foldl (fun table tx => table.insert tx.txid tx) transactions
  else transactions

def indexBlock (rawTransaction : Txid → Option Transaction) (height : ℕ) (block : BlockData)
    (operations : KeyTable Txid (List InscriptionOp))
    (idToEntry : KeyTable InscriptionId InscriptionEntry) (state : Drc20State) :
    Except Halt Drc20State :=
  let state := { state with transactions := storeTransactions env block.txdata state.transactions }
  let context : BlockContext :=
    { blockheight := height
      blockhash := block.header.blockHash
      blocktime := block.header.time
      reorgEpoch := env.reorgEpoch }
  let lookups : Lookups :=
    { txdata := block.txdata
      idToEntry := idToEntry
      transactions := state.transactions
      rawTransaction := rawTransaction }
  block.txdata.foldlM (indexTransaction env context lookups operations) state

/-- The DRC-20 index behind the inscription updater: after an error there are no more blocks. -/
def drc20Protocols (rawTransaction : Txid → Option Transaction) (height : ℕ) (block : BlockData)
    (operations : KeyTable Txid (List InscriptionOp))
    (idToEntry : KeyTable InscriptionId InscriptionEntry) :
    Except Halt Drc20State → Except Halt Drc20State
  | .ok state => indexBlock env rawTransaction height block operations idToEntry state
  | .error halt => .error halt

end Block

/-- An inscription index that also runs the DRC-20 index. -/
def withDrc20 {K : Type} (base : Inscriptions.IndexEnv K Unit) (env : MessageEnv) :
    Inscriptions.IndexEnv K (Except Halt Drc20State) where
  tapLean := base.tapLean
  overflowChecks := base.overflowChecks
  subsidy := base.subsidy
  node := base.node
  nodeBlockContains := base.nodeBlockContains
  addressFromScript := base.addressFromScript
  dogemapStartHeight := base.dogemapStartHeight
  engine := base.engine
  protocols := drc20Protocols env fun txid => (base.node txid).map Prod.snd

end OrdDogecoin.Drc20
