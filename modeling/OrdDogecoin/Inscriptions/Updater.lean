/-
Module: OrdDogecoin.Inscriptions.Updater
Purpose: The inscription updater: the input values and inscriptions of a transaction, the envelope at
  offset zero, the assignment of inscriptions to outputs, and what the fees carry to the coinbase,
  in both modes of the index.
Trusted boundary: `IndexEnv` stands for the node, the address encoding, the TAP handlers and the
  other protocols; sums of valid amounts stay below 2^64 and are added as naturals; `index_sats` is off
Main exports: Tables, updateInscriptionLocation, indexTransactionInscriptions
-/
import OrdDogecoin.Inscriptions.Envelope
import OrdDogecoin.Lib.KeyTable
import Mathlib.Data.List.Sort

namespace OrdDogecoin.Inscriptions

open Chain

/-! ### Tables -/

/-- `InscriptionEntry`, less the sat and the sequence number, which are constant without the sat
index. -/
structure InscriptionEntry where
  fee : ℕ
  height : ℕ
  inscriptionNumber : ℕ
  timestamp : ℕ
deriving DecidableEq, Repr

/-- The tables of the index.  `K` is the content of `TAP_KV`, `P` the tables of DRC-20 and dunes. -/
structure Tables (K P : Type) where
  satpointToId : KeyTable SatPoint InscriptionId
  idToSatpoint : KeyTable InscriptionId SatPoint
  idToEntry : KeyTable InscriptionId InscriptionEntry
  numberToId : KeyTable ℕ InscriptionId
  idToTxids : KeyTable InscriptionId (List Txid)
  txidToTx : KeyTable Txid Transaction
  partialTxidToTxids : KeyTable Txid (List Txid)
  outpointToValue : KeyTable OutPoint ℕ
  lostSats : ℕ
  /-- The row `TAP_LEAN_NEXT_NUMBER_KEY` of `TAP_KV`. -/
  leanNextNumber : ℕ
  /-- The number of rows of `HEIGHT_TO_BLOCK_HASH`. -/
  height : ℕ
  tapKv : K
  protocols : P

inductive Origin where
  | new (fee : ℕ) (inscription : Inscription)
  | old (satpoint : SatPoint)
deriving DecidableEq, Repr

/-- An inscription on its way to a new location. -/
structure Flotsam where
  txid : Txid
  inscriptionId : InscriptionId
  offset : ℕ
  oldSatpoint : SatPoint
  origin : Origin
deriving DecidableEq, Repr

inductive Action where
  | transfer
  | new (inscription : Inscription)
deriving DecidableEq, Repr

/-- What the DRC-20 updater is told of a move. -/
structure InscriptionOp where
  txid : Txid
  inscriptionNumber : Option ℕ
  inscriptionId : InscriptionId
  action : Action
  oldSatpoint : SatPoint
  newSatpoint : SatPoint
deriving DecidableEq, Repr

abbrev AvailabilityCache := KeyTable InscriptionId Bool

/-- The updater of one block over the open tables. -/
structure Updater (K P : Type) extends Tables K P where
  /-- Values of outputs since the last commit, with the flag that lean replay persists. -/
  valueCache : KeyTable OutPoint (ℕ × Bool)
  flotsam : List Flotsam
  operations : KeyTable Txid (List InscriptionOp)
  nextNumber : ℕ
  reward : ℕ
  blockAvailabilityCache : AvailabilityCache
  tapPrefetched : List OutPoint

/-! ### The TAP engine -/

/-- What a TAP handler does: it may ask whether an inscription is available and for the entry of an
inscription, and ends with the new content of `TAP_KV`. -/
inductive TapCall (K : Type) where
  | done (kv : K)
  | ordinalAvailable (id : InscriptionId) (next : Bool → TapCall K)
  | entry (id : InscriptionId) (next : Option InscriptionEntry → TapCall K)

/-- The arguments of `tap_on_inscription_created` behind the delegate. -/
structure TapCreated where
  inscriptionId : InscriptionId
  inscriptionNumber : ℕ
  satpoint : SatPoint
  payload : Inscription
  ownerAddress : String
  outputValueSat : ℕ

/-- The arguments of `tap_on_inscription_transferred`. -/
structure TapTransferred where
  inscriptionId : InscriptionId
  newSatpoint : SatPoint
  ownerAddress : String
  outputValueSat : ℕ

/-- A block, as the handlers see it. -/
structure BlockContext (K P : Type) where
  height : ℕ
  timestamp : ℕ
  /-- What a fresh read transaction sees. -/
  committed : Tables K P

/-- The handlers of all TAP operations, at a height and block time. -/
structure TapEngine (K : Type) where
  header : ℕ → BlockHeader → ℕ → K → K
  created : ℕ → ℕ → TapCreated → K → TapCall K
  transferred : ℕ → ℕ → TapTransferred → K → TapCall K

/-- The options of the index and what is outside of it. -/
structure IndexEnv (K P : Type) where
  tapLean : Bool
  /-- The build option: an underflow panics, or wraps around. -/
  overflowChecks : Bool
  subsidy : ℕ → ℕ
  /-- What the node knows of a transaction: the height of its block, and the transaction. -/
  node : Txid → Option (ℕ × Transaction)
  /-- Whether the node's block at a height has the transaction. -/
  nodeBlockContains : ℕ → Txid → Bool
  addressFromScript : Script → Option String
  dogemapStartHeight : ℕ
  engine : TapEngine K
  protocols : ℕ → BlockData → KeyTable Txid (List InscriptionOp) →
    KeyTable InscriptionId InscriptionEntry → P → P

variable {K P : Type} (env : IndexEnv K P)

def IndexEnv.nodeValue (outpoint : OutPoint) : Option ℕ := do
  let (_, tx) ← env.node outpoint.txid
  let output ← tx.output[outpoint.vout]?
  some output.value

/-- `a - b` in `u64`: `none` when it panics. -/
def IndexEnv.sub (a b : ℕ) : Option ℕ :=
  if b ≤ a then some (a - b)
  else if env.overflowChecks then none
  else some ((a + 2 ^ 64 - b) % 2 ^ 64)

/-- `total += a - b` in `u64`.  Only a total of lean replay, which may have wrapped around, overflows. -/
def IndexEnv.addSub (total a b : ℕ) : Option ℕ :=
  if b ≤ a ∧ (env.tapLean = false ∨ total + (a - b) < 2 ^ 64) then some (total + (a - b))
  else if env.overflowChecks then none
  else some ((total + a + 2 ^ 64 - b) % 2 ^ 64)

/-- `total += amount` in `u64`, for the lost sats. -/
def IndexEnv.add (total amount : ℕ) : ℕ :=
  if env.tapLean then (total + amount) % 2 ^ 64 else total + amount

/-- `total + offset - base` in `u64`, where `base` is at most `offset`.  A total of lean replay may have
wrapped around; otherwise the three are amounts of one block, and no sum overflows. -/
def IndexEnv.behind (total offset base : ℕ) : ℕ :=
  if env.tapLean then (total + offset + 2 ^ 64 - base) % 2 ^ 64 else total + offset - base

/-- `Index::get_inscription_by_id` on the tables of a read transaction. -/
def getInscriptionById (tables : Tables K P) (id : InscriptionId) : Option Inscription := do
  let _ ← tables.idToSatpoint.lookup id
  let txids ← tables.idToTxids.lookup id
  let txs ← txids.mapM fun txid => tables.txidToTx.lookup txid
  match fromTransactions txs with
  | .complete inscription => some inscription
  | _ => none

/-- The payload that a new inscription stands for: its delegate's, one level deep.  `none` for a
nested delegate.  The caches of the source repeat look-ups in committed tables, which do not change
while a block is indexed. -/
def effectivePayload (committed : Tables K P) (payload : Inscription) : Option Inscription :=
  match payload.delegateId with
  | none => some payload
  | some delegate =>
      match getInscriptionById committed delegate with
      | none => some payload
      | some inscription => if inscription.delegateId.isSome then none else some inscription

def tapLeanInscriptionOnChain (id : InscriptionId) (height : ℕ) : Bool :=
  id.index = 0 &&
    match env.node id.txid with
    | none => false
    | some (txHeight, tx) => txHeight ≤ height && fromTransactions [tx] ≠ .none

/-- `id_in_current_block`, which asks for a committed block. -/
def idInCurrentBlock (context : BlockContext K P) (id : InscriptionId) : Bool :=
  context.height < context.committed.height && env.nodeBlockContains context.height id.txid &&
    id.index = 0

/-- `ordinal_available` without its cache. -/
def ordinalFound (context : BlockContext K P) (updater : Updater K P) (id : InscriptionId) : Bool :=
  (updater.idToEntry.lookup id).isSome || (updater.idToSatpoint.lookup id).isSome ||
    updater.flotsam.any (fun flotsam => flotsam.inscriptionId = id) ||
    idInCurrentBlock env context id ||
    (env.tapLean && tapLeanInscriptionOnChain env id context.height)

/-- `ordinal_available`: an answer stays the same for the rest of the block. -/
def ordinalAvailable (context : BlockContext K P) (updater : Updater K P) (id : InscriptionId)
    (cache : AvailabilityCache) : Bool × AvailabilityCache :=
  match cache.lookup id with
  | some hit => (hit, cache)
  | none =>
      let found := ordinalFound env context updater id
      (found, cache.insert id found)

/-- Run a handler over the tables of the updater. -/
def TapCall.run (available : InscriptionId → AvailabilityCache → Bool × AvailabilityCache)
    (entryOf : InscriptionId → Option InscriptionEntry) :
    TapCall K → AvailabilityCache → K × AvailabilityCache
  | .done kv, cache => (kv, cache)
  | .ordinalAvailable id next, cache =>
      (next (available id cache).1).run available entryOf (available id cache).2
  | .entry id next, cache => (next (entryOf id)).run available entryOf cache

/-- The owner address and value that TAP sees: "-" for a lost inscription, an OP_RETURN output and a
script without address. -/
def tapOwner (tx : Transaction) (satpoint : SatPoint) : String × ℕ :=
  if satpoint.outpoint = OutPoint.null then ("-", 0)
  else
    match tx.output[satpoint.outpoint.vout]? with
    | none => ("-", 0)
    | some output =>
        if output.scriptPubkey.head? = some 0x6a then ("-", output.value)
        else ((env.addressFromScript output.scriptPubkey).getD "-", output.value)

/-- The handler that `update_inscription_location` calls, if it gets that far. -/
def tapHandler (context : BlockContext K P) (tx : Transaction) (flotsam : Flotsam)
    (satpoint : SatPoint) (number : ℕ) (kv : K) : TapCall K :=
  let (owner, value) := tapOwner env tx satpoint
  if context.height < env.dogemapStartHeight then .done kv
  else
    match flotsam.origin with
    | .old _ =>
        env.engine.transferred context.height context.timestamp
          { inscriptionId := flotsam.inscriptionId
            newSatpoint := satpoint
            ownerAddress := owner
            outputValueSat := value } kv
    | .new _ inscription =>
        match effectivePayload context.committed inscription with
        | none => .done kv
        | some payload =>
            if !payload.isText then .done kv
            else
              env.engine.created context.height context.timestamp
                { inscriptionId := flotsam.inscriptionId
                  inscriptionNumber := min number (2 ^ 31 - 1)
                  satpoint := satpoint
                  payload := payload
                  ownerAddress := owner
                  outputValueSat := value } kv

/-- The TAP hooks of `update_inscription_location`. -/
def tapHook (context : BlockContext K P) (tx : Transaction) (flotsam : Flotsam)
    (satpoint : SatPoint) (updater : Updater K P) : Updater K P :=
  let (kv, cache) :=
    (tapHandler env context tx flotsam satpoint (updater.nextNumber - 1) updater.tapKv).run
      (ordinalAvailable env context updater) (fun id => updater.idToEntry.lookup id)
      updater.blockAvailabilityCache
  { updater with tapKv := kv, blockAvailabilityCache := cache }

/-! ### Locations -/

/-- Whether the index keeps number, entry and content of a new inscription. -/
def IndexEnv.keeps (inscription : Inscription) : Bool := !env.tapLean || tapLeanKeepsContent inscription

/-- Leave the old location, or number and enter a new inscription. -/
def leaveOldLocation (context : BlockContext K P) (flotsam : Flotsam) (updater : Updater K P) :
    Updater K P :=
  match flotsam.origin with
  | .old satpoint => { updater with satpointToId := updater.satpointToId.erase satpoint }
  | .new fee inscription =>
      let entry : InscriptionEntry :=
        { fee := fee
          height := context.height
          inscriptionNumber := updater.nextNumber
          timestamp := context.timestamp }
      let updater :=
        if env.keeps inscription then
          { updater with
            numberToId := updater.numberToId.insert updater.nextNumber flotsam.inscriptionId
            idToEntry := updater.idToEntry.insert flotsam.inscriptionId entry }
        else updater
      { updater with nextNumber := updater.nextNumber + 1 }

/-- Tell the DRC-20 updater. -/
def recordOperation (flotsam : Flotsam) (satpoint : SatPoint) (updater : Updater K P) :
    Updater K P :=
  let op : InscriptionOp :=
    { txid := flotsam.txid
      inscriptionNumber :=
        (updater.idToEntry.lookup flotsam.inscriptionId).map InscriptionEntry.inscriptionNumber
      inscriptionId := flotsam.inscriptionId
      action :=
        match flotsam.origin with
        | .old _ => .transfer
        | .new _ inscription => .new inscription
      oldSatpoint := flotsam.oldSatpoint
      newSatpoint := satpoint }
  { updater with
    operations := updater.operations.insert flotsam.txid
      ((updater.operations.lookup flotsam.txid).getD [] ++ [op]) }

/-- Enter the new location.  Lean replay keeps the way back only for inscriptions with an entry. -/
def enterNewLocation (flotsam : Flotsam) (satpoint : SatPoint) (updater : Updater K P) :
    Updater K P :=
  { updater with
    satpointToId := updater.satpointToId.insert satpoint flotsam.inscriptionId
    idToSatpoint :=
      if !env.tapLean || (updater.idToEntry.lookup flotsam.inscriptionId).isSome then
        updater.idToSatpoint.insert flotsam.inscriptionId satpoint
      else updater.idToSatpoint }

def updateInscriptionLocation (context : BlockContext K P) (tx : Transaction) (flotsam : Flotsam)
    (satpoint : SatPoint) (updater : Updater K P) : Updater K P :=
  enterNewLocation env flotsam satpoint
    (tapHook env context tx flotsam satpoint
      (recordOperation flotsam satpoint (leaveOldLocation env context flotsam updater)))

/-! ### Inputs -/

def inscriptionsOnOutput (satpointToId : KeyTable SatPoint InscriptionId) (outpoint : OutPoint) :
    List (SatPoint × InscriptionId) :=
  ((satpointToId.entries.filter fun row => row.1.outpoint = outpoint).map fun row =>
    (row.1, row.2)).insertionSort fun a b => a.1.offset ≤ b.1.offset

def tapLeanMayInscribe (partialTxidToTxids : KeyTable Txid (List Txid)) (tx : Transaction) : Bool :=
  match tx.input with
  | [] => false
  | first :: _ =>
      (partialTxidToTxids.lookup first.previousOutput.txid).isSome || fromTransactions [tx] ≠ .none

def carriesInscription (satpointToId : KeyTable SatPoint InscriptionId) (input : TxIn) : Bool :=
  input.previousOutput ≠ OutPoint.null &&
    !(inscriptionsOnOutput satpointToId input.previousOutput).isEmpty

def tapLeanTxRelevant (tables : Tables K P) (tx : Transaction) : Bool :=
  tx.input.any (carriesInscription tables.satpointToId) ||
    tapLeanMayInscribe tables.partialTxidToTxids tx

/-- The value of an input: from the cache, the table, or the node.  Lean replay counts an unknown
input of an irrelevant transaction as zero. -/
def inputValueOf (relevant : Bool) (outpoint : OutPoint) (updater : Updater K P) :
    Option (ℕ × Updater K P) :=
  match updater.valueCache.lookup outpoint with
  | some (value, _) =>
      some (value, { updater with valueCache := updater.valueCache.erase outpoint })
  | none =>
      match updater.outpointToValue.lookup outpoint with
      | some value =>
          some (value, { updater with outpointToValue := updater.outpointToValue.erase outpoint })
      | none =>
          if !env.tapLean || outpoint ∈ updater.tapPrefetched then
            (env.nodeValue outpoint).map fun value =>
              (value, { updater with tapPrefetched := updater.tapPrefetched.erase outpoint })
          else if relevant then (env.nodeValue outpoint).map fun value => (value, updater)
          else some (0, updater)

/-- The inscriptions on an input, behind `inputValue` sats of the inputs before. -/
def inputFlotsam (updater : Updater K P) (txid : Txid) (inputValue : ℕ) (outpoint : OutPoint) :
    List Flotsam :=
  (inscriptionsOnOutput updater.satpointToId outpoint).map fun (satpoint, id) =>
    { txid := txid
      inscriptionId := id
      offset := inputValue + satpoint.offset
      oldSatpoint := satpoint
      origin := .old satpoint }

/-- The loop over the inputs: their total value and the inscriptions on them. -/
def takeInputs (context : BlockContext K P) (relevant : Bool) (txid : Txid) :
    List TxIn → ℕ → Updater K P → Option (ℕ × List Flotsam × Updater K P)
  | [], inputValue, updater => some (inputValue, [], updater)
  | input :: inputs, inputValue, updater =>
      if input.previousOutput = OutPoint.null then
        takeInputs context relevant txid inputs (inputValue + env.subsidy context.height) updater
      else do
        let found := inputFlotsam updater txid inputValue input.previousOutput
        let (value, updater) ← inputValueOf env relevant input.previousOutput updater
        let (total, rest, updater) ←
          takeInputs context relevant txid inputs (inputValue + value) updater
        some (total, found ++ rest, updater)

/-! ### Envelopes -/

/-- The chain of partial reveals that a transaction continues. -/
def partialChain (tables : Tables K P) (tx : Transaction) : List Txid :=
  match tx.input with
  | [] => []
  | first :: _ => (tables.partialTxidToTxids.lookup first.previousOutput.txid).getD []

/-- The parse of a transaction behind the chain it continues; `none` for a panic. -/
def parsedEnvelope (tables : Tables K P) (tx : Transaction) : Option ParsedInscription := do
  if tx.input.isEmpty then none
  else
    let txs ← (partialChain tables tx).mapM fun txid => tables.txidToTx.lookup txid
    some (fromTransactions (txs ++ [tx]))

/-- The tables after a partial reveal: the chain is now keyed by this transaction. -/
def continueChain (previous : Txid) (tx : Transaction) (updater : Updater K P) : Updater K P :=
  { updater with
    partialTxidToTxids :=
      (updater.partialTxidToTxids.erase previous).insert tx.txid
        (partialChain updater.toTables tx ++ [tx.txid])
    txidToTx := updater.txidToTx.insert tx.txid tx }

/-- The id of the inscription that a chain completes: its first reveal. -/
def chainId (tables : Tables K P) (tx : Transaction) : InscriptionId :=
  { txid := (partialChain tables tx ++ [tx.txid]).headD 0, index := 0 }

/-- The tables after a complete reveal: its content is kept, or dropped by lean replay. -/
def completeChain (previous : Txid) (tx : Transaction) (keepContent : Bool)
    (updater : Updater K P) : Updater K P :=
  let txids := partialChain updater.toTables tx
  { updater with
    partialTxidToTxids := updater.partialTxidToTxids.erase previous
    txidToTx :=
      if keepContent then updater.txidToTx.insert tx.txid tx
      else txids.foldl (fun table txid => table.erase txid) updater.txidToTx
    idToTxids :=
      if keepContent then
        updater.idToTxids.insert (chainId updater.toTables tx) (txids ++ [tx.txid])
      else updater.idToTxids }

/-- The envelope of a transaction, read when no inscription sits at input offset zero. -/
def readEnvelope (tx : Transaction) (inputValue : ℕ) (inscriptions : List Flotsam)
    (updater : Updater K P) : Option (List Flotsam × Updater K P) :=
  if inscriptions.any (fun flotsam => flotsam.offset = 0) then some (inscriptions, updater)
  else
    match tx.input, parsedEnvelope updater.toTables tx with
    | _ :: _, some .none => some (inscriptions, updater)
    | first :: _, some .part =>
        some (inscriptions, continueChain first.previousOutput.txid tx updater)
    | first :: _, some (.complete inscription) => do
        let fee ← env.sub inputValue tx.outputValue
        some
          (inscriptions ++
            [{ txid := tx.txid
               inscriptionId := chainId updater.toTables tx
               offset := 0
               oldSatpoint := { outpoint := first.previousOutput, offset := 0 }
               origin := .new fee inscription }],
            completeChain first.previousOutput.txid tx (env.keeps inscription) updater)
    | _, _ => none

/-! ### Outputs -/

/-- The persist flag of an output in lean replay. -/
def persistFlag (tx : Transaction) (receivesInscription : Bool) : Bool :=
  receivesInscription ||
    tx.output.any fun output =>
      output.scriptPubkey.length = 23 && output.scriptPubkey.take 2 = [0xa9, 0x14] &&
        output.scriptPubkey.getLast? = some 0x87

/-- Assign the inscriptions of a list to satpoints, in order. -/
def placeAll (context : BlockContext K P) (tx : Transaction) (place : Flotsam → SatPoint)
    (inscriptions : List Flotsam) (updater : Updater K P) : Updater K P :=
  inscriptions.foldl (fun updater flotsam =>
    updateInscriptionLocation env context tx flotsam (place flotsam) updater) updater

/-- One output, behind `outputValue` sats: the inscriptions before its end go into it, and its value
is cached.  Returns the inscriptions that are left. -/
def assignOutput (context : BlockContext K P) (tx : Transaction) (vout outputValue : ℕ)
    (output : TxOut) (inscriptions : List Flotsam) (updater : Updater K P) :
    List Flotsam × Updater K P :=
  let endValue := outputValue + output.value
  let here := inscriptions.takeWhile fun flotsam => flotsam.offset < endValue
  let updater := placeAll env context tx
    (fun flotsam => { outpoint := tx.outpoint vout, offset := flotsam.offset - outputValue })
    here updater
  (inscriptions.dropWhile fun flotsam => flotsam.offset < endValue,
    { updater with
      valueCache := updater.valueCache.insert (tx.outpoint vout)
        (output.value, persistFlag tx !here.isEmpty) })

/-- The loop over the outputs from number `vout` on: the inscriptions that are left and the total of
the outputs. -/
def assignOutputs (context : BlockContext K P) (tx : Transaction) :
    List TxOut → ℕ → ℕ → List Flotsam → Updater K P → List Flotsam × ℕ × Updater K P
  | [], _, outputValue, inscriptions, updater => (inscriptions, outputValue, updater)
  | output :: outputs, vout, outputValue, inscriptions, updater =>
      let assigned := assignOutput env context tx vout outputValue output inscriptions updater
      assignOutputs context tx outputs (vout + 1) (outputValue + output.value) assigned.1 assigned.2

/-- The inscriptions behind the outputs: lost with the coinbase, else carried by the fees. -/
def settleRest (context : BlockContext K P) (tx : Transaction) (inputValue outputValue : ℕ)
    (inscriptions : List Flotsam) (updater : Updater K P) : Option (ℕ × Updater K P) :=
  if tx.isCoinbase then do
    let updater := placeAll env context tx
      (fun flotsam =>
        { outpoint := OutPoint.null
          offset := env.behind updater.lostSats flotsam.offset outputValue }) inscriptions updater
    let lost ← env.sub updater.reward outputValue
    some (lost, updater)
  else do
    let carried := inscriptions.map fun flotsam =>
      { flotsam with offset := env.behind updater.reward flotsam.offset outputValue }
    let reward ← env.addSub updater.reward inputValue outputValue
    some (0, { updater with flotsam := updater.flotsam ++ carried, reward := reward })

/-- The inscriptions to assign, in the order of their offsets; the coinbase takes what the fees of
the block carried. -/
def sortedInscriptions (tx : Transaction) (inscriptions : List Flotsam) (updater : Updater K P) :
    List Flotsam :=
  (if tx.isCoinbase then inscriptions ++ updater.flotsam else inscriptions).insertionSort
    fun a b => a.offset ≤ b.offset

/-- `index_transaction_inscriptions`: the sats that are lost, and the updater. -/
def indexTransactionInscriptions (context : BlockContext K P) (tx : Transaction)
    (updater : Updater K P) : Option (ℕ × Updater K P) := do
  let relevant := !env.tapLean || tapLeanTxRelevant updater.toTables tx
  let (inputValue, inscriptions, updater) ←
    takeInputs env context relevant tx.txid tx.input 0 updater
  let (inscriptions, updater) ← readEnvelope env tx inputValue inscriptions updater
  let sorted := sortedInscriptions tx inscriptions updater
  let updater := if tx.isCoinbase then { updater with flotsam := [] } else updater
  let (rest, outputValue, updater) := assignOutputs env context tx tx.output 0 0 sorted updater
  settleRest env context tx inputValue outputValue rest updater

end OrdDogecoin.Inscriptions
