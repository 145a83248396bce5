/-
Module: OrdDogecoin.Inscriptions.Indexing
Purpose: Blocks and commits: the values lean replay asks for ahead of a block, the pass over its
  transactions with the coinbase last, and the write transaction that ends in a commit.
Trusted boundary: the value channel answers each request with the node's value
Main exports: Index, IndexAction, Index.step
-/
import OrdDogecoin.Inscriptions.Updater
import OrdDogecoin.Chain.Utxo

namespace OrdDogecoin.Inscriptions

open Chain

variable {K P : Type} (env : IndexEnv K P)

/-- The tables of a new database. -/
def Tables.empty (height : ℕ) (tapKv : K) (protocols : P) : Tables K P where
  satpointToId := ∅
  idToSatpoint := ∅
  idToEntry := ∅
  numberToId := ∅
  idToTxids := ∅
  txidToTx := ∅
  partialTxidToTxids := ∅
  outpointToValue := ∅
  lostSats := 0
  leanNextNumber := 0
  height := height
  tapKv := tapKv
  protocols := protocols

/-- The database and its open write transaction. -/
structure Index (K P : Type) where
  committed : Tables K P
  tables : Tables K P
  valueCache : KeyTable OutPoint (ℕ × Bool)

/-- A new database at a height. -/
def Index.empty (height : ℕ) (tapKv : K) (protocols : P) : Index K P where
  committed := Tables.empty height tapKv protocols
  tables := Tables.empty height tapKv protocols
  valueCache := ∅

/-! ### Requests of lean replay -/

/-- The inputs of a transaction whose values are not at hand. -/
def missingInputs (index : Index K P) (txids : List Txid) (tx : Transaction) : List OutPoint :=
  (tx.input.map TxIn.previousOutput).filter fun outpoint =>
    outpoint ≠ OutPoint.null && !txids.contains outpoint.txid &&
      (index.valueCache.lookup outpoint).isNone &&
      (index.tables.outpointToValue.lookup outpoint).isNone

/-- One transaction of the scan: relevance also flows forward within the block. -/
def prefetchTransaction (index : Index K P) (txids : List Txid)
    (state : List Txid × List OutPoint) (tx : Transaction) : List Txid × List OutPoint :=
  let relevant :=
    tx.input.any (fun input => state.1.contains input.previousOutput.txid) ||
      tapLeanTxRelevant index.tables tx
  if relevant then (tx.txid :: state.1, state.2 ++ missingInputs index txids tx) else state

/-- The outpoints that lean replay requests at the start of a block. -/
def prefetch (index : Index K P) (block : BlockData) : List OutPoint :=
  if env.tapLean then
    (block.txdata.foldl (prefetchTransaction index (block.txdata.map Transaction.txid)) ([], [])).2
  else []

/-! ### Blocks -/

/-- The number behind the largest one in the table. -/
def numberAfter (numberToId : KeyTable ℕ InscriptionId) : ℕ :=
  numberToId.keys.foldr (fun number next => max (number + 1) next) 0

/-- `InscriptionUpdater::new`, with the header row of the block in `TAP_KV`. -/
def Index.updater (index : Index K P) (block : BlockData) : Updater K P :=
  { index.tables with
    tapKv :=
      env.engine.header index.tables.height block.header block.txdata.length index.tables.tapKv
    valueCache := index.valueCache
    flotsam := []
    operations := ∅
    nextNumber := max (numberAfter index.tables.numberToId) index.tables.leanNextNumber
    reward := env.subsidy index.tables.height
    blockAvailabilityCache := ∅
    tapPrefetched := prefetch env index block }

/-- The block as the handlers see it. -/
def Index.context (index : Index K P) (block : BlockData) : BlockContext K P where
  height := index.tables.height
  timestamp := block.header.time
  committed := index.committed

/-- One transaction of a block, with the lost sats added up. -/
def indexTransaction (context : BlockContext K P) (state : ℕ × Updater K P) (tx : Transaction) :
    Option (ℕ × Updater K P) :=
  (indexTransactionInscriptions env context tx state.2).map fun (lost, updater) =>
    (env.add state.1 lost, updater)

/-- The end of a block: the statistics, the lean counter, and the other protocols. -/
def finishBlock (context : BlockContext K P) (block : BlockData) (lostSats : ℕ)
    (updater : Updater K P) : Tables K P :=
  { updater.toTables with
    lostSats := lostSats
    leanNextNumber := if env.tapLean then updater.nextNumber else updater.leanNextNumber
    height := context.height + 1
    protocols :=
      env.protocols context.height block updater.operations updater.idToEntry updater.protocols }

/-- `index_block` without the sat index. -/
def indexBlock (index : Index K P) (block : BlockData) : Option (Index K P) := do
  let context := index.context block
  let (lostSats, updater) ← block.processingOrder.foldlM (indexTransaction env context)
    (index.tables.lostSats, index.updater env block)
  some
    { index with
      tables := finishBlock env context block lostSats updater
      valueCache := updater.valueCache }

/-- `commit`: the cached values are written, in lean replay the flagged ones. -/
def Index.commit (index : Index K P) : Index K P :=
  let written := (index.valueCache.entries.filter fun row => !env.tapLean || row.2.2).foldl
    (fun table row => table.insert row.1 row.2.1) index.tables.outpointToValue
  let tables := { index.tables with outpointToValue := written }
  { committed := tables, tables := tables, valueCache := ∅ }

/-- What `update_index` does, in any order. -/
inductive IndexAction where
  | block (block : BlockData)
  | commit

def Index.step (index : Index K P) : IndexAction → Option (Index K P)
  | .block block => indexBlock env index block
  | .commit => some (index.commit env)

end OrdDogecoin.Inscriptions
