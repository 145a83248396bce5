/-
Module: OrdDogecoin.Index.AddressIndex
Purpose: The address index of the full mode: the value cache with its 34-byte address field, the
  tables `OUTPOINT_TO_VALUE`, `OUTPOINT_TO_ADDRESS` and `ADDRESS_TO_OUTPOINT`, what spending an input
  removes from them and what a commit writes.  A run is a sequence of valid blocks with commits
  between them, beside the chain they make.
Trusted boundary: the address library is a parameter (`addressFromScript`, the text of an address as
  bytes); the node's answers for the values of outputs that are not indexed are left out, the tables
  do not depend on them
Main exports: AddressEnv, AddressTables.commit, AddressState.step
-/
import OrdDogecoin.Chain.Blocks
import OrdDogecoin.Lib.Run
import Mathlib.Data.Finset.Insert
import Mathlib.Data.Finset.Erase

namespace OrdDogecoin.Index

open Chain

/-- An address as its text's bytes. -/
abbrev AddressBytes := List UInt8

/-- What the index reads of its options and its chain. -/
structure AddressEnv where
  firstInscriptionHeight : ℕ
  indexTransactions : Bool
  subsidy : ℕ → ℕ
  /-- `Chain::address_from_script`, displayed. -/
  addressFromScript : Script → Option AddressBytes

/-- The width of the address field of the value cache. -/
def addressWidth : ℕ := 34

/-- `[0u8; 34]`. -/
def noAddress : AddressBytes := List.replicate addressWidth 0

/-- The address field of a cached output: text of another width does not fit and becomes zeros. -/
def AddressEnv.cacheAddress (env : AddressEnv) (script : Script) : AddressBytes :=
  match env.addressFromScript script with
  | some address => if address.length = addressWidth then address else noAddress
  | none => noAddress

/-- The value cache and the tables behind it.  `ADDRESS_TO_OUTPOINT` is a multimap, a set of pairs. -/
structure AddressTables where
  valueCache : KeyTable OutPoint (ℕ × AddressBytes)
  outpointToValue : KeyTable OutPoint ℕ
  outpointToAddress : KeyTable OutPoint AddressBytes
  addressToOutpoint : Finset (AddressBytes × OutPoint)
  transactions : KeyTable Txid Transaction

def AddressTables.empty : AddressTables where
  valueCache := ∅
  outpointToValue := ∅
  outpointToAddress := ∅
  addressToOutpoint := ∅
  transactions := ∅

/-! ### Spending -/

/-- The listing of a spent output that has no row in `OUTPOINT_TO_ADDRESS`: its address is taken from
the stored transaction.  `none` is the panic of the index into its outputs. -/
def AddressTables.unlistByTransaction (env : AddressEnv) (tables : AddressTables)
    (outpoint : OutPoint) : Option AddressTables :=
  match tables.transactions.lookup outpoint.txid with
  | none => some tables
  | some tx => do
      let output ← tx.output[outpoint.vout]?
      match env.addressFromScript output.scriptPubkey with
      | some address =>
          some { tables with addressToOutpoint := tables.addressToOutpoint.erase (address, outpoint) }
      | none => some tables

/-- The rows of a spent output leave the cache, or else the tables.  An output that is in neither is
not indexed; its value comes from the node. -/
def AddressTables.spendOutput (env : AddressEnv) (tables : AddressTables) (outpoint : OutPoint) :
    Option AddressTables :=
  if (tables.valueCache.lookup outpoint).isSome then
    some { tables with valueCache := tables.valueCache.erase outpoint }
  else if (tables.outpointToValue.lookup outpoint).isSome then
    let tables := { tables with outpointToValue := tables.outpointToValue.erase outpoint }
    match tables.outpointToAddress.lookup outpoint with
    | some address =>
        some { tables with
          outpointToAddress := tables.outpointToAddress.erase outpoint
          addressToOutpoint := tables.addressToOutpoint.erase (address, outpoint) }
    | none => tables.unlistByTransaction env outpoint
  else some tables

def AddressTables.spendInput (env : AddressEnv) (tables : AddressTables) (input : TxIn) :
    Option AddressTables :=
  if input.previousOutput = OutPoint.null then some tables
  else tables.spendOutput env input.previousOutput

/-! ### Indexing and committing -/

def AddressTables.cacheOutputs (env : AddressEnv) (tx : Transaction) (tables : AddressTables) :
    AddressTables :=
  { tables with
    valueCache := insertOutputs (fun output => (output.value, env.cacheAddress output.scriptPubkey))
      tx.txid tx.output 0 tables.valueCache }

/-- The transaction index is written first. -/
def AddressTables.storeTransaction (env : AddressEnv) (tables : AddressTables) (tx : Transaction) :
    AddressTables :=
  if env.indexTransactions then
    { tables with transactions := tables.transactions.insert tx.txid tx }
  else tables

/-- `index_transaction_inscriptions`, as far as the address index goes. -/
def AddressTables.indexTransaction (env : AddressEnv) (tables : AddressTables) (tx : Transaction) :
    Option AddressTables :=
  (tx.input.foldlM (spendInput env) (tables.storeTransaction env tx)).map
    (cacheOutputs env tx)

/-- One row of the cache at a commit. -/
def AddressTables.persist (tables : AddressTables) (outpoint : OutPoint) (row : ℕ × AddressBytes) :
    AddressTables :=
  let tables := { tables with outpointToValue := tables.outpointToValue.insert outpoint row.1 }
  if row.2 ≠ noAddress then
    { tables with
      outpointToAddress := tables.outpointToAddress.insert outpoint row.2
      addressToOutpoint := insert (row.2, outpoint) tables.addressToOutpoint }
  else tables

/-- `commit`: the cache is written out and starts anew. -/
def AddressTables.commit (tables : AddressTables) : AddressTables :=
  tables.valueCache.entries.foldl (fun tables row => tables.persist row.1 row.2)
    { tables with valueCache := ∅ }

/-! ### Runs -/

/-- The tables beside the chain; `indexed` are the transactions of all indexed blocks, the last one
first. -/
structure AddressState where
  tables : AddressTables
  chain : ChainState
  height : ℕ
  indexed : List Transaction

inductive AddressAction where
  | block (block : BlockData)
  | commit

def AddressState.start : AddressState where
  tables := .empty
  chain := { utxo := ∅, seen := [] }
  height := 0
  indexed := []

/-- Index one block of the chain at the next height, or commit.  A block below the first inscription
height reaches no table. -/
def AddressState.step (env : AddressEnv) (state : AddressState) : AddressAction → Option AddressState
  | .block block => do
      let chain ← state.chain.applyBlock (env.subsidy state.height) block
      if env.firstInscriptionHeight ≤ state.height then
        let tables ← block.processingOrder.foldlM (AddressTables.indexTransaction env) state.tables
        some { tables := tables
               chain := chain
               height := state.height + 1
               indexed := block.processingOrder.reverse ++ state.indexed }
      else some { state with chain := chain, height := state.height + 1 }
  | .commit => some { state with tables := state.tables.commit }

/-- The output an outpoint names among some transactions. -/
def findOutput (txs : List Transaction) (outpoint : OutPoint) : Option TxOut := do
  let tx ← txs.find? fun tx => tx.txid = outpoint.txid
  tx.output[outpoint.vout]?

/-- The unspent indexed output under an outpoint. -/
def unspentIn (utxo : UtxoSet) (indexed : List Transaction) (outpoint : OutPoint) : Option TxOut :=
  if (utxo.lookup outpoint).isSome then findOutput indexed outpoint else none

def AddressState.unspentOutput (state : AddressState) (outpoint : OutPoint) : Option TxOut :=
  unspentIn state.chain.utxo state.indexed outpoint

/-- What the two address tables are for: they are one relation, and it lists an outpoint under an
address exactly when it is an unspent indexed output whose script has that address. -/
structure AddressState.ListsUnspent (env : AddressEnv) (state : AddressState) : Prop where
  sameRelation : ∀ address outpoint, (address, outpoint) ∈ state.tables.addressToOutpoint ↔
    state.tables.outpointToAddress.lookup outpoint = some address
  lists : ∀ address outpoint, (address, outpoint) ∈ state.tables.addressToOutpoint ↔
    ∃ output, state.unspentOutput outpoint = some output ∧
      env.addressFromScript output.scriptPubkey = some address

end OrdDogecoin.Index
