/-
Module: OrdDogecoin.Index.AddressRepair
Purpose: The repair of the address tables.  A call reads the unspent outputs once and then goes through
  `ADDRESS_TO_OUTPOINT` in batches of addresses, in key order: it records the address of every unspent
  output and removes the rows of the others, and saves the last address of a batch with the batch.  A
  call that is interrupted between two batches is resumed by a later one, with blocks between them.
Trusted boundary: as in OrdDogecoin.Index.AddressIndex; a redb write transaction is one step; the outputs
  under one address come in the order of their numbers; the report of a call is left out
Main exports: AddressTables.addressesAfter, RepairState.Repairable, RepairState.Repaired
-/
import OrdDogecoin.Index.AddressListing
import Mathlib.Data.List.Lex
import Mathlib.Data.Finset.Sort
import Mathlib.Data.Prod.Lex

namespace OrdDogecoin.Index

open Chain

/-! ### Key orders -/

namespace RepairOrder

/-- Keys of a table are compared byte by byte. -/
scoped instance uint8Order : LinearOrder UInt8 where
  le_refl _ := UInt8.le_refl _
  le_trans _ _ _ := UInt8.le_trans
  le_antisymm _ _ := UInt8.le_antisymm
  lt_iff_le_not_ge _ _ := by
    rw [UInt8.not_le]
    exact ⟨fun hless => ⟨UInt8.le_of_lt hless, hless⟩, And.right⟩
  le_total := UInt8.le_total
  toDecidableLE := inferInstance

/-- The order in which the outputs under one address are read. -/
scoped instance : LinearOrder OutPoint :=
  LinearOrder.lift' (fun outpoint => toLex (outpoint.txid, outpoint.vout)) fun left right hsame => by
    obtain ⟨txid, vout⟩ := left
    obtain ⟨txid', vout'⟩ := right
    obtain ⟨rfl, rfl⟩ := Prod.mk.injEq _ _ _ _ ▸ toLex_inj.1 hsame
    rfl

end RepairOrder

open scoped RepairOrder

/-! ### Batches -/

/-- The listed addresses behind the cursor, in key order. -/
def AddressTables.addressesAfter (tables : AddressTables) (cursor : Option AddressBytes) :
    List AddressBytes :=
  (tables.addressToOutpoint.image Prod.fst).sort.filter fun address =>
    cursor.all fun last => last < address

def AddressTables.outpointsUnder (tables : AddressTables) (address : AddressBytes) : List OutPoint :=
  ((tables.addressToOutpoint.filter fun row => row.1 = address).image Prod.snd).sort

/-- An address of a batch and its outpoints. -/
structure RepairRow where
  address : AddressBytes
  live : List OutPoint
  stale : List OutPoint

/-- One address: the live outpoints get their address, the stale ones lose their row. -/
def AddressTables.writeRow (tables : AddressTables) (row : RepairRow) : AddressTables :=
  { tables with
    outpointToAddress := row.live.foldl (fun table outpoint => table.insert outpoint row.address)
      tables.outpointToAddress
    addressToOutpoint := row.stale.foldl (fun listed outpoint => listed.erase (row.address, outpoint))
      tables.addressToOutpoint }

/-- The index beside the cursor in `ADDRESS_INDEX_REPAIR_STATE`. -/
structure RepairState where
  index : AddressState
  cursor : Option AddressBytes

/-- What a round reads. -/
def RepairState.nextRows (batchSize : ℕ) (unspent : Finset OutPoint) (state : RepairState) :
    List RepairRow :=
  ((state.index.tables.addressesAfter state.cursor).take batchSize).map fun address =>
    let outpoints := state.index.tables.outpointsUnder address
    { address := address
      live := outpoints.filter fun outpoint => outpoint ∈ unspent
      stale := outpoints.filter fun outpoint => outpoint ∉ unspent }

/-- What a round commits: the batch and its last address. -/
def RepairState.writeBatch (state : RepairState) (rows : List RepairRow) : RepairState where
  index := { state.index with tables := rows.foldl AddressTables.writeRow state.index.tables }
  cursor := rows.getLast?.map RepairRow.address

/-! ### Calls -/

/-- How a call ends. -/
inductive RepairOutcome where
  /-- The batch size is zero. -/
  | refused
  | interrupted (state : RepairState)
  | returned (state : RepairState)

/-- The rounds of a call that is interrupted after some number of them, unless it returns before. -/
def RepairState.repairRounds (batchSize : ℕ) (unspent : Finset OutPoint) :
    ℕ → RepairState → RepairOutcome
  | 0, state => .interrupted state
  | rounds + 1, state =>
      match state.nextRows batchSize unspent with
      | [] => .returned { state with cursor := none }
      | row :: rows => (state.writeBatch (row :: rows)).repairRounds batchSize unspent rounds

/-- The keys of `OUTPOINT_TO_VALUE`. -/
def AddressTables.unspentOutputs (tables : AddressTables) : Finset OutPoint :=
  tables.outpointToValue.keys.toFinset

/-- `repair_address_index`. -/
def RepairState.repair (batchSize rounds : ℕ) (state : RepairState) : RepairOutcome :=
  if batchSize = 0 then .refused
  else state.repairRounds batchSize state.index.tables.unspentOutputs rounds

/-! ### Runs -/

inductive RepairAction where
  | index (action : AddressAction)
  | repair (batchSize rounds : ℕ)

/-- Index a block, commit, or call the repair; a call opens the database anew, with an empty cache. -/
def RepairState.step (env : AddressEnv) (state : RepairState) : RepairAction → Option RepairState
  | .index action => (state.index.step env action).map fun index => { state with index := index }
  | .repair batchSize rounds =>
      if state.index.tables.valueCache.keys = [] then
        match state.repair batchSize rounds with
        | .refused => some state
        | .interrupted state => some state
        | .returned state => some state
      else none

/-- The databases the repair is for.  The index stores the address of an output when its text fits the
address field; every unspent output is listed under that address, and next to these rows there may be rows
of outputs that were spent.  `OUTPOINT_TO_ADDRESS` may lack any rows. -/
structure RepairState.Repairable (env : AddressEnv) (state : RepairState) : Prop where
  known : state.index.chain.Known
  seen : ∀ tx ∈ state.index.indexed, tx.txid ∈ state.index.chain.seen
  unindexed : state.index.height ≤ env.firstInscriptionHeight → state.index.indexed = []
  stored : ∀ txid tx, state.index.tables.transactions.lookup txid = some tx →
    state.index.indexed.find? (fun other => other.txid = txid) = some tx
  committed : state.index.tables.valueCache.keys = []
  values : ∀ outpoint, state.index.tables.outpointToValue.lookup outpoint =
    (state.index.unspentOutput outpoint).map TxOut.value
  listed : ∀ outpoint output, state.index.unspentOutput outpoint = some output →
    ∀ address, (address, outpoint) ∈ state.index.tables.addressToOutpoint ↔
      env.storedAddress output.scriptPubkey = some address
  stale : ∀ outpoint, state.index.unspentOutput outpoint = none →
    ∀ address, (address, outpoint) ∈ state.index.tables.addressToOutpoint →
      outpoint.txid ∈ state.index.chain.seen
  addresses : ∀ outpoint address, state.index.tables.outpointToAddress.lookup outpoint = some address →
    ∃ output, state.index.unspentOutput outpoint = some output ∧
      env.storedAddress output.scriptPubkey = some address
  notBegun : state.cursor = none

/-- What a repair that returns leaves behind; an address is the 34-byte text that the rows hold
(`AddressEnv.storedAddress`). -/
structure RepairState.Repaired (env : AddressEnv) (state : RepairState) : Prop where
  lists : ∀ address outpoint, (address, outpoint) ∈ state.index.tables.addressToOutpoint ↔
    ∃ output, state.index.unspentOutput outpoint = some output ∧
      env.storedAddress output.scriptPubkey = some address
  inverse : ∀ address outpoint, state.index.tables.outpointToAddress.lookup outpoint = some address ↔
    (address, outpoint) ∈ state.index.tables.addressToOutpoint
  cleared : state.cursor = none

end OrdDogecoin.Index
