/-
Module: OrdDogecoin.Sats.SatIndex
Purpose: The sat index.  The writer gives every output of a block its sat ranges and keeps them in a
  cache until commit; the readers `list` and `find` look them up in the committed database.  A row
  is modelled by the ranges whose stored forms are concatenated in it (`rowBytes`), so what the
  writer assigned and what a reader sees are both functions of the row.
Trusted boundary: redb tables are finite maps; the node answers `is_transaction_in_active_chain`
Main exports: SatIndex, Committed.list, Committed.find
-/
import OrdDogecoin.Chain.Transaction
import OrdDogecoin.Lib.KeyTable
import OrdDogecoin.Sats.SatRange

namespace OrdDogecoin.Sats

open Chain
open LittleEndian

/-! ### Sats and epochs -/

namespace SatTables

variable (tables : SatTables)

/-- `Epoch::from(Sat)`: the first epoch whose successor starts above the sat. -/
def epochOfSat (sat : ℕ) : ℕ :=
  ((List.range (tables.startingSats.length - 1)).find? fun i =>
    decide (sat < tables.startingSats.getD (i + 1) 0)).getD 145005

/-- `Sat::epoch_position`, with `none` for a panic. -/
def epochPosition (sat : ℕ) : Option ℕ := do
  let start ← tables.epochStartingSat (tables.epochOfSat sat)
  if sat < start then none else some (sat - start)

/-- `Sat::height`: dividing by a subsidy of zero panics.  The quotient is a number of blocks of one
epoch, which `u32` holds. -/
def satHeight (sat : ℕ) : Option ℕ := do
  let position ← tables.epochPosition sat
  let reward ← tables.epochSubsidy (tables.epochOfSat sat)
  let first ← epochStartingHeight (tables.epochOfSat sat)
  if reward = 0 then none else some (first + position / reward)

/-- `Sat::is_common`: not the first sat of a block. -/
def isCommon (sat : ℕ) : Option Bool := do
  let position ← tables.epochPosition sat
  let reward ← tables.epochSubsidy (tables.epochOfSat sat)
  if reward = 0 then none else some (position % reward ≠ 0)

end SatTables

/-! ### The writer -/

/-- A row of `OUTPOINT_TO_SAT_RANGES`: the ranges whose stored forms it concatenates. -/
abbrev Row := List SatRange

def rowBytes (row : Row) : List UInt8 := row.flatMap SatRange.store

/-- Reading a row back in the updater: `chunks_exact(11)`, each loaded. -/
def loadRow (row : Row) : List SatRange :=
  (chunksExact 11 (rowBytes row)).map SatRange.load

/-- What readers of a fresh read transaction see. -/
structure Committed where
  blockCount : ℕ
  outpointToSatRanges : KeyTable OutPoint Row

/-- The sat tables of the open write transaction, with the updater's range cache. -/
structure SatIndex where
  lostSats : ℕ
  rangeCache : KeyTable OutPoint Row
  outpointToSatRanges : KeyTable OutPoint Row
  satToSatpoint : KeyTable ℕ SatPoint

/-- An updater at work: the next height, the open transaction and the last committed state. -/
structure SatUpdater where
  height : ℕ
  index : SatIndex
  committed : Committed

/-- The rows `Index::open` creates with `index_sats`: an empty one for the null outpoint. -/
def initialRanges : KeyTable OutPoint Row := AList.singleton OutPoint.null []

/-- A fresh database. -/
def SatUpdater.empty : SatUpdater where
  height := 0
  index :=
    { lostSats := 0, rangeCache := ∅, outpointToSatRanges := initialRanges, satToSatpoint := ∅ }
  committed := { blockCount := 0, outpointToSatRanges := initialRanges }

section Writer

variable (tables : SatTables)

/-- Record the first sat of a range when it is not common. -/
def noteSat (start : ℕ) (satpoint : SatPoint) (index : SatIndex) : Option SatIndex := do
  let common ← tables.isCommon start
  if common then some index
  else some { index with satToSatpoint := index.satToSatpoint.insert start satpoint }

/-- The `while remaining > 0` loop for one output: the ranges assigned, the ranges left over, and
the index with its uncommon sats recorded.  Running out of ranges is the error
`insufficient inputs for transaction outputs`. -/
def assignOutput (outpoint : OutPoint) (value : ℕ) :
    ℕ → List SatRange → SatIndex → Option (Row × List SatRange × SatIndex)
  | 0, ranges, index => some ([], ranges, index)
  | _ + 1, [], _ => none
  | remaining + 1, range :: ranges, index => do
      let index ← noteSat tables range.1
        { outpoint := outpoint, offset := value - (remaining + 1) } index
      let count := range.2 - range.1
      if remaining + 1 < count then
        let middle := range.1 + (remaining + 1)
        some ([(range.1, middle)], (middle, range.2) :: ranges, index)
      else
        let (row, rest, index) ← assignOutput outpoint value (remaining + 1 - count) ranges index
        some (range :: row, rest, index)

/-- The loop of `index_transaction_sats` over the outputs. -/
def indexOutputs (tx : Transaction) :
    ℕ → List TxOut → List SatRange → SatIndex → Option (List SatRange × SatIndex)
  | _, [], ranges, index => some (ranges, index)
  | vout, output :: outputs, ranges, index => do
      let outpoint := tx.outpoint vout
      let (row, ranges, index) ←
        assignOutput tables outpoint output.value output.value ranges index
      indexOutputs tx (vout + 1) outputs ranges
        { index with rangeCache := index.rangeCache.insert outpoint row }

/-- `Updater::index_transaction_sats`, less the inscription hook: the ranges left over. -/
def indexTransactionSats (tx : Transaction) (ranges : List SatRange) (index : SatIndex) :
    Option (List SatRange × SatIndex) :=
  indexOutputs tables tx 0 tx.output ranges index

/-- Take the row of a spent output from the cache, else from the table. -/
def takeRow (outpoint : OutPoint) (index : SatIndex) : Option (Row × SatIndex) :=
  match index.rangeCache.lookup outpoint with
  | some row => some (row, { index with rangeCache := index.rangeCache.erase outpoint })
  | none =>
      match index.outpointToSatRanges.lookup outpoint with
      | some row =>
          some (row, { index with
            outpointToSatRanges := index.outpointToSatRanges.erase outpoint })
      | none => none

def takeInputs : List TxIn → SatIndex → Option (List SatRange × SatIndex)
  | [], index => some ([], index)
  | input :: inputs, index => do
      let (row, index) ← takeRow input.previousOutput index
      let (ranges, index) ← takeInputs inputs index
      some (loadRow row ++ ranges, index)

/-- The transactions after the coinbase; what they leave over goes to the coinbase inputs. -/
def indexSpends : List Transaction → List SatRange → SatIndex → Option (List SatRange × SatIndex)
  | [], coinbaseInputs, index => some (coinbaseInputs, index)
  | tx :: txs, coinbaseInputs, index => do
      let (inputs, index) ← takeInputs tx.input index
      let (rest, index) ← indexTransactionSats tables tx inputs index
      indexSpends txs (coinbaseInputs ++ rest) index

/-- Append the ranges nobody claimed to the row of the null outpoint. -/
def loseRanges : List SatRange → Row → SatIndex → Option (Row × SatIndex)
  | [], lost, index => some (lost, index)
  | range :: ranges, lost, index => do
      let index ← noteSat tables range.1
        { outpoint := OutPoint.null, offset := index.lostSats } index
      loseRanges ranges (lost ++ [range])
        { index with lostSats := index.lostSats + (range.2 - range.1) }

/-- The sat part of `Updater::index_block`. -/
def indexBlockSats (height : ℕ) (block : BlockData) (index : SatIndex) : Option SatIndex := do
  let reward ← tables.subsidy height
  let start ← tables.startingSat height
  let coinbaseInputs ←
    (if 0 < reward then (checkedU64 (start + reward)).map fun bound => [(start, bound)] else some [])
  let (coinbaseInputs, index) ← indexSpends tables block.txdata.tail coinbaseInputs index
  let (coinbaseInputs, index) ←
    match block.txdata with
    | [] => some (coinbaseInputs, index)
    | coinbase :: _ => indexTransactionSats tables coinbase coinbaseInputs index
  if coinbaseInputs.isEmpty then some index
  else do
    let lost := (index.outpointToSatRanges.lookup OutPoint.null).getD []
    let (lost, index) ← loseRanges tables coinbaseInputs lost index
    some { index with
      outpointToSatRanges := index.outpointToSatRanges.insert OutPoint.null lost }

/-- Index one block in the open transaction. -/
def SatUpdater.indexBlock (block : BlockData) (updater : SatUpdater) : Option SatUpdater := do
  let index ← indexBlockSats tables updater.height block updater.index
  some { updater with height := updater.height + 1, index := index }

/-- `Updater::commit`: drain the cache into the table and publish the result. -/
def SatUpdater.commit (updater : SatUpdater) : SatUpdater :=
  let ranges := updater.index.rangeCache.foldl
    (fun (ranges : KeyTable OutPoint Row) outpoint row => ranges.insert outpoint row)
    updater.index.outpointToSatRanges
  { updater with
    index := { updater.index with rangeCache := ∅, outpointToSatRanges := ranges }
    committed := { blockCount := updater.height, outpointToSatRanges := ranges } }

/-- The states reached by indexing blocks and committing, in any order. -/
inductive Reachable : SatUpdater → Prop where
  | empty : Reachable SatUpdater.empty
  | block {updater next : SatUpdater} (block : BlockData) (reachable : Reachable updater)
      (indexed : updater.indexBlock tables block = some next) : Reachable next
  | commit {updater : SatUpdater} (reachable : Reachable updater) : Reachable updater.commit

end Writer

/-! ### The readers -/

inductive Listing where
  | spent
  | unspent (ranges : List SatRange)
deriving DecidableEq, Repr

/-- The reader's row decoder: `chunks_exact(24)`, each converted to 11 bytes and loaded. -/
def readChunks (row : Row) : Option (List SatRange) :=
  (chunksExact 24 (rowBytes row)).mapM SatRange.loadChunk

namespace Committed

/-- `Index::list` with `index_sats`, with `none` for a panic.  `inActiveChain` is the node's answer
to `is_transaction_in_active_chain`. -/
def list (db : Committed) (inActiveChain : Txid → Bool) (outpoint : OutPoint) :
    Option (Option Listing) :=
  match db.outpointToSatRanges.lookup outpoint with
  | some row => (readChunks row).map fun ranges => some (.unspent ranges)
  | none => some (if inActiveChain outpoint.txid then some .spent else none)

/-- The search of one row: `chunks_exact(24)` with a running offset. -/
def findInChunks (sat : ℕ) (outpoint : OutPoint) :
    ℕ → List (List UInt8) → Option (Option SatPoint)
  | _, [] => some none
  | offset, chunk :: chunks => do
      let range ← SatRange.loadChunk chunk
      if range.1 ≤ sat ∧ sat < range.2 then
        some (some { outpoint := outpoint, offset := offset + (sat - range.1) })
      else findInChunks sat outpoint (offset + (range.2 - range.1)) chunks

/-- The search of `Index::find` over the rows, in any order. -/
def findInRows (sat : ℕ) : List (Sigma fun _ : OutPoint => Row) → Option (Option SatPoint)
  | [] => some none
  | row :: rows => do
      match ← findInChunks sat row.1 0 (chunksExact 24 (rowBytes row.2)) with
      | some satpoint => some (some satpoint)
      | none => findInRows sat rows

/-- `Index::find`, with `none` for a panic. -/
def find (tables : SatTables) (db : Committed) (sat : ℕ) : Option (Option SatPoint) := do
  let height ← tables.satHeight sat
  if db.blockCount ≤ height then some none
  else findInRows sat db.outpointToSatRanges.entries

end Committed

def satAt : Row → ℕ → Option ℕ
  | [], _ => none
  | range :: row, offset =>
      if offset < range.2 - range.1 then some (range.1 + offset)
      else satAt row (offset - (range.2 - range.1))

/-- A sat point whose position in the assigned ranges is `sat`. -/
def Committed.Holds (db : Committed) (satpoint : SatPoint) (sat : ℕ) : Prop :=
  ∃ row, db.outpointToSatRanges.lookup satpoint.outpoint = some row ∧
    satAt row satpoint.offset = some sat

/-- The look-ups read what the writer wrote: every row is listed as assigned, every numbered sat is
found at the one place that holds it, and nothing panics. -/
structure Committed.LookupsCorrect (tables : SatTables) (db : Committed) : Prop where
  list_eq : ∀ inActiveChain outpoint row, db.outpointToSatRanges.lookup outpoint = some row →
    db.list inActiveChain outpoint = some (some (.unspent row))
  find_eq : ∃ bound, tables.startingSat db.blockCount = some bound ∧ ∀ sat, sat < bound →
    ∃ satpoint, db.find tables sat = some (some satpoint) ∧ db.Holds satpoint sat ∧
      ∀ other, db.Holds other sat → other = satpoint
  list_ne_panic : ∀ inActiveChain outpoint, db.list inActiveChain outpoint ≠ none
  find_ne_panic : ∀ sat, db.find tables sat ≠ none

end OrdDogecoin.Sats
