/-
Module: OrdDogecoin.Index.Reorg
Purpose: The block loop of the index: fetching by height ahead of indexing, the parent check of
  `detect_reorg`, batches and commits of `update_index`, savepoints and roll-backs.  The table
  `HEIGHT_TO_BLOCK_HASH` is modelled by the headers whose hashes it stores, in height order, since
  an updater starts at the block count and inserts at consecutive heights.
Trusted boundary: redb savepoints restore the tables they were taken of; the nodes answer with
  headers of their best chains, which may change between any two answers
Main exports: detectReorg, State.step, HashLinked
-/
import OrdDogecoin.Chain.Transaction
import Mathlib.Data.List.Basic

namespace OrdDogecoin.Index

open Chain

/-- The best chain of a node: the header at each height. -/
abbrev BestChain := List BlockHeader

/-- The blocks indexed in one state of the database, by height. -/
abbrev Headers := List BlockHeader

/-- `Rtx::block_hash`: without a height, the hash of the last block. -/
def blockHash (headers : Headers) : Option ℕ → Option BlockHash
  | some height => headers[height]?.map BlockHeader.blockHash
  | none => headers.getLast?.map BlockHeader.blockHash

inductive ReorgError where
  | recoverable (height depth : ℕ)
  | unrecoverable
deriving DecidableEq, Repr

def maxSavepoints : ℕ := 5

def savepointInterval : ℕ := 10

def chainTipDistance : ℕ := 25

/-- `u32::checked_sub`. -/
def checkedSub (height depth : ℕ) : Option ℕ := if depth ≤ height then some (height - depth) else none

/-- `Reorg::detect_reorg` for a block at `height`.  `committed` is what a fresh read transaction
sees; `nodeHash` are the node's answers to `get_block_hash` while the loop runs. -/
def detectReorg (header : BlockHeader) (height : ℕ) (committed : Headers)
    (nodeHash : ℕ → Option BlockHash) : Except ReorgError Unit :=
  match blockHash committed (checkedSub height 1) with
  | some indexPrevBlockhash =>
      if indexPrevBlockhash = header.prevBlockhash then .ok ()
      else
        let maxRecoverableReorgDepth := (maxSavepoints - 1) * savepointInterval
          + height % savepointInterval
        match (List.range' 1 (maxRecoverableReorgDepth - 1)).find? fun depth =>
            blockHash committed (checkedSub height depth) = nodeHash (height - depth) with
        | some depth => .error (.recoverable height depth)
        | none => .error .unrecoverable
  | none => .ok ()

/-- `Reorg::handle_reorg`: the oldest savepoint, unless there is none or it is above the fork. -/
def handleReorg (savepoints : List Headers) (height depth : ℕ) : Except ReorgError Headers :=
  match savepoints.head? with
  | none => .error .unrecoverable
  | some oldest =>
      let restoredBlockCount := oldest.length
      let firstReplacedHeight := height - depth + 1
      if firstReplacedHeight < restoredBlockCount then .error .unrecoverable else .ok oldest

def savepointDue (height startingHeight : ℕ) : Bool :=
  savepointInterval ≤ height && height % savepointInterval = 0 &&
    startingHeight - height ≤ chainTipDistance

/-- `Reorg::update_savepoints`, oldest savepoint first; `nodeBlockCount` answers
`get_block_count`. -/
def updateSavepoints (savepoints : List Headers) (committed : Headers) (height nodeBlockCount : ℕ) :
    List Headers :=
  if (height < savepointInterval || height % savepointInterval = 0) &&
      nodeBlockCount - height ≤ chainTipDistance then
    (if maxSavepoints ≤ savepoints.length then savepoints.tail else savepoints) ++ [committed]
  else savepoints

/-- The settings the loop reads. -/
structure Settings where
  indexSats : Bool
  firstInscriptionHeight : ℕ
  tapLean : Bool
  heightLimit : Option ℕ

def Settings.commitInterval (settings : Settings) (height : ℕ) : ℕ :=
  if !settings.indexSats && decide (height < settings.firstInscriptionHeight) then 25000
  else if settings.tapLean then 100
  else 1000

/-- A running `update_index`: the open write transaction and the blocks fetched for it. -/
structure Session where
  height : ℕ
  startingHeight : ℕ
  openHeaders : Headers
  uncommitted : ℕ
  fetched : ℕ → Option BlockHeader

structure State where
  primary : BestChain
  secondary : BestChain
  committed : Headers
  savepoints : List Headers
  session : Option Session
  unrecoverablyReorged : Bool

/-- An empty database beside two nodes. -/
def State.empty : State where
  primary := []
  secondary := []
  committed := []
  savepoints := []
  session := none
  unrecoverablyReorged := false

/-- Each block of a chain names the hash of the block below it. -/
def HashLinked (headers : Headers) : Prop :=
  ∀ height header parent, headers[height + 1]? = some header → headers[height]? = some parent →
    header.prevBlockhash = parent.blockHash

/-- What happens next: in the nodes, in the fetching threads or in the loop. -/
inductive Action where
  /-- A node switches to another best chain. -/
  | reorganise (fromPrimary : Bool) (chain : BestChain)
  /-- `update` calls `update_index` with a new updater. -/
  | begin
  /-- A fetching thread reads the header at a height from one of the nodes. -/
  | fetch (fromPrimary : Bool) (height : ℕ)
  /-- The loop takes the next block, indexes it and commits when a commit is due. -/
  | indexBlock (nodeHash : ℕ → Option BlockHash)
  /-- The fetcher is done, or the program shuts down. -/
  | finish
  /-- An error other than a reorg ends `update_index`. -/
  | fail

namespace State

/-- `Updater::commit`: publish the open transaction and take a savepoint when one is due. -/
def commit (state : State) (session : Session) : State :=
  { state with
    committed := session.openHeaders
    savepoints := updateSavepoints state.savepoints session.openHeaders session.height
      (state.primary.length - 1)
    session := some { session with uncommitted := 0 } }

/-- The error arm of `Index::update`: a failed `update_index` drops its write transaction. -/
def recover (state : State) : ReorgError → State
  | .recoverable height depth =>
      match handleReorg state.savepoints height depth with
      | .ok restored =>
          -- restoring a savepoint invalidates the ones taken after it
          { state with committed := restored, savepoints := [restored], session := none }
      | .error _ => { state with session := none, unrecoverablyReorged := true }
  | .unrecoverable => { state with session := none, unrecoverablyReorged := true }

/-- One turn of the loop of `update_index`, for a block that has been fetched. -/
def indexBlock (settings : Settings) (nodeHash : ℕ → Option BlockHash) (state : State)
    (session : Session) (header : BlockHeader) : State :=
  match detectReorg header session.height state.committed nodeHash with
  | .error error => state.recover error
  | .ok () =>
      let session := { session with
        height := session.height + 1
        openHeaders := session.openHeaders ++ [header]
        uncommitted := session.uncommitted + 1 }
      if settings.commitInterval session.height ≤ session.uncommitted
          || savepointDue session.height session.startingHeight then state.commit session
      else { state with session := some session }

/-- The best chain of one of the two nodes. -/
def chain (state : State) (fromPrimary : Bool) : BestChain :=
  if fromPrimary then state.primary else state.secondary

/-- One step, or `none` when the action is not possible. -/
def step (settings : Settings) (state : State) : Action → Option State
  | .reorganise true chain => some { state with primary := chain }
  | .reorganise false chain => some { state with secondary := chain }
  | .begin =>
      match state.session with
      | some _ => none
      | none => some { state with
          session := some
            { height := state.committed.length
              startingHeight := state.primary.length
              openHeaders := state.committed
              uncommitted := 0
              fetched := fun _ => none } }
  | .fetch fromPrimary height => do
      let session ← state.session
      if settings.heightLimit.any (· ≤ height) || (session.fetched height).isSome then none
      else do
        let header ← (state.chain fromPrimary)[height]?
        some { state with
          session := some { session with
            fetched := fun other => if other = height then some header else session.fetched other } }
  | .indexBlock nodeHash => do
      let session ← state.session
      let header ← session.fetched session.height
      some (state.indexBlock settings nodeHash session header)
  | .finish => do
      let session ← state.session
      let state := if 0 < session.uncommitted then state.commit session else state
      some { state with session := none }
  | .fail => do
      let _ ← state.session
      some { state with session := none }

end State

end OrdDogecoin.Index
