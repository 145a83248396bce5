/-
Module: OrdDogecoin.Index.ReorgStore
Purpose: The block loop over the tables that a roll-back touches beyond the block hashes: the
  counter of reorgs, the generation of the feed and its journal.  Savepoints are whole databases, and
  forgetting everything but the headers gives the loop of `OrdDogecoin.Index.Reorg`.
Trusted boundary: as in OrdDogecoin.Index.Reorg; restoring a savepoint drops the newer ones
Main exports: Database, IndexState.view, step_view
-/
import OrdDogecoin.Index.HashLinked
import OrdDogecoin.Feed.Journal

namespace OrdDogecoin.Index

open Chain
open Feed (FeedMeta Journal JournalRecord FixedBytes recordBlock ensureMeta reinstateMeta)
open Option (bind_eq_some_iff bind_some map_some bind_eq_bind)

/-- The tables of the database that the loop and its roll-backs write themselves. -/
structure Database where
  headers : Headers
  reorgs : ℕ
  feedMeta : FeedMeta
  journal : Journal

def Database.empty : Database where
  headers := []
  reorgs := 0
  feedMeta := FeedMeta.empty
  journal := ∅

/-- The committed database and its savepoints, oldest first. -/
structure Store where
  committed : Database
  savepoints : List Database

/-! ### Roll-backs -/

/-- The database after a roll-back: that of the savepoint, with the counter moved on and the
generation of the feed carried across. -/
def Database.restored (oldest before : Database) : Database :=
  { oldest with
    reorgs := before.reorgs + 1
    feedMeta := reinstateMeta before.feedMeta oldest.feedMeta }

/-- `Reorg::handle_reorg` on the store: the result, and the store behind it.  A failure aborts the
write transaction. -/
def handleReorgStore (store : Store) (height depth : ℕ) : Except ReorgError Unit × Store :=
  match store.savepoints.head? with
  | none => (.error .unrecoverable, store)
  | some oldest =>
      let restoredBlockCount := oldest.headers.length
      let firstReplacedHeight := height - depth + 1
      if firstReplacedHeight < restoredBlockCount then (.error .unrecoverable, store)
      else (.ok (), { committed := oldest.restored store.committed, savepoints := [oldest] })

/-- `Reorg::update_savepoints` on the store. -/
def updateSavepointsStore (savepoints : List Database) (committed : Database)
    (height nodeBlockCount : ℕ) : List Database :=
  if (height < savepointInterval || height % savepointInterval = 0) &&
      nodeBlockCount - height ≤ chainTipDistance then
    (if maxSavepoints ≤ savepoints.length then savepoints.tail else savepoints) ++ [committed]
  else savepoints

/-! ### The loop -/

/-- A running `update_index` over an open write transaction. -/
structure OpenSession where
  height : ℕ
  startingHeight : ℕ
  database : Database
  uncommitted : ℕ
  fetched : ℕ → Option BlockHeader

/-- What the loop over headers sees of a session. -/
def OpenSession.view (session : OpenSession) : Session where
  height := session.height
  startingHeight := session.startingHeight
  openHeaders := session.database.headers
  uncommitted := session.uncommitted
  fetched := session.fetched

structure IndexState where
  primary : BestChain
  secondary : BestChain
  store : Store
  session : Option OpenSession
  unrecoverablyReorged : Bool

def IndexState.empty : IndexState where
  primary := []
  secondary := []
  store := { committed := Database.empty, savepoints := [] }
  session := none
  unrecoverablyReorged := false

/-- What a block writes to the journal of the feed. -/
structure JournalInput where
  records : List JournalRecord
  fresh : FixedBytes 16
  coverage : ℕ

inductive IndexAction where
  | reorganise (fromPrimary : Bool) (chain : BestChain)
  | begin
  | fetch (fromPrimary : Bool) (height : ℕ)
  /-- The next block; a lean replay writes no journal. -/
  | indexBlock (nodeHash : ℕ → Option BlockHash) (journal : Option JournalInput)
  | finish
  | fail
  /-- `dogemap_feed_initialize`, between two updates. -/
  | createGeneration (fresh : FixedBytes 16) (coverage : ℕ)

/-- The open database with one more block. -/
def Database.index (database : Database) (header : BlockHeader) (journal : Option JournalInput) :
    Option Database :=
  match journal with
  | none => some { database with headers := database.headers ++ [header] }
  | some input =>
      (recordBlock database.headers.length input.records input.fresh input.coverage database.feedMeta
        database.journal).map fun recorded =>
          { database with
            headers := database.headers ++ [header]
            feedMeta := recorded.1
            journal := recorded.2 }

namespace IndexState

def commit (state : IndexState) (session : OpenSession) : IndexState :=
  { state with
    store :=
      { committed := session.database
        savepoints := updateSavepointsStore state.store.savepoints session.database session.height
          (state.primary.length - 1) }
    session := some { session with uncommitted := 0 } }

/-- The error arm of `Index::update`. -/
def recover (state : IndexState) : ReorgError → IndexState
  | .recoverable height depth =>
      match handleReorgStore state.store height depth with
      | (.ok (), store) => { state with store := store, session := none }
      | (.error _, store) =>
          { state with store := store, session := none, unrecoverablyReorged := true }
  | .unrecoverable => { state with session := none, unrecoverablyReorged := true }

/-- One turn of the loop. -/
def indexBlock (settings : Settings) (nodeHash : ℕ → Option BlockHash) (journal : Option JournalInput)
    (state : IndexState) (session : OpenSession) (header : BlockHeader) : Option IndexState :=
  match detectReorg header session.height state.store.committed.headers nodeHash with
  | .error error => some (state.recover error)
  | .ok () =>
      (session.database.index header journal).map fun database =>
        let session := { session with
          height := session.height + 1
          database := database
          uncommitted := session.uncommitted + 1 }
        if settings.commitInterval session.height ≤ session.uncommitted
            || savepointDue session.height session.startingHeight then state.commit session
        else { state with session := some session }

def chain (state : IndexState) (fromPrimary : Bool) : BestChain :=
  if fromPrimary then state.primary else state.secondary

def step (settings : Settings) (state : IndexState) : IndexAction → Option IndexState
  | .reorganise true chain => some { state with primary := chain }
  | .reorganise false chain => some { state with secondary := chain }
  | .begin =>
      match state.session with
      | some _ => none
      | none => some { state with
          session := some
            { height := state.store.committed.headers.length
              startingHeight := state.primary.length
              database := state.store.committed
              uncommitted := 0
              fetched := fun _ => none } }
  | .fetch fromPrimary height => do
      let session ← state.session
      if settings.heightLimit.any (· ≤ height) || (session.fetched height).isSome then none
      else do
        let header ← (state.chain fromPrimary)[height]?
        some { state with
          session := some { session with
            fetched := fun other => if other = height then some header else session.fetched other } }
  | .indexBlock nodeHash journal => do
      let session ← state.session
      let header ← session.fetched session.height
      state.indexBlock settings nodeHash journal session header
  | .finish => do
      let session ← state.session
      let state := if 0 < session.uncommitted then state.commit session else state
      some { state with session := none }
  | .fail => do
      let _ ← state.session
      some { state with session := none }
  | .createGeneration fresh coverage =>
      match state.session with
      | some _ => none
      | none => some { state with
          store := { state.store with
            committed := { state.store.committed with
              feedMeta := ensureMeta state.store.committed.feedMeta fresh coverage } } }

/-! ### The loop over headers -/

/-- What the loop over headers sees of a state. -/
def view (state : IndexState) : State where
  primary := state.primary
  secondary := state.secondary
  committed := state.store.committed.headers
  savepoints := state.store.savepoints.map Database.headers
  session := state.session.map OpenSession.view
  unrecoverablyReorged := state.unrecoverablyReorged

end IndexState

/-- The action of the loop over headers. -/
def IndexAction.view : IndexAction → Option Action
  | .reorganise fromPrimary chain => some (.reorganise fromPrimary chain)
  | .begin => some .begin
  | .fetch fromPrimary height => some (.fetch fromPrimary height)
  | .indexBlock nodeHash _ => some (.indexBlock nodeHash)
  | .finish => some .finish
  | .fail => some .fail
  | .createGeneration _ _ => none

theorem map_updateSavepointsStore (savepoints : List Database) (committed : Database)
    (height nodeBlockCount : ℕ) :
    (updateSavepointsStore savepoints committed height nodeBlockCount).map Database.headers =
      updateSavepoints (savepoints.map Database.headers) committed.headers height nodeBlockCount := by
  unfold updateSavepointsStore updateSavepoints
  rw [List.length_map]
  split
  · split <;> simp [List.map_tail]
  · rfl

theorem view_commit (state : IndexState) (session : OpenSession) :
    (state.commit session).view = state.view.commit session.view := by
  simp only [IndexState.commit, IndexState.view, State.commit, map_updateSavepointsStore,
    map_some, OpenSession.view]

theorem view_recover (state : IndexState) (error : ReorgError) :
    (state.recover error).view = state.view.recover error := by
  cases error with
  | unrecoverable => rfl
  | recoverable height depth =>
      simp only [IndexState.recover, State.recover, handleReorgStore, handleReorg]
      cases hsavepoints : state.store.savepoints with
      | nil => simp [IndexState.view, hsavepoints]
      | cons oldest savepoints =>
          by_cases habove : height - depth + 1 < oldest.headers.length
          · simp [IndexState.view, hsavepoints, habove]
          · simp [IndexState.view, hsavepoints, habove, Database.restored]

theorem headers_index {database after : Database} {header : BlockHeader} {journal : Option JournalInput}
    (hindex : database.index header journal = some after) :
    after.headers = database.headers ++ [header] := by
  unfold Database.index at hindex
  cases journal with
  | none =>
      cases hindex
      rfl
  | some input =>
      obtain ⟨recorded, -, rfl⟩ := Option.map_eq_some_iff.1 hindex
      rfl

/-- Every step is a step of the loop over headers, or leaves what it sees. -/
theorem step_view {settings : Settings} {state next : IndexState} {action : IndexAction}
    (hstep : state.step settings action = some next) :
    match action.view with
    | some visible => state.view.step settings visible = some next.view
    | none => next.view = state.view := by
  cases action with
  | reorganise fromPrimary chain =>
      cases fromPrimary <;> cases hstep <;> rfl
  | begin =>
      cases hsession : state.session with
      | some session => simp [IndexState.step, hsession] at hstep
      | none =>
          simp only [IndexState.step, hsession, Option.some.injEq] at hstep
          cases hstep
          simp [IndexAction.view, State.step, IndexState.view, hsession, OpenSession.view]
  | fetch fromPrimary height =>
      obtain ⟨session, hsession, hstep⟩ := bind_eq_some_iff.1 hstep
      split at hstep
      · cases hstep
      next hfree =>
        obtain ⟨header, hheader, hstep⟩ := bind_eq_some_iff.1 hstep
        cases hstep
        have hvisible : state.view.session = some session.view := by
          rw [IndexState.view, hsession]
          rfl
        have hheader : (state.view.chain fromPrimary)[height]? = some header := hheader
        have hfree : ¬ (settings.heightLimit.any (· ≤ height) ||
            (session.view.fetched height).isSome) = true := hfree
        simp only [IndexAction.view, State.step, hvisible, bind_eq_bind, bind_some]
        rw [if_neg hfree, hheader, bind_some]
        rfl
  | indexBlock nodeHash journal =>
      obtain ⟨session, hsession, hstep⟩ := bind_eq_some_iff.1 hstep
      obtain ⟨header, hheader, hstep⟩ := bind_eq_some_iff.1 hstep
      have hvisible : state.view.step settings (.indexBlock nodeHash) =
          some (state.view.indexBlock settings nodeHash session.view header) := by
        simp only [State.step, IndexState.view, hsession, map_some, bind_eq_bind,
          bind_some, OpenSession.view, hheader]
      refine hvisible.trans (congrArg some ?_)
      unfold IndexState.indexBlock at hstep
      unfold State.indexBlock
      have hcommitted : state.view.committed = state.store.committed.headers := rfl
      have hheight : session.view.height = session.height := rfl
      rw [hcommitted, hheight]
      cases hdetect : detectReorg header session.height state.store.committed.headers nodeHash with
      | error error =>
          rw [hdetect] at hstep
          cases hstep
          exact (view_recover state error).symm
      | ok _ =>
          rw [hdetect] at hstep
          obtain ⟨database, hdatabase, hnext⟩ := Option.map_eq_some_iff.1 hstep
          dsimp only at hnext ⊢
          rw [← hnext]
          have hopen := headers_index hdatabase
          simp only [OpenSession.view]
          by_cases hdue : (decide (settings.commitInterval (session.height + 1) ≤
              session.uncommitted + 1) ||
                savepointDue (session.height + 1) session.startingHeight) = true
          · refine (if_pos hdue).trans ?_
            rw [if_pos hdue, view_commit]
            simp only [OpenSession.view, hopen]
          · refine (if_neg hdue).trans ?_
            rw [if_neg hdue]
            simp only [IndexState.view, OpenSession.view, hopen, map_some]
  | finish =>
      obtain ⟨session, hsession, hstep⟩ := bind_eq_some_iff.1 hstep
      cases hstep
      simp only [IndexAction.view, State.step]
      have hvisible : state.view.session = some session.view := by
        rw [IndexState.view, hsession]
        rfl
      rw [hvisible]
      simp only [bind_eq_bind, bind_some]
      have huncommitted : session.view.uncommitted = session.uncommitted := rfl
      rw [huncommitted]
      split
      · rw [← view_commit]
        rfl
      · rfl
  | fail =>
      obtain ⟨session, hsession, hstep⟩ := bind_eq_some_iff.1 hstep
      cases hstep
      simp [IndexAction.view, State.step, IndexState.view, hsession]
  | createGeneration fresh coverage =>
      cases hsession : state.session with
      | some session => simp [IndexState.step, hsession] at hstep
      | none =>
          simp only [IndexState.step, hsession, Option.some.injEq] at hstep
          cases hstep
          simp [IndexAction.view, IndexState.view, hsession]

end OrdDogecoin.Index
