/-
Module: OrdDogecoin.Feed.JournalCoverage
Purpose: The journal over every history of a database: blocks indexed by a program that journals and
  by one that does not, commits and lost transactions, savepoints and restores.  A height reported as
  journaled has exactly the records of the block indexed there.
Trusted boundary: redb savepoints restore the tables they were taken of
Main exports: FeedTables, Covered, journal_covered_of_reaches
-/
import OrdDogecoin.Feed.Journal
import OrdDogecoin.Lib.Run
import OrdDogecoin.Lib.SortByKey

namespace OrdDogecoin.Feed

open Chain

/-! ### A range scan -/

theorem mem_journalRows {journal : Journal} {height seq : ℕ} {record : JournalRecord} :
    (seq, record) ∈ journalRows journal height ↔ journal.lookup (height, seq) = some record := by
  rw [journalRows, List.mem_insertionSort, List.mem_map]
  constructor
  · rintro ⟨⟨⟨rowHeight, rowSeq⟩, found⟩, hrow, heq⟩
    obtain ⟨hentry, hheight⟩ := List.mem_filter.1 hrow
    cases heq
    obtain rfl : rowHeight = height := by simpa using hheight
    exact AList.mem_lookup_iff.2 hentry
  · intro hlookup
    have hrow := AList.mem_lookup_iff.1 hlookup
    exact ⟨⟨(height, seq), record⟩, List.mem_filter.2 ⟨hrow, by simp⟩, rfl⟩

theorem nodup_journalRows (journal : Journal) (height : ℕ) :
    (((journal.entries.filter fun row => row.1.1 = height).map fun row =>
      (row.1.2, row.2)).map Prod.fst).Nodup := by
  rw [List.map_map]
  have hkeys : (journal.entries.map Sigma.fst).Nodup := journal.keys_nodup
  have hfiltered : ((journal.entries.filter fun row => row.1.1 = height).map Sigma.fst).Nodup :=
    hkeys.sublist ((List.filter_sublist).map _)
  rw [List.Nodup, List.pairwise_map] at hfiltered ⊢
  refine hfiltered.imp_of_mem ?_
  intro a b ha hb hne hseq
  have hheightA : a.1.1 = height := by simpa using (List.mem_filter.1 ha).2
  have hheightB : b.1.1 = height := by simpa using (List.mem_filter.1 hb).2
  exact hne (Prod.ext (hheightA.trans hheightB.symm) hseq)

theorem strict_journalRows (journal : Journal) (height : ℕ) :
    (journalRows journal height).Pairwise fun a b => a.1 < b.1 :=
  SortByKey.pairwise_insertionSort Prod.fst (nodup_journalRows journal height)

/-- Records in processing order, with their sequence numbers. -/
def numbered (records : List JournalRecord) : List (ℕ × JournalRecord) :=
  records.zipIdx.map fun pair => (pair.2, pair.1)

variable {records : List JournalRecord}

theorem mem_numbered {seq : ℕ} {record : JournalRecord} :
    (seq, record) ∈ numbered records ↔ records[seq]? = some record := by
  rw [numbered, List.mem_map]
  constructor
  · rintro ⟨⟨found, index⟩, hmem, heq⟩
    cases heq
    exact List.mem_zipIdx_iff_getElem?.1 hmem
  · intro hrecord
    exact ⟨(record, seq), List.mem_zipIdx_iff_getElem?.2 hrecord, rfl⟩

theorem strict_numbered (records : List JournalRecord) :
    (numbered records).Pairwise fun a b => a.1 < b.1 := by
  rw [numbered, List.pairwise_map]
  rw [List.pairwise_iff_getElem]
  intro i j hi hj hlt
  simpa using hlt

/-- A height whose look-ups are those of a list is scanned as that list. -/
theorem journalRows_eq {journal : Journal} {height : ℕ}
    (hrows : ∀ seq, journal.lookup (height, seq) = records[seq]?) :
    journalRows journal height = numbered records := by
  have : Std.Antisymm fun a b : ℕ × JournalRecord => a.1 < b.1 :=
    ⟨fun a b hab hba => absurd hab (by omega)⟩
  have : Std.Irrefl fun a b : ℕ × JournalRecord => a.1 < b.1 := ⟨fun a => Nat.lt_irrefl a.1⟩
  refine (strict_journalRows journal height).eq_of_mem_iff (strict_numbered records) ?_
  rintro ⟨seq, record⟩
  rw [mem_journalRows, mem_numbered, hrows]

/-! ### Histories -/

/-- A block in the index: its hash, the location records its transactions gave, and whether the
program that indexed it wrote them to the journal. -/
structure IndexedBlock where
  hash : BlockHash
  records : List JournalRecord
  journaled : Bool
deriving DecidableEq, Repr

/-- The tables that the feed reads, with the indexed blocks by height. -/
structure FeedTables where
  blocks : List IndexedBlock
  reorgs : ℕ
  feedMeta : FeedMeta
  journal : Journal

def FeedTables.empty : FeedTables where
  blocks := []
  reorgs := 0
  feedMeta := FeedMeta.empty
  journal := ∅

/-- The identity that a reader of the tables sees. -/
def FeedTables.identity (tables : FeedTables) (defaultCoverage : ℕ) : FeedIdentity :=
  readIdentity tables.feedMeta tables.reorgs (tables.blocks.map IndexedBlock.hash) defaultCoverage

/-- The open write transaction, what is committed, and the savepoints, oldest first. -/
structure JournalState where
  current : FeedTables
  committed : FeedTables
  savepoints : List FeedTables

def JournalState.empty : JournalState where
  current := FeedTables.empty
  committed := FeedTables.empty
  savepoints := []

inductive JournalAction where
  /-- This program indexes the next block. -/
  | index (hash : BlockHash) (records : List JournalRecord) (fresh : FixedBytes 16) (coverage : ℕ)
  /-- An older program, or a lean replay, indexes the next block. -/
  | indexUnjournaled (hash : BlockHash) (records : List JournalRecord)
  /-- `dogemap_feed_initialize`. -/
  | createGeneration (fresh : FixedBytes 16) (coverage : ℕ)
  | commit
  /-- The write transaction is dropped. -/
  | abort
  | takeSavepoint
  | deleteSavepoint (position : ℕ)
  /-- `handle_reorg` restores a savepoint, which drops the newer ones. -/
  | restore (position : ℕ)

/-- The tables after the next block, journaled. -/
def FeedTables.indexBlock (tables : FeedTables) (hash : BlockHash) (records : List JournalRecord)
    (fresh : FixedBytes 16) (coverage : ℕ) : Option FeedTables :=
  (recordBlock tables.blocks.length records fresh coverage tables.feedMeta tables.journal).map
    fun recorded =>
      { tables with
        blocks := tables.blocks ++ [{ hash := hash, records := records, journaled := true }]
        feedMeta := recorded.1
        journal := recorded.2 }

/-- The tables after a restore: those of the savepoint with the counter moved on and the generation
kept. -/
def FeedTables.restored (savepoint before : FeedTables) : FeedTables :=
  { savepoint with
    reorgs := before.reorgs + 1
    feedMeta := reinstateMeta before.feedMeta savepoint.feedMeta }

def JournalState.step (state : JournalState) : JournalAction → Option JournalState
  | .index hash records fresh coverage =>
      (state.current.indexBlock hash records fresh coverage).map fun tables =>
        { state with current := tables }
  | .indexUnjournaled hash records =>
      some { state with current :=
        { state.current with
          blocks :=
            state.current.blocks ++ [{ hash := hash, records := records, journaled := false }] } }
  | .createGeneration fresh coverage =>
      some { state with current :=
        { state.current with feedMeta := ensureMeta state.current.feedMeta fresh coverage } }
  | .commit => some { state with committed := state.current }
  | .abort => some { state with current := state.committed }
  | .takeSavepoint => some { state with savepoints := state.savepoints ++ [state.committed] }
  | .deleteSavepoint position =>
      some { state with savepoints := state.savepoints.eraseIdx position }
  | .restore position =>
      state.savepoints[position]?.map fun savepoint =>
        { current := savepoint.restored state.committed
          committed := savepoint.restored state.committed
          savepoints := state.savepoints.take (position + 1) }

/-! ### Coverage -/

/-- The journal range covers blocks that were journaled, with their records. -/
structure Covered (tables : FeedTables) : Prop where
  paired : tables.feedMeta.journalStart.isSome = tables.feedMeta.journalLast.isSome
  range : ∀ {start last : ℕ}, tables.feedMeta.journalStart = some start →
    tables.feedMeta.journalLast = some last → start ≤ last ∧ last < tables.blocks.length
  rows : ∀ {start last height : ℕ} {block : IndexedBlock},
    tables.feedMeta.journalStart = some start → tables.feedMeta.journalLast = some last →
    start ≤ height → height ≤ last → tables.blocks[height]? = some block →
      block.journaled = true ∧ ∀ seq, tables.journal.lookup (height, seq) = block.records[seq]?

theorem Covered.empty : Covered FeedTables.empty where
  paired := rfl
  range hstart := by cases hstart
  rows hstart := by cases hstart

/-- Coverage is about the journal range, the journal and the blocks. -/
theorem Covered.of_range {tables others : FeedTables} (covered : Covered tables)
    (hblocks : others.blocks = tables.blocks) (hjournal : others.journal = tables.journal)
    (hstart : others.feedMeta.journalStart = tables.feedMeta.journalStart)
    (hlast : others.feedMeta.journalLast = tables.feedMeta.journalLast) : Covered others := by
  constructor
  · rw [hstart, hlast]
    exact covered.paired
  · rw [hstart, hlast, hblocks]
    exact covered.range
  · rw [hstart, hlast, hblocks, hjournal]
    exact covered.rows

/-- A block that is not journaled is outside the range. -/
theorem Covered.append_unjournaled {tables : FeedTables} (covered : Covered tables)
    (block : IndexedBlock) : Covered { tables with blocks := tables.blocks ++ [block] } := by
  refine ⟨covered.paired, fun hstart hlast => ?_, fun hstart hlast hlower hupper hblock => ?_⟩
  · obtain ⟨hle, hlt⟩ := covered.range hstart hlast
    refine ⟨hle, ?_⟩
    rw [List.length_append]
    omega
  · have hlt := (covered.range hstart hlast).2
    rw [List.getElem?_append_left (by omega)] at hblock
    exact covered.rows hstart hlast hlower hupper hblock

theorem journalLast_of_contiguous {feedMeta : FeedMeta} {height : ℕ}
    (hcontiguous : contiguous feedMeta height = true) :
    ∃ last, feedMeta.journalLast = some last ∧ last + 1 = height := by
  rw [contiguous, Bool.and_eq_true, decide_eq_true_iff] at hcontiguous
  obtain ⟨last, hlast, hheight⟩ := Option.map_eq_some_iff.1 hcontiguous.2
  exact ⟨last, (Option.filter_eq_some_iff.1 hlast).1, hheight⟩

/-- A journaled block continues the range or starts a new one. -/
theorem Covered.indexBlock {tables after : FeedTables} {hash : BlockHash} {fresh : FixedBytes 16}
    {coverage : ℕ} (covered : Covered tables)
    (hindex : tables.indexBlock hash records fresh coverage = some after) : Covered after := by
  obtain ⟨⟨feedMeta, journal⟩, hrecord, rfl⟩ := Option.map_eq_some_iff.1 hindex
  have hlookup := lookup_recordBlock hrecord
  have hmeta : feedMeta.journalLast = some tables.blocks.length ∧
      (feedMeta.journalStart = some tables.blocks.length ∨
        feedMeta.journalStart = tables.feedMeta.journalStart ∧
          ∃ last, tables.feedMeta.journalLast = some last ∧ last + 1 = tables.blocks.length ∧
            tables.feedMeta.journalStart.isSome) := by
    unfold recordBlock at hrecord
    dsimp only at hrecord
    split at hrecord
    · cases hrecord
      refine ⟨rfl, ?_⟩
      dsimp only
      split
      next hcontiguous =>
        obtain ⟨last, hlast, hheight⟩ := journalLast_of_contiguous hcontiguous
        rw [contiguous, Bool.and_eq_true] at hcontiguous
        exact .inr ⟨rfl, last, hlast, hheight, hcontiguous.1⟩
      next => exact .inl rfl
    · cases hrecord
  obtain ⟨hlast, hstart⟩ := hmeta
  -- the rows of older heights are untouched, those of the new one are its records
  have hold : ∀ {height seq : ℕ}, height < tables.blocks.length →
      journal.lookup (height, seq) = tables.journal.lookup (height, seq) := by
    intro height seq hlt
    rw [hlookup, if_neg (Nat.ne_of_lt hlt)]
  have hnew : ∀ seq, journal.lookup (tables.blocks.length, seq) = records[seq]? := by
    intro seq
    rw [hlookup, if_pos rfl]
  constructor
  · dsimp only
    rw [hlast]
    rcases hstart with hstart | ⟨hstart, -, -, -, hsome⟩
    · rw [hstart]
    · rw [hstart]
      exact hsome
  · intro start last hfirst hfinal
    dsimp only at hfirst hfinal ⊢
    rw [hlast] at hfinal
    cases hfinal
    rw [List.length_append, List.length_singleton]
    rcases hstart with hstart | ⟨hstart, before, hbefore, hheight, -⟩
    · rw [hstart] at hfirst
      cases hfirst
      omega
    · rw [hstart] at hfirst
      obtain ⟨hle, hlt⟩ := covered.range hfirst hbefore
      omega
  · intro start last height block hfirst hfinal hlower hupper hblock
    dsimp only at hfirst hfinal hblock ⊢
    rw [hlast] at hfinal
    cases hfinal
    rcases Nat.eq_or_lt_of_le hupper with rfl | hlt
    · rw [List.getElem?_concat_length] at hblock
      cases hblock
      exact ⟨rfl, hnew⟩
    · rw [List.getElem?_append_left hlt] at hblock
      rcases hstart with hstart | ⟨hstart, before, hbefore, hheight, -⟩
      · rw [hstart] at hfirst
        cases hfirst
        omega
      · rw [hstart] at hfirst
        obtain ⟨hjournaled, hrows⟩ := covered.rows hfirst hbefore hlower (by omega) hblock
        exact ⟨hjournaled, fun seq => (hold hlt).trans (hrows seq)⟩

/-- Every state of the database that can come back is covered. -/
structure AllCovered (state : JournalState) : Prop where
  current : Covered state.current
  committed : Covered state.committed
  savepoints : ∀ savepoint ∈ state.savepoints, Covered savepoint

theorem AllCovered.step {state next : JournalState} {action : JournalAction}
    (covered : AllCovered state) (hstep : state.step action = some next) : AllCovered next := by
  cases action with
  | index hash records fresh coverage =>
      obtain ⟨tables, htables, rfl⟩ := Option.map_eq_some_iff.1 hstep
      exact ⟨covered.current.indexBlock htables, covered.committed, covered.savepoints⟩
  | indexUnjournaled hash records =>
      cases hstep
      exact ⟨covered.current.append_unjournaled _, covered.committed, covered.savepoints⟩
  | createGeneration fresh coverage =>
      cases hstep
      exact ⟨covered.current.of_range rfl rfl rfl rfl, covered.committed, covered.savepoints⟩
  | commit =>
      cases hstep
      exact ⟨covered.current, covered.current, covered.savepoints⟩
  | abort =>
      cases hstep
      exact ⟨covered.committed, covered.committed, covered.savepoints⟩
  | takeSavepoint =>
      cases hstep
      refine ⟨covered.current, covered.committed, fun savepoint hmem => ?_⟩
      rcases List.mem_append.1 hmem with hmem | hmem
      · exact covered.savepoints savepoint hmem
      · obtain rfl := List.mem_singleton.1 hmem
        exact covered.committed
  | deleteSavepoint position =>
      cases hstep
      refine ⟨covered.current, covered.committed, fun savepoint hmem => ?_⟩
      exact covered.savepoints savepoint (List.mem_of_mem_eraseIdx hmem)
  | restore position =>
      obtain ⟨savepoint, hsavepoint, rfl⟩ := Option.map_eq_some_iff.1 hstep
      have hold := covered.savepoints savepoint (List.mem_of_getElem? hsavepoint)
      have hrestored : Covered (savepoint.restored state.committed) :=
        hold.of_range rfl rfl rfl rfl
      exact ⟨hrestored, hrestored, fun other hmem =>
        covered.savepoints other (List.mem_of_mem_take hmem)⟩

/-! ### What a reader is told -/

/-- What the journal promises to a reader of some tables. -/
structure CoverageTrue (tables : FeedTables) (defaultCoverage : ℕ) : Prop where
  /-- A height reported as journaled has the records of the block indexed there, in order. -/
  rows : ∀ height, (tables.identity defaultCoverage).transfersJournaled height = true →
    ∃ block, tables.blocks[height]? = some block ∧
      journalRows tables.journal height = numbered block.records
  /-- With a block that was not journaled above the reported start, the journal is not active. -/
  gap : ∀ start height block, tables.feedMeta.journalStart = some start → start ≤ height →
    tables.blocks[height]? = some block → block.journaled = false →
      (tables.identity defaultCoverage).journalActive = false

/-- An active journal ends at the last block. -/
theorem journalActive_eq_true {tables : FeedTables} {defaultCoverage : ℕ}
    (hactive : (tables.identity defaultCoverage).journalActive = true) :
    ∃ start, tables.feedMeta.journalStart = some start ∧
      tables.feedMeta.journalLast = some (tables.blocks.length - 1) := by
  unfold FeedIdentity.journalActive at hactive
  split at hactive
  next start last height hash hstart hlast hcheckpoint =>
    refine ⟨start, hstart, ?_⟩
    obtain ⟨found, -, heq⟩ := Option.map_eq_some_iff.1 hcheckpoint
    rw [List.length_map] at heq
    have hheight : tables.blocks.length - 1 = height := (Prod.mk.inj heq).1
    rw [hheight, ← of_decide_eq_true hactive]
    exact hlast
  next => cases hactive

theorem Covered.coverageTrue {tables : FeedTables} (covered : Covered tables) (defaultCoverage : ℕ) :
    CoverageTrue tables defaultCoverage := by
  constructor
  · intro height hjournaled
    rw [FeedIdentity.transfersJournaled, Bool.and_eq_true, Bool.and_eq_true] at hjournaled
    obtain ⟨⟨hactive, hlower⟩, hupper⟩ := hjournaled
    obtain ⟨start, hstart, hlast⟩ := journalActive_eq_true hactive
    change (tables.feedMeta.journalStart.any fun start => start ≤ height) = true at hlower
    change (tables.feedMeta.journalLast.any fun last => height ≤ last) = true at hupper
    rw [hstart] at hlower
    rw [hlast] at hupper
    have hlower : start ≤ height := of_decide_eq_true hlower
    have hupper : height ≤ tables.blocks.length - 1 := of_decide_eq_true hupper
    have hlt := (covered.range hstart hlast).2
    have hblock := List.getElem?_eq_getElem (l := tables.blocks) (i := height) (by omega)
    exact ⟨_, hblock, journalRows_eq (covered.rows hstart hlast hlower hupper hblock).2⟩
  · intro start height block hstart hlower hblock hgap
    by_contra hactive
    obtain ⟨found, hfound, hlast⟩ := journalActive_eq_true (Bool.not_eq_false _ ▸ hactive)
    cases hstart.symm.trans hfound
    have hlt := (List.getElem?_eq_some_iff.1 hblock).1
    have hjournaled := (covered.rows hstart hlast hlower (by omega) hblock).1
    rw [hgap] at hjournaled
    cases hjournaled

/-- In every history of a database, the open write transaction and every committed state tell the
truth about the journal. -/
theorem journal_covered_of_reaches {state : JournalState}
    (reaches : Run.Reaches JournalState.step (fun _ _ => True) JournalState.empty state)
    (defaultCoverage : ℕ) :
    CoverageTrue state.current defaultCoverage ∧ CoverageTrue state.committed defaultCoverage := by
  have covered : AllCovered state :=
    reaches.invariant AllCovered (fun covered _ hstep => covered.step hstep)
      ⟨Covered.empty, Covered.empty, fun _ h => absurd h List.not_mem_nil⟩
  exact ⟨covered.current.coverageTrue defaultCoverage, covered.committed.coverageTrue defaultCoverage⟩

/-- A record of a transfer to an output. -/
def sampleRecord (txid : Txid) : JournalRecord where
  kind := .transfer
  inscriptionId := ⟨1, 0⟩
  inscriptionNumber := 0
  fromSatpoint := ⟨⟨1, 0⟩, 0⟩
  toDestination := .assigned ⟨⟨txid, 0⟩, 0⟩ 1 []
  txid := txid
  txIndex := 1

def sampleGeneration : FixedBytes 16 := ⟨List.replicate 16 7, rfl⟩

/-- A block is journaled and kept in a savepoint; another program indexes one more, which a restore
takes back, and a journaled block takes its place. -/
def sampleHistory : List JournalAction :=
  [.index 10 [sampleRecord 2] sampleGeneration 0, .commit, .takeSavepoint,
    .indexUnjournaled 11 [sampleRecord 3], .commit, .restore 0,
    .index 12 [sampleRecord 4, sampleRecord 5] sampleGeneration 0, .commit]

theorem sampleHistory_covered :
    ∃ state, Run.Reaches JournalState.step (fun _ _ => True) JournalState.empty state ∧
      (state.committed.identity 0).transfersJournaled 1 = true ∧
      journalRows state.committed.journal 1 = numbered [sampleRecord 4, sampleRecord 5] ∧
      CoverageTrue state.committed 0 := by
  have hexec : (Run.exec JournalState.step (fun _ _ => true) sampleHistory JournalState.empty).map
      (fun state => ((state.committed.identity 0).transfersJournaled 1,
        journalRows state.committed.journal 1)) =
        some (true, numbered [sampleRecord 4, sampleRecord 5]) := by decide
  obtain ⟨state, reaches, hview⟩ := Run.exists_reaches_of_exec (fun _ => trivial) hexec
  obtain ⟨hjournaled, hrows⟩ := Prod.mk.inj hview
  exact ⟨state, reaches, hjournaled, hrows, (journal_covered_of_reaches reaches 0).2⟩

end OrdDogecoin.Feed
