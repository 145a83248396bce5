/-
Module: OrdDogecoin.Sats.SatLookup
Purpose: What the sat look-ups read.  The writer concatenates 11-byte ranges, the readers cut the
  row into chunks of 24 bytes and convert each to 11: a row of at most two ranges reads as empty
  and a longer one panics, so no look-up ever returns a range.
Trusted boundary: as in OrdDogecoin.Sats.SatIndex
Main exports: readChunks_eq, Committed.find_ne_found, lookupsCorrect_iff
-/
import OrdDogecoin.Sats.SatIndex

namespace OrdDogecoin.Sats

open Chain
open LittleEndian

/-! ### Rows as the readers see them -/

theorem length_rowBytes (row : Row) : (rowBytes row).length = 11 * row.length := by
  induction row with
  | nil => rfl
  | cons range row ih =>
      rw [rowBytes, List.flatMap_cons, List.length_append, ← rowBytes, ih, SatRange.length_store,
        List.length_cons]
      omega

/-- A 24-byte chunk is not an 11-byte range. -/
theorem loadChunk_of_mem_chunksExact {bytes chunk : List UInt8}
    (hmem : chunk ∈ chunksExact 24 bytes) : SatRange.loadChunk chunk = none := by
  rw [SatRange.loadChunk, length_of_mem_chunksExact hmem]
  rfl

/-- Two ranges are too short for one chunk. -/
theorem chunksExact_rowBytes_of_short {row : Row} (hshort : row.length < 3) :
    chunksExact 24 (rowBytes row) = [] := by
  apply chunksExact_of_length_lt
  rw [length_rowBytes]
  omega

/-- Three ranges are long enough for one. -/
theorem chunksExact_rowBytes_of_long {row : Row} (hlong : 3 ≤ row.length) :
    ∃ chunk chunks, chunksExact 24 (rowBytes row) = chunk :: chunks := by
  have hbytes : 24 ≤ (rowBytes row).length := by
    rw [length_rowBytes]
    omega
  exact ⟨_, _, chunksExact_of_le_length (by omega) hbytes⟩

/-- The reader of a row returns nothing for up to two ranges and panics above. -/
theorem readChunks_eq (row : Row) : readChunks row = if row.length < 3 then some [] else none := by
  rcases Nat.lt_or_ge row.length 3 with hshort | hlong
  · rw [if_pos hshort, readChunks, chunksExact_rowBytes_of_short hshort]
    rfl
  · obtain ⟨chunk, chunks, hchunks⟩ := chunksExact_rowBytes_of_long hlong
    have hhead : SatRange.loadChunk chunk = none :=
      loadChunk_of_mem_chunksExact (hchunks ▸ List.mem_cons_self)
    rw [if_neg (Nat.not_lt.2 hlong), readChunks, hchunks, List.mapM_cons, hhead]
    rfl

namespace Committed

variable {db : Committed}

theorem list_of_lookup {outpoint : OutPoint} {row : Row}
    (hrow : db.outpointToSatRanges.lookup outpoint = some row) (inActiveChain : Txid → Bool) :
    db.list inActiveChain outpoint =
      if row.length < 3 then some (some (.unspent [])) else none := by
  rw [list, hrow]
  simp only [readChunks_eq]
  split_ifs <;> rfl

/-- `list` returns the assigned ranges of a row exactly when there are none. -/
theorem list_eq_assigned_iff {outpoint : OutPoint} {row : Row}
    (hrow : db.outpointToSatRanges.lookup outpoint = some row) (inActiveChain : Txid → Bool) :
    db.list inActiveChain outpoint = some (some (.unspent row)) ↔ row = [] := by
  rw [list_of_lookup hrow]
  constructor
  · intro heq
    split_ifs at heq
    simpa using heq.symm
  · rintro rfl
    rfl

/-- `list` panics exactly on the rows of three ranges and more. -/
theorem list_eq_panic_iff {outpoint : OutPoint} {row : Row}
    (hrow : db.outpointToSatRanges.lookup outpoint = some row) (inActiveChain : Txid → Bool) :
    db.list inActiveChain outpoint = none ↔ 3 ≤ row.length := by
  rw [list_of_lookup hrow]
  split_ifs with hshort
  · simp [hshort]
  · simpa using hshort

theorem findInChunks_ne_found (sat : ℕ) (outpoint : OutPoint) (row : Row) (satpoint : SatPoint) :
    findInChunks sat outpoint 0 (chunksExact 24 (rowBytes row)) ≠ some (some satpoint) := by
  cases hchunks : chunksExact 24 (rowBytes row) with
  | nil => simp [findInChunks]
  | cons chunk chunks =>
      have hhead : SatRange.loadChunk chunk = none :=
        loadChunk_of_mem_chunksExact (hchunks ▸ List.mem_cons_self)
      simp [findInChunks, hhead]

theorem findInRows_ne_found (sat : ℕ) (satpoint : SatPoint) :
    ∀ rows, findInRows sat rows ≠ some (some satpoint)
  | [] => by simp [findInRows]
  | row :: rows => by
      intro hfound
      cases hchunks : findInChunks sat row.1 0 (chunksExact 24 (rowBytes row.2)) with
      | none => simp [findInRows, hchunks] at hfound
      | some found =>
          cases found with
          | none =>
              simp only [findInRows, hchunks, Option.bind_eq_bind, Option.bind_some] at hfound
              exact findInRows_ne_found sat satpoint rows hfound
          | some other => exact findInChunks_ne_found sat row.1 row.2 other hchunks

/-- `find` never finds a sat. -/
theorem find_ne_found (tables : SatTables) (sat : ℕ) (satpoint : SatPoint) :
    db.find tables sat ≠ some (some satpoint) := by
  intro hfound
  rw [find] at hfound
  cases hheight : tables.satHeight sat with
  | none => simp [hheight] at hfound
  | some height =>
      simp only [hheight, Option.bind_eq_bind, Option.bind_some] at hfound
      split_ifs at hfound
      · simp at hfound
      · exact findInRows_ne_found sat satpoint _ hfound

end Committed

/-! ### Sats always have a height -/

namespace ShippedTables

variable {tables : SatTables}

/-- Later rows of the table are positive. -/
theorem startingSats_pos (shipped : ShippedTables tables) {i start : ℕ} (hpos : 0 < i)
    (hrow : tables.startingSats[i]? = some start) : 0 < start := by
  obtain ⟨hi, rfl⟩ := List.getElem?_eq_some_iff.1 hrow
  obtain ⟨hzero, hfirst⟩ := List.getElem?_eq_some_iff.1 shipped.firstStart
  have hlt := List.pairwise_iff_getElem.1 shipped.increasing 0 i hzero hi hpos
  rwa [hfirst] at hlt

/-- Every height after the first starts above sat zero. -/
theorem startingSat_pos (shipped : ShippedTables tables) {height start : ℕ} (hpos : 0 < height)
    (hstart : tables.startingSat height = some start) : 0 < start := by
  rcases Nat.lt_or_ge height 145000 with hearly | hlate
  · rw [(shipped.early_eq hearly).1] at hstart
    exact shipped.startingSats_pos hpos hstart
  · rw [(shipped.late_eq hlate).1, checkedU64] at hstart
    split_ifs at hstart
    obtain rfl := Option.some.inj hstart
    unfold lateStartingSat
    split_ifs <;> omega

theorem startingSat_zero (shipped : ShippedTables tables) : tables.startingSat 0 = some 0 :=
  (shipped.early_eq (by omega)).1.trans shipped.firstStart

/-- The epoch of a sat is one of the table's, and starts at or below the sat. -/
theorem epochOfSat_spec (shipped : ShippedTables tables) (sat : ℕ) :
    tables.epochOfSat sat < 145006 ∧
      ∃ start, tables.epochStartingSat (tables.epochOfSat sat) = some start ∧ start ≤ sat := by
  have hlength := shipped.length_startingSats
  -- no row up to and including the one of the epoch itself is above the sat
  have hrow : ∀ epoch, epoch < 145006 → (∀ i, i < epoch →
      ¬ sat < tables.startingSats.getD (i + 1) 0) →
      ∃ start, tables.epochStartingSat epoch = some start ∧ start ≤ sat := by
    intro epoch hepoch hbelow
    have hget : tables.startingSats[epoch]? =
        some (tables.startingSats.get ⟨epoch, by omega⟩) := List.getElem?_eq_getElem (by omega)
    refine ⟨_, by rw [SatTables.epochStartingSat, hget, Option.some_or], ?_⟩
    cases epoch with
    | zero =>
        have hfirst := hget.symm.trans shipped.firstStart
        rw [Option.some.inj hfirst]
        exact Nat.zero_le sat
    | succ i =>
        have hle := hbelow i (by omega)
        rw [List.getD_eq_getElem?_getD, hget, Option.getD_some] at hle
        exact Nat.le_of_not_lt hle
  unfold SatTables.epochOfSat
  cases hfind : (List.range (tables.startingSats.length - 1)).find? fun i =>
      decide (sat < tables.startingSats.getD (i + 1) 0) with
  | none =>
      refine ⟨by simp, hrow _ (by simp) ?_⟩
      intro i hi
      rw [List.find?_eq_none] at hfind
      rw [Option.getD_none] at hi
      simpa using hfind i (List.mem_range.2 (by omega))
  | some epoch =>
      obtain ⟨-, hlt, hbelow⟩ := List.find?_range_eq_some.1 hfind
      rw [List.mem_range] at hlt
      refine ⟨by rw [Option.getD_some]; omega, hrow _ (by rw [Option.getD_some]; omega) ?_⟩
      intro i hi
      simpa using hbelow i hi

/-- Sat zero is the first sat of epoch zero, hence not common. -/
theorem isCommon_zero (shipped : ShippedTables tables) : tables.isCommon 0 = some false := by
  obtain ⟨row, hrow⟩ : ∃ row, tables.startingSats[1]? = some row :=
    ⟨_, List.getElem?_eq_getElem (by rw [shipped.length_startingSats]; omega)⟩
  have hfirst : (List.range (tables.startingSats.length - 1)).find?
      (fun i => decide (0 < tables.startingSats.getD (i + 1) 0)) = some 0 := by
    rw [List.find?_range_eq_some, shipped.length_startingSats]
    refine ⟨?_, List.mem_range.2 (by omega), fun j hj => absurd hj (Nat.not_lt_zero j)⟩
    simpa [List.getD_eq_getElem?_getD, hrow] using shipped.startingSats_pos Nat.one_pos hrow
  have hepoch : tables.epochOfSat 0 = 0 := by rw [SatTables.epochOfSat, hfirst, Option.getD_some]
  obtain ⟨reward, hreward, hpos⟩ := shipped.epochSubsidy_pos (show 0 < 145006 by omega)
  have hstart : tables.epochStartingSat 0 = some 0 := by
    rw [SatTables.epochStartingSat, shipped.firstStart, Option.some_or]
  simp [SatTables.isCommon, SatTables.epochPosition, hepoch, hstart, hreward,
    Nat.pos_iff_ne_zero.1 hpos]

/-- `Sat::height` never panics on the shipped tables. -/
theorem satHeight_isSome (shipped : ShippedTables tables) (sat : ℕ) :
    ∃ height, tables.satHeight sat = some height := by
  obtain ⟨hlt, start, hstart, hle⟩ := shipped.epochOfSat_spec sat
  obtain ⟨reward, hreward, hpos⟩ := shipped.epochSubsidy_pos hlt
  obtain ⟨first, hfirst⟩ := epochStartingHeight_isSome hlt
  have hposition : tables.epochPosition sat = some (sat - start) := by
    simp [SatTables.epochPosition, hstart, Nat.not_lt.2 hle]
  refine ⟨first + (sat - start) / reward, ?_⟩
  simp [SatTables.satHeight, hposition, hreward, hfirst, Nat.pos_iff_ne_zero.1 hpos]

end ShippedTables

/-! ### When the look-ups are right -/

/-- Before the first block the table holds the empty row of the null outpoint, and nothing more. -/
structure Fresh (updater : SatUpdater) : Prop where
  uncommitted : updater.height = 0 →
    updater.index.rangeCache = ∅ ∧ updater.index.outpointToSatRanges = initialRanges
  committed : updater.committed.blockCount = 0 →
    updater.committed.outpointToSatRanges = initialRanges

/-- Freshness holds along every run. -/
theorem Reachable.fresh {tables : SatTables} {updater : SatUpdater}
    (reachable : Reachable tables updater) : Fresh updater := by
  induction reachable with
  | empty => exact ⟨fun _ => ⟨rfl, rfl⟩, fun _ => rfl⟩
  | @block updater next block _ indexed ih =>
      cases hindex : indexBlockSats tables updater.height block updater.index with
      | none => simp [SatUpdater.indexBlock, hindex] at indexed
      | some index =>
          simp only [SatUpdater.indexBlock, hindex, Option.bind_eq_bind, Option.bind_some,
            Option.some.injEq] at indexed
          subst indexed
          exact ⟨fun hzero => absurd hzero (Nat.succ_ne_zero _), ih.committed⟩
  | @commit updater _ ih =>
      have hcommitted : updater.height = 0 →
          updater.commit.index.outpointToSatRanges = initialRanges := by
        intro hzero
        obtain ⟨hcache, hranges⟩ := ih.uncommitted hzero
        simp only [SatUpdater.commit, hcache, hranges]
        rfl
      exact ⟨fun hzero => ⟨rfl, hcommitted hzero⟩, hcommitted⟩

/-- An empty database answers every look-up correctly. -/
theorem lookupsCorrect_initial {tables : SatTables} (shipped : ShippedTables tables)
    {db : Committed} (hblocks : db.blockCount = 0) (hranges : db.outpointToSatRanges = initialRanges) :
    db.LookupsCorrect tables := by
  have hrow : ∀ outpoint row, db.outpointToSatRanges.lookup outpoint = some row → row = [] := by
    intro outpoint row hlookup
    rw [hranges, initialRanges] at hlookup
    have hmem := AList.mem_lookup_iff.1 (Option.mem_def.2 hlookup)
    simp at hmem
    exact hmem.2
  refine ⟨?_, ⟨0, by rw [hblocks, shipped.startingSat_zero], fun sat hlt => ?_⟩, ?_, ?_⟩
  · intro inActiveChain outpoint row hlookup
    exact (Committed.list_eq_assigned_iff hlookup inActiveChain).2 (hrow outpoint row hlookup)
  · exact absurd hlt (Nat.not_lt_zero sat)
  · intro inActiveChain outpoint hpanic
    cases hlookup : db.outpointToSatRanges.lookup outpoint with
    | none => simp [Committed.list, hlookup] at hpanic
    | some row =>
        have hlong := (Committed.list_eq_panic_iff hlookup inActiveChain).1 hpanic
        rw [hrow outpoint row hlookup] at hlong
        simp at hlong
  · intro sat
    obtain ⟨height, hheight⟩ := shipped.satHeight_isSome sat
    simp [Committed.find, hheight, hblocks]

/-- Along every run the look-ups are right exactly until the first block is committed. -/
theorem lookupsCorrect_iff {tables : SatTables} (shipped : ShippedTables tables)
    {updater : SatUpdater} (reachable : Reachable tables updater) :
    updater.committed.LookupsCorrect tables ↔ updater.committed.blockCount = 0 := by
  constructor
  · intro correct
    by_contra hblocks
    obtain ⟨bound, hbound, hfinds⟩ := correct.find_eq
    have hpos := shipped.startingSat_pos (Nat.pos_of_ne_zero hblocks) hbound
    obtain ⟨satpoint, hfound, -⟩ := hfinds 0 hpos
    exact Committed.find_ne_found tables 0 satpoint hfound
  · intro hblocks
    exact lookupsCorrect_initial shipped hblocks (reachable.fresh.committed hblocks)

theorem lookupsCorrect_empty :
    ShippedTables lateTables ∧ Reachable lateTables SatUpdater.empty ∧
      SatUpdater.empty.committed.LookupsCorrect lateTables :=
  ⟨shippedTables_lateTables, .empty, (lookupsCorrect_iff shippedTables_lateTables .empty).2 rfl⟩

/-- A first block whose coinbase keeps the whole reward of 88 coins. -/
def genesisBlock : BlockData where
  header := { blockHash := 1, prevBlockhash := 0 }
  txdata :=
    [{ txid := 1, input := [{ previousOutput := OutPoint.null }], output := [{ value := 8800000000 }] }]

/-- That block puts one range into the cache. -/
theorem indexBlock_genesisBlock {tables : SatTables} (shipped : ShippedTables tables)
    (hreward : tables.subsidy 0 = some 8800000000) :
    ∃ updater, SatUpdater.empty.indexBlock tables genesisBlock = some updater ∧
      updater.index.rangeCache = AList.singleton (⟨1, 0⟩ : OutPoint) [(0, 8800000000)] ∧
      updater.index.outpointToSatRanges = initialRanges := by
  simp [SatUpdater.indexBlock, indexBlockSats, hreward, shipped.startingSat_zero, genesisBlock,
    indexSpends, indexTransactionSats, indexOutputs, assignOutput, noteSat, shipped.isCommon_zero,
    Transaction.outpoint, SatUpdater.empty, checkedU64]

/-- Committed, the one range of its output is stored and listed as no range at all. -/
theorem genesis_not_listed :
    ∃ updater, Reachable lateTables updater ∧
      updater.committed.outpointToSatRanges.lookup ⟨1, 0⟩ = some [(0, 8800000000)] ∧
      updater.committed.list (fun _ => true) ⟨1, 0⟩ = some (some (.unspent [])) ∧
      ¬ updater.committed.LookupsCorrect lateTables := by
  have shipped := shippedTables_lateTables
  have hreward := (shipped.early_eq (show 0 < 145000 by omega)).2.trans epochs_lateTables_zero
  obtain ⟨updater, indexed, hcache, hranges⟩ := indexBlock_genesisBlock shipped hreward
  have hlookup : updater.commit.committed.outpointToSatRanges.lookup ⟨1, 0⟩ =
      some [(0, 8800000000)] := by
    simp only [SatUpdater.commit, hcache, hranges]
    rfl
  refine ⟨_, (Reachable.empty.block genesisBlock indexed).commit, hlookup,
    Committed.list_of_lookup hlookup _, ?_⟩
  intro correct
  have hlist := correct.list_eq (fun _ => true) _ _ hlookup
  rw [Committed.list_eq_assigned_iff hlookup] at hlist
  simp at hlist

end OrdDogecoin.Sats
