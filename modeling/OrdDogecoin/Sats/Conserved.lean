/-
Module: OrdDogecoin.Sats.Conserved
Purpose: Conservation of sats over whole runs: at every block boundary the stored ranges are those of the
  unspent outputs and the null outpoint, disjoint, as long as their outputs are worth, and together the
  sats mined so far.  It holds as long as the starting sats tile and every dealt range fits the stored form.
Trusted boundary: as in OrdDogecoin.Sats.SatIndex and OrdDogecoin.Chain.Utxo
Main exports: SatsConserved, SatRun.Reaches, satsConserved_of_reaches
-/
import OrdDogecoin.Sats.Refinement

namespace OrdDogecoin.Sats

open Chain
open KeyTable
open RangeQueue

/-! ### What is conserved -/

/-- The ranges stored for an outpoint, in the cache or in the table, as they are read back. -/
def SatIndex.stored (index : SatIndex) (outpoint : OutPoint) : List SatRange :=
  (((index.rangeCache.lookup outpoint).or (index.outpointToSatRanges.lookup outpoint)).map loadRow).getD
    []

/-- The stored ranges are disjoint, cover the sats below the next height, and make up what each unspent
output is worth. -/
structure SatsConserved (tables : SatTables) (height : ℕ) (index : SatIndex) (utxo : UtxoSet) :
    Prop where
  covered : ∃ bound, tables.startingSat height = some bound ∧
    ∀ sat, sat < bound ↔ ∃ outpoint, sat ∈ points (index.stored outpoint)
  nodup : ∀ outpoint, (points (index.stored outpoint)).Nodup
  disjoint : ∀ outpoint other, other ≠ outpoint →
    (points (index.stored outpoint)).Disjoint (points (index.stored other))
  worth : ∀ outpoint value, utxo.lookup outpoint = some value →
    (points (index.stored outpoint)).length = value
  owned : ∀ outpoint, index.stored outpoint ≠ [] →
    outpoint = OutPoint.null ∨ ∃ value, utxo.lookup outpoint = some value

/-- The ranges stored for the outputs of a transaction, followed by what it leaves over, are its input
ranges, in order. -/
def OutputsInOrder (tx : Transaction) (inputs rest : List SatRange) (after : SatIndex) : Prop :=
  points ((List.range' 0 tx.output.length).flatMap fun number => after.stored (tx.outpoint number)) ++
    points rest = points inputs

section Order

variable (tables : SatTables)

def SpendsInOrder : List Transaction → List SatRange → SatIndex → List SatRange → SatIndex → Prop
  | [], fees, index, fees', index' => fees' = fees ∧ index' = index
  | tx :: txs, fees, index, fees', index' =>
      ∃ inputs taken rest after, takeInputs tx.input index = some (inputs, taken) ∧
        inputs = (tx.input.flatMap fun input => index.stored input.previousOutput) ∧
        indexTransactionSats tables tx inputs taken = some (rest, after) ∧
        OutputsInOrder tx inputs rest after ∧ SpendsInOrder txs (fees ++ rest) after fees' index'

/-- Every transaction of a block moves its ranges in order; the inputs of the coinbase are the reward and
the fees. -/
def BlockInOrder (height : ℕ) (block : BlockData) (index : SatIndex) : Prop :=
  ∃ first reward coinbase fees middle rest after, tables.startingSat height = some first ∧
    tables.subsidy height = some reward ∧ block.txdata.head? = some coinbase ∧
    SpendsInOrder tables block.txdata.tail (Fifo.mined first reward) index fees middle ∧
    indexTransactionSats tables coinbase fees middle = some (rest, after) ∧
    OutputsInOrder coinbase fees rest after

end Order

/-! ### Stored ranges and dealt ranges -/

section Stored

variable {tables : SatTables} {index : SatIndex} {fifo : Fifo}

theorem Refines.stored_eq (refines : Refines index fifo) (fits : ∀ range ∈ fifo.dealt, Fits range)
    (outpoint : OutPoint) : index.stored outpoint = Fifo.rangesAt fifo.rows outpoint := by
  unfold SatIndex.stored Fifo.rangesAt
  rw [refines.rows outpoint]
  cases hrow : fifo.rows.lookup outpoint with
  | none => rfl
  | some row =>
      have hdealt := refines.dealt outpoint row hrow
      exact loadRow_eq (fun range hmem => refines.ordered range (hdealt range hmem))
        fun range hmem => fits range (hdealt range hmem)

/-- The conservation of the dealt sats is that of the stored ones. -/
theorem Refines.satsConserved (refines : Refines index fifo) (fits : ∀ range ∈ fifo.dealt, Fits range)
    {utxo : UtxoSet} {height bound : ℕ} (backs : Fifo.Backs fifo.rows utxo)
    (hbound : tables.startingSat height = some bound)
    (hsats : Fifo.sats fifo.rows = Multiset.range bound) :
    SatsConserved tables height index utxo := by
  have hstored := refines.stored_eq fits
  have hnodup : (Fifo.sats fifo.rows).Nodup := by
    rw [hsats]
    exact Multiset.nodup_range bound
  constructor
  · refine ⟨bound, hbound, fun sat => ?_⟩
    rw [← Multiset.mem_range, ← hsats, Fifo.mem_sats]
    simp only [hstored]
  · intro outpoint
    rw [hstored]
    exact (Fifo.nodup_rangesAt hnodup outpoint).1
  · intro outpoint other hne
    rw [hstored, hstored]
    exact (Fifo.nodup_rangesAt hnodup outpoint).2 other hne
  · intro outpoint value hvalue
    obtain ⟨row, hrow, hlength⟩ := backs.value outpoint value hvalue
    rw [hstored, Fifo.rangesAt, hrow, Option.getD_some, hlength]
  · intro outpoint hsome
    rw [hstored, Fifo.rangesAt] at hsome
    cases hrow : fifo.rows.lookup outpoint with
    | none => simp [hrow] at hsome
    | some row => exact backs.known outpoint row hrow

/-- Outputs dealt in order are stored in order. -/
theorem Refines.outputsInOrder {before after : Fifo} {tx : Transaction} {ranges rest : List SatRange}
    (hdeal : Fifo.dealOutputs tx 0 tx.output ranges before = some (rest, after))
    (refines : Refines index after) (fits : ∀ range ∈ after.dealt, Fits range) :
    OutputsInOrder tx ranges rest index := by
  unfold OutputsInOrder
  simp only [refines.stored_eq fits]
  exact Fifo.points_dealOutputs hdeal

/-- Recording a sat needs no more than the shipped tables. -/
theorem ShippedTables.isCommon_isSome (shipped : ShippedTables tables) (sat : ℕ) :
    ∃ common, tables.isCommon sat = some common := by
  obtain ⟨hlt, start, hstart, hle⟩ := shipped.epochOfSat_spec sat
  obtain ⟨reward, hreward, hpos⟩ := shipped.epochSubsidy_pos hlt
  have hposition : tables.epochPosition sat = some (sat - start) := by
    simp [SatTables.epochPosition, hstart, Nat.not_lt.2 hle]
  exact ⟨decide ((sat - start) % reward ≠ 0), by
    simp [SatTables.isCommon, hposition, hreward, Nat.pos_iff_ne_zero.1 hpos]⟩

/-- The transactions after the coinbase, indexed and in order. -/
theorem spendsInOrder_of_spends (shipped : ShippedTables tables) {txs : List Transaction}
    {fees fees' : List SatRange} {fifo' : Fifo} (run : Fifo.Spends txs fees fifo fees' fifo')
    (fits : ∀ range ∈ fifo'.dealt, Fits range) :
    ∀ {index index' : SatIndex}, Refines index fifo →
      indexSpends tables txs fees index = some (fees', index') →
      SpendsInOrder tables txs fees index fees' index' := by
  induction run with
  | nil fees fifo =>
      intro index index' refines hindex
      cases hindex
      exact ⟨rfl, rfl⟩
  | @cons tx txs fees ranges rest fees' fifo after fifo' taken nonzero sources spent more ih =>
      intro index index' refines hindex
      have hafter : ∀ range ∈ after.dealt, Fits range := fun range hmem => fits range (more.dealt hmem)
      have hbefore : ∀ range ∈ fifo.dealt, Fits range := fun range hmem =>
        hafter range (Fifo.dealt_dealOutputs spent.deal hmem)
      obtain ⟨middle, htake, refines', hranges⟩ := takeInputs_refines refines hbefore spent.take
      obtain ⟨last, houtputs, hrefines, -⟩ :=
        indexOutputs_refines shipped.isCommon_isSome nonzero refines' spent.free
          (fun range hmem => refines.ordered range (hranges range hmem)) spent.deal
      simp only [indexSpends, indexTransactionSats, htake, houtputs, Option.bind_eq_bind,
        Option.bind_some] at hindex
      refine ⟨ranges, middle, rest, last, htake, ?_, houtputs, ?_, ih fits hrefines hindex⟩
      · simp only [refines.stored_eq hbefore]
        exact (Fifo.takeInputs_eq spent.take).2
      · exact hrefines.outputsInOrder spent.deal hafter

end Stored

/-! ### One block -/

section Block

variable {tables : SatTables} {index : SatIndex} {fifo middle after : Fifo} {coinbase : Transaction}
  {fees rest : List SatRange} {height first reward : ℕ} {block : BlockData}

/-- Lost ranges are appended in the table. -/
theorem Refines.lose (refines : Refines index fifo) {ranges : List SatRange} (hsome : ranges ≠ [])
    (ordered : Ordered ranges) (lost : ℕ) (notes : KeyTable ℕ SatPoint) :
    Refines { index with
      lostSats := lost, satToSatpoint := notes
      outpointToSatRanges := index.outpointToSatRanges.insert OutPoint.null
        ((index.outpointToSatRanges.lookup OutPoint.null).getD [] ++ ranges) } (fifo.lose ranges) := by
  have hnull := refines.rows OutPoint.null
  rw [refines.uncached, Option.none_or] at hnull
  have hempty : ¬ ranges.isEmpty = true := fun h => hsome (List.isEmpty_iff.1 h)
  rw [Fifo.lose, if_neg hempty, hnull]
  constructor
  · intro outpoint
    dsimp only
    rw [lookup_insert_ite, lookup_insert_ite]
    split
    next hsame => rw [hsame, refines.uncached, Option.none_or]
    next => exact refines.rows outpoint
  · intro outpoint row hrow
    have hne : outpoint ≠ OutPoint.null := by
      rintro rfl
      rw [refines.uncached] at hrow
      cases hrow
    dsimp only
    rw [AList.lookup_insert_ne hne, refines.apart outpoint row hrow]
  · exact refines.uncached
  · intro outpoint row hrow range hmem
    rcases lookup_insert_cases hrow with ⟨rfl, rfl⟩ | ⟨-, hold⟩
    · rcases List.mem_append.1 hmem with hmem | hmem
      · cases hlost : fifo.rows.lookup OutPoint.null with
        | none => simp [hlost] at hmem
        | some old =>
            rw [hlost, Option.getD_some] at hmem
            exact List.mem_append_left _ (refines.dealt _ old hlost range hmem)
      · exact List.mem_append_right _ hmem
    · exact List.mem_append_left _ (refines.dealt outpoint row hold range hmem)
  · intro range hmem
    exact (List.mem_append.1 hmem).elim (refines.ordered range) (ordered range)

theorem ordered_mined (first reward : ℕ) : Ordered (Fifo.mined first reward) := by
  unfold Fifo.mined
  split
  next => exact List.forall_mem_singleton.2 (Nat.le_add_right first reward)
  next => simp [Ordered]

/-- The parts of a block as the index runs them. -/
structure Indexed (tables : SatTables) (height : ℕ) (block : BlockData) (index : SatIndex)
    (mined : List SatRange) (coinbase : Transaction) (fees : List SatRange) (middle : Fifo)
    (rest : List SatRange) (after : Fifo) (spent paid index' : SatIndex) : Prop where
  spends : indexSpends tables block.txdata.tail mined index = some (fees, spent)
  spends_refines : Refines spent middle
  pays : indexTransactionSats tables coinbase fees spent = some (rest, paid)
  pays_refines : Refines paid after
  block : indexBlockSats tables height block index = some index'
  block_refines : Refines index' (after.lose rest)

/-- A block whose transactions' ranges fit is indexed as it is dealt. -/
theorem exists_indexed (shipped : ShippedTables tables) (hfirst : tables.startingSat height = some first)
    (hreward : tables.subsidy height = some reward) (hbound : first + reward < 2 ^ 64)
    (dealt : Fifo.Dealt first reward block fifo coinbase fees middle rest after)
    (refines : Refines index fifo) (fits : ∀ range ∈ middle.dealt, Fits range) :
    ∃ spent paid index', Indexed tables height block index (Fifo.mined first reward) coinbase fees middle
      rest after spent paid index' := by
  obtain ⟨spent, hspends, hspent, hfees⟩ :=
    indexSpends_refines shipped.isCommon_isSome dealt.spends fits refines (ordered_mined first reward)
  obtain ⟨paid, hpays, hpaid, hrest⟩ :=
    indexOutputs_refines shipped.isCommon_isSome dealt.nonzero hspent dealt.free hfees dealt.deal
  have hmined : (if 0 < reward then (checkedU64 (first + reward)).map fun bound => [(first, bound)]
      else some []) = some (Fifo.mined first reward) := by
    rw [checkedU64, if_pos hbound, Fifo.mined]
    split <;> rfl
  -- what the code does up to the lost ranges
  have hblock : indexBlockSats tables height block index =
      if rest.isEmpty then some paid
      else
        (loseRanges tables rest ((paid.outpointToSatRanges.lookup OutPoint.null).getD []) paid).bind
          fun state => some { state.2 with
            outpointToSatRanges := state.2.outpointToSatRanges.insert OutPoint.null state.1 } := by
    unfold indexBlockSats
    rw [hfirst, hreward]
    simp only [Option.bind_eq_bind, Option.bind_some, hmined, hspends]
    rw [dealt.leads]
    simp only [indexTransactionSats, hpays, Option.bind_some]
  by_cases hempty : rest = []
  · refine ⟨spent, paid, paid, ⟨hspends, hspent, hpays, hpaid, ?_, ?_⟩⟩
    · rw [hblock, hempty]
      rfl
    · rw [hempty]
      exact hpaid
  · obtain ⟨lost, notes, hlose⟩ := @loseRanges_eq tables shipped.isCommon_isSome rest
      ((paid.outpointToSatRanges.lookup OutPoint.null).getD []) paid
    refine ⟨spent, paid, _, ⟨hspends, hspent, hpays, hpaid, ?_, hpaid.lose hempty hrest lost notes⟩⟩
    rw [hblock, if_neg fun h => hempty (List.isEmpty_iff.1 h)]
    simp only [hlose, Option.bind_some]

end Block

/-! ### Runs -/

/-- Draining the cache changes no row. -/
theorem Refines.commit {updater : SatUpdater} {fifo : Fifo} (refines : Refines updater.index fifo) :
    Refines updater.commit.index fifo := by
  have htable : ∀ outpoint, updater.commit.index.outpointToSatRanges.lookup outpoint =
      (updater.index.rangeCache.lookup outpoint).or
        (updater.index.outpointToSatRanges.lookup outpoint) := by
    intro outpoint
    have hlookup := lookup_foldl_insert (fun row : Row => row) outpoint updater.index.rangeCache.entries
      updater.index.outpointToSatRanges updater.index.rangeCache.nodupKeys
    rw [Option.map_id'] at hlookup
    exact hlookup
  constructor
  · intro outpoint
    rw [htable, refines.rows outpoint]
    exact Option.none_or
  · intro outpoint row hrow
    cases hrow
  · rfl
  · exact refines.dealt
  · exact refines.ordered

/-- The updater, the chain it follows, and what the chain deals first in, first out. -/
structure SatRun where
  updater : SatUpdater
  chain : ChainState
  fifo : Fifo

namespace SatRun

variable (tables : SatTables)

def start : SatRun where
  updater := SatUpdater.empty
  chain := { utxo := ∅, seen := [] }
  fifo := Fifo.start

/-- A block that is valid on the chain, at a height where the starting sats tile, and that deals, to its
outputs or to the lost sats, only ranges that start below `2 ^ 51` and have fewer than `2 ^ 37` sats. -/
structure Accepts (state : SatRun) (block : BlockData) (chain : ChainState) (fifo : Fifo) : Prop where
  tiles : tables.TilesAt state.updater.height
  valid : ∃ reward, tables.subsidy state.updater.height = some reward ∧
    state.chain.applyBlock reward block = some chain
  deals : ∃ first reward, tables.startingSat state.updater.height = some first ∧
    tables.subsidy state.updater.height = some reward ∧
    Fifo.block first reward block state.fifo = some fifo
  fits : ∀ range ∈ fifo.dealt, Fits range

/-- The states reached by such blocks, and by commits between them. -/
inductive Reaches : SatRun → Prop where
  | start : Reaches SatRun.start
  | block {state : SatRun} {block : BlockData} {chain : ChainState} {fifo : Fifo} {updater : SatUpdater}
      (reaches : Reaches state) (accepts : state.Accepts tables block chain fifo)
      (indexed : state.updater.indexBlock tables block = some updater) :
      Reaches { updater := updater, chain := chain, fifo := fifo }
  | commit {state : SatRun} (reaches : Reaches state) :
      Reaches { state with updater := state.updater.commit }

/-- What holds at every block boundary. -/
structure Inv (state : SatRun) : Prop where
  refines : Refines state.updater.index state.fifo
  fits : ∀ range ∈ state.fifo.dealt, Fits range
  backs : Fifo.Backs state.fifo.rows state.chain.utxo
  known : state.chain.Known
  mined : ∃ bound, tables.startingSat state.updater.height = some bound ∧
    Fifo.sats state.fifo.rows = Multiset.range bound

variable {tables}

theorem inv_start (shipped : ShippedTables tables) : Inv tables SatRun.start := by
  have hrow : ∀ outpoint row, initialRanges.lookup outpoint = some row →
      outpoint = OutPoint.null ∧ row = [] := by
    intro outpoint row hlookup
    have hmem := AList.mem_lookup_iff.1 (Option.mem_def.2 hlookup)
    simpa [initialRanges] using hmem
  constructor
  · constructor
    · exact fun outpoint => Option.none_or
    · intro outpoint row hcached
      cases hcached
    · rfl
    · intro outpoint row hlookup range hmem
      rw [(hrow outpoint row hlookup).2] at hmem
      exact absurd hmem List.not_mem_nil
    · exact fun range hmem => absurd hmem List.not_mem_nil
  · exact fun range hmem => absurd hmem List.not_mem_nil
  · constructor
    · intro outpoint value hvalue
      cases hvalue
    · exact fun outpoint row hlookup => .inl (hrow outpoint row hlookup).1
  · refine ⟨List.not_mem_nil, fun outpoint value hvalue => ?_⟩
    cases hvalue
  · exact ⟨0, shipped.startingSat_zero, rfl⟩

/-- One block: it is indexed, in order, and every invariant is kept. -/
theorem Inv.block (shipped : ShippedTables tables) {state : SatRun} (inv : Inv tables state)
    {block : BlockData} {chain : ChainState} {fifo : Fifo}
    (accepts : state.Accepts tables block chain fifo) :
    BlockInOrder tables state.updater.height block state.updater.index ∧
      ∃ updater, state.updater.indexBlock tables block = some updater ∧
        Inv tables { updater := updater, chain := chain, fifo := fifo } := by
  obtain ⟨first, reward, hfirst, hreward, hnext⟩ := accepts.tiles
  obtain ⟨_, hreward', hvalid⟩ := accepts.valid
  obtain ⟨_, _, hfirst', hreward'', hdeals⟩ := accepts.deals
  cases hreward.symm.trans hreward'
  cases hreward.symm.trans hreward''
  cases hfirst.symm.trans hfirst'
  obtain ⟨coinbase, fees, middle, rest, after, dealt, hbacks, hknown, hsats⟩ :=
    @Fifo.exists_block state.fifo state.chain chain first reward block inv.backs inv.known hvalid
  cases hdeals.symm.trans dealt.block_eq
  have hafter : ∀ range ∈ after.dealt, Fits range := fun range hmem =>
    accepts.fits range (Fifo.dealt_lose after rest hmem)
  have hmiddle : ∀ range ∈ middle.dealt, Fits range := fun range hmem =>
    hafter range (Fifo.dealt_dealOutputs dealt.deal hmem)
  obtain ⟨spent, paid, index, indexed⟩ :=
    exists_indexed shipped hfirst hreward (tables.startingSat_lt hnext) dealt inv.refines hmiddle
  constructor
  · refine ⟨first, reward, coinbase, fees, spent, rest, paid, hfirst, hreward, ?_, ?_, indexed.pays,
      indexed.pays_refines.outputsInOrder dealt.deal hafter⟩
    · rw [dealt.leads]
      rfl
    · exact spendsInOrder_of_spends shipped dealt.spends hmiddle inv.refines indexed.spends
  · refine ⟨{ state.updater with height := state.updater.height + 1, index := index }, ?_,
      ⟨indexed.block_refines, accepts.fits, hbacks, hknown, first + reward, hnext, ?_⟩⟩
    · rw [SatUpdater.indexBlock, indexed.block]
      rfl
    · obtain ⟨bound, hbound, hold⟩ := inv.mined
      cases hfirst.symm.trans hbound
      rw [hsats, hold, add_comm]
      have happend := @List.range'_append_1 0 first reward
      rw [Nat.zero_add] at happend
      change ((List.range first : List ℕ) : Multiset ℕ) + _ = (List.range (first + reward) : List ℕ)
      rw [Multiset.coe_add, List.range_eq_range', happend, ← List.range_eq_range']

theorem Reaches.inv (shipped : ShippedTables tables) {state : SatRun} (reaches : Reaches tables state) :
    Inv tables state := by
  induction reaches with
  | start => exact inv_start shipped
  | block reaches accepts indexed ih =>
      obtain ⟨-, updater, hindexed, inv⟩ := ih.block shipped accepts
      cases indexed.symm.trans hindexed
      exact inv
  | commit reaches ih => exact ⟨ih.refines.commit, ih.fits, ih.backs, ih.known, ih.mined⟩

end SatRun

/-- Sats are conserved at every block boundary of a run of such blocks, and each such block is indexed and
moves its ranges in order. -/
theorem satsConserved_of_reaches {tables : SatTables} (shipped : ShippedTables tables) {state : SatRun}
    (reaches : SatRun.Reaches tables state) :
    SatsConserved tables state.updater.height state.updater.index state.chain.utxo ∧
      ∀ block chain fifo, state.Accepts tables block chain fifo →
        (∃ updater, state.updater.indexBlock tables block = some updater) ∧
          BlockInOrder tables state.updater.height block state.updater.index := by
  have inv := reaches.inv shipped
  obtain ⟨bound, hbound, hsats⟩ := inv.mined
  refine ⟨inv.refines.satsConserved inv.fits inv.backs hbound hsats, ?_⟩
  intro block chain fifo accepts
  obtain ⟨horder, updater, hindexed, -⟩ := inv.block shipped accepts
  exact ⟨⟨updater, hindexed⟩, horder⟩

/-! ### The first two blocks -/

/-- Rows 0 to 2 of `starting_sats.json`, and stand-ins for the others below epoch 145000. -/
def firstRows : List ℕ := [0, 8800000000] ++ (List.range 144998).map fun i => 6850400000000 + i

/-- Rows 0 to 2 and the rows from epoch 145000 on are those of the shipped files. -/
def firstTables : SatTables where
  startingSats := firstRows ++ shippedEpochStarts
  epochs epoch :=
    if epoch = 1 then some 6841600000000
    else if epoch < 145000 then some 8800000000 else shippedEpochRewards[epoch - 145000]?

theorem length_firstRows : firstRows.length = 145000 := by
  rw [firstRows, List.length_append, List.length_map, List.length_range]
  rfl

theorem lt_of_mem_firstRows {start : ℕ} (hmem : start ∈ firstRows) : start < 6850400145000 := by
  rcases List.mem_append.1 hmem with hmem | hmem
  · have hbound : ∀ start ∈ [0, 8800000000], start < 6850400145000 := by decide
    exact hbound start hmem
  · obtain ⟨i, hi, rfl⟩ := List.mem_map.1 hmem
    rw [List.mem_range] at hi
    omega

theorem startingSats_firstTables :
    firstTables.startingSats[0]? = some 0 ∧ firstTables.startingSats[1]? = some 8800000000 ∧
      firstTables.startingSats[2]? = some 6850400000000 := by
  refine ⟨rfl, rfl, ?_⟩
  have hlong : 2 < firstRows.length := by
    rw [length_firstRows]
    omega
  rw [firstTables, List.getElem?_append_left hlong, firstRows, List.getElem?_append_right (by decide),
    List.getElem?_map, List.getElem?_range (by decide)]
  rfl

theorem shippedTables_firstTables : ShippedTables firstTables := by
  refine .of_rows rfl length_firstRows rfl ?_ ?_ ?_ ?_
  · refine List.pairwise_append.2 ⟨by decide, ?_, ?_⟩
    · refine List.pairwise_map.2 (List.pairwise_lt_range.imp fun hlt => ?_)
      omega
    · intro early hearly late hlate
      have hbound : ∀ early ∈ [0, 8800000000], early < 6850400000000 := by decide
      obtain ⟨i, -, rfl⟩ := List.mem_map.1 hlate
      exact (hbound early hearly).trans_le (Nat.le_add_right _ i)
  · intro start hstart
    have hlt := lt_of_mem_firstRows hstart
    omega
  · intro i _
    have hnot : ¬ 145000 + i = 1 := by omega
    have hlate : ¬ 145000 + i < 145000 := by omega
    exact (if_neg hnot).trans ((if_neg hlate).trans (by rw [Nat.add_sub_cancel_left]))
  · intro epoch hearly
    by_cases hone : epoch = 1
    · exact ⟨6841600000000, if_pos hone, by omega, by omega⟩
    · exact ⟨8800000000, (if_neg hone).trans (if_pos hearly), by omega, by omega⟩

theorem tilesAt_firstTables : firstTables.TilesAt 0 ∧ firstTables.TilesAt 1 := by
  obtain ⟨hzero, hone, htwo⟩ := startingSats_firstTables
  have shipped := shippedTables_firstTables
  constructor
  · exact (shipped.tilesAt_early_iff (by omega)).2 ⟨0, 8800000000, hzero, rfl, hone⟩
  · exact (shipped.tilesAt_early_iff (by omega)).2 ⟨8800000000, 6841600000000, hone, rfl, htwo⟩

/-- The chain and the dealt ranges after the first block. -/
def genesisChain : ChainState where
  utxo := AList.singleton (⟨1, 0⟩ : OutPoint) 8800000000
  seen := [1]

def genesisFifo : Fifo := Fifo.start.deal ⟨1, 0⟩ [(0, 8800000000)]

theorem accepts_genesisBlock :
    SatRun.start.Accepts firstTables genesisBlock genesisChain genesisFifo where
  tiles := tilesAt_firstTables.1
  valid := ⟨8800000000, (shippedTables_firstTables.early_eq (by decide)).2, rfl⟩
  deals := ⟨0, 8800000000, shippedTables_firstTables.startingSat_zero,
    (shippedTables_firstTables.early_eq (by decide)).2, rfl⟩
  fits := by decide

/-- The first block keeps the 88 coins of its coinbase. -/
theorem genesisBlock_conserved :
    ∃ updater, SatUpdater.empty.indexBlock firstTables genesisBlock = some updater ∧
      SatsConserved firstTables updater.height updater.index genesisChain.utxo := by
  obtain ⟨⟨updater, hindexed⟩, -⟩ := (satsConserved_of_reaches shippedTables_firstTables .start).2
    genesisBlock genesisChain genesisFifo accepts_genesisBlock
  have reaches := SatRun.Reaches.block .start accepts_genesisBlock hindexed
  exact ⟨updater, hindexed, (satsConserved_of_reaches shippedTables_firstTables reaches).1⟩

/-- A coinbase that keeps the whole second reward. -/
def secondCoinbase : Transaction where
  txid := 2
  input := [{ previousOutput := OutPoint.null }]
  output := [{ value := 6841600000000 }]

def secondBlock : BlockData where
  header := { blockHash := 2, prevBlockhash := 1 }
  txdata := [secondCoinbase]

/-- The range of the second reward is read back `49 * 2 ^ 37` sats short. -/
theorem loadRow_secondReward :
    loadRow [(8800000000, 6850400000000)] = [(8800000000, 115891279872)] := by
  have hchunks : LittleEndian.chunksExact 11 (rowBytes [(8800000000, 6850400000000)]) =
      [SatRange.store (8800000000, 6850400000000)] :=
    LittleEndian.chunksExact_flatMap (by omega) SatRange.store SatRange.length_store _
  rw [loadRow, hchunks, List.map_singleton, SatRange.load_store _ (by decide)]
  rfl

theorem height_indexBlock {tables : SatTables} {updater next : SatUpdater} {block : BlockData}
    (hindexed : updater.indexBlock tables block = some next) : next.height = updater.height + 1 := by
  obtain ⟨index, -, hnext⟩ := Option.bind_eq_some_iff.1 hindexed
  exact (congrArg SatUpdater.height (Option.some.inj hnext)).symm

/-- The second block of the shipped tables is valid and indexed, and its one output has fewer sats stored
than it is worth. -/
theorem secondBlock_not_conserved :
    ShippedTables firstTables ∧ firstTables.TilesAt 0 ∧ firstTables.TilesAt 1 ∧
      ∃ chain updater updater', ({ utxo := ∅, seen := [] } : ChainState).applyBlock 8800000000
          genesisBlock = some genesisChain ∧
        SatUpdater.empty.indexBlock firstTables genesisBlock = some updater ∧
        firstTables.subsidy updater.height = some 6841600000000 ∧
        genesisChain.applyBlock 6841600000000 secondBlock = some chain ∧
        updater.indexBlock firstTables secondBlock = some updater' ∧
        ¬ SatsConserved firstTables updater'.height updater'.index chain.utxo := by
  have shipped := shippedTables_firstTables
  obtain ⟨-, updater, hindexed, inv⟩ := (SatRun.inv_start shipped).block shipped accepts_genesisBlock
  have hheight : updater.height = 1 := height_indexBlock hindexed
  have hreward : firstTables.subsidy 1 = some 6841600000000 := (shipped.early_eq (by omega)).2
  have hfirst : firstTables.startingSat 1 = some 8800000000 :=
    (shipped.early_eq (by omega)).1.trans startingSats_firstTables.2.1
  have dealt : Fifo.Dealt 8800000000 6841600000000 secondBlock genesisFifo secondCoinbase
      [(8800000000, 6850400000000)] genesisFifo []
      (genesisFifo.deal ⟨2, 0⟩ [(8800000000, 6850400000000)]) :=
    { leads := rfl
      spends := .nil _ _
      nonzero := by decide
      free := inv.backs.free inv.known (by decide) (show 2 ∉ [1] by decide)
      deal := rfl }
  obtain ⟨spent, paid, index, indexed⟩ :=
    exists_indexed shipped hfirst hreward (by decide) dealt inv.refines inv.fits
  refine ⟨shipped, tilesAt_firstTables.1, tilesAt_firstTables.2,
    genesisChain.after secondCoinbase genesisChain.utxo, updater,
    { updater with height := 2, index := index }, rfl, hindexed, by rw [hheight, hreward], rfl, ?_, ?_⟩
  · rw [SatUpdater.indexBlock, hheight, indexed.block]
    rfl
  · intro conserved
    have hworth := conserved.worth ⟨2, 0⟩ 6841600000000 rfl
    have hrow := indexed.block_refines.rows ⟨2, 0⟩
    have hdealt : (genesisFifo.deal ⟨2, 0⟩ [(8800000000, 6850400000000)]).rows.lookup ⟨2, 0⟩ =
        some [(8800000000, 6850400000000)] := rfl
    rw [SatIndex.stored, hrow] at hworth
    change (points (((genesisFifo.deal ⟨2, 0⟩ _).rows.lookup ⟨2, 0⟩).map loadRow |>.getD [])).length =
      _ at hworth
    rw [hdealt, Option.map_some, Option.getD_some, loadRow_secondReward, points_cons, points_nil,
      List.append_nil, List.length_range'] at hworth
    omega

end OrdDogecoin.Sats
