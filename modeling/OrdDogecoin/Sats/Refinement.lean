/-
Module: OrdDogecoin.Sats.Refinement
Purpose: The sat index deals sats first in, first out, as long as every range it deals fits the stored
  form: cache and table together hold the rows of `Fifo`, one step of the index for one of `Fifo`.
Trusted boundary: as in OrdDogecoin.Sats.SatIndex
Main exports: Fits, indexSpends_refines, loseRanges_eq
-/
import OrdDogecoin.Sats.Fifo
import OrdDogecoin.Sats.SatLookup

namespace OrdDogecoin.Sats

open Chain
open KeyTable
open RangeQueue
open LittleEndian
open Option (bind_eq_some_iff bind_some bind_eq_bind)

/-! ### Stored rows -/

/-- A range that the stored form can hold. -/
def Fits (range : SatRange) : Prop := range.1 < 2 ^ 51 ∧ range.2 - range.1 < 2 ^ 37

instance (range : SatRange) : Decidable (Fits range) := inferInstanceAs (Decidable (_ ∧ _))

/-- A row whose ranges fit is read back as it was written. -/
theorem loadRow_eq {row : Row} (ordered : Ordered row) (fits : ∀ range ∈ row, Fits range) :
    loadRow row = row := by
  have hchunks : chunksExact 11 (rowBytes row) = row.map SatRange.store :=
    chunksExact_flatMap (by omega) SatRange.store SatRange.length_store row
  rw [loadRow, hchunks, List.map_map]
  refine (List.map_congr_left fun range hrange => ?_).trans (List.map_id row)
  exact (SatRange.load_store_eq_iff (ordered range hrange)).2 (fits range hrange)

/-! ### The relation -/

/-- Cache and table together hold the rows of `fifo`. -/
structure Refines (index : SatIndex) (fifo : Fifo) : Prop where
  rows : ∀ outpoint, (index.rangeCache.lookup outpoint).or (index.outpointToSatRanges.lookup outpoint) =
    fifo.rows.lookup outpoint
  apart : ∀ outpoint row, index.rangeCache.lookup outpoint = some row →
    index.outpointToSatRanges.lookup outpoint = none
  uncached : index.rangeCache.lookup OutPoint.null = none
  dealt : ∀ outpoint row, fifo.rows.lookup outpoint = some row → ∀ range ∈ row, range ∈ fifo.dealt
  ordered : Ordered fifo.dealt

section Steps

variable {tables : SatTables} {index : SatIndex} {fifo : Fifo}

/-- Recording a sat touches no row. -/
theorem noteSat_eq (hcommon : ∀ sat, ∃ common, tables.isCommon sat = some common) (start : ℕ)
    (satpoint : SatPoint) (index : SatIndex) :
    ∃ notes, noteSat tables start satpoint index = some { index with satToSatpoint := notes } := by
  obtain ⟨common, hstart⟩ := hcommon start
  unfold noteSat
  rw [hstart]
  cases common with
  | true => exact ⟨index.satToSatpoint, rfl⟩
  | false => exact ⟨index.satToSatpoint.insert start satpoint, rfl⟩

/-- An output takes its sats off the queue. -/
theorem assignOutput_eq (hcommon : ∀ sat, ∃ common, tables.isCommon sat = some common)
    (outpoint : OutPoint) (value : ℕ) {count : ℕ} {ranges row rest : List SatRange}
    (hcut : cut count ranges = some (row, rest)) (index : SatIndex) :
    ∃ notes, assignOutput tables outpoint value count ranges index =
      some (row, rest, { index with satToSatpoint := notes }) := by
  fun_induction cut count ranges generalizing row rest index with
  | case1 ranges =>
      cases hcut
      exact ⟨index.satToSatpoint, by rw [assignOutput]⟩
  | case2 count => cases hcut
  | case3 count range ranges hlong =>
      cases hcut
      obtain ⟨notes, hnote⟩ := noteSat_eq hcommon range.1
        { outpoint := outpoint, offset := value - (count + 1) } index
      refine ⟨notes, ?_⟩
      simp only [assignOutput, hnote, bind_eq_bind, bind_some, if_pos hlong]
  | case4 count range ranges hshort ih =>
      obtain ⟨⟨piece, left⟩, hpiece, heq⟩ := Option.map_eq_some_iff.1 hcut
      cases heq
      obtain ⟨notes, hnote⟩ := noteSat_eq hcommon range.1
        { outpoint := outpoint, offset := value - (count + 1) } index
      obtain ⟨notes', hrest⟩ := ih hpiece { index with satToSatpoint := notes }
      refine ⟨notes', ?_⟩
      simp only [assignOutput, hnote, bind_eq_bind, bind_some, if_neg hshort, hrest]

/-- The row of a spent output leaves the cache or the table. -/
theorem takeRow_refines (refines : Refines index fifo) {outpoint : OutPoint} {row : Row}
    (hrow : fifo.rows.lookup outpoint = some row) :
    ∃ index', takeRow outpoint index = some (row, index') ∧
      Refines index' { fifo with rows := fifo.rows.erase outpoint } := by
  have hheld := refines.rows outpoint
  rw [hrow] at hheld
  have hdealt : ∀ other found, (fifo.rows.erase outpoint).lookup other = some found →
      ∀ range ∈ found, range ∈ fifo.dealt := fun other found hfound =>
    refines.dealt other found (lookup_erase_cases hfound).2
  cases hcache : index.rangeCache.lookup outpoint with
  | some cached =>
      have htable := refines.apart outpoint cached hcache
      rw [hcache] at hheld
      cases hheld
      refine ⟨_, by rw [takeRow, hcache], ⟨?_, ?_, ?_, hdealt, refines.ordered⟩⟩
      · intro other
        rw [lookup_erase_ite, lookup_erase_ite]
        by_cases hsame : other = outpoint
        · rw [if_pos hsame, if_pos hsame, hsame, htable]
          rfl
        · rw [if_neg hsame, if_neg hsame, refines.rows other]
      · intro other found hfound
        exact refines.apart other found (lookup_erase_cases hfound).2
      · rw [lookup_erase_ite, refines.uncached, ite_self]
  | none =>
      rw [hcache, Option.none_or] at hheld
      refine ⟨{ index with outpointToSatRanges := index.outpointToSatRanges.erase outpoint },
        by simp only [takeRow, hcache, hheld], ⟨?_, ?_, refines.uncached, hdealt, refines.ordered⟩⟩
      · intro other
        rw [lookup_erase_ite, lookup_erase_ite]
        by_cases hsame : other = outpoint
        · rw [if_pos hsame, if_pos hsame, hsame, hcache]
          rfl
        · rw [if_neg hsame, if_neg hsame, refines.rows other]
      · intro other found hfound
        rw [lookup_erase_ite, refines.apart other found hfound, ite_self]

/-- The inputs of a transaction give up the ranges they were dealt. -/
theorem takeInputs_refines {inputs : List TxIn} :
    ∀ {index : SatIndex} {fifo : Fifo} {ranges : List SatRange} {taken : KeyTable OutPoint Row},
      Refines index fifo → (∀ range ∈ fifo.dealt, Fits range) →
      Fifo.takeInputs inputs fifo.rows = some (ranges, taken) →
      ∃ index', takeInputs inputs index = some (ranges, index') ∧
        Refines index' { fifo with rows := taken } ∧ ∀ range ∈ ranges, range ∈ fifo.dealt := by
  induction inputs with
  | nil =>
      intro index fifo ranges taken refines fits htake
      cases htake
      exact ⟨index, rfl, refines, fun range hmem => absurd hmem List.not_mem_nil⟩
  | cons input inputs ih =>
      intro index fifo ranges taken refines fits htake
      obtain ⟨row, hrow, htake⟩ := bind_eq_some_iff.1 htake
      obtain ⟨⟨more, left⟩, hmore, htake⟩ := bind_eq_some_iff.1 htake
      cases htake
      have hdealt := refines.dealt input.previousOutput row hrow
      obtain ⟨middle, hmiddle, refines'⟩ := takeRow_refines refines hrow
      obtain ⟨index', hindex, hrefines, hranges⟩ := ih refines' fits hmore
      have hload : loadRow row = row :=
        loadRow_eq (fun range hmem => refines.ordered range (hdealt range hmem))
          fun range hmem => fits range (hdealt range hmem)
      refine ⟨index', ?_, hrefines, fun range hmem => ?_⟩
      · simp only [takeInputs, hmiddle, hindex, bind_eq_bind, bind_some, hload]
      · exact (List.mem_append.1 hmem).elim (hdealt range) (hranges range)

/-- What `indexOutputs` does to the cache for one output. -/
theorem Refines.deal (refines : Refines index fifo) {outpoint : OutPoint} {row : Row}
    (hfree : fifo.rows.lookup outpoint = none) (hnull : outpoint ≠ OutPoint.null)
    (ordered : Ordered row) (notes : KeyTable ℕ SatPoint) :
    Refines { index with
      satToSatpoint := notes, rangeCache := index.rangeCache.insert outpoint row }
      (fifo.deal outpoint row) := by
  have hheld := refines.rows outpoint
  rw [hfree, Option.or_eq_none_iff] at hheld
  constructor
  · intro other
    change ((index.rangeCache.insert outpoint row).lookup other).or _ =
      (fifo.rows.insert outpoint row).lookup other
    rw [lookup_insert_ite, lookup_insert_ite]
    split
    next => rfl
    next => exact refines.rows other
  · intro other found hfound
    rcases lookup_insert_cases hfound with ⟨rfl, -⟩ | ⟨-, hold⟩
    · exact hheld.2
    · exact refines.apart other found hold
  · rw [AList.lookup_insert_ne hnull.symm, refines.uncached]
  · intro other found hfound range hmem
    rcases lookup_insert_cases hfound with ⟨-, rfl⟩ | ⟨-, hold⟩
    · exact List.mem_append_right _ hmem
    · exact List.mem_append_left _ (refines.dealt other found hold range hmem)
  · intro range hmem
    exact (List.mem_append.1 hmem).elim (refines.ordered range) (ordered range)

/-- The outputs of a transaction are dealt their ranges. -/
theorem indexOutputs_refines (hcommon : ∀ sat, ∃ common, tables.isCommon sat = some common)
    {tx : Transaction} (hzero : tx.txid ≠ 0) {outputs : List TxOut} :
    ∀ {vout : ℕ} {index : SatIndex} {fifo fifo' : Fifo} {ranges rest : List SatRange},
      Refines index fifo → Fifo.Free fifo.rows tx.txid vout → Ordered ranges →
      Fifo.dealOutputs tx vout outputs ranges fifo = some (rest, fifo') →
      ∃ index', indexOutputs tables tx vout outputs ranges index = some (rest, index') ∧
        Refines index' fifo' ∧ Ordered rest := by
  induction outputs with
  | nil =>
      intro vout index fifo fifo' ranges rest refines free ordered hdeal
      cases hdeal
      exact ⟨index, rfl, refines, ordered⟩
  | cons output outputs ih =>
      intro vout index fifo fifo' ranges rest refines free ordered hdeal
      obtain ⟨⟨row, left⟩, hcut, hdeal⟩ := bind_eq_some_iff.1 hdeal
      obtain ⟨hrow, hleft⟩ := ordered_cut ordered hcut
      obtain ⟨notes, hassign⟩ :=
        assignOutput_eq hcommon (tx.outpoint vout) output.value hcut index
      have hnull : tx.outpoint vout ≠ OutPoint.null := fun heq =>
        hzero (congrArg OutPoint.txid heq)
      obtain ⟨index', hindex, hrefines, hrest⟩ :=
        ih (refines.deal (free vout (le_refl vout)) hnull hrow notes) (free.next row) hleft hdeal
      refine ⟨index', ?_, hrefines, hrest⟩
      simp only [indexOutputs, hassign, bind_eq_bind, bind_some]
      exact hindex

/-- The transactions after the coinbase. -/
theorem indexSpends_refines (hcommon : ∀ sat, ∃ common, tables.isCommon sat = some common)
    {txs : List Transaction} {fees fees' : List SatRange} {fifo fifo' : Fifo}
    (run : Fifo.Spends txs fees fifo fees' fifo') (fits : ∀ range ∈ fifo'.dealt, Fits range) :
    ∀ {index : SatIndex}, Refines index fifo → Ordered fees →
      ∃ index', indexSpends tables txs fees index = some (fees', index') ∧ Refines index' fifo' ∧
        Ordered fees' := by
  induction run with
  | nil fees fifo => exact fun refines ordered => ⟨_, rfl, refines, ordered⟩
  | @cons tx txs fees ranges rest fees' fifo after fifo' taken nonzero sources spent more ih =>
      intro index refines ordered
      have hkept : ∀ range ∈ fifo.dealt, Fits range := fun range hmem =>
        fits range (more.dealt (Fifo.dealt_dealOutputs spent.deal hmem))
      obtain ⟨middle, htake, refines', hranges⟩ := takeInputs_refines refines hkept spent.take
      obtain ⟨last, hindex, hrefines, hrest⟩ :=
        indexOutputs_refines hcommon nonzero refines' spent.free
          (fun range hmem => refines.ordered range (hranges range hmem)) spent.deal
      have hfees : Ordered (fees ++ rest) := fun range hmem =>
        (List.mem_append.1 hmem).elim (ordered range) (hrest range)
      obtain ⟨index', hspends, hrefines', hfees'⟩ := ih fits hrefines hfees
      refine ⟨index', ?_, hrefines', hfees'⟩
      simp only [indexSpends, indexTransactionSats, htake, hindex, bind_eq_bind,
        bind_some, hspends]

/-- What nobody claims is appended to the lost ranges. -/
theorem loseRanges_eq (hcommon : ∀ sat, ∃ common, tables.isCommon sat = some common)
    {ranges : List SatRange} :
    ∀ (lost : Row) (index : SatIndex), ∃ sats notes, loseRanges tables ranges lost index =
      some (lost ++ ranges, { index with lostSats := sats, satToSatpoint := notes }) := by
  induction ranges with
  | nil =>
      intro lost index
      exact ⟨index.lostSats, index.satToSatpoint, by rw [loseRanges, List.append_nil]⟩
  | cons range ranges ih =>
      intro lost index
      obtain ⟨notes, hnote⟩ := noteSat_eq hcommon range.1
        { outpoint := OutPoint.null, offset := index.lostSats } index
      obtain ⟨sats, notes', hlose⟩ := ih (lost ++ [range])
        { index with satToSatpoint := notes, lostSats := index.lostSats + (range.2 - range.1) }
      refine ⟨sats, notes', ?_⟩
      simp only [loseRanges, hnote, bind_eq_bind, bind_some, hlose,
        List.append_assoc, List.singleton_append]

end Steps

end OrdDogecoin.Sats
