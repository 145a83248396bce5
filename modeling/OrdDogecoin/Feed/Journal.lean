/-
Module: OrdDogecoin.Feed.Journal
Purpose: The journal of the Dogemap feed: location records, the generation and journal range in
  `DOGEMAP_FEED_META`, what a block writes, what survives a restore, and the identity a reader sees.
Trusted boundary: rows of `DOGEMAP_FEED_JOURNAL` are the records whose encodings they hold; the
  random generation id is an argument
Main exports: JournalRecord, reinstateMeta, FeedIdentity
-/
import OrdDogecoin.Feed.Wire
import OrdDogecoin.Inscriptions.Envelope
import OrdDogecoin.Lib.KeyTable
import Mathlib.Data.List.Sort

namespace OrdDogecoin.Feed

open Chain

/-! ### Records -/

inductive JournalKind where
  | creation
  | transfer
deriving DecidableEq, Repr

/-- Where a journaled inscription landed. -/
inductive JournalDestination where
  | assigned (satpoint : SatPoint) (value : ℕ) (scriptPubkey : Script)
  | lost (satpoint : SatPoint)
deriving DecidableEq, Repr

structure JournalRecord where
  kind : JournalKind
  inscriptionId : InscriptionId
  inscriptionNumber : ℕ
  fromSatpoint : SatPoint
  toDestination : JournalDestination
  txid : Txid
  txIndex : ℕ
deriving DecidableEq, Repr

/-! ### Tables -/

/-- The rows of `DOGEMAP_FEED_META`. -/
structure FeedMeta where
  databaseId : Option (FixedBytes 16)
  creationCoverageFrom : Option ℕ
  journalStart : Option ℕ
  journalLast : Option ℕ
deriving DecidableEq, Repr

def FeedMeta.empty : FeedMeta where
  databaseId := none
  creationCoverageFrom := none
  journalStart := none
  journalLast := none

/-- The rows of `DOGEMAP_FEED_JOURNAL`, by height and sequence number. -/
abbrev Journal := KeyTable (ℕ × ℕ) JournalRecord

/-- `ensure_meta`; `fresh` is the random id. -/
def ensureMeta (feedMeta : FeedMeta) (fresh : FixedBytes 16) (creationCoverageFrom : ℕ) : FeedMeta :=
  { feedMeta with
    databaseId := feedMeta.databaseId.or (some fresh)
    creationCoverageFrom := feedMeta.creationCoverageFrom.or (some creationCoverageFrom) }

/-- Whether a block directly follows the last journaled one. -/
def contiguous (feedMeta : FeedMeta) (height : ℕ) : Bool :=
  feedMeta.journalStart.isSome &&
    decide ((feedMeta.journalLast.filter (· + 1 < 2 ^ 32)).map (· + 1) = some height)

def removeRows (journal : Journal) (height : ℕ) : Journal :=
  (journal.keys.filter fun key => key.1 = height).foldl (fun journal key => journal.erase key) journal

def insertRows (height : ℕ) : ℕ → List JournalRecord → Journal → Journal
  | _, [], journal => journal
  | seq, record :: records, journal =>
      insertRows height (seq + 1) records (journal.insert (height, seq) record)

/-- `record_block`; `none` when a sequence number leaves `u32`. -/
def recordBlock (height : ℕ) (records : List JournalRecord) (fresh : FixedBytes 16)
    (creationCoverageFrom : ℕ) (feedMeta : FeedMeta) (journal : Journal) :
    Option (FeedMeta × Journal) :=
  let ensured := ensureMeta feedMeta fresh creationCoverageFrom
  if records.length ≤ 2 ^ 32 then
    some
      ({ ensured with
         journalStart := if contiguous ensured height then ensured.journalStart else some height
         journalLast := some height },
        insertRows height 0 records (removeRows journal height))
  else none

/-- `preserve_meta` and `reinstate_meta` around a restore. -/
def reinstateMeta (before restored : FeedMeta) : FeedMeta :=
  { restored with
    databaseId := before.databaseId.or restored.databaseId
    creationCoverageFrom := before.creationCoverageFrom.or restored.creationCoverageFrom }

/-! ### Readers -/

/-- `FeedIdentity`. -/
structure FeedIdentity where
  databaseId : Option Text
  reorgEpoch : ℕ
  checkpoint : Option (ℕ × BlockHash)
  creationCoverageFrom : ℕ
  journalStart : Option ℕ
  journalLast : Option ℕ

def FeedIdentity.journalActive (identity : FeedIdentity) : Bool :=
  match identity.journalStart, identity.journalLast, identity.checkpoint with
  | some _, some last, some (height, _) => last = height
  | _, _, _ => false

def FeedIdentity.transfersJournaled (identity : FeedIdentity) (height : ℕ) : Bool :=
  identity.journalActive && identity.journalStart.any (fun start => start ≤ height) &&
    identity.journalLast.any fun last => height ≤ last

/-- `read_identity`; `hashes` are the rows of `HEIGHT_TO_BLOCK_HASH` in height order. -/
def readIdentity (feedMeta : FeedMeta) (reorgs : ℕ) (hashes : List BlockHash) (defaultCoverage : ℕ) :
    FeedIdentity where
  databaseId := feedMeta.databaseId.map fun id => ByteText.encodeHex id.1
  reorgEpoch := reorgs
  checkpoint := hashes.getLast?.map fun hash => (hashes.length - 1, hash)
  creationCoverageFrom := feedMeta.creationCoverageFrom.getD defaultCoverage
  journalStart := feedMeta.journalStart
  journalLast := feedMeta.journalLast

/-- The rows of a height, in the order of a range scan. -/
def journalRows (journal : Journal) (height : ℕ) : List (ℕ × JournalRecord) :=
  ((journal.entries.filter fun row => row.1.1 = height).map fun row => (row.1.2, row.2)).insertionSort
    fun a b => a.1 ≤ b.1

/-! ### Rows of a height -/

theorem lookup_insertRows (height : ℕ) (key : ℕ × ℕ) :
    ∀ (records : List JournalRecord) (seq : ℕ) (journal : Journal),
      (insertRows height seq records journal).lookup key =
        if key.1 = height ∧ seq ≤ key.2 ∧ key.2 < seq + records.length then records[key.2 - seq]?
        else journal.lookup key
  | [], seq, journal => by
      rw [insertRows, if_neg]
      simp only [List.length_nil]
      omega
  | record :: records, seq, journal => by
      rw [insertRows, lookup_insertRows height key records (seq + 1), KeyTable.lookup_insert_ite]
      simp only [List.length_cons]
      by_cases hhere : key = (height, seq)
      · subst hhere
        rw [if_neg (by omega), if_pos rfl, if_pos (by omega)]
        simp
      · rw [if_neg hhere]
        by_cases hlater : key.1 = height ∧ seq + 1 ≤ key.2 ∧ key.2 < seq + 1 + records.length
        · have hindex : key.2 - seq = key.2 - (seq + 1) + 1 := by omega
          rw [if_pos hlater, if_pos (by omega), hindex, List.getElem?_cons_succ]
        · rw [if_neg hlater, if_neg]
          rintro ⟨hheight, hle, hlt⟩
          refine hlater ⟨hheight, ?_, by omega⟩
          rcases Nat.eq_or_lt_of_le hle with heq | hlt
          · exact absurd (Prod.ext hheight heq.symm) hhere
          · exact hlt

theorem lookup_foldl_erase (key : ℕ × ℕ) :
    ∀ (keys : List (ℕ × ℕ)) (journal : Journal),
      (keys.foldl (fun journal key => journal.erase key) journal).lookup key =
        if key ∈ keys then none else journal.lookup key
  | [], journal => by simp
  | first :: keys, journal => by
      rw [List.foldl_cons, lookup_foldl_erase key keys, KeyTable.lookup_erase_ite]
      by_cases hfirst : key = first
      · simp [hfirst]
      · simp [hfirst]

theorem lookup_removeRows (journal : Journal) (height : ℕ) (key : ℕ × ℕ) :
    (removeRows journal height).lookup key = if key.1 = height then none else journal.lookup key := by
  rw [removeRows, lookup_foldl_erase]
  by_cases hheight : key.1 = height
  · rw [if_pos hheight]
    split
    · rfl
    next hmem =>
      have hkey : key ∉ journal.keys := fun h => hmem (by simp [h, hheight])
      exact AList.lookup_eq_none.2 fun h => hkey (AList.mem_keys.1 h)
  · simp [hheight]

/-- The rows of a block are its records, numbered from zero. -/
theorem lookup_recordBlock {height : ℕ} {records : List JournalRecord} {fresh : FixedBytes 16}
    {coverage : ℕ} {feedMeta feedMeta' : FeedMeta} {journal journal' : Journal}
    (hrecord : recordBlock height records fresh coverage feedMeta journal = some (feedMeta', journal'))
    (key : ℕ × ℕ) :
    journal'.lookup key = if key.1 = height then records[key.2]? else journal.lookup key := by
  unfold recordBlock at hrecord
  dsimp only at hrecord
  split at hrecord
  · cases hrecord
    rw [lookup_insertRows, lookup_removeRows]
    by_cases hheight : key.1 = height
    · rw [if_pos hheight, if_pos hheight]
      split
      · rfl
      next hnot =>
        have hlarge : records.length ≤ key.2 := by omega
        exact (List.getElem?_eq_none hlarge).symm
    · simp [hheight]
  · cases hrecord

end OrdDogecoin.Feed
