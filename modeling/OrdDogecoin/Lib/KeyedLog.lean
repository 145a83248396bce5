/-
Module: OrdDogecoin.Lib.KeyedLog
Purpose: A log of events and the tables that are kept beside it: for every key the list of the positions
  of its events, and the newest of these positions.
Trusted boundary: none
Main exports: KeyedLog.positions, KeyedLog.Listed, KeyedLog.Newest
-/
import OrdDogecoin.Lib.KeyTable

namespace KeyedLog

variable {E K : Type} [DecidableEq K] {keyOf : E → K} {log : List E}

/-- The positions of the events of a key, in order. -/
def positions (keyOf : E → K) (log : List E) (key : K) : List ℕ :=
  log.findIdxs fun event => keyOf event = key

theorem positions_append (event : E) (key : K) :
    positions keyOf (log ++ [event]) key =
      positions keyOf log key ++ if keyOf event = key then [log.length] else [] := by
  unfold positions
  rw [List.findIdxs_append, List.findIdxs_singleton, Nat.zero_add]
  simp only [decide_eq_true_eq]

theorem mem_positions {key : K} {i : ℕ} :
    i ∈ positions keyOf log key ↔ ∃ event, log[i]? = some event ∧ keyOf event = key := by
  unfold positions
  rw [List.mem_findIdxs_iff_exists_getElem_pos]
  constructor
  · rintro ⟨hi, hkey⟩
    exact ⟨log[i], List.getElem?_eq_getElem hi, by simpa using hkey⟩
  · rintro ⟨event, hevent, hkey⟩
    obtain ⟨hi, rfl⟩ := List.getElem?_eq_some_iff.1 hevent
    exact ⟨hi, by simpa using hkey⟩

theorem positions_eq_nil {key : K} :
    positions keyOf log key = [] ↔ ∀ event ∈ log, keyOf event ≠ key := by
  unfold positions
  rw [List.findIdxs_eq_nil_iff]
  simp only [decide_eq_false_iff_not]

omit [DecidableEq K] in
/-- A field of the events that determines another still does behind an event that fits the others. -/
theorem determined_append {V : Type} {valueOf : E → V} {new : E}
    (hold : ∀ event ∈ log, ∀ other ∈ log, keyOf event = keyOf other → valueOf event = valueOf other)
    (hnew : ∀ event ∈ log, keyOf event = keyOf new → valueOf event = valueOf new) :
    ∀ event ∈ log ++ [new], ∀ other ∈ log ++ [new],
      keyOf event = keyOf other → valueOf event = valueOf other := by
  simp only [List.forall_mem_append, List.forall_mem_singleton]
  exact ⟨fun event hmem => ⟨hold event hmem, hnew event hmem⟩,
    fun other hmem hsame => (hnew other hmem hsame.symm).symm, fun _ => trivial⟩

/-- Two namings of the events that agree with each other have the same positions. -/
theorem positions_congr {K' : Type} [DecidableEq K'] {keyOf' : E → K'} {key : K} {key' : K'}
    (hagree : ∀ event ∈ log, keyOf event = key ↔ keyOf' event = key') :
    positions keyOf log key = positions keyOf' log key' := by
  unfold positions
  rw [List.findIdxs_eq_filterMap_zipIdx, List.findIdxs_eq_filterMap_zipIdx]
  apply List.filterMap_congr
  rintro ⟨event, i⟩ hmem
  have hevent := hagree event (List.fst_mem_of_mem_zipIdx hmem)
  simp only [hevent]

/-! ### Lists of positions -/

def push (lists : KeyTable K (List ℕ)) (key : K) (position : ℕ) : KeyTable K (List ℕ) :=
  lists.insert key ((lists.lookup key).getD [] ++ [position])

/-- Every key lists the positions of its events. -/
def Listed (keyOf : E → K) (log : List E) (lists : KeyTable K (List ℕ)) : Prop :=
  ∀ key, (lists.lookup key).getD [] = positions keyOf log key

theorem Listed.empty : Listed keyOf [] ∅ := fun _ => rfl

theorem Listed.append {lists : KeyTable K (List ℕ)} (listed : Listed keyOf log lists) (event : E) :
    Listed keyOf (log ++ [event]) (push lists (keyOf event) log.length) := by
  intro key
  rw [positions_append, push, KeyTable.lookup_insert_ite, ← listed]
  split
  next hkey => rw [if_pos hkey.symm, Option.getD_some, hkey]
  next hkey => rw [if_neg (Ne.symm hkey), List.append_nil]

/-! ### The newest position -/

/-- Every key with an event has a row, which points to its newest one. -/
def Newest (keyOf : E → K) (log : List E) (table : KeyTable K ℕ) : Prop :=
  ∀ key, table.lookup key = (positions keyOf log key).getLast?

theorem Newest.empty : Newest keyOf [] ∅ := fun _ => rfl

theorem Newest.append {table : KeyTable K ℕ} (newest : Newest keyOf log table) (event : E) :
    Newest keyOf (log ++ [event]) (table.insert (keyOf event) log.length) := by
  intro key
  rw [positions_append, KeyTable.lookup_insert_ite]
  split
  next hkey => rw [if_pos hkey.symm, List.getLast?_append_of_ne_nil _ (by simp), List.getLast?_singleton]
  next hkey => rw [if_neg (Ne.symm hkey), List.append_nil, newest]

/-- A row points to an event of its key. -/
theorem Newest.event {table : KeyTable K ℕ} (newest : Newest keyOf log table) {key : K} {i : ℕ}
    (hrow : table.lookup key = some i) : ∃ event, log[i]? = some event ∧ keyOf event = key := by
  rw [newest] at hrow
  exact mem_positions.1 (List.mem_of_getLast? hrow)

theorem Newest.isNone {table : KeyTable K ℕ} (newest : Newest keyOf log table) {key : K} :
    table.lookup key = none ↔ ∀ event ∈ log, keyOf event ≠ key := by
  rw [newest, List.getLast?_eq_none_iff, positions_eq_nil]

end KeyedLog
