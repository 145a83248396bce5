/-
Module: OrdDogecoin.Lib.PrefixRange
Purpose: Ranges of a table whose keys are texts.  Between two bounds with a common front lie only texts with
  that front; bounds that repeat the least and the greatest symbol take in every tail of their length but
  one.  The rows of a table in key order, and the rows of a range as the rows of a smaller table.
Trusted boundary: none
Main exports: PrefixRange.exists_tail, PrefixRange.range, PrefixRange.range_eq_rows
-/
import OrdDogecoin.Lib.KeyTable
import OrdDogecoin.Lib.SortByKey
import Mathlib.Data.List.Lex

namespace PrefixRange

/-! ### Bounds -/

section Bounds

variable {α : Type} [LinearOrder α]

theorem append_lt_append_left (front : List α) {tail other : List α} :
    front ++ tail < front ++ other ↔ tail < other := by
  induction front with
  | nil => rfl
  | cons c front ih =>
      rw [List.cons_append, List.cons_append, List.cons_lt_cons_iff, ih]
      simp

theorem append_le_append_left (front : List α) {tail other : List α} :
    front ++ tail ≤ front ++ other ↔ tail ≤ other := by
  rw [← not_lt, append_lt_append_left, not_lt]

/-- Between two bounds with a common front lie only texts with that front. -/
theorem exists_tail {front low high key : List α} (hlow : front ++ low ≤ key) (hhigh : key < front ++ high) :
    ∃ tail, key = front ++ tail := by
  induction front generalizing key with
  | nil => exact ⟨key, rfl⟩
  | cons c front ih =>
      rw [← not_lt] at hlow
      cases key with
      | nil => exact absurd .nil hlow
      | cons d key =>
          rw [List.cons_append, List.cons_lt_cons_iff, not_or, not_and, not_lt] at hlow
          rw [List.cons_append, List.cons_lt_cons_iff] at hhigh
          rcases hhigh with hless | ⟨rfl, hless⟩
          · exact absurd hless hlow.1.not_gt
          · obtain ⟨tail, rfl⟩ := ih (not_lt.1 (hlow.2 rfl)) hless
            exact ⟨tail, rfl⟩

/-- Repetitions of a least symbol are below every text of at least their length. -/
theorem replicate_le {least : α} {front : List α} (hfront : ∀ c ∈ front, least ≤ c) (rest : List α) :
    List.replicate front.length least ≤ front ++ rest := by
  induction front with
  | nil => exact not_lt.1 (List.not_lt_nil _)
  | cons c front ih =>
      have hrest := ih fun d hd => hfront d (List.mem_cons_of_mem c hd)
      rw [List.length_cons, List.replicate_succ, List.cons_append, ← not_lt, List.cons_lt_cons_iff]
      rintro (hless | ⟨-, hless⟩)
      · exact absurd hless (hfront c List.mem_cons_self).not_gt
      · exact absurd hless hrest.not_gt

/-- Repetitions of a greatest symbol are above every text that does not begin with them. -/
theorem lt_replicate {greatest : α} {front : List α} (hfront : ∀ c ∈ front, c ≤ greatest)
    (hne : front ≠ List.replicate front.length greatest) (rest : List α) :
    front ++ rest < List.replicate front.length greatest := by
  induction front with
  | nil => exact absurd rfl hne
  | cons c front ih =>
      rw [List.length_cons, List.replicate_succ, List.cons_append, List.cons_lt_cons_iff]
      rcases (hfront c List.mem_cons_self).lt_or_eq with hless | rfl
      · exact .inl hless
      · refine .inr ⟨rfl, ih (fun d hd => hfront d (List.mem_cons_of_mem c hd)) fun hsame => hne ?_⟩
        rw [List.length_cons, List.replicate_succ, ← hsame]

end Bounds

/-! ### Rows -/

section Rows

variable {K V : Type} [LinearOrder K] [DecidableEq K]

/-- The rows of a table in the order of their keys. -/
def rows (table : KeyTable K V) : List (Σ _ : K, V) :=
  table.entries.insertionSort fun row other => row.1 ≤ other.1

/-- The rows from a key on and below another. -/
def range (table : KeyTable K V) (low high : K) : List (Σ _ : K, V) :=
  (rows table).filter fun row => low ≤ row.1 ∧ row.1 < high

theorem mem_rows {table : KeyTable K V} {row : Σ _ : K, V} :
    row ∈ rows table ↔ table.lookup row.1 = some row.2 := by
  rw [rows, List.mem_insertionSort]
  exact AList.mem_lookup_iff.symm

/-- The rows that are selected by their keys are the rows of the table of these keys. -/
theorem filter_rows {table part : KeyTable K V} {selected : K → Prop} [DecidablePred selected]
    (hpart : ∀ key value, part.lookup key = some value ↔ table.lookup key = some value ∧ selected key) :
    ((rows table).filter fun row => selected row.1) = rows part := by
  have hnodup : ((table.entries).map Sigma.fst).Nodup := table.nodupKeys
  have hpairs := SortByKey.pairwise_insertionSort Sigma.fst hnodup
  have hsorted := hpairs.filter fun row => selected row.1
  refine SortByKey.eq_insertionSort Sigma.fst part.nodupKeys ?_ hsorted
  refine (List.perm_ext_iff_of_nodup ?_ part.nodupKeys.nodup).2 fun row => ?_
  · exact hsorted.imp fun hless hsame => absurd (congrArg Sigma.fst hsame) hless.ne
  · rw [List.mem_filter, mem_rows, decide_eq_true_eq, ← hpart]
    exact AList.mem_lookup_iff

theorem range_eq_rows {table part : KeyTable K V} {low high : K}
    (hpart : ∀ key value, part.lookup key = some value ↔
      table.lookup key = some value ∧ low ≤ key ∧ key < high) : range table low high = rows part :=
  filter_rows hpart

end Rows

end PrefixRange
