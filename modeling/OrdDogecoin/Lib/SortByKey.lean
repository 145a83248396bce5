/-
Module: OrdDogecoin.Lib.SortByKey
Purpose: Lists in the order of a key: sorting a list whose keys differ gives a strict order, sorting
  leaves a selection alone that is in order already, and cutting at a bound leaves the keys below on
  one side and all others on the other, with the keys equal to it in between.
Trusted boundary: none
Main exports: SortByKey.pairwise_insertionSort, SortByKey.forall₂_insertionSort,
  SortByKey.le_of_mem_dropWhile
-/
import Mathlib.Data.List.Sort
import Mathlib.Data.List.Nodup

namespace SortByKey

variable {α β : Type} [LinearOrder β] (key : α → β)

/-- Sorting by keys that differ gives a strictly ordered list. -/
theorem pairwise_insertionSort {items : List α} (hkeys : (items.map key).Nodup) :
    (items.insertionSort fun a b => key a ≤ key b).Pairwise fun a b => key a < key b := by
  have : Std.Total fun a b : α => key a ≤ key b := ⟨fun a b => le_total (key a) (key b)⟩
  have : IsTrans α fun a b => key a ≤ key b := ⟨fun a b c => le_trans⟩
  have hsorted := List.pairwise_insertionSort (fun a b => key a ≤ key b) items
  have hperm := List.perm_insertionSort (fun a b => key a ≤ key b) items
  have hne : (items.insertionSort fun a b => key a ≤ key b).Pairwise fun a b => key a ≠ key b := by
    rw [← (hperm.map key).nodup_iff] at hkeys
    exact List.pairwise_map.1 hkeys
  exact (hsorted.and hne).imp fun h => lt_of_le_of_ne h.1 h.2

/-- There is one way to put items of different keys in order. -/
theorem eq_insertionSort {items sorted : List α} (hkeys : (items.map key).Nodup)
    (hperm : sorted.Perm items) (hsorted : sorted.Pairwise fun a b => key a < key b) :
    sorted = items.insertionSort fun a b => key a ≤ key b :=
  (hperm.trans (List.perm_insertionSort _ items).symm).eq_of_pairwise
    (fun _ _ _ _ hab hba => absurd hab (lt_asymm hba)) hsorted (pairwise_insertionSort key hkeys)

/-- The order before sorting is no matter. -/
theorem insertionSort_of_perm {items others : List α} (hperm : items.Perm others)
    (hkeys : (items.map key).Nodup) :
    (items.insertionSort fun a b => key a ≤ key b) = others.insertionSort fun a b => key a ≤ key b :=
  eq_insertionSort key ((hperm.map key).nodup_iff.1 hkeys)
    ((List.perm_insertionSort _ items).trans hperm) (pairwise_insertionSort key hkeys)

/-- Sorting is stable: items that are in order, selected in any way, stay in that order. -/
theorem filter_insertionSort (selected : α → Bool) {items : List α}
    (hordered : (items.filter selected).Pairwise fun a b => key a ≤ key b) :
    (items.insertionSort fun a b => key a ≤ key b).filter selected = items.filter selected := by
  have : Std.Total fun a b : α => key a ≤ key b := ⟨fun a b => le_total (key a) (key b)⟩
  have : IsTrans α fun a b => key a ≤ key b := ⟨fun a b c => le_trans⟩
  have hsublist := List.sublist_insertionSort hordered List.filter_sublist
  have hfiltered := hsublist.filter selected
  simp only [List.filter_filter, Bool.and_self] at hfiltered
  have hperm := (List.perm_insertionSort (fun a b => key a ≤ key b) items).filter selected
  exact (hfiltered.eq_of_length hperm.length_eq.symm).symm

section Related

variable {α' : Type} {key} {key' : α' → β} {R : α → α' → Prop}

theorem forall₂_orderedInsert (hkey : ∀ a b, R a b → key a = key' b) {item : α} {item' : α'}
    (hitem : R item item') {items : List α} {items' : List α'} (hitems : List.Forall₂ R items items') :
    List.Forall₂ R (items.orderedInsert (fun a b => key a ≤ key b) item)
      (items'.orderedInsert (fun a b => key' a ≤ key' b) item') := by
  induction hitems with
  | nil => exact .cons hitem .nil
  | cons hfirst hrest ih =>
      rw [List.orderedInsert_cons, List.orderedInsert_cons, hkey _ _ hitem, hkey _ _ hfirst]
      split
      next => exact .cons hitem (.cons hfirst hrest)
      next => exact .cons hfirst ih

/-- Lists that are related item by item, with equal keys, are so when both are sorted. -/
theorem forall₂_insertionSort (hkey : ∀ a b, R a b → key a = key' b) {items : List α}
    {items' : List α'} (hitems : List.Forall₂ R items items') :
    List.Forall₂ R (items.insertionSort fun a b => key a ≤ key b)
      (items'.insertionSort fun a b => key' a ≤ key' b) := by
  induction hitems with
  | nil => exact .nil
  | cons hfirst _ ih => exact forall₂_orderedInsert hkey hfirst ih

end Related

/-- Behind the items below a bound there is none below it. -/
theorem le_of_mem_dropWhile (bound : β) {items : List α}
    (hsorted : items.Pairwise fun a b => key a ≤ key b) :
    ∀ item ∈ items.dropWhile fun item => decide (key item < bound), bound ≤ key item := by
  induction items with
  | nil => simp
  | cons first items ih =>
      obtain ⟨hfirst, hsorted⟩ := List.pairwise_cons.1 hsorted
      intro item hmem
      rw [List.dropWhile_cons] at hmem
      split at hmem
      next => exact ih hsorted item hmem
      next hbound =>
        have hbound : bound ≤ key first := by simpa using hbound
        rcases List.mem_cons.1 hmem with rfl | hmem
        · exact hbound
        · exact hbound.trans (hfirst item hmem)

end SortByKey
