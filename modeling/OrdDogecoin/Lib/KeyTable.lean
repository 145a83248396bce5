/-
Module: OrdDogecoin.Lib.KeyTable
Purpose: Finite key-value tables and sums over their rows.  A table is Mathlib's association list
  at a constant value type, so a key has at most one row by construction.  What this module adds is
  the accounting: how the sum of a weight over all rows changes when one row is written or removed;
  and pairs of tables that are each other's inverse.
Trusted boundary: none
Main exports: KeyTable, KeyTable.Inverse.add, KeyTable.Inverse.move
-/
import Mathlib.Data.List.AList
import Mathlib.Algebra.BigOperators.Group.List.Basic
import Mathlib.Algebra.BigOperators.Ring.List
import Mathlib.Algebra.Order.BigOperators.Group.List
import Mathlib.Tactic.Ring

/-- A finite table from keys to values. -/
abbrev KeyTable (K V : Type) := AList (fun _ : K => V)

namespace KeyTable

variable {K V M : Type} [DecidableEq K] {table : KeyTable K V}

theorem lookup_insert_ite (table : KeyTable K V) (key other : K) (value : V) :
    (table.insert key value).lookup other =
      if other = key then some value else table.lookup other := by
  by_cases h : other = key
  · subst h
    simp
  · rw [if_neg h, AList.lookup_insert_ne h]

theorem lookup_erase_ite (table : KeyTable K V) (key other : K) :
    (table.erase key).lookup other =
      if other = key then none else table.lookup other := by
  by_cases h : other = key
  · subst h
    simp
  · rw [if_neg h, AList.lookup_erase_ne h]

/-- A row found after a write is the row written or an old one under another key. -/
theorem lookup_insert_cases {key other : K} {value found : V}
    (hfound : (table.insert key value).lookup other = some found) :
    (other = key ∧ found = value) ∨ (other ≠ key ∧ table.lookup other = some found) := by
  rw [lookup_insert_ite] at hfound
  split at hfound
  next heq =>
    cases hfound
    exact .inl ⟨heq, rfl⟩
  next hne => exact .inr ⟨hne, hfound⟩

/-- A row found after a removal is an old one under another key. -/
theorem lookup_erase_cases {key other : K} {found : V}
    (hfound : (table.erase key).lookup other = some found) :
    other ≠ key ∧ table.lookup other = some found := by
  rw [lookup_erase_ite] at hfound
  split at hfound
  next => cases hfound
  next hne => exact ⟨hne, hfound⟩

/-- A new key comes in front of the old ones. -/
theorem keys_insert_of_not_mem {key : K} (hkey : key ∉ table.keys) (value : V) :
    (table.insert key value).keys = key :: table.keys := by
  rw [AList.keys_insert, List.erase_of_not_mem hkey]

/-! ### Sums over the rows of a table -/

section Total

variable [AddCommMonoid M]

/-- The sum of `weight` over every row of the table. -/
def total (weight : K → V → M) (table : KeyTable K V) : M :=
  (table.entries.map fun row => weight row.1 row.2).sum

/-- The weight of the row at `key`, or zero when there is none. -/
def weightAt (weight : K → V → M) (table : KeyTable K V) (key : K) : M :=
  ((table.lookup key).map (weight key)).getD 0

omit [DecidableEq K] in
@[simp] theorem total_empty (weight : K → V → M) :
    total weight (∅ : KeyTable K V) = 0 := rfl

private theorem sum_kerase (weight : K → V → M) (key : K) :
    ∀ rows : List (Sigma fun _ : K => V),
      ((rows.kerase key).map fun row => weight row.1 row.2).sum +
          ((rows.dlookup key).map (weight key)).getD 0 =
        (rows.map fun row => weight row.1 row.2).sum
  | [] => by simp
  | ⟨head, value⟩ :: rows => by
      by_cases h : key = head
      · subst h
        simp [add_comm]
      · rw [List.kerase_cons_ne h, List.dlookup_cons_ne _ _ h, List.map_cons, List.sum_cons,
          List.map_cons, List.sum_cons, add_assoc, sum_kerase weight key rows]

/-- Removing a row takes exactly its weight out of the sum. -/
theorem total_erase (weight : K → V → M) (table : KeyTable K V) (key : K) :
    total weight (table.erase key) + weightAt weight table key = total weight table :=
  sum_kerase weight key table.entries

/-- Writing a row replaces the weight of the row it overwrites. -/
theorem total_insert (weight : K → V → M) (table : KeyTable K V) (key : K) (value : V) :
    total weight (table.insert key value) + weightAt weight table key =
      total weight table + weight key value := by
  have hentries : total weight (table.insert key value) =
      weight key value + total weight (table.erase key) := by
    simp only [total, AList.entries_insert, List.map_cons, List.sum_cons]
    rfl
  rw [hentries, add_assoc, total_erase, add_comm]

/-! ### Sums over the rows of some keys -/

variable (keys : K → Prop) [DecidablePred keys] (value : V → M)

/-- The sum of `value` over the rows whose key is one of `keys`. -/
def totalWhere (table : KeyTable K V) : M :=
  total (fun key row => if keys key then value row else 0) table

/-- The value of the row at `key`, or zero when there is none. -/
def valueAt (table : KeyTable K V) (key : K) : M := ((table.lookup key).map value).getD 0

omit [DecidableEq K] in
@[simp] theorem totalWhere_empty : totalWhere keys value (∅ : KeyTable K V) = 0 := rfl

@[simp] theorem valueAt_empty (key : K) : valueAt value (∅ : KeyTable K V) key = 0 := by
  simp [valueAt]

theorem valueAt_of_lookup {table : KeyTable K V} {key : K} {row : V}
    (hrow : table.lookup key = some row) : valueAt value table key = value row := by
  simp [valueAt, hrow]

theorem valueAt_insert_ite (table : KeyTable K V) (key other : K) (row : V) :
    valueAt value (table.insert key row) other =
      if other = key then value row else valueAt value table other := by
  unfold valueAt
  rw [lookup_insert_ite]
  split <;> rfl

private theorem weightAt_where (table : KeyTable K V) (key : K) :
    weightAt (fun key row => if keys key then value row else 0) table key =
      if keys key then valueAt value table key else 0 := by
  unfold weightAt valueAt
  cases table.lookup key <;> by_cases hkey : keys key <;> simp [hkey]

theorem totalWhere_insert (key : K) (hkey : keys key) (table : KeyTable K V) (row : V) :
    totalWhere keys value (table.insert key row) + valueAt value table key =
      totalWhere keys value table + value row := by
  have haccount := total_insert (fun key row => if keys key then value row else 0) table key row
  simpa only [weightAt_where keys value, if_pos hkey, totalWhere] using haccount

theorem totalWhere_insert_of_not (key : K) (hkey : ¬ keys key) (table : KeyTable K V) (row : V) :
    totalWhere keys value (table.insert key row) = totalWhere keys value table := by
  have haccount := total_insert (fun key row => if keys key then value row else 0) table key row
  simpa only [weightAt_where keys value, if_neg hkey, add_zero, totalWhere] using haccount

theorem totalWhere_erase (key : K) (hkey : keys key) (table : KeyTable K V) :
    totalWhere keys value (table.erase key) + valueAt value table key =
      totalWhere keys value table := by
  have haccount := total_erase (fun key row => if keys key then value row else 0) table key
  simpa only [weightAt_where keys value, if_pos hkey, totalWhere] using haccount

theorem totalWhere_erase_of_not (key : K) (hkey : ¬ keys key) (table : KeyTable K V) :
    totalWhere keys value (table.erase key) = totalWhere keys value table := by
  have haccount := total_erase (fun key row => if keys key then value row else 0) table key
  simpa only [weightAt_where keys value, if_neg hkey, add_zero, totalWhere] using haccount

end Total

omit [DecidableEq K] in
/-- Sums of rows that are related row by row are related. -/
theorem total_le_total [DecidableEq K] [AddCommMonoid M] [PartialOrder M] [IsOrderedAddMonoid M]
    {weight weight' : K → V → M}
    (hle : ∀ key row, table.lookup key = some row → weight key row ≤ weight' key row) :
    total weight table ≤ total weight' table := by
  unfold total
  apply List.sum_le_sum
  intro row hmem
  exact hle row.1 row.2 (AList.mem_lookup_iff.2 hmem)

omit [DecidableEq K] in
/-- Weights that agree on the rows of a table have the same sum. -/
theorem total_congr [DecidableEq K] [AddCommMonoid M] {weight weight' : K → V → M}
    (heq : ∀ key row, table.lookup key = some row → weight key row = weight' key row) :
    total weight table = total weight' table := by
  unfold total
  congr 1
  apply List.map_congr_left
  intro row hmem
  exact heq row.1 row.2 (AList.mem_lookup_iff.2 hmem)

omit [DecidableEq K] in
/-- Sums are linear in the weight. -/
theorem total_add_mul (weight weight' : K → V → ℤ) (factor : ℤ) (table : KeyTable K V) :
    total (fun key row => weight key row + factor * weight' key row) table =
      total weight table + factor * total weight' table := by
  unfold total
  rw [List.sum_map_add, List.sum_map_mul_left]

/-- A sum of values that are not negative is not negative. -/
theorem totalWhere_nonneg [AddCommMonoid M] [PartialOrder M] [IsOrderedAddMonoid M]
    (keys : K → Prop) [DecidablePred keys] (value : V → M)
    (hnonneg : ∀ key row, table.lookup key = some row → 0 ≤ value row) :
    0 ≤ totalWhere keys value table := by
  unfold totalWhere total
  apply List.sum_nonneg
  intro weight hmem
  obtain ⟨row, hrow, rfl⟩ := List.mem_map.1 hmem
  dsimp only
  split
  · exact hnonneg row.1 row.2 (AList.mem_lookup_iff.2 hrow)
  · exact le_rfl

/-- In a sum of values that are not negative no single row exceeds the whole. -/
theorem valueAt_le_totalWhere [AddCommMonoid M] [PartialOrder M] [IsOrderedAddMonoid M]
    (keys : K → Prop) [DecidablePred keys] (value : V → M) (key : K) (hkey : keys key)
    (hnonneg : ∀ key row, table.lookup key = some row → 0 ≤ value row) :
    valueAt value table key ≤ totalWhere keys value table := by
  rw [← totalWhere_erase keys value key hkey table]
  apply le_add_of_nonneg_left
  exact totalWhere_nonneg keys value fun other row hrow =>
    hnonneg other row (lookup_erase_cases hrow).2

/-- A sum is zero when no row has one of the keys. -/
theorem totalWhere_eq_zero [AddCommMonoid M] (keys : K → Prop) [DecidablePred keys] (value : V → M)
    (hnone : ∀ key row, table.lookup key = some row → ¬ keys key) :
    totalWhere keys value table = 0 := by
  unfold totalWhere total
  apply List.sum_eq_zero
  intro weight hmem
  obtain ⟨row, hrow, rfl⟩ := List.mem_map.1 hmem
  exact if_neg (hnone row.1 row.2 (AList.mem_lookup_iff.2 hrow))

/-- The rows of one key sum up to its value. -/
theorem totalWhere_eq_valueAt (value : V → ℕ) (table : KeyTable K V) (key : K) :
    totalWhere (fun other => other = key) value table = valueAt value table key := by
  have hrest : totalWhere (fun other => other = key) value (table.erase key) = 0 := by
    apply totalWhere_eq_zero
    intro other row hrow
    exact (lookup_erase_cases hrow).1
  have haccount := totalWhere_erase (fun other => other = key) value key rfl table
  omega

/-! ### Rows of one table written into another -/

/-- Writing the rows of a list of distinct keys: they are found as written, all else is as before. -/
theorem lookup_foldl_insert {W : Type} (value : V → W) (key : K) :
    ∀ (rows : List (Sigma fun _ : K => V)) (table : KeyTable K W), rows.NodupKeys →
      (rows.foldl (fun table row => table.insert row.1 (value row.2)) table).lookup key =
        ((rows.dlookup key).map value).or (table.lookup key)
  | [], _, _ => by simp
  | ⟨head, row⟩ :: rows, table, hnodup => by
      rw [List.nodupKeys_cons] at hnodup
      rw [List.foldl_cons, lookup_foldl_insert value key rows _ hnodup.2, lookup_insert_ite]
      by_cases hkey : key = head
      · subst hkey
        rw [List.dlookup_eq_none.2 hnodup.1, List.dlookup_cons_eq]
        simp
      · rw [if_neg hkey, List.dlookup_cons_ne _ _ hkey]

/-- Writing a value for each key of a list: the keys of the list are found, with their values. -/
theorem lookup_foldl_keys (value : K → V) (key : K) :
    ∀ (keys : List K) (table : KeyTable K V),
      (keys.foldl (fun table key => table.insert key (value key)) table).lookup key =
        if key ∈ keys then some (value key) else table.lookup key
  | [], table => by simp
  | head :: keys, table => by
      rw [List.foldl_cons, lookup_foldl_keys value key keys, lookup_insert_ite]
      by_cases hhead : key = head
      · subst hhead
        simp
      · simp [hhead]

/-! ### Tables under a function of their values -/

section Values

variable {W : Type}

omit [DecidableEq K] in
private theorem keys_map (f : V → W) (rows : List (Sigma fun _ : K => V)) :
    (rows.map fun row => (⟨row.1, f row.2⟩ : Sigma fun _ : K => W)).keys = rows.keys := by
  simp [List.keys]

/-- The table with `f` applied to every value. -/
def mapValues (f : V → W) (table : KeyTable K V) : KeyTable K W where
  entries := table.entries.map fun row => ⟨row.1, f row.2⟩
  nodupKeys := by
    unfold List.NodupKeys
    rw [keys_map]
    exact table.nodupKeys

private theorem dlookup_map (f : V → W) (key : K) : ∀ rows : List (Sigma fun _ : K => V),
    (rows.map fun row => (⟨row.1, f row.2⟩ : Sigma fun _ : K => W)).dlookup key =
      (rows.dlookup key).map f
  | [] => rfl
  | ⟨head, value⟩ :: rows => by
      by_cases h : key = head
      · subst h
        rw [List.map_cons, List.dlookup_cons_eq, List.dlookup_cons_eq, Option.map_some]
      · rw [List.map_cons, List.dlookup_cons_ne _ _ h, List.dlookup_cons_ne _ _ h,
          dlookup_map f key rows]

@[simp] theorem lookup_mapValues (f : V → W) (table : KeyTable K V) (key : K) :
    (mapValues f table).lookup key = (table.lookup key).map f :=
  dlookup_map f key table.entries

end Values

/-! ### Inverse tables -/

variable {L : Type} [DecidableEq L]

/-- Two tables that are each other's inverse. -/
def Inverse (forward : KeyTable K L) (backward : KeyTable L K) : Prop :=
  ∀ key label, forward.lookup key = some label ↔ backward.lookup label = some key

namespace Inverse

variable {forward : KeyTable K L} {backward : KeyTable L K}

theorem empty : Inverse (∅ : KeyTable K L) ∅ := fun key label => by simp

/-- A label is under at most one key. -/
theorem injective (inverse : Inverse forward backward) {key key' : K} {label : L}
    (hkey : forward.lookup key = some label) (hkey' : forward.lookup key' = some label) :
    key = key' := by
  have hback := (inverse key label).1 hkey
  rw [(inverse key' label).1 hkey'] at hback
  exact (Option.some.inj hback).symm

/-- A new label under a free key. -/
theorem add (inverse : Inverse forward backward) {key : K} {label : L}
    (hkey : forward.lookup key = none) (hlabel : backward.lookup label = none) :
    Inverse (forward.insert key label) (backward.insert label key) := by
  intro other found
  rw [lookup_insert_ite, lookup_insert_ite]
  by_cases hother : other = key
  · subst hother
    rw [if_pos rfl]
    by_cases hfound : found = label
    · subst hfound
      simp
    · rw [if_neg hfound, ← inverse, hkey]
      simp [Ne.symm hfound]
  · rw [if_neg hother]
    by_cases hfound : found = label
    · subst hfound
      rw [if_pos rfl, inverse, hlabel]
      simp [Ne.symm hother]
    · rw [if_neg hfound, inverse]

/-- A label moves from its key to a free one. -/
theorem move (inverse : Inverse forward backward) {old key : K} {label : L}
    (hold : forward.lookup old = some label) (hkey : forward.lookup key = none) :
    Inverse ((forward.erase old).insert key label) (backward.insert label key) := by
  have hback := (inverse old label).1 hold
  intro other found
  rw [lookup_insert_ite, lookup_insert_ite, lookup_erase_ite]
  by_cases hother : other = key
  · subst hother
    rw [if_pos rfl]
    by_cases hfound : found = label
    · subst hfound
      simp
    · rw [if_neg hfound, ← inverse, hkey]
      simp [Ne.symm hfound]
  · rw [if_neg hother]
    by_cases hfound : found = label
    · subst hfound
      rw [if_pos rfl]
      split
      next => simp [Ne.symm hother]
      next hne =>
        rw [inverse, hback]
        simp [Ne.symm hne, Ne.symm hother]
    · rw [if_neg hfound]
      split
      next hsame =>
        subst hsame
        rw [← inverse, hold]
        simp [Ne.symm hfound]
      next => exact inverse other found

end Inverse

end KeyTable
