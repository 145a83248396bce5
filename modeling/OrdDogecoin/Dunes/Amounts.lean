/-
Module: OrdDogecoin.Dunes.Amounts
Purpose: Arithmetic of the maps from dune ids to amounts: what a credit, a list of credits and an
  allocation to an output do to the amount of every id, and when they stay inside `u128`.
Trusted boundary: none
Main exports: amountAt, allocatedTotal, moveAmount_spec
-/
import OrdDogecoin.Dunes.DuneUpdater
import Mathlib.Algebra.BigOperators.Group.List.Lemmas

namespace OrdDogecoin.Dunes

open KeyTable

/-- The amount of a dune in a map. -/
def amountAt (amounts : Amounts) (id : ℕ) : ℕ := (amounts.lookup id).getD 0

def pairsAmount (id : ℕ) (list : List (ℕ × ℕ)) : ℕ :=
  (list.map fun pair => if pair.1 = id then pair.2 else 0).sum

@[simp] theorem amountAt_empty (id : ℕ) : amountAt ∅ id = 0 := by simp [amountAt]

theorem amountAt_insert (amounts : Amounts) (id other amount : ℕ) :
    amountAt (amounts.insert id amount) other =
      if other = id then amount else amountAt amounts other := by
  unfold amountAt
  rw [lookup_insert_ite]
  split <;> rfl

variable {amounts : Amounts}

theorem amountAt_of_lookup {id amount : ℕ} (hlookup : amounts.lookup id = some amount) :
    amountAt amounts id = amount := by
  simp [amountAt, hlookup]

@[simp] theorem pairsAmount_nil (id : ℕ) : pairsAmount id [] = 0 := rfl

@[simp] theorem pairsAmount_cons (id : ℕ) (pair : ℕ × ℕ) (list : List (ℕ × ℕ)) :
    pairsAmount id (pair :: list) = (if pair.1 = id then pair.2 else 0) + pairsAmount id list := by
  simp [pairsAmount]

theorem pairsAmount_perm {id : ℕ} {list other : List (ℕ × ℕ)} (hperm : list.Perm other) :
    pairsAmount id list = pairsAmount id other :=
  (hperm.map _).sum_eq

/-- The pairs of a map carry its amounts. -/
theorem pairsAmount_pairs (amounts : Amounts) (id : ℕ) :
    pairsAmount id (pairs amounts) = amountAt amounts id := by
  have hvalue := totalWhere_eq_valueAt (fun amount : ℕ => amount) amounts id
  have hmap : valueAt (fun amount : ℕ => amount) amounts id = amountAt amounts id := by
    simp [valueAt, amountAt]
  rw [← hmap, ← hvalue, pairsAmount, pairs, List.map_map]
  rfl

/-- Zero pairs can be left out. -/
theorem pairsAmount_filter_pos (id : ℕ) (list : List (ℕ × ℕ)) :
    pairsAmount id (list.filter (0 < ·.2)) = pairsAmount id list := by
  induction list with
  | nil => rfl
  | cons pair list ih =>
      rw [List.filter_cons]
      split
      next => rw [pairsAmount_cons, pairsAmount_cons, ih]
      next hzero =>
        have hpair : pair.2 = 0 := by simpa using hzero
        rw [pairsAmount_cons, ih, hpair]
        simp

theorem pairsAmount_positive (amounts : Amounts) (id : ℕ) :
    pairsAmount id (positive amounts) = amountAt amounts id := by
  rw [positive, pairsAmount_filter_pos, pairsAmount_pairs]

theorem pairsAmount_balanceRow (amounts : Amounts) (id : ℕ) :
    pairsAmount id (balanceRow amounts) = amountAt amounts id := by
  rw [balanceRow, pairsAmount_perm (List.perm_insertionSort _ _), pairsAmount_pairs]

/-! ### Ids of maps -/

/-- The ids of a map are all among `ids`. -/
def Within (ids : ℕ → Prop) (amounts : Amounts) : Prop :=
  ∀ id amount, amounts.lookup id = some amount → ids id

theorem Within.empty (ids : ℕ → Prop) : Within ids ∅ := by
  intro id amount hlookup
  simp at hlookup

variable {ids : ℕ → Prop}

theorem Within.insert (within : Within ids amounts) {id amount : ℕ} (hid : ids id) :
    Within ids (amounts.insert id amount) := by
  intro other found hfound
  rcases lookup_insert_cases hfound with ⟨rfl, -⟩ | ⟨-, hold⟩
  · exact hid
  · exact within _ _ hold

theorem Within.pairs (within : Within ids amounts) {pair : ℕ × ℕ} (hmem : pair ∈ pairs amounts) :
    ids pair.1 := by
  obtain ⟨row, hrow, rfl⟩ := List.mem_map.1 hmem
  exact within _ _ (AList.mem_lookup_iff.2 hrow)

/-! ### Credits -/

/-- A credit inside `u128` adds to one id. -/
theorem credit_spec {id amount : ℕ} (hbound : amountAt amounts id + amount ≤ maxU128) :
    credit amounts id amount = some (amounts.insert id (amountAt amounts id + amount)) := by
  have hchecked : checkedAdd ((amounts.lookup id).getD 0) amount =
      some (amountAt amounts id + amount) := if_pos hbound
  rw [credit, hchecked]
  rfl

theorem amountAt_credited (amounts : Amounts) (id other amount : ℕ) :
    amountAt (amounts.insert id (amountAt amounts id + amount)) other =
      amountAt amounts other + if id = other then amount else 0 := by
  rw [amountAt_insert]
  by_cases h : other = id
  · subst h
    simp
  · rw [if_neg h, if_neg (Ne.symm h), Nat.add_zero]

/-- A list of credits inside `u128` adds its amount of every id. -/
theorem creditAll_spec (list : List (ℕ × ℕ)) :
    ∀ {amounts : Amounts}, Within ids amounts → (∀ pair ∈ list, ids pair.1) →
      (∀ id, amountAt amounts id + pairsAmount id list ≤ maxU128) →
      ∃ credited, creditAll amounts list = some credited ∧ Within ids credited ∧
        ∀ id, amountAt credited id = amountAt amounts id + pairsAmount id list := by
  induction list with
  | nil => exact fun {amounts} within _ _ => ⟨amounts, rfl, within, by simp⟩
  | cons pair list ih =>
      intro amounts within hids hbound
      have hfirst : amountAt amounts pair.1 + pair.2 ≤ maxU128 := by
        have hpair := hbound pair.1
        rw [pairsAmount_cons, if_pos rfl] at hpair
        omega
      have hrest : ∀ id, amountAt (amounts.insert pair.1 (amountAt amounts pair.1 + pair.2)) id +
          pairsAmount id list ≤ maxU128 := by
        intro id
        have hpair := hbound id
        rw [pairsAmount_cons] at hpair
        rw [amountAt_credited]
        omega
      obtain ⟨credited, hcredited, hwithin, hamounts⟩ :=
        ih (within.insert (hids pair List.mem_cons_self))
          (fun other hmem => hids other (List.mem_cons_of_mem _ hmem)) hrest
      refine ⟨credited, ?_, hwithin, fun id => ?_⟩
      · rw [creditAll, credit_spec hfirst]
        exact hcredited
      · rw [hamounts, amountAt_credited, pairsAmount_cons]
        omega

/-! ### Outputs -/

/-- What the outputs hold of a dune. -/
def allocatedTotal (allocated : List Amounts) (id : ℕ) : ℕ :=
  (allocated.map (amountAt · id)).sum

theorem allocatedTotal_replicate (outputs id : ℕ) :
    allocatedTotal (List.replicate outputs ∅) id = 0 := by
  simp [allocatedTotal]

variable {allocated : List Amounts}

theorem amountAt_le_allocatedTotal {output : ℕ} (houtput : allocated[output]? = some amounts)
    (id : ℕ) :
    amountAt amounts id ≤ allocatedTotal allocated id := by
  have hmem : amountAt amounts id ∈ allocated.map (amountAt · id) :=
    List.mem_map_of_mem (List.mem_of_getElem? houtput)
  exact List.single_le_sum (fun _ _ => Nat.zero_le _) _ hmem

/-- Replacing the map of one output. -/
theorem allocatedTotal_set {output : ℕ} (houtput : allocated[output]? = some amounts)
    (replaced : Amounts) (id : ℕ) :
    allocatedTotal (allocated.set output replaced) id + amountAt amounts id =
      allocatedTotal allocated id + amountAt replaced id := by
  induction allocated generalizing output with
  | nil => simp at houtput
  | cons first rest ih =>
      cases output with
      | zero =>
          cases houtput
          simp only [allocatedTotal, List.set_cons_zero, List.map_cons, List.sum_cons]
          omega
      | succ output =>
          have hrest := ih houtput
          simp only [allocatedTotal, List.set_cons_succ, List.map_cons, List.sum_cons] at hrest ⊢
          omega

/-- Every output only holds dunes among `ids`. -/
def AllWithin (ids : ℕ → Prop) (allocated : List Amounts) : Prop :=
  ∀ amounts ∈ allocated, Within ids amounts

theorem AllWithin.replicate (ids : ℕ → Prop) (outputs : ℕ) :
    AllWithin ids (List.replicate outputs ∅) := by
  intro amounts hmem
  rw [List.eq_of_mem_replicate hmem]
  exact Within.empty ids

theorem AllWithin.set {output : ℕ} (within : AllWithin ids allocated)
    (hamounts : Within ids amounts) :
    AllWithin ids (allocated.set output amounts) := by
  intro found hmem
  rcases List.mem_or_eq_of_mem_set hmem with hold | rfl
  · exact within found hold
  · exact hamounts

/-- The allocation of an amount to an output. -/
structure Allocated (id amount : ℕ) (before after : List Amounts) : Prop where
  length : after.length = before.length
  total : ∀ other,
    allocatedTotal after other = allocatedTotal before other + if id = other then amount else 0
  within : ∀ ids : ℕ → Prop, AllWithin ids before → ids id → AllWithin ids after

theorem Allocated.zero (id : ℕ) (allocated : List Amounts) : Allocated id 0 allocated allocated where
  length := rfl
  total _ := by simp
  within := fun _ hwithin _ => hwithin

/-- An allocation inside `u128` to an existing output. -/
theorem allocate_spec {output id amount : ℕ} (houtput : output < allocated.length)
    (hbound : allocatedTotal allocated id + amount ≤ maxU128) :
    ∃ after, allocate allocated output id amount = some after ∧
      Allocated id amount allocated after := by
  have hget : allocated[output]? = some allocated[output] := List.getElem?_eq_getElem houtput
  have hle := amountAt_le_allocatedTotal hget id
  have hcredit := credit_spec (Nat.le_trans (Nat.add_le_add_right hle amount) hbound)
  refine ⟨_, by rw [allocate, hget, Option.bind_eq_bind, Option.bind_some, hcredit]; rfl, ?_⟩
  refine { length := List.length_set, total := fun other => ?_, within := fun ids hwithin hid => ?_ }
  · have hset := allocatedTotal_set hget
      (allocated[output].insert id (amountAt allocated[output] id + amount)) other
    rw [amountAt_credited] at hset
    omega
  · exact hwithin.set ((hwithin _ (List.getElem_mem houtput)).insert hid)

theorem taken_le (balance amount : ℕ) : taken balance amount ≤ balance := by
  unfold taken
  split
  · exact Nat.le_refl _
  · exact Nat.min_le_right _ _

/-- Moving out of a balance takes at most the balance and gives what it takes to the output. -/
theorem moveAmount_spec {output id balance : ℕ} (amount : ℕ) (houtput : output < allocated.length)
    (hbound : allocatedTotal allocated id + taken balance amount ≤ maxU128) :
    ∃ after, moveAmount allocated output id balance amount =
        some (balance - taken balance amount, after) ∧
      Allocated id (taken balance amount) allocated after := by
  by_cases hpos : 0 < taken balance amount
  · obtain ⟨after, hafter, hspec⟩ := allocate_spec houtput hbound
    have hsub : checkedSub balance (taken balance amount) =
        some (balance - taken balance amount) := if_pos (taken_le balance amount)
    refine ⟨after, ?_, hspec⟩
    rw [moveAmount, if_pos hpos, hsub, hafter]
    rfl
  · have hzero : taken balance amount = 0 := by omega
    refine ⟨allocated, ?_, ?_⟩
    · rw [moveAmount, if_neg hpos, hzero]
      rfl
    · rw [hzero]
      exact Allocated.zero id allocated

end OrdDogecoin.Dunes
