/-
Module: OrdDogecoin.Lib.Apportion
Purpose: Splitting an amount: into equal parts whose remainder goes to the first ones, into parts of a
  wanted size handed out in turn, and by the largest remainders.  Each split gives out no more than there
  is, and all of it where it can.
Trusted boundary: none
Main exports: evenShares, le_length_of_sum, pos_of_mem_take
-/
import Mathlib.Algebra.BigOperators.Group.List.Basic
import Mathlib.Algebra.Order.BigOperators.Group.List
import Mathlib.Tactic.Ring
import Mathlib.Tactic.Linarith

namespace Apportion

/-! ### Equal parts -/

/-- The parts of an amount split evenly, the first ones one larger. -/
def evenShares (count amount : ℕ) : List ℕ :=
  (List.range count).map fun i => if i < amount % count then amount / count + 1 else amount / count

@[simp] theorem length_evenShares (count amount : ℕ) : (evenShares count amount).length = count := by
  rw [evenShares, List.length_map, List.length_range]

theorem sum_range_ite (quotient remainder count : ℕ) :
    ((List.range count).map fun i => if i < remainder then quotient + 1 else quotient).sum =
      count * quotient + min remainder count := by
  induction count with
  | zero => simp
  | succ count ih =>
      rw [List.range_succ, List.map_append, List.sum_append, ih, Nat.succ_mul]
      change _ + ((if count < remainder then quotient + 1 else quotient) + 0) = _
      split
      next hlt => rw [Nat.min_eq_right (Nat.le_of_lt hlt), Nat.min_eq_right hlt]; omega
      next hle =>
        have hle := Nat.le_of_not_lt hle
        rw [Nat.min_eq_left hle, Nat.min_eq_left (Nat.le_succ_of_le hle)]
        omega

/-- Nothing is lost in an even split. -/
theorem sum_evenShares {count : ℕ} (hpos : 0 < count) (amount : ℕ) :
    (evenShares count amount).sum = amount := by
  have hle : amount % count ≤ count := Nat.le_of_lt (Nat.mod_lt amount hpos)
  rw [evenShares, sum_range_ite, Nat.min_eq_left hle]
  exact Nat.div_add_mod amount count

/-! ### Parts in turn -/

/-- The parts of `wanted` that are handed out in turn, while there is something left. -/
def sharesInTurn (wanted : ℕ) : ℕ → ℕ → List ℕ
  | 0, _ => []
  | count + 1, left => min wanted left :: sharesInTurn wanted count (left - min wanted left)

@[simp] theorem length_sharesInTurn (wanted : ℕ) {count : ℕ} :
    ∀ {left : ℕ}, (sharesInTurn wanted count left).length = count := by
  induction count with
  | zero => exact rfl
  | succ count ih => exact congrArg Nat.succ ih

theorem sum_sharesInTurn (wanted : ℕ) {count : ℕ} :
    ∀ {left : ℕ}, (sharesInTurn wanted count left).sum = min (count * wanted) left := by
  induction count with
  | zero => exact fun {left} => (Nat.zero_mul wanted).symm ▸ (Nat.zero_min left).symm
  | succ count ih =>
      intro left
      rw [sharesInTurn, List.sum_cons, ih, Nat.succ_mul]
      omega

/-! ### Largest remainders -/

section LargestRemainders

variable {ι : Type}

/-- The quotients of some numbers and their remainders make up the sum. -/
theorem sum_quotients (numerator : ι → ℤ) (total : ℤ) (items : List ι) :
    (items.map fun i => numerator i / total).sum * total +
      (items.map fun i => numerator i % total).sum = (items.map numerator).sum := by
  induction items with
  | nil => simp
  | cons i items ih =>
      have hdiv := Int.ediv_mul_add_emod (numerator i) total
      simp only [List.map_cons, List.sum_cons]
      linarith

variable {remainder : ι → ℤ} {total : ℤ}

theorem sum_le_length_mul {items : List ι} {bound : ℤ} (hbound : ∀ i ∈ items, remainder i ≤ bound) :
    (items.map remainder).sum ≤ items.length * bound := by
  have hsum := List.sum_le_card_nsmul (items.map remainder) bound (List.forall_mem_map.2 hbound)
  rwa [List.length_map, nsmul_eq_mul] at hsum

/-- Remainders below the divisor whose sum it divides leave no more units than there are remainders. -/
theorem le_length_of_sum {items : List ι} {dust : ℤ} (htotal : 0 < total)
    (hbound : ∀ i ∈ items, remainder i < total) (hsum : (items.map remainder).sum = dust * total) :
    dust ≤ items.length := by
  have hle := sum_le_length_mul fun i hi => Int.le_sub_one_of_lt (hbound i hi)
  rw [hsum] at hle
  by_contra hlt
  have hmore : (items.length + 1) * total ≤ dust * total := by gcongr; omega
  linarith

/-- The units that are left go to items with a remainder when the largest remainders come first. -/
theorem pos_of_mem_take {order : List ι} {dust : ℕ} (htotal : 0 < total)
    (hbound : ∀ i ∈ order, 0 ≤ remainder i ∧ remainder i < total)
    (hsorted : order.Pairwise fun i j => remainder j ≤ remainder i)
    (hsum : (order.map remainder).sum = dust * total) : ∀ i ∈ order.take dust, 0 < remainder i := by
  intro i hi
  obtain ⟨before, after, htake⟩ := List.append_of_mem hi
  have horder : order = before ++ i :: (after ++ order.drop dust) := by
    rw [← List.cons_append, ← List.append_assoc, ← htake, List.take_append_drop]
  have hbefore : before.length < dust := by
    have hlength := congrArg List.length htake
    rw [List.length_take, List.length_append, List.length_cons] at hlength
    omega
  by_contra hzero
  have hlast : ((i :: (after ++ order.drop dust)).map remainder).sum ≤ 0 := by
    rw [horder] at hsorted
    have hrest := List.pairwise_cons.1 (List.pairwise_append.1 hsorted).2.1
    refine (sum_le_length_mul (List.forall_mem_cons.2 ⟨not_lt.1 hzero, fun j hj => ?_⟩)).trans_eq
      (mul_zero _)
    exact (hrest.1 j hj).trans (not_lt.1 hzero)
  have hfirst : (before.map remainder).sum ≤ before.length * (total - 1) :=
    sum_le_length_mul fun j hj =>
      Int.le_sub_one_of_lt (hbound j (by rw [horder]; exact List.mem_append_left _ hj)).2
  rw [horder, List.map_append, List.sum_append] at hsum
  have hmore : (before.length + 1 : ℤ) * total ≤ dust * total := by
    gcongr
    exact_mod_cast hbefore
  linarith

end LargestRemainders

end Apportion
