/-
Module: OrdDogecoin.Tap.SquareRoot
Purpose: The integer square root that prices the first deposit of a pool: the loop of `integer_sqrt` ends
  without a division by zero for every number, and returns the floor of the root of every number but 2.
Trusted boundary: none
Main exports: SqrtLoop, sqrtReturns_iff, integerSqrt_floor_iff
-/
import OrdDogecoin.Lib.NewtonRoot
import OrdDogecoin.Tap.Amm

namespace OrdDogecoin.Tap

open NewtonRoot

/-! ### Runs of the loop -/

/-- The `while` loop of `integer_sqrt` from `x0` and `x1` ends and returns `root`.  A division by zero
would be a panic. -/
inductive SqrtLoop (value : ℤ) : ℤ → ℤ → ℤ → Prop where
  | stop {x0 x1 : ℤ} (hstop : ¬x1 < x0) : SqrtLoop value x0 x1 x0
  | next {x0 x1 root : ℤ} (hlower : x1 < x0) (hdivisor : x1 ≠ 0)
      (rest : SqrtLoop value x1 ((x1 + value.tdiv x1).tdiv 2) root) : SqrtLoop value x0 x1 root

/-- `integer_sqrt` returns this. -/
inductive SqrtReturns (value : ℤ) : Option ℤ → Prop where
  | negative (hneg : value < 0) : SqrtReturns value none
  | small (hnonneg : 0 ≤ value) (hsmall : value < 2) : SqrtReturns value (some value)
  | loop {root : ℤ} (hlarge : 2 ≤ value) (run : SqrtLoop value value (value.tdiv 2 + 1) root) :
      SqrtReturns value (some root)

section Loop

variable {value : ℤ}

theorem SqrtLoop.unique {x0 x1 root other : ℤ} (run : SqrtLoop value x0 x1 root)
    (run' : SqrtLoop value x0 x1 other) : root = other := by
  induction run with
  | stop hstop =>
      cases run' with
      | stop => rfl
      | next hlower => exact absurd hlower hstop
  | next hlower hdivisor rest ih =>
      cases run' with
      | stop hstop => exact absurd hlower hstop
      | next _ _ rest' => exact ih rest'

/-- An iteration of the loop is Newton's. -/
theorem tdiv_eq_next {x : ℤ} (hx : 0 < x) (hvalue : 0 ≤ value) :
    (x + value.tdiv x).tdiv 2 = NewtonRoot.next value x := by
  have hquotient : 0 ≤ value / x := Int.ediv_nonneg hvalue hx.le
  rw [Int.tdiv_eq_ediv_of_nonneg hvalue, Int.tdiv_eq_ediv_of_nonneg (by omega), NewtonRoot.next]

/-- The iterates are positive and fall, so `x0` steps are enough. -/
theorem sqrtLoop_integerSqrtLoop (hvalue : 0 < value) :
    ∀ {fuel : ℕ} {x0 x1 : ℤ}, 0 < x1 → x0 ≤ fuel →
      SqrtLoop value x0 x1 (integerSqrtLoop value fuel x0 x1) := by
  intro fuel
  induction fuel with
  | zero =>
      intro x0 x1 hx1 hfuel
      exact .stop (by omega)
  | succ fuel ih =>
      intro x0 x1 hx1 hfuel
      rw [integerSqrtLoop]
      by_cases hlower : x1 < x0
      · rw [if_pos hlower]
        have hnext : 0 < (x1 + value.tdiv x1).tdiv 2 := by
          rw [tdiv_eq_next hx1 hvalue.le]
          exact next_pos hx1 hvalue
        exact .next hlower (ne_of_gt hx1) (ih hnext (by omega))
      · rw [if_neg hlower]
        exact .stop hlower

/-- Two iterates in a row, the first above the root, lead to the floor of the root. -/
theorem SqrtLoop.isFloorRoot (hvalue : 0 < value) {x0 x1 root : ℤ} (run : SqrtLoop value x0 x1 root)
    (hpos : 0 < x0) (habove : value < (x0 + 1) * (x0 + 1)) (hnext : x1 = NewtonRoot.next value x0) :
    IsFloorRoot value root := by
  induction run with
  | stop hstop =>
      subst hnext
      exact isFloorRoot_of_le_next hpos habove (not_lt.1 hstop)
  | next hlower hdivisor rest ih =>
      subst hnext
      have hpos' : 0 < NewtonRoot.next value _ := next_pos hpos hvalue
      exact ih hpos' (lt_next_succ_mul_self hpos) (tdiv_eq_next hpos' hvalue.le)

/-- The start `value / 2 + 1` is below `value` from 3 on, and it is above the root. -/
theorem SqrtLoop.isFloorRoot_of_start {root : ℤ} (hlarge : 2 < value)
    (run : SqrtLoop value value (value.tdiv 2 + 1) root) : IsFloorRoot value root := by
  have hstart : value.tdiv 2 = value / 2 := Int.tdiv_eq_ediv_of_nonneg (by omega)
  rw [hstart] at run
  cases run with
  | stop hstop => omega
  | next hlower hdivisor rest =>
      have hpos : 0 < value / 2 + 1 := by omega
      have habove : value < (value / 2 + 1 + 1) * (value / 2 + 1 + 1) := by
        have hhalf : value ≤ 2 * (value / 2) + 1 := by omega
        nlinarith [mul_self_nonneg (value / 2)]
      exact rest.isFloorRoot (by omega) hpos habove (tdiv_eq_next hpos (by omega))

/-! ### The function -/

/-- The function of the model returns what the loop of the source does. -/
theorem sqrtReturns_integerSqrt (value : ℤ) : SqrtReturns value (integerSqrt value) := by
  unfold integerSqrt
  by_cases hneg : value < 0
  · rw [if_pos hneg]
    exact .negative hneg
  · rw [if_neg hneg]
    by_cases hsmall : value < 2
    · rw [if_pos hsmall]
      exact .small (by omega) hsmall
    · rw [if_neg hsmall]
      have hhalf : 0 ≤ value.tdiv 2 := Int.tdiv_nonneg (by omega) (by omega)
      exact .loop (by omega) (sqrtLoop_integerSqrtLoop (by omega) (by omega) (by omega))

theorem SqrtReturns.unique {result other : Option ℤ} (returns : SqrtReturns value result)
    (returns' : SqrtReturns value other) : result = other := by
  cases returns with
  | negative hneg =>
      cases returns' with
      | negative => rfl
      | small hnonneg => omega
      | loop hlarge => omega
  | small hnonneg hsmall =>
      cases returns' with
      | negative hneg => omega
      | small => rfl
      | loop hlarge => omega
  | loop hlarge run =>
      cases returns' with
      | negative hneg => omega
      | small hnonneg hsmall => omega
      | loop _ run' => rw [run.unique run']

theorem sqrtReturns_iff {result : Option ℤ} : SqrtReturns value result ↔ result = integerSqrt value := by
  constructor
  · intro returns
    exact returns.unique (sqrtReturns_integerSqrt value)
  · rintro rfl
    exact sqrtReturns_integerSqrt value

theorem SqrtReturns.isFloorRoot {result : Option ℤ} (returns : SqrtReturns value result)
    (hnonneg : 0 ≤ value) (hne : value ≠ 2) :
    ∃ root, result = some root ∧ IsFloorRoot value root := by
  cases returns with
  | negative hneg => omega
  | small _ hsmall =>
      refine ⟨value, rfl, ?_, ?_⟩
      · nlinarith
      · nlinarith
  | loop hlarge run => exact ⟨_, rfl, run.isFloorRoot_of_start (by omega)⟩

end Loop

/-! ### The floor of the root -/

/-- A negative number has no root, and every other one gets the floor of its root. -/
def FloorsRoot (value : ℤ) : Prop :=
  ∀ result, SqrtReturns value result →
    (value < 0 → result = none) ∧
      (0 ≤ value → ∃ root, result = some root ∧ root * root ≤ value ∧ value < (root + 1) * (root + 1))

/-- `integer_sqrt` ends for every number.  For 2 the loop does not start and 2 is given as the root; every
other number gets its floor. -/
theorem integerSqrt_floor_iff (value : ℤ) :
    (∃ result, SqrtReturns value result) ∧ (FloorsRoot value ↔ value ≠ 2) := by
  refine ⟨⟨integerSqrt value, sqrtReturns_integerSqrt value⟩, ?_, ?_⟩
  · rintro hfloors rfl
    obtain ⟨root, hroot, hle, -⟩ := (hfloors _ (sqrtReturns_integerSqrt 2)).2 (by decide)
    have htwo : integerSqrt 2 = some 2 := by decide
    rw [htwo] at hroot
    cases hroot
    exact absurd hle (by decide)
  · intro hne result returns
    refine ⟨?_, fun hnonneg => returns.isFloorRoot hnonneg hne⟩
    intro hneg
    rw [sqrtReturns_iff.1 returns, integerSqrt, if_pos hneg]

/-- A first deposit whose amounts have the product 2 gets the root 2, whose square is 4. -/
theorem integerSqrt_two :
    ¬∀ value : ℤ, 0 ≤ value → ∃ root,
      SqrtReturns value (some root) ∧ root * root ≤ value ∧ value < (root + 1) * (root + 1) := by
  intro hfloor
  obtain ⟨root, hroot, hle, -⟩ := hfloor 2 (by decide)
  have htwo : some root = some 2 := sqrtReturns_iff.1 hroot
  cases htwo
  exact absurd hle (by decide)

end OrdDogecoin.Tap
