/-
Module: OrdDogecoin.Lib.NewtonRoot
Purpose: Newton's iteration for the square root of an integer.  No iterate after the first is below the
  floor of the root, and an iterate from which the iteration does not fall is the floor.
Trusted boundary: none
Main exports: NewtonRoot.next, NewtonRoot.IsFloorRoot, NewtonRoot.isFloorRoot_of_le_next
-/
import Mathlib.Tactic.Linarith

namespace NewtonRoot

/-- The iterate after `x` for the root of `n`. -/
def next (n x : ℤ) : ℤ := (x + n / x) / 2

/-- The floor of the square root of a number. -/
def IsFloorRoot (n root : ℤ) : Prop := root * root ≤ n ∧ n < (root + 1) * (root + 1)

section Next

variable {n x : ℤ}

/-- The mean of `x` and `n / x` is at least each `root` whose square is at most `n`. -/
theorem le_next (hx : 0 < x) {root : ℤ} (hroot : root * root ≤ n) : root ≤ next n x := by
  have hmean : (2 * root - x) * x ≤ n := by nlinarith [mul_self_nonneg (root - x)]
  have hquotient : 2 * root - x ≤ n / x := (Int.le_ediv_iff_mul_le hx).2 hmean
  unfold next
  omega

theorem lt_next_succ_mul_self (hx : 0 < x) : n < (next n x + 1) * (next n x + 1) := by
  by_contra hle
  have hbelow : next n x + 1 ≤ next n x := le_next hx (not_lt.1 hle)
  omega

theorem next_pos (hx : 0 < x) (hn : 0 < n) : 0 < next n x := by
  have hone : (1 : ℤ) * 1 ≤ n := by omega
  exact le_next hx hone

/-- The iteration falls from every iterate that is above the root. -/
theorem mul_self_le_of_le_next (hx : 0 < x) (hstop : x ≤ next n x) : x * x ≤ n := by
  have hquotient : x ≤ n / x := by
    unfold next at hstop
    omega
  exact (Int.le_ediv_iff_mul_le hx).1 hquotient

theorem isFloorRoot_of_le_next (hx : 0 < x) (habove : n < (x + 1) * (x + 1)) (hstop : x ≤ next n x) :
    IsFloorRoot n x :=
  ⟨mul_self_le_of_le_next hx hstop, habove⟩

end Next

end NewtonRoot
