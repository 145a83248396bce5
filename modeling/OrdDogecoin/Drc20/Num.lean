/-
Module: OrdDogecoin.Drc20.Num
Purpose: The decimal numbers of the DRC-20 handlers.  A number is `digits / 10 ^ scale`; the text
  screen of `Num::from_str` rejects signs, so digits are natural.  `Num.Is` says that a number
  denotes a natural, and every operation of the handlers is computed on what its arguments denote.
Trusted boundary: `BigDecimal::from_str` on unsigned decimal text is a parameter
Main exports: Num, Num.checkedToU128, Num.Is
-/
import Mathlib.Algebra.Order.Ring.Nat
import Mathlib.Tactic.Positivity
import Mathlib.Tactic.Ring

namespace OrdDogecoin.Drc20

abbrev Text := List Char

/-- `BigDecimal`, never negative here: `digits / 10 ^ scale`. -/
structure Num where
  digits : ℕ
  scale : ℕ
deriving DecidableEq, Repr

/-- The ways an operation on numbers fails. -/
inductive NumError where
  | invalidNum (text : Text)
  | invalidInteger (num : Num)
  | overflow (op : String) (org other : Num)
deriving DecidableEq, Repr

namespace Num

/-- `From<u64>` and `From<u128>`. -/
def ofNat (n : ℕ) : Num := { digits := n, scale := 0 }

/-- The digits of a number at a finer scale. -/
def digitsAt (num : Num) (scale : ℕ) : ℕ := num.digits * 10 ^ (scale - num.scale)

/-- `PartialOrd`: numbers are compared by value. -/
def lt (a b : Num) : Bool := a.digits * 10 ^ b.scale < b.digits * 10 ^ a.scale

def checkedAdd (a b : Num) : Num :=
  let scale := max a.scale b.scale
  { digits := a.digitsAt scale + b.digitsAt scale, scale := scale }

def checkedSub (a b : Num) : Except NumError Num :=
  if a.lt b then .error (.overflow "checked_sub" a b)
  else
    let scale := max a.scale b.scale
    .ok { digits := a.digitsAt scale - b.digitsAt scale, scale := scale }

def checkedMul (a b : Num) : Num := { digits := a.digits * b.digits, scale := a.scale + b.scale }

/-- `BIGDECIMAL_TEN.checked_powu`. -/
def tenPow (exponent : ℕ) : Num := { digits := 10 ^ exponent, scale := 0 }

def isInteger (num : Num) : Bool := num.digits % 10 ^ num.scale = 0

/-- `sign() == Sign::NoSign`. -/
def isZero (num : Num) : Bool := num.digits = 0

def checkedToU8 (num : Num) : Except NumError ℕ :=
  if !num.isInteger then .error (.invalidInteger num)
  else
    let value := num.digits / 10 ^ num.scale
    if value < 2 ^ 8 then .ok value else .error (.overflow "to_u8" num (ofNat (2 ^ 8 - 1)))

def checkedToU128 (num : Num) : Except NumError ℕ :=
  if !num.isInteger then .error (.invalidInteger num)
  else
    let value := num.digits / 10 ^ num.scale
    if value < 2 ^ 128 then .ok value
    else .error (.overflow "to_u128" num (ofNat (2 ^ 128 - 1)))

def maxDecimalWidth : ℕ := 18

def maximumSupply : Num := ofNat (2 ^ 64 - 1)

/-- `Num::from_str`, over the decimal parser for unsigned text. -/
def fromStr (parseUnsigned : Text → Option Num) (text : Text) : Except NumError Num :=
  if text.head? = some '.' || text.getLast? = some '.'
      || text.any (fun c => c = 'e' || c = 'E' || c = '+' || c = '-') then .error (.invalidNum text)
  else
    match parseUnsigned text with
    | none => .error (.invalidNum text)
    | some num => if maxDecimalWidth < num.scale then .error (.invalidNum text) else .ok num

/-! ### What a number denotes -/

/-- The number denotes the natural `n`. -/
def Is (num : Num) (n : ℕ) : Prop := num.digits = n * 10 ^ num.scale

theorem ofNat_is (n : ℕ) : (ofNat n).Is n := by simp [Is, ofNat]

variable {num : Num}

/-- At a finer scale a natural has the digits of its multiple. -/
theorem Is.digitsAt {n scale : ℕ} (his : num.Is n) (hle : num.scale ≤ scale) :
    num.digitsAt scale = n * 10 ^ scale := by
  have hpow : 10 ^ num.scale * 10 ^ (scale - num.scale) = 10 ^ scale := by
    rw [← pow_add, Nat.add_sub_cancel' hle]
  rw [Num.digitsAt, his, mul_assoc, hpow]

theorem Is.checkedAdd {a b : Num} {m n : ℕ} (ha : a.Is m) (hb : b.Is n) :
    (a.checkedAdd b).Is (m + n) := by
  rw [Is, Num.checkedAdd, ha.digitsAt (le_max_left _ _), hb.digitsAt (le_max_right _ _)]
  ring

theorem Is.lt_iff {a b : Num} {m n : ℕ} (ha : a.Is m) (hb : b.Is n) : a.lt b = true ↔ m < n := by
  have hpos : 0 < 10 ^ a.scale * 10 ^ b.scale := by positivity
  have hleft : a.digits * 10 ^ b.scale = m * (10 ^ a.scale * 10 ^ b.scale) := by
    rw [ha]
    ring
  have hright : b.digits * 10 ^ a.scale = n * (10 ^ a.scale * 10 ^ b.scale) := by
    rw [hb]
    ring
  rw [lt, decide_eq_true_iff, hleft, hright, Nat.mul_lt_mul_right hpos]

theorem Is.checkedSub {a b : Num} {m n : ℕ} (ha : a.Is m) (hb : b.Is n) (hle : n ≤ m) :
    ∃ difference, a.checkedSub b = .ok difference ∧ difference.Is (m - n) := by
  have hnot : a.lt b = false := by
    rw [Bool.eq_false_iff, ne_eq, ha.lt_iff hb]
    exact Nat.not_lt.2 hle
  refine ⟨_, by rw [Num.checkedSub, hnot]; rfl, ?_⟩
  rw [Is, ha.digitsAt (le_max_left _ _), hb.digitsAt (le_max_right _ _), Nat.sub_mul]

/-- A difference is only taken of the larger number. -/
theorem Is.of_checkedSub {a b difference : Num} {m n : ℕ} (ha : a.Is m) (hb : b.Is n)
    (hok : a.checkedSub b = .ok difference) : n ≤ m ∧ difference.Is (m - n) := by
  have hle : n ≤ m := by
    by_contra hlarger
    have hless : a.lt b = true := (ha.lt_iff hb).2 (Nat.lt_of_not_le hlarger)
    rw [Num.checkedSub, hless] at hok
    cases hok
  obtain ⟨expected, hexpected, his⟩ := ha.checkedSub hb hle
  cases hexpected.symm.trans hok
  exact ⟨hle, his⟩

theorem Is.isZero_iff {n : ℕ} (his : num.Is n) : num.isZero = true ↔ n = 0 := by
  rw [isZero, decide_eq_true_iff, his]
  simp

theorem Is.checkedToU128 {n : ℕ} (his : num.Is n) (hlt : n < 2 ^ 128) :
    num.checkedToU128 = .ok n := by
  have hpos : 0 < 10 ^ num.scale := by positivity
  have hinteger : num.isInteger = true := by rw [isInteger, his]; simp
  have hvalue : num.digits / 10 ^ num.scale = n := by rw [his, Nat.mul_div_cancel _ hpos]
  simp only [Num.checkedToU128, hinteger, hvalue, Bool.not_true, Bool.false_eq_true, if_false]
  rw [if_pos hlt]

theorem Is.of_checkedToU128 {m n : ℕ} (his : num.Is n) (hok : num.checkedToU128 = .ok m) : n = m := by
  have hpos : 0 < 10 ^ num.scale := by positivity
  have hinteger : num.isInteger = true := by rw [isInteger, his]; simp
  have hvalue : num.digits / 10 ^ num.scale = n := by rw [his, Nat.mul_div_cancel _ hpos]
  simp only [Num.checkedToU128, hinteger, hvalue, Bool.not_true, Bool.false_eq_true, if_false] at hok
  split at hok
  · cases hok
    rfl
  · cases hok

/-- An amount with no more decimals than the token is a whole number of its smallest unit. -/
theorem checkedMul_tenPow_is {decimal : ℕ} (hscale : num.scale ≤ decimal) :
    (num.checkedMul (tenPow decimal)).Is (num.digits * 10 ^ (decimal - num.scale)) := by
  have hpow : 10 ^ (decimal - num.scale) * 10 ^ num.scale = 10 ^ decimal := by
    rw [← pow_add, Nat.sub_add_cancel hscale]
  rw [Is, checkedMul, tenPow, Nat.add_zero, mul_assoc, hpow]

theorem lt_of_checkedToU128 {n : ℕ} (hok : num.checkedToU128 = .ok n) : n < 2 ^ 128 := by
  unfold checkedToU128 at hok
  split at hok
  · cases hok
  · dsimp only at hok
    split at hok
    · cases hok
      assumption
    · cases hok

end Num

end OrdDogecoin.Drc20
