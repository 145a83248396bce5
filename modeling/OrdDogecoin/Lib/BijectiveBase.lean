/-
Module: OrdDogecoin.Lib.BijectiveBase
Purpose: Bijective numeration: every number has exactly one list of digits, and every list of digits below
  the base is the list of one number, so that no digit is superfluous in front.
Trusted boundary: none
Main exports: BijectiveBase.value, BijectiveBase.value_le_append, BijectiveBase.pow_le_value
-/
import Mathlib.Data.List.Induction
import Mathlib.Tactic.Ring

namespace BijectiveBase

/-- The number of a list of digits, the most significant first; no digits are zero. -/
def value (base : ℕ) (digits : List ℕ) : ℕ := digits.foldl (fun n digit => n * base + digit + 1) 0

/-- The digits of a number, the most significant first. -/
def digits (base : ℕ) : ℕ → List ℕ
  | 0 => []
  | n + 1 => digits base (n / base) ++ [n % base]
termination_by n => n
decreasing_by exact Nat.lt_succ_of_le (Nat.div_le_self n base)

variable {base : ℕ}

@[simp] theorem value_nil (base : ℕ) : value base [] = 0 := rfl

theorem value_append_singleton (base : ℕ) (front : List ℕ) (digit : ℕ) :
    value base (front ++ [digit]) = value base front * base + digit + 1 := by
  rw [value, List.foldl_append]
  rfl

@[simp] theorem digits_zero (base : ℕ) : digits base 0 = [] := by rw [digits]

theorem digits_succ (base n : ℕ) : digits base (n + 1) = digits base (n / base) ++ [n % base] := by
  rw [digits]

/-- The digits of a number are its digits. -/
theorem value_digits (base n : ℕ) : value base (digits base n) = n := by
  induction n using Nat.strong_induction_on with
  | _ n ih =>
      cases n with
      | zero => rw [digits_zero, value_nil]
      | succ n =>
          rw [digits_succ, value_append_singleton, ih _ (Nat.lt_succ_of_le (Nat.div_le_self n base)),
            Nat.div_add_mod']

/-- A list of digits is the list of its number. -/
theorem digits_value {list : List ℕ} (hlist : ∀ digit ∈ list, digit < base) :
    digits base (value base list) = list := by
  induction list using List.reverseRecOn with
  | nil => rw [value_nil, digits_zero]
  | append_singleton front digit ih =>
      have hdigit : digit < base := hlist digit (by simp)
      have hdiv : (value base front * base + digit) / base = value base front := by
        rw [Nat.add_comm, Nat.add_mul_div_right _ _ (by omega), Nat.div_eq_of_lt hdigit, Nat.zero_add]
      have hmod : (value base front * base + digit) % base = digit := by
        rw [Nat.add_comm, Nat.add_mul_mod_self_right, Nat.mod_eq_of_lt hdigit]
      rw [value_append_singleton, digits_succ, hdiv, hmod,
        ih fun other hother => hlist other (List.mem_append_left _ hother)]

theorem lt_of_mem_digits (hbase : 0 < base) {n digit : ℕ} (hdigit : digit ∈ digits base n) : digit < base := by
  induction n using Nat.strong_induction_on with
  | _ n ih =>
      cases n with
      | zero =>
          rw [digits_zero] at hdigit
          cases hdigit
      | succ n =>
          rw [digits_succ] at hdigit
          rcases List.mem_append.1 hdigit with hfront | hlast
          · exact ih _ (Nat.lt_succ_of_le (Nat.div_le_self n base)) hfront
          · rw [List.mem_singleton.1 hlast]
            exact Nat.mod_lt n hbase

theorem digits_ne_nil {n : ℕ} (hn : 0 < n) : digits base n ≠ [] := by
  obtain ⟨k, rfl⟩ := Nat.exists_eq_succ_of_ne_zero hn.ne'
  rw [Nat.succ_eq_add_one, digits_succ]
  simp

/-- More digits make a number that is no smaller. -/
theorem value_le_append (hbase : 0 < base) (front rest : List ℕ) :
    value base front ≤ value base (front ++ rest) := by
  induction rest using List.reverseRecOn with
  | nil => rw [List.append_nil]
  | append_singleton rest digit ih =>
      rw [← List.append_assoc, value_append_singleton]
      have hmul := Nat.le_mul_of_pos_right (value base (front ++ rest)) hbase
      omega

theorem value_pos {list : List ℕ} (hlist : list ≠ []) : 0 < value base list := by
  rw [← List.dropLast_concat_getLast hlist, value_append_singleton]
  omega

/-- More than one digit makes a number that is not small. -/
theorem pow_le_value {list : List ℕ} (hlist : list ≠ []) : base ^ (list.length - 1) ≤ value base list := by
  induction list using List.reverseRecOn with
  | nil => exact absurd rfl hlist
  | append_singleton front digit ih =>
      rw [value_append_singleton, List.length_append, List.length_singleton, Nat.add_sub_cancel]
      by_cases hempty : front = []
      · rw [hempty, List.length_nil, pow_zero]
        omega
      · have hpos := List.length_pos_iff.2 hempty
        have hlength : front.length = front.length - 1 + 1 := by omega
        rw [hlength, Nat.pow_succ]
        have := Nat.mul_le_mul_right base (ih hempty)
        omega

end BijectiveBase
