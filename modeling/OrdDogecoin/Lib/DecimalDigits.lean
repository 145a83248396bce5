/-
Module: OrdDogecoin.Lib.DecimalDigits
Purpose: Numbers as texts of decimal digits: the value of a text, of its parts and of a text that is padded
  or cut, and the canonical text of a value.
Trusted boundary: none
Main exports: DecimalDigits.value, DecimalDigits.canonical_eq, DecimalDigits.value_take_padded
-/
import Mathlib.Data.List.Induction
import Mathlib.Tactic.Ring

namespace DecimalDigits

def Digits (text : List Char) : Prop := ∀ c ∈ text, c.isDigit = true

/-- The number that the digits write; no digits write zero. -/
def value (text : List Char) : ℕ := Nat.ofDigitChars 10 text 0

/-- The text without its leading zeros, or a zero. -/
def canonical (text : List Char) : List Char :=
  let stripped := text.dropWhile (· = '0')
  if stripped.isEmpty then ['0'] else stripped

/-! ### Values -/

theorem value_append (front tail : List Char) :
    value (front ++ tail) = 10 ^ tail.length * value front + value tail := by
  rw [value, Nat.ofDigitChars_append, Nat.ofDigitChars_eq_ofDigitChars_zero]
  rfl

theorem value_zero_cons (text : List Char) : value ('0' :: text) = value text := by
  rw [value, Nat.ofDigitChars_cons]
  rfl

theorem value_padded (text : List Char) (count : ℕ) :
    value (text ++ List.replicate count '0') = 10 ^ count * value text := by
  rw [value, Nat.ofDigitChars_append, Nat.ofDigitChars_replicate_zero]
  rfl

/-- The digit that a character stands for. -/
theorem digit_lt {c : Char} (hdigit : c.isDigit = true) : c.toNat - 48 < 10 := by
  have hrange : 48 ≤ c.toNat ∧ c.toNat ≤ 57 := Char.isDigit_iff_toNat.1 hdigit
  omega

theorem value_singleton (c : Char) : value [c] = c.toNat - 48 := by
  rw [value, Nat.ofDigitChars_cons, Nat.ofDigitChars_nil]
  exact Nat.zero_add _

theorem value_lt {text : List Char} (hdigits : Digits text) : value text < 10 ^ text.length := by
  induction text using List.reverseRecOn with
  | nil => exact Nat.one_pos
  | append_singleton front c ih =>
      have hfront := ih fun d hd => hdigits d (List.mem_append_left _ hd)
      have hc := digit_lt (hdigits c (by simp))
      rw [value_append, value_singleton, List.length_append, List.length_singleton, pow_succ]
      omega

/-- The digits that are left after padding or cutting a text to some length. -/
theorem value_take_padded {text : List Char} (hdigits : Digits text) (length : ℕ) :
    value ((text ++ List.replicate (length - text.length) '0').take length) =
      value text * 10 ^ length / 10 ^ text.length := by
  have hpos : 0 < 10 ^ text.length := Nat.pow_pos (by decide)
  by_cases hshort : text.length ≤ length
  · have hlength : (text ++ List.replicate (length - text.length) '0').length = length := by
      rw [List.length_append, List.length_replicate]
      omega
    have hpower : 10 ^ length = 10 ^ (length - text.length) * 10 ^ text.length := by
      rw [← pow_add, Nat.sub_add_cancel hshort]
    rw [List.take_of_length_le (Nat.le_of_eq hlength), value_padded, hpower, ← Nat.mul_assoc,
      Nat.mul_div_cancel _ hpos, Nat.mul_comm]
  · have hnone : length - text.length = 0 := by omega
    have hpower : 10 ^ text.length = 10 ^ (text.length - length) * 10 ^ length := by
      rw [← pow_add, Nat.sub_add_cancel (by omega)]
    have hrest : value (text.drop length) < 10 ^ (text.length - length) := by
      rw [← List.length_drop]
      exact value_lt fun c hc => hdigits c (List.mem_of_mem_drop hc)
    have hsplit : value text = 10 ^ (text.length - length) * value (text.take length) +
        value (text.drop length) := by
      rw [← List.length_drop, ← value_append, List.take_append_drop]
    rw [hnone, List.replicate_zero, List.append_nil, hpower,
      Nat.mul_div_mul_right _ _ (Nat.pow_pos (by decide)), hsplit,
      Nat.mul_add_div (Nat.pow_pos (by decide)), Nat.div_eq_of_lt hrest, Nat.add_zero]

/-! ### The canonical text -/

theorem digitChar_toNat_sub {c : Char} (hdigit : c.isDigit = true) :
    (c.toNat - 48).digitChar = c := by
  have hrange : 48 ≤ c.toNat ∧ c.toNat ≤ 57 := Char.isDigit_iff_toNat.1 hdigit
  have hall : ∀ d < 10, (Nat.digitChar d).toNat = d + 48 := by decide
  apply Char.toNat_inj.1
  rw [hall _ (digit_lt hdigit)]
  omega

/-- Digits that do not start with a zero are the text of their value. -/
theorem toDigits_value {text : List Char} (hdigits : Digits text) (hne : text ≠ [])
    (hhead : text.head? ≠ some '0') : Nat.toDigits 10 (value text) = text := by
  induction text using List.reverseRecOn with
  | nil => exact absurd rfl hne
  | append_singleton front c ih =>
      have hc := hdigits c (by simp)
      rw [value_append, value_singleton, List.length_singleton, pow_one]
      by_cases hfront : front = []
      · subst hfront
        rw [value, Nat.ofDigitChars_nil, Nat.mul_zero, Nat.zero_add,
          Nat.toDigits_of_lt_base (digit_lt hc), digitChar_toNat_sub hc, List.nil_append]
      · have hhead' : front.head? ≠ some '0' := by
          obtain ⟨first, rest, rfl⟩ := List.exists_cons_of_ne_nil hfront
          exact hhead
        have hprinted := ih (fun d hd => hdigits d (List.mem_append_left _ hd)) hfront hhead'
        have hpos : 0 < value front := by
          rw [Nat.pos_iff_ne_zero]
          intro hzero
          rw [hzero, Nat.toDigits_zero] at hprinted
          exact hhead' (by rw [← hprinted]; rfl)
        rw [← Nat.toDigits_append_toDigits (by decide) hpos (digit_lt hc), hprinted,
          Nat.toDigits_of_lt_base (digit_lt hc), digitChar_toNat_sub hc]

theorem value_dropWhile (text : List Char) : value (text.dropWhile (· = '0')) = value text := by
  induction text with
  | nil => rfl
  | cons c text ih =>
      by_cases hzero : c = '0'
      · rw [hzero, value_zero_cons, ← ih]
        rfl
      · rw [List.dropWhile_cons_of_neg (by simpa using hzero)]

/-- The canonical text is the one that the value is printed as. -/
theorem canonical_eq {text : List Char} (hdigits : Digits text) :
    canonical text = Nat.toDigits 10 (value text) := by
  rw [← value_dropWhile]
  unfold canonical
  by_cases hempty : text.dropWhile (· = '0') = []
  · rw [hempty]
    rfl
  · have hhead : (text.dropWhile (· = '0')).head? ≠ some '0' := by
      intro hsome
      have hnot := List.head?_dropWhile_not (fun c => decide (c = '0')) text
      rw [hsome] at hnot
      simp at hnot
    rw [toDigits_value (fun c hc => hdigits c ((List.dropWhile_suffix _).subset hc)) hempty hhead]
    simp [hempty]

end DecimalDigits
