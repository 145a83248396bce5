/-
Module: OrdDogecoin.Tap.AmountTexts
Purpose: The amounts of messages, character by character as the source checks and rewrites them, and the
  number that an accepted text denotes.  The rewritten text is the canonical one of the floor of that
  number in the smallest unit.
Trusted boundary: texts are lists of characters, so a slice of an ASCII text is a drop of characters
Main exports: isValidNumberLoop, denoted, resolveNumberText_exact
-/
import Mathlib.Algebra.Order.Floor.Semifield
import Mathlib.Data.List.TakeWhile
import Mathlib.Data.Rat.Floor
import OrdDogecoin.Lib.DecimalDigits
import OrdDogecoin.Tap.Json

namespace OrdDogecoin.Tap

open DecimalDigits

/-! ### The source's steps -/

/-- The loop of `is_valid_number`; an empty text passes it as well. -/
def isValidNumberLoop : Bool → Text → Bool
  | _, [] => true
  | seenDot, c :: rest =>
      if c.isDigit then isValidNumberLoop seenDot rest
      else if c = '.' ∧ seenDot = false then isValidNumberLoop true rest
      else false

/-- The loop that finds the first character that is no zero. -/
def firstNonZeroIndex : ℕ → ℕ → Text → ℕ
  | _, first, [] => first
  | i, _, c :: rest => if c ≠ '0' then i else firstNonZeroIndex (i + 1) (i + 1) rest

/-- The end of `resolve_number_string`: a text of zeros is one zero, and zeros in front go. -/
def stripLeadingZeros (number : Text) : Text :=
  let isZero := number.all (fun c => c = '0') || number.isEmpty
  let number := if isZero then ['0'] else number
  let firstNonZero := firstNonZeroIndex 0 0 number
  let number :=
    if 0 < firstNonZero then
      let rest := number.drop firstNonZero
      if rest.isEmpty then ['0'] else rest
    else number
  if number.isEmpty then ['0'] else number

/-- `resolve_number_string`, with each of its texts. -/
def resolveNumberText (num : Text) (decimals : ℕ) : Option Text :=
  if isValidNumberLoop false num = false then none
  else
    let parts := num.splitOn '.'
    let intPart := (parts[0]?).getD []
    let fracPart := (parts[1]?).getD []
    if (parts[2]?).isSome then none
    else
      let fracPart :=
        if fracPart.length < decimals then fracPart ++ List.replicate (decimals - fracPart.length) '0'
        else fracPart
      let fracTrunc := fracPart.take decimals
      let number := (if intPart ≠ ['0'] then intPart else []) ++ fracTrunc
      some (stripLeadingZeros number)

/-! ### Numbers -/

/-- The number that a text denotes, the digits in front of the dot and those behind it; a part without
digits counts as zero. -/
def denoted (num : Text) : ℚ :=
  let intPart := num.takeWhile (· ≠ '.')
  let fracPart := (num.dropWhile (· ≠ '.')).drop 1
  value intPart + value fracPart / 10 ^ fracPart.length

/-- The parts of an accepted text. -/
inductive Parts (num intPart fracPart : Text) : Prop where
  | whole (hnum : num = intPart) (hfrac : fracPart = [])
  | point (hnum : num = intPart ++ '.' :: fracPart)

section Valid

variable {num intPart fracPart : Text}

/-- Behind a dot, only digits pass. -/
theorem digits_of_valid_true (hvalid : isValidNumberLoop true num = true) : Digits num := by
  induction num with
  | nil => exact nofun
  | cons c rest ih =>
      rw [isValidNumberLoop] at hvalid
      split at hvalid
      next hdigit => exact List.forall_mem_cons.2 ⟨hdigit, ih hvalid⟩
      next =>
        split at hvalid
        next hdot => cases hdot.2
        next => cases hvalid

/-- An accepted text is two texts of digits, around a dot if there is one. -/
theorem exists_parts_of_valid (hvalid : isValidNumberLoop false num = true) :
    ∃ intPart fracPart, Parts num intPart fracPart ∧ Digits intPart ∧ Digits fracPart := by
  induction num with
  | nil => exact ⟨[], [], .whole rfl rfl, nofun, nofun⟩
  | cons c rest ih =>
      rw [isValidNumberLoop] at hvalid
      split at hvalid
      next hdigit =>
        obtain ⟨intPart, fracPart, parts, hint, hfrac⟩ := ih hvalid
        refine ⟨c :: intPart, fracPart, ?_, List.forall_mem_cons.2 ⟨hdigit, hint⟩, hfrac⟩
        cases parts with
        | whole hnum hempty => exact .whole (by rw [hnum]) hempty
        | point hnum => exact .point (by rw [hnum]; rfl)
      next =>
        split at hvalid
        next hdot =>
          rw [hdot.1]
          exact ⟨[], rest, .point rfl, nofun, digits_of_valid_true hvalid⟩
        next => cases hvalid

theorem dot_not_mem (hdigits : Digits intPart) : '.' ∉ intPart := fun hmem =>
  absurd (hdigits '.' hmem) (by decide)

theorem ne_dot (hdigits : Digits intPart) : ∀ c ∈ intPart, decide (c ≠ '.') = true := by
  intro c hc
  refine decide_eq_true fun hdot => dot_not_mem hdigits ?_
  rwa [← hdot]

theorem Parts.splitOn (parts : Parts num intPart fracPart) (hint : Digits intPart)
    (hfrac : Digits fracPart) : ∃ all : List Text, num.splitOn '.' = all ∧ all[0]?.getD [] = intPart ∧
      all[1]?.getD [] = fracPart ∧ all[2]?.isSome = false := by
  cases parts with
  | whole hnum hempty =>
      subst hnum hempty
      exact ⟨_, List.splitOn_eq_singleton (dot_not_mem hint), rfl, rfl, rfl⟩
  | point hnum =>
      subst hnum
      refine ⟨[intPart, fracPart], ?_, rfl, rfl, rfl⟩
      rw [List.splitOn_append_cons_of_beq _ _ (by decide), List.splitOn_eq_singleton (dot_not_mem hint),
        List.splitOn_eq_singleton (dot_not_mem hfrac), List.singleton_append]

/-- The parts around the first dot are the parts of the text. -/
theorem Parts.takeWhile (parts : Parts num intPart fracPart) (hint : Digits intPart) :
    num.takeWhile (· ≠ '.') = intPart ∧ (num.dropWhile (· ≠ '.')).drop 1 = fracPart := by
  cases parts with
  | whole hnum hempty =>
      subst hnum hempty
      rw [List.takeWhile_eq_self_iff.2 (ne_dot hint), List.dropWhile_eq_nil_iff.2 (ne_dot hint)]
      exact ⟨rfl, rfl⟩
  | point hnum =>
      subst hnum
      rw [List.takeWhile_append_of_pos (ne_dot hint), List.dropWhile_append_of_pos (ne_dot hint)]
      exact ⟨List.append_nil _, rfl⟩

/-! ### The rewritten text -/

theorem firstNonZeroIndex_spec (text : Text) (i first : ℕ) (hfirst : first = i) :
    ∃ count, firstNonZeroIndex i first text = i + count ∧ text.drop count = text.dropWhile (· = '0') := by
  induction text generalizing i first with
  | nil => exact ⟨0, by rw [firstNonZeroIndex, hfirst, Nat.add_zero], rfl⟩
  | cons c rest ih =>
      rw [firstNonZeroIndex]
      by_cases hzero : c = '0'
      · obtain ⟨count, hindex, hdrop⟩ := ih (i + 1) (i + 1) rfl
        refine ⟨count + 1, ?_, ?_⟩
        · rw [if_neg (not_not.2 hzero), hindex]
          omega
        · rw [hzero]
          exact hdrop
      · refine ⟨0, if_pos hzero, ?_⟩
        rw [List.dropWhile_cons_of_neg (by simpa using hzero)]
        rfl

/-- Stripping the zeros gives the canonical text. -/
theorem stripLeadingZeros_eq (number : Text) : stripLeadingZeros number = canonical number := by
  unfold stripLeadingZeros
  dsimp only
  by_cases hzero : (number.all (fun c => c = '0') || number.isEmpty) = true
  · have hall : ∀ c ∈ number, decide (c = '0') = true := by
      rcases Bool.or_eq_true_iff.1 hzero with hall | hempty
      · exact List.all_eq_true.1 hall
      · rw [List.isEmpty_iff.1 hempty]
        exact nofun
    rw [if_pos hzero, canonical, List.dropWhile_eq_nil_iff.2 hall]
    rfl
  · obtain ⟨count, hindex, hdrop⟩ := firstNonZeroIndex_spec number 0 0 rfl
    have hne : (number.dropWhile (· = '0')).isEmpty = false := by
      rw [Bool.or_eq_true_iff, not_or] at hzero
      rw [List.isEmpty_eq_false_iff]
      intro hnil
      exact hzero.1 (List.all_eq_true.2 (List.dropWhile_eq_nil_iff.1 hnil))
    rw [if_neg hzero, hindex, Nat.zero_add, canonical]
    cases count with
    | zero =>
        have hnumber : number.dropWhile (· = '0') = number := hdrop.symm
        rw [hnumber, if_neg (Nat.lt_irrefl 0)]
    | succ count =>
        rw [if_pos (Nat.succ_pos count), hdrop, hne, if_neg Bool.false_ne_true, hne]
        exact if_neg Bool.false_ne_true

/-- An accepted text is rewritten to the digits in front of the dot and as many behind it as there are
decimals. -/
theorem resolveNumberText_of_parts {num intPart fracPart : Text} (parts : Parts num intPart fracPart)
    (hint : Digits intPart) (hfrac : Digits fracPart) (hvalid : isValidNumberLoop false num = true)
    (decimals : ℕ) :
    resolveNumberText num decimals = some (canonical ((if intPart = ['0'] then [] else intPart) ++
      (fracPart ++ List.replicate (decimals - fracPart.length) '0').take decimals)) := by
  obtain ⟨all, hsplit, hfirst, hsecond, hthird⟩ := parts.splitOn hint hfrac
  have hpadded : (if fracPart.length < decimals then
      fracPart ++ List.replicate (decimals - fracPart.length) '0' else fracPart) =
        fracPart ++ List.replicate (decimals - fracPart.length) '0' := by
    split
    next => rfl
    next hlong =>
      rw [Nat.sub_eq_zero_of_le (not_lt.1 hlong), List.replicate_zero, List.append_nil]
  unfold resolveNumberText
  dsimp only
  rw [hvalid, hsplit, hfirst, hsecond, hthird, if_neg (by decide), if_neg (by decide), hpadded, ite_not,
    stripLeadingZeros_eq]

/-! ### The meaning of the text -/

/-- Digits and a fraction in the smallest unit, less what is below that unit. -/
theorem floor_denoted {num intPart fracPart : Text} (parts : Parts num intPart fracPart)
    (hint : Digits intPart) (decimals : ℕ) :
    ⌊denoted num * 10 ^ decimals⌋₊ =
      value intPart * 10 ^ decimals + value fracPart * 10 ^ decimals / 10 ^ fracPart.length := by
  obtain ⟨hfirst, hsecond⟩ := parts.takeWhile hint
  have hpos : 0 < 10 ^ fracPart.length := Nat.pow_pos (by decide)
  have hrational : denoted num * 10 ^ decimals =
      ((value intPart * 10 ^ decimals * 10 ^ fracPart.length + value fracPart * 10 ^ decimals : ℕ) : ℚ) /
        (10 ^ fracPart.length : ℕ) := by
    unfold denoted
    dsimp only
    rw [hfirst, hsecond]
    push_cast
    field_simp
  rw [hrational, Nat.floor_div_eq_div, Nat.add_comm, Nat.add_mul_div_right _ _ hpos, Nat.add_comm]

theorem digits_take_padded {text : Text} (hdigits : Digits text) (length : ℕ) :
    Digits ((text ++ List.replicate (length - text.length) '0').take length) := by
  intro c hc
  rcases List.mem_append.1 (List.mem_of_mem_take hc) with htext | hzeros
  · exact hdigits c htext
  · rw [(List.mem_replicate.1 hzeros).2]
    rfl

/-- `resolve_number_string` refuses what `is_valid_number` refuses, and gives the canonical text of the
floor of every other number in the smallest unit. -/
theorem resolveNumberText_exact (num : Text) (decimals : ℕ) :
    resolveNumberText num decimals =
      if isValidNumberLoop false num then some (Nat.toDigits 10 ⌊denoted num * 10 ^ decimals⌋₊)
      else none := by
  by_cases hvalid : isValidNumberLoop false num = true
  · obtain ⟨intPart, fracPart, parts, hint, hfrac⟩ := exists_parts_of_valid hvalid
    have hlength : ((fracPart ++ List.replicate (decimals - fracPart.length) '0').take decimals).length =
        decimals := by
      rw [List.length_take, List.length_append, List.length_replicate]
      omega
    have hkept : Digits (if intPart = ['0'] then [] else intPart) := by
      split
      · exact nofun
      · exact hint
    have hsame : value (if intPart = ['0'] then [] else intPart) = value intPart := by
      split
      next hone => rw [hone, value_zero_cons]
      next => rfl
    have hdigits := digits_take_padded hfrac decimals
    rw [resolveNumberText_of_parts parts hint hfrac hvalid, if_pos hvalid, floor_denoted parts hint,
      canonical_eq (List.forall_mem_append.2 ⟨hkept, hdigits⟩), value_append, hsame,
      value_take_padded hfrac, hlength, Nat.mul_comm (10 ^ decimals)]
  · rw [if_neg hvalid, resolveNumberText, if_pos (Bool.eq_false_iff.2 hvalid)]

end Valid

end OrdDogecoin.Tap
