/-
Module: OrdDogecoin.Lib.Utf16
Purpose: Sequences of 16-bit code units, which need not be well-formed UTF-16, and the code points they
  stand for: a high surrogate followed by a low one is one code point, every other unit is one of its
  own.  The two forms determine each other.
Trusted boundary: none
Main exports: Utf16.IsHigh, Utf16.units_codePoints, Utf16.codePoints_units
-/
import Mathlib.Data.List.Basic
import Mathlib.Data.List.Chain

namespace Utf16

def IsHigh (n : ℕ) : Prop := 0xd800 ≤ n ∧ n ≤ 0xdbff

def IsLow (n : ℕ) : Prop := 0xdc00 ≤ n ∧ n ≤ 0xdfff

instance (n : ℕ) : Decidable (IsHigh n) := inferInstanceAs (Decidable (_ ∧ _))

instance (n : ℕ) : Decidable (IsLow n) := inferInstanceAs (Decidable (_ ∧ _))

/-- The code point of a surrogate pair. -/
def pair (high low : ℕ) : ℕ := 0x10000 + (high - 0xd800) * 0x400 + (low - 0xdc00)

def pointUnits (point : ℕ) : List ℕ :=
  if point < 0x10000 then [point]
  else [0xd800 + (point - 0x10000) / 0x400, 0xdc00 + (point - 0x10000) % 0x400]

/-- The code points of a sequence of units; an unpaired surrogate stands for itself. -/
def codePoints : List ℕ → List ℕ
  | [] => []
  | [unit] => [unit]
  | unit :: next :: units =>
      if IsHigh unit ∧ IsLow next then pair unit next :: codePoints units
      else unit :: codePoints (next :: units)

attribute [grind =] codePoints

/-- No high surrogate stands directly before a low one. -/
def Unsplit (points : List ℕ) : Prop :=
  points.IsChain fun point next => ¬ (IsHigh point ∧ IsLow next)

theorem pointUnits_pair {high low : ℕ} (hhigh : IsHigh high) (hlow : IsLow low) :
    pointUnits (pair high low) = [high, low] := by
  unfold IsHigh at hhigh
  unfold IsLow at hlow
  unfold pointUnits pair
  rw [if_neg (by omega)]
  simp only [List.cons.injEq, and_true]
  omega

theorem pair_lt {high low : ℕ} (hhigh : IsHigh high) (hlow : IsLow low) :
    pair high low < 0x110000 := by
  unfold IsHigh at hhigh
  unfold IsLow at hlow
  unfold pair
  omega

/-- The units of a code point outside the basic plane are a pair, and give it back. -/
theorem pair_of_pointUnits {point : ℕ} (hlarge : ¬ point < 0x10000) (hpoint : point < 0x110000) :
    ∃ high low, IsHigh high ∧ IsLow low ∧ pointUnits point = [high, low] ∧ pair high low = point := by
  refine ⟨0xd800 + (point - 0x10000) / 0x400, 0xdc00 + (point - 0x10000) % 0x400, ?_, ?_, ?_, ?_⟩
  · unfold IsHigh
    omega
  · unfold IsLow
    omega
  · rw [pointUnits, if_neg hlarge]
  · unfold pair
    omega

theorem pointUnits_lt {point : ℕ} (hpoint : point < 0x110000) :
    ∀ unit ∈ pointUnits point, unit < 0x10000 := by
  intro unit hunit
  by_cases hsmall : point < 0x10000
  · rw [pointUnits, if_pos hsmall, List.mem_singleton] at hunit
    omega
  · obtain ⟨high, low, hhigh, hlow, hunits, -⟩ := pair_of_pointUnits hsmall hpoint
    unfold IsHigh at hhigh
    unfold IsLow at hlow
    rw [hunits, List.mem_cons, List.mem_singleton] at hunit
    omega

theorem not_isHigh_pair (high low : ℕ) : ¬ IsHigh (pair high low) := by
  unfold IsHigh pair
  omega

theorem not_isLow_pair (high low : ℕ) : ¬ IsLow (pair high low) := by
  unfold IsLow pair
  omega

theorem not_isLow_of_isHigh {n : ℕ} (hhigh : IsHigh n) : ¬ IsLow n := by
  unfold IsHigh at hhigh
  unfold IsLow
  omega

/-- The code points determine the units. -/
theorem units_codePoints {units : List ℕ} (hunits : ∀ unit ∈ units, unit < 0x10000) :
    (codePoints units).flatMap pointUnits = units := by
  fun_induction codePoints units with
  | case1 => rfl
  | case2 unit => simp [pointUnits, hunits unit]
  | case3 unit next units hpair ih =>
      rw [List.flatMap_cons, pointUnits_pair hpair.1 hpair.2,
        ih fun unit hunit => hunits unit (List.mem_cons_of_mem _ (List.mem_cons_of_mem _ hunit))]
      rfl
  | case4 unit next units hpair ih =>
      rw [List.flatMap_cons, ih fun unit hunit => hunits unit (List.mem_cons_of_mem _ hunit)]
      simp [pointUnits, hunits unit]

theorem lt_of_mem_codePoints {units : List ℕ} (hunits : ∀ unit ∈ units, unit < 0x10000) :
    ∀ point ∈ codePoints units, point < 0x110000 := by
  fun_induction codePoints units with
  | case1 => simp
  | case2 unit =>
      have hunit := hunits unit (by simp)
      simp only [List.mem_singleton, forall_eq]
      omega
  | case3 unit next units hpair ih =>
      refine List.forall_mem_cons.2 ⟨pair_lt hpair.1 hpair.2, ih fun unit hunit => ?_⟩
      exact hunits unit (List.mem_cons_of_mem _ (List.mem_cons_of_mem _ hunit))
  | case4 unit next units hpair ih =>
      have hunit := hunits unit (by simp)
      refine List.forall_mem_cons.2 ⟨by omega, ih fun unit hunit => ?_⟩
      exact hunits unit (List.mem_cons_of_mem _ hunit)

/-- The first code point is a low surrogate only if the first unit is. -/
theorem isLow_head {unit point : ℕ} {units points : List ℕ}
    (hpoints : codePoints (unit :: units) = point :: points) (hlow : IsLow point) : IsLow unit := by
  cases units with
  | nil =>
      cases hpoints
      exact hlow
  | cons next units =>
      rw [codePoints] at hpoints
      split at hpoints
      · rw [← (List.cons.inj hpoints).1] at hlow
        exact absurd hlow (not_isLow_pair _ _)
      · rw [(List.cons.inj hpoints).1]
        exact hlow

theorem unsplit_codePoints (units : List ℕ) : Unsplit (codePoints units) := by
  fun_induction codePoints units with
  | case1 => exact .nil
  | case2 unit => exact .singleton unit
  | case3 unit next units hpair ih =>
      exact ih.cons fun point _ hsplit => not_isHigh_pair _ _ hsplit.1
  | case4 unit next units hpair ih =>
      refine ih.cons fun point hpoint hsplit => ?_
      obtain ⟨points, hpoints⟩ : ∃ points, codePoints (next :: units) = point :: points := by
        cases hcodes : codePoints (next :: units) with
        | nil => simp [hcodes] at hpoint
        | cons first rest =>
            rw [hcodes] at hpoint
            exact ⟨rest, by rw [Option.mem_some_iff.1 hpoint]⟩
      exact hpair ⟨hsplit.1, isLow_head hpoints hsplit.2⟩

/-- A unit before the code points of a sequence is paired only with a low surrogate. -/
theorem codePoints_cons {unit : ℕ} {units : List ℕ}
    (hunpaired : IsHigh unit → ∀ next ∈ units.head?, ¬ IsLow next) :
    codePoints (unit :: units) = unit :: codePoints units := by
  cases units with
  | nil => rfl
  | cons next units =>
      rw [codePoints, if_neg fun hpair => hunpaired hpair.1 next rfl hpair.2]

/-- A sequence of units starts with a low surrogate only if its first code point is one. -/
theorem isLow_of_head {points : List ℕ} (hpoints : ∀ point ∈ points, point < 0x110000) {unit : ℕ}
    (hunit : unit ∈ (points.flatMap pointUnits).head?) (hlow : IsLow unit) :
    ∃ point ∈ points.head?, IsLow point := by
  cases points with
  | nil => simp at hunit
  | cons point points =>
      refine ⟨point, rfl, ?_⟩
      rw [List.flatMap_cons] at hunit
      by_cases hsmall : point < 0x10000
      · rw [pointUnits, if_pos hsmall, List.singleton_append, List.head?_cons,
          Option.mem_some_iff] at hunit
        rw [hunit]
        exact hlow
      · obtain ⟨high, low, hhigh, -, hunits, -⟩ :=
          pair_of_pointUnits hsmall (hpoints point List.mem_cons_self)
        rw [hunits, List.cons_append, List.head?_cons, Option.mem_some_iff] at hunit
        rw [← hunit] at hlow
        exact absurd hlow (not_isLow_of_isHigh hhigh)

/-- The units determine the code points. -/
theorem codePoints_units {points : List ℕ} (hunsplit : Unsplit points)
    (hpoints : ∀ point ∈ points, point < 0x110000) :
    codePoints (points.flatMap pointUnits) = points := by
  induction points with
  | nil => rfl
  | cons point points ih =>
      have ih := ih hunsplit.tail fun other hother => hpoints other (List.mem_cons_of_mem _ hother)
      rw [List.flatMap_cons]
      by_cases hsmall : point < 0x10000
      · rw [pointUnits, if_pos hsmall, List.singleton_append, codePoints_cons, ih]
        intro hhigh unit hunit hlow
        obtain ⟨next, hnext, hlow⟩ := isLow_of_head
          (fun other hother => hpoints other (List.mem_cons_of_mem _ hother)) hunit hlow
        exact (List.isChain_cons.1 hunsplit).1 next hnext ⟨hhigh, hlow⟩
      · obtain ⟨high, low, hhigh, hlow, hunits, hpair⟩ :=
          pair_of_pointUnits hsmall (hpoints point List.mem_cons_self)
        rw [hunits, List.cons_append, List.singleton_append, codePoints, if_pos ⟨hhigh, hlow⟩, ih,
          hpair]

end Utf16
