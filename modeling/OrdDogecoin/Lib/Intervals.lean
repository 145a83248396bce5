/-
Module: OrdDogecoin.Lib.Intervals
Purpose: Half-open intervals with a tag each.  Intervals that lie apart hold a key at most once, so that it
  does not matter in which order they are searched; in the order of their starts each ends before the next
  begins.
Trusted boundary: none
Main exports: Intervals.Holds, Intervals.before_of_sorted, Intervals.find?_perm
-/
import Mathlib.Data.List.Perm.Basic
import Mathlib.Order.Lattice

namespace Intervals

variable {K T : Type} [LinearOrder K]

/-- A start, an end and a tag. -/
abbrev Interval (K T : Type) := K × K × T

def Holds (key : K) (interval : Interval K T) : Prop := interval.1 ≤ key ∧ key < interval.2.1

instance (key : K) (interval : Interval K T) : Decidable (Holds key interval) :=
  inferInstanceAs (Decidable (_ ∧ _))

/-- One interval ends before the other begins. -/
def Apart (interval other : Interval K T) : Prop := interval.2.1 ≤ other.1 ∨ other.2.1 ≤ interval.1

theorem Apart.symm {interval other : Interval K T} (apart : Apart interval other) : Apart other interval :=
  Or.symm apart

/-- Intervals that lie apart do not share a key. -/
theorem Apart.not_holds {interval other : Interval K T} (apart : Apart interval other) {key : K}
    (hkey : Holds key interval) : ¬ Holds key other := by
  rintro ⟨hstart, hstop⟩
  rcases apart with hle | hle
  · exact absurd (hkey.2.trans_le (hle.trans hstart)) (lt_irrefl key)
  · exact absurd (hstop.trans_le (hle.trans hkey.1)) (lt_irrefl key)

/-- In the order of their starts, intervals that are not empty and lie apart follow one another. -/
theorem before_of_sorted {list : List (Interval K T)} (hnonempty : ∀ interval ∈ list, interval.1 < interval.2.1)
    (apart : list.Pairwise Apart) (hsorted : list.Pairwise fun interval other => interval.1 ≤ other.1) :
    list.Pairwise fun interval other => interval.2.1 ≤ other.1 := by
  refine (apart.and hsorted).imp_of_mem ?_
  intro interval other _ hother ⟨hapart, hle⟩
  rcases hapart with hbefore | hafter
  · exact hbefore
  · exact absurd ((hnonempty other hother).trans_le (hafter.trans hle)) (lt_irrefl other.1)

theorem find?_eq_some_of_holds {list : List (Interval K T)} (apart : list.Pairwise Apart) {key : K}
    {interval : Interval K T} (hmem : interval ∈ list) (hkey : Holds key interval) :
    list.find? (fun other => Holds key other) = some interval := by
  induction list with
  | nil => cases hmem
  | cons first list ih =>
      obtain ⟨hfirst, hrest⟩ := List.pairwise_cons.1 apart
      rcases List.mem_cons.1 hmem with rfl | hlater
      · rw [List.find?_cons_of_pos (by simpa using hkey)]
      · have hnot : ¬ Holds key first := fun hheld => (hfirst interval hlater).not_holds hheld hkey
        rw [List.find?_cons_of_neg (by simpa using hnot), ih hrest hlater]

/-- The interval that holds a key is found in any order. -/
theorem find?_perm {list other : List (Interval K T)} (hperm : list.Perm other) (apart : list.Pairwise Apart)
    (key : K) : list.find? (fun interval => Holds key interval) =
      other.find? fun interval => Holds key interval := by
  have hother : other.Pairwise Apart := (hperm.pairwise_iff fun h => h.symm).1 apart
  cases hfind : list.find? fun interval => Holds key interval with
  | none =>
      rw [List.find?_eq_none] at hfind
      exact (List.find?_eq_none.2 fun interval hmem => hfind interval (hperm.mem_iff.2 hmem)).symm
  | some interval =>
      have hkey := List.find?_some hfind
      have hmem := List.mem_of_find?_eq_some hfind
      exact (find?_eq_some_of_holds hother (hperm.mem_iff.1 hmem) (of_decide_eq_true hkey)).symm

end Intervals
