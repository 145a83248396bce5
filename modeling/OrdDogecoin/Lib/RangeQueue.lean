/-
Module: OrdDogecoin.Lib.RangeQueue
Purpose: Queues of half-open ranges of numbers, and cutting the first numbers off a queue: whole ranges
  as long as they are needed, and a part of the next one.  Cutting keeps the numbers and their order.
Trusted boundary: none
Main exports: RangeQueue.points, RangeQueue.points_cut, RangeQueue.exists_cut
-/
import Mathlib.Data.List.Basic
import Mathlib.Data.List.Range

namespace RangeQueue

/-- The numbers of a queue of ranges, in order. -/
def points (ranges : List (ℕ × ℕ)) : List ℕ :=
  ranges.flatMap fun range => List.range' range.1 (range.2 - range.1)

/-- Cut the first `count` numbers off a queue. -/
def cut : ℕ → List (ℕ × ℕ) → Option (List (ℕ × ℕ) × List (ℕ × ℕ))
  | 0, ranges => some ([], ranges)
  | _ + 1, [] => none
  | count + 1, range :: ranges =>
      if count + 1 < range.2 - range.1 then
        some ([(range.1, range.1 + (count + 1))], (range.1 + (count + 1), range.2) :: ranges)
      else
        (cut (count + 1 - (range.2 - range.1)) ranges).map fun pieces =>
          (range :: pieces.1, pieces.2)

@[simp] theorem points_nil : points [] = [] := rfl

theorem points_cons (range : ℕ × ℕ) (ranges : List (ℕ × ℕ)) :
    points (range :: ranges) = List.range' range.1 (range.2 - range.1) ++ points ranges :=
  List.flatMap_cons

theorem points_append (ranges ranges' : List (ℕ × ℕ)) :
    points (ranges ++ ranges') = points ranges ++ points ranges' := List.flatMap_append

/-- The numbers cut off and those left over are those of the queue, in order. -/
theorem points_cut {count : ℕ} {ranges row rest : List (ℕ × ℕ)}
    (hcut : cut count ranges = some (row, rest)) :
    points row ++ points rest = points ranges ∧ (points row).length = count := by
  fun_induction cut count ranges generalizing row rest with
  | case1 ranges =>
      cases hcut
      exact ⟨rfl, rfl⟩
  | case2 count => cases hcut
  | case3 count range ranges hlong =>
      cases hcut
      constructor
      · rw [points_cons, points_cons, points_cons, points_nil, List.append_nil, ← List.append_assoc,
          Nat.add_sub_cancel_left, List.range'_append_1]
        congr 2
        omega
      · rw [points_cons, points_nil, List.append_nil, List.length_range', Nat.add_sub_cancel_left]
  | case4 count range ranges hshort ih =>
      obtain ⟨⟨piece, left⟩, hpiece, heq⟩ := Option.map_eq_some_iff.1 hcut
      cases heq
      obtain ⟨hpoints, hlength⟩ := ih hpiece
      constructor
      · rw [points_cons, points_cons, List.append_assoc, hpoints]
      · rw [points_cons, List.length_append, List.length_range', hlength]
        omega

/-- A queue that is long enough can be cut. -/
theorem exists_cut {count : ℕ} {ranges : List (ℕ × ℕ)} (hlength : count ≤ (points ranges).length) :
    ∃ row rest, cut count ranges = some (row, rest) := by
  fun_induction cut count ranges with
  | case1 ranges => exact ⟨_, _, rfl⟩
  | case2 count => simp at hlength
  | case3 count range ranges hlong => exact ⟨_, _, rfl⟩
  | case4 count range ranges hshort ih =>
      rw [points_cons, List.length_append, List.length_range'] at hlength
      obtain ⟨row, rest, hcut⟩ := ih (by omega)
      exact ⟨range :: row, rest, by rw [hcut]; rfl⟩

/-- A queue of ranges whose ends are not below their starts. -/
def Ordered (ranges : List (ℕ × ℕ)) : Prop := ∀ range ∈ ranges, range.1 ≤ range.2

theorem ordered_cut {count : ℕ} {ranges row rest : List (ℕ × ℕ)} (ordered : Ordered ranges)
    (hcut : cut count ranges = some (row, rest)) : Ordered row ∧ Ordered rest := by
  fun_induction cut count ranges generalizing row rest with
  | case1 ranges =>
      cases hcut
      exact ⟨by simp [Ordered], ordered⟩
  | case2 count => cases hcut
  | case3 count range ranges hlong =>
      cases hcut
      obtain ⟨-, hranges⟩ := List.forall_mem_cons.1 ordered
      refine ⟨?_, List.forall_mem_cons.2 ⟨?_, hranges⟩⟩
      · exact List.forall_mem_singleton.2 (Nat.le_add_right _ _)
      · dsimp only
        omega
  | case4 count range ranges hshort ih =>
      obtain ⟨⟨piece, left⟩, hpiece, heq⟩ := Option.map_eq_some_iff.1 hcut
      cases heq
      obtain ⟨hrange, hranges⟩ := List.forall_mem_cons.1 ordered
      obtain ⟨hpiece, hleft⟩ := ih hranges hpiece
      exact ⟨List.forall_mem_cons.2 ⟨hrange, hpiece⟩, hleft⟩

end RangeQueue
