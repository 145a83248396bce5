/-
Module: OrdDogecoin.Lib.Pages
Purpose: Lists that are read a part at a time.
Trusted boundary: none
Main exports: Pages.mem_take_or_behind
-/
import Mathlib.Data.List.Basic

namespace Pages

section Sorted

variable {K : Type} {r : K → K → Prop}

/-- An entry of a sorted list is among the first ones or behind each of them. -/
theorem mem_take_or_behind {keys : List K} (hsorted : keys.Pairwise r) (n : ℕ) {key : K}
    (hmem : key ∈ keys) : key ∈ keys.take n ∨ ∀ other ∈ keys.take n, r other key := by
  rw [← List.take_append_drop n keys] at hmem hsorted
  rcases List.mem_append.1 hmem with hfirst | hrest
  · exact .inl hfirst
  · exact .inr fun other hother => (List.pairwise_append.1 hsorted).2.2 other hother key hrest

end Sorted

end Pages
