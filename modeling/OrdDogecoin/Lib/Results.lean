/-
Module: OrdDogecoin.Lib.Results
Purpose: Chains of steps that may fail: when a chain succeeds, and lists that are built one item at a time.
Trusted boundary: none
Main exports: Results.ok_bind, Results.bind_eq_ok, Results.cons_eq_ok
-/
import Mathlib.Logic.Basic

namespace Results

variable {ε α β : Type}

@[simp] theorem ok_bind (value : α) (next : α → Except ε β) : (.ok value >>= next) = next value := rfl

@[simp] theorem error_bind (failure : ε) (next : α → Except ε β) :
    (.error failure >>= next) = .error failure := rfl

/-- A chain succeeds when its first step does and the rest does with what it gave. -/
theorem bind_eq_ok {run : Except ε α} {next : α → Except ε β} {b : β} :
    (run >>= next) = .ok b ↔ ∃ a, run = .ok a ∧ next a = .ok b := by
  cases run with
  | ok a => exact ⟨fun h => ⟨a, rfl, h⟩, fun ⟨_, hrun, h⟩ => by cases hrun; exact h⟩
  | error failure => exact ⟨(nomatch ·), fun ⟨_, hrun, _⟩ => nomatch hrun⟩

/-- An item in front of the others, when both are built. -/
theorem cons_eq_ok {first : Except ε β} {others : Except ε (List β)} {built : List β} :
    (do let b ← first; let bs ← others; .ok (b :: bs)) = Except.ok built ↔
      ∃ b bs, first = .ok b ∧ others = .ok bs ∧ built = b :: bs := by
  rw [bind_eq_ok]
  refine exists_congr fun b => ?_
  rw [bind_eq_ok]
  constructor
  · rintro ⟨hfirst, bs, hothers, hbuilt⟩
    cases hbuilt
    exact ⟨bs, hfirst, hothers, rfl⟩
  · rintro ⟨bs, hfirst, hothers, rfl⟩
    exact ⟨hfirst, bs, hothers, rfl⟩

end Results
