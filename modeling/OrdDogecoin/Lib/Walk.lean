/-
Module: OrdDogecoin.Lib.Walk
Purpose: Labels in the order of a walk.  A reader that walks along a list of stops and takes, at every
  stop, the items in front that carry its label reads a whole list exactly when its labels come in the
  order of the walk.
Trusted boundary: none
Main exports: Walk, Walk.dropWhile, Walk.eq_nil
-/
import Mathlib.Data.List.Basic

/-- The labels come in the order of the stops; a stop may have none, one or many of them. -/
inductive Walk {L : Type} : List L → List L → Prop where
  | done (stops : List L) : Walk stops []
  | serve {stop : L} {stops labels : List L} (walk : Walk (stop :: stops) labels) :
      Walk (stop :: stops) (stop :: labels)
  | pass {stop : L} {stops labels : List L} (walk : Walk stops labels) : Walk (stop :: stops) labels

namespace Walk

variable {L : Type} {stop : L} {stops labels : List L}

/-- Labels of one stop in front of the labels of the stops behind. -/
theorem segment {here : List L} (hhere : ∀ label ∈ here, label = stop) (walk : Walk stops labels) :
    Walk (stop :: stops) (here ++ labels) := by
  induction here with
  | nil => exact .pass walk
  | cons label here ih =>
      obtain rfl := hhere label List.mem_cons_self
      exact .serve (ih fun other hmem => hhere other (List.mem_cons_of_mem _ hmem))

theorem tail {label : L} (walk : Walk stops (label :: labels)) : Walk stops labels := by
  generalize hlabels : label :: labels = all at walk
  induction walk with
  | done => cases hlabels
  | serve walk =>
      cases hlabels
      exact walk
  | pass _ ih => exact .pass (ih hlabels)

/-- Behind the last stop nothing is left. -/
theorem eq_nil (walk : Walk [] labels) : labels = [] := by
  cases walk
  rfl

theorem dropWhile_of_walk (taken : L → Bool) (walk : Walk stops labels) :
    Walk stops (labels.dropWhile taken) := by
  induction labels with
  | nil => exact walk
  | cons label labels ih =>
      rw [List.dropWhile_cons]
      split
      · exact ih walk.tail
      · exact walk

/-- Behind a stop that took all its labels in front, the walk goes on. -/
theorem dropWhile [DecidableEq L] (walk : Walk (stop :: stops) labels) :
    Walk stops (labels.dropWhile fun label => label = stop) := by
  generalize hall : stop :: stops = all at walk
  induction walk with
  | done => exact .done stops
  | serve _ ih =>
      cases hall
      rw [List.dropWhile_cons_of_pos (by simp)]
      exact ih rfl
  | pass walk =>
      cases hall
      exact dropWhile_of_walk _ walk

end Walk
