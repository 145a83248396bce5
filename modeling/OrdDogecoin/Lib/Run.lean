/-
Module: OrdDogecoin.Lib.Run
Purpose: Runs of a partial step function.  `Reaches step allowed s t` says that `t` is reached from
  `s` by steps that all satisfy `allowed`; the invariant rule reduces a statement about every
  reached state to one step, and `exec` evaluates a run given by its list of actions.
Trusted boundary: none
Main exports: Run.Reaches, Run.exec, Run.exists_reaches_of_exec
-/
import Mathlib.Logic.Basic

namespace Run

variable {S A : Type} {step : S → A → Option S} {allowed : S → A → Prop}

/-- `t` is reached from `s` by allowed steps. -/
inductive Reaches (step : S → A → Option S) (allowed : S → A → Prop) (s : S) : S → Prop where
  | refl : Reaches step allowed s s
  | tail {t u : S} (action : A) (reaches : Reaches step allowed s t) (hallowed : allowed t action)
      (hstep : step t action = some u) : Reaches step allowed s u

/-- What every allowed step preserves holds in every reached state. -/
theorem Reaches.invariant {s t : S} (Inv : S → Prop)
    (preserved : ∀ {s s' : S} {action : A}, Inv s → allowed s action → step s action = some s' →
      Inv s')
    (reaches : Reaches step allowed s t) (initial : Inv s) : Inv t := by
  induction reaches with
  | refl => exact initial
  | tail action _ hallowed hstep ih => exact preserved ih hallowed hstep

theorem Reaches.head {s t u : S} {action : A} (hallowed : allowed s action)
    (hstep : step s action = some t) (reaches : Reaches step allowed t u) :
    Reaches step allowed s u := by
  induction reaches with
  | refl => exact .tail action .refl hallowed hstep
  | tail next _ hnext hlast ih => exact .tail next ih hnext hlast

/-- Evaluate a run: every action must be possible and pass `check`. -/
def exec (step : S → A → Option S) (check : S → A → Bool) : List A → S → Option S
  | [], s => some s
  | action :: actions, s =>
      if check s action then (step s action).bind (exec step check actions) else none

/-- An evaluated run reaches its last state. -/
theorem reaches_of_exec {check : S → A → Bool}
    (hcheck : ∀ {s : S} {action : A}, check s action = true → allowed s action) :
    ∀ {actions : List A} {s t : S}, exec step check actions s = some t →
      Reaches step allowed s t
  | [], s, t, hexec => by
      cases hexec
      exact .refl
  | action :: actions, s, t, hexec => by
      unfold exec at hexec
      split at hexec
      next hallowed =>
        cases hstep : step s action with
        | none => simp [hstep] at hexec
        | some next =>
            rw [hstep, Option.bind_some] at hexec
            exact .head (hcheck hallowed) hstep (reaches_of_exec hcheck hexec)
      next => cases hexec

/-- A run is evaluated by what its last state shows. -/
theorem exists_reaches_of_exec {β : Type} {check : S → A → Bool} {actions : List A} {s : S}
    {view : S → β} {value : β}
    (hcheck : ∀ {s : S} {action : A}, check s action = true → allowed s action)
    (hexec : (exec step check actions s).map view = some value) :
    ∃ t, Reaches step allowed s t ∧ view t = value := by
  obtain ⟨t, ht, hview⟩ := Option.map_eq_some_iff.1 hexec
  exact ⟨t, reaches_of_exec hcheck ht, hview⟩

/-! ### Runs of a list -/

/-- Every step of the run over a list is allowed; a step that is not possible ends the run. -/
def Along (step : S → A → Option S) (allowed : S → A → Prop) : List A → S → Prop
  | [], _ => True
  | action :: actions, s => allowed s action ∧ ∀ t ∈ step s action, Along step allowed actions t

instance Along.decidable [∀ s action, Decidable (allowed s action)] :
    ∀ (actions : List A) (s : S), Decidable (Along step allowed actions s)
  | [], _ => isTrue trivial
  | action :: actions, s =>
      haveI : ∀ t, Decidable (Along step allowed actions t) := Along.decidable actions
      inferInstanceAs (Decidable (_ ∧ ∀ t ∈ step s action, Along step allowed actions t))

end Run
