/-
Module: OrdDogecoin.Lib.Procedure
Purpose: Procedures over a state with early exit.  What a procedure has written before it leaves
  stays written.  `Proc.wp` is the weakest precondition for a postcondition on a normal return and
  one on an exit; its rules follow the program text, so a proof about a procedure walks through it.
Trusted boundary: none
Main exports: Proc, Proc.wp_bind, Proc.after_of_wp
-/
import Mathlib.Logic.Basic

/-- A procedure on states `σ` that returns a value or leaves with an exit value. -/
abbrev Proc (ε σ α : Type) := ExceptT ε (StateM σ) α

namespace Proc

variable {ε σ α β : Type} {rest : β → Proc ε σ α}

def result (procedure : Proc ε σ α) (state : σ) : Except ε α × σ := procedure.run.run state

/-- The final state, whether the procedure returned or left. -/
def after (procedure : Proc ε σ α) (state : σ) : σ := (procedure.result state).2

/-- Leave when the condition holds. -/
def exitIf (condition : Bool) (exit : ε) : Proc ε σ Unit :=
  if condition then throw exit else pure ()

/-- The value, or leave when there is none. -/
def orExit (value : Option α) (exit : ε) : Proc ε σ α :=
  match value with
  | some value => pure value
  | none => throw exit

/-- The value of a pure computation, or leave with its error. -/
def ofExcept (value : Except ε α) : Proc ε σ α :=
  match value with
  | .ok value => pure value
  | .error exit => throw exit

/-- Read part of the state. -/
def read (view : σ → α) : Proc ε σ α := do return view (← get)

/-- Change the state. -/
def write (update : σ → σ) : Proc ε σ Unit := modify update

/-! ### Weakest preconditions -/

/-- The procedure, started in `state`, returns into `post` or leaves into `exit`. -/
def wp (procedure : Proc ε σ α) (post : α → σ → Prop) (exit : ε → σ → Prop) (state : σ) : Prop :=
  match procedure.result state with
  | (.ok value, final) => post value final
  | (.error error, final) => exit error final

variable {post : α → σ → Prop} {exit : ε → σ → Prop} {state : σ}

theorem wp_pure {value : α} (hpost : post value state) :
    wp (pure value : Proc ε σ α) post exit state := hpost

theorem wp_throw {error : ε} (hexit : exit error state) :
    wp (throw error : Proc ε σ α) post exit state := hexit

/-- Sequencing: the first part must return into the precondition of the rest. -/
theorem wp_bind {first : Proc ε σ β}
    (hfirst : wp first (fun value middle => wp (rest value) post exit middle) exit state) :
    wp (first >>= rest) post exit state := by
  have hresult : (first >>= rest).result state =
      match first.result state with
      | (.ok value, middle) => (rest value).result middle
      | (.error error, middle) => (.error error, middle) := by
    rcases hrun : first.run.run state with ⟨_ | _, middle⟩ <;>
      simp [result, ExceptT.run_bind, StateT.run_bind, hrun] <;> rfl
  unfold wp at hfirst ⊢
  rw [hresult]
  rcases hrun : first.result state with ⟨_ | _, middle⟩ <;> rw [hrun] at hfirst <;> exact hfirst

theorem wp_read {view : σ → β} (hrest : wp (rest (view state)) post exit state) :
    wp (read view >>= rest) post exit state := wp_bind hrest

theorem wp_write {update : σ → σ} {rest : Unit → Proc ε σ α}
    (hrest : wp (rest ()) post exit (update state)) :
    wp (write update >>= rest) post exit state := wp_bind hrest

theorem wp_write_last {update : σ → σ} {post : Unit → σ → Prop} (hpost : post () (update state)) :
    wp (write update : Proc ε σ Unit) post exit state := hpost

theorem wp_exitIf {condition : Bool} {error : ε} {rest : Unit → Proc ε σ α}
    (hexit : condition = true → exit error state)
    (hrest : condition = false → wp (rest ()) post exit state) :
    wp (exitIf condition error >>= rest) post exit state := by
  apply wp_bind
  cases condition with
  | true => exact hexit rfl
  | false => exact hrest rfl

theorem wp_orExit {value : Option β} {error : ε} (hexit : value = none → exit error state)
    (hrest : ∀ found, value = some found → wp (rest found) post exit state) :
    wp (orExit value error >>= rest) post exit state := by
  apply wp_bind
  cases value with
  | none => exact hexit rfl
  | some found => exact hrest found rfl

theorem wp_ofExcept {value : Except ε β} (hexit : ∀ error, value = .error error → exit error state)
    (hrest : ∀ found, value = .ok found → wp (rest found) post exit state) :
    wp (ofExcept value >>= rest) post exit state := by
  apply wp_bind
  cases value with
  | error error => exact hexit error rfl
  | ok found => exact hrest found rfl

/-- The rule of consequence, on a normal return. -/
theorem wp_mono {procedure : Proc ε σ α} {post' : α → σ → Prop}
    (hwp : wp procedure post exit state) (hpost : ∀ value final, post value final → post' value final) :
    wp procedure post' exit state := by
  unfold wp at hwp ⊢
  rcases hresult : procedure.result state with ⟨_ | value, final⟩
  · rw [hresult] at hwp
    exact hwp
  · rw [hresult] at hwp
    exact hpost value final hwp

/-- A condition that holds after every way out holds of the final state. -/
theorem after_of_wp {procedure : Proc ε σ α} {Inv : σ → Prop}
    (hwp : wp procedure (fun _ => Inv) (fun _ => Inv) state) : Inv (procedure.after state) := by
  unfold wp at hwp
  unfold after
  rcases hresult : procedure.result state with ⟨_ | _, final⟩ <;> rw [hresult] at hwp <;> exact hwp

/-! ### Pure validators -/

/-- A check in the middle of an optional computation. -/
theorem guard_bind_eq_some {condition : Prop} [Decidable condition] {rest : Unit → Option α}
    {value : α} : (guard condition >>= rest) = some value ↔ condition ∧ rest () = some value := by
  unfold guard
  by_cases hcondition : condition
  · rw [if_pos hcondition]
    exact ⟨fun hrest => ⟨hcondition, hrest⟩, And.right⟩
  · rw [if_neg hcondition]
    constructor
    · intro hfail
      cases hfail
    · intro hboth
      exact absurd hboth.1 hcondition

/-- A check that is not asked about. -/
theorem of_guard {condition : Prop} [Decidable condition] {rest : Unit → Option α} {value : α}
    (h : (guard condition >>= rest) = some value) : rest () = some value :=
  (guard_bind_eq_some.1 h).2

/-- A step whose result is not asked about. -/
theorem of_bind {step : Option β} {rest : β → Option α} {value : α}
    (h : step.bind rest = some value) : ∃ found, rest found = some value := by
  obtain ⟨found, -, hrest⟩ := Option.bind_eq_some_iff.1 h
  exact ⟨found, hrest⟩

/-- Every result of an optional map comes from an item. -/
theorem exists_of_mapM {β : Type} {f : α → Option β} : ∀ {items : List α} {results : List β},
    items.mapM f = some results → ∀ result ∈ results, ∃ item ∈ items, f item = some result
  | [], results, hresults => by
      cases hresults
      simp
  | item :: items, results, hresults => by
      rw [List.mapM_cons] at hresults
      obtain ⟨first, hfirst, hresults⟩ := Option.bind_eq_some_iff.1 hresults
      obtain ⟨rest, hrest, hresults⟩ := Option.bind_eq_some_iff.1 hresults
      cases hresults
      intro result hresult
      rcases List.mem_cons.1 hresult with rfl | hresult
      · exact ⟨item, List.mem_cons_self .., hfirst⟩
      · obtain ⟨other, hother, hvalue⟩ := exists_of_mapM hrest result hresult
        exact ⟨other, List.mem_cons_of_mem _ hother, hvalue⟩

end Proc
