/-
Module: OrdDogecoin.Lib.ReadProgram
Purpose: Programs that ask a store one query at a time, and their runs while the store moves between two
  queries.  A program answered by one state is a function of it; a run gives that answer as long as every
  query finds what it would find in the state the run started in.
Trusted boundary: none
Main exports: ReadProgram, ReadProgram.Reaches.answer_eq, ReadProgram.follow
-/
import Mathlib.Data.List.Chain

/-- A program that asks queries and ends with a value. -/
inductive ReadProgram (Q : Type) (A : Q → Type) (α : Type) where
  | done (value : α)
  | ask (query : Q) (next : A query → ReadProgram Q A α)

namespace ReadProgram

variable {Q : Type} {A : Q → Type} {α β ε : Type}

def bind : ReadProgram Q A α → (α → ReadProgram Q A β) → ReadProgram Q A β
  | .done value, rest => rest value
  | .ask query next, rest => .ask query fun reply => (next reply).bind rest

instance : Monad (ReadProgram Q A) where
  pure := .done
  bind := .bind

/-- One query, as a program that can fail. -/
def query (q : Q) : ExceptT ε (ReadProgram Q A) (A q) := ExceptT.mk (.ask q fun reply => .done (.ok reply))

/-! ### One state answers -/

/-- The value of a program whose queries are all answered alike. -/
def answer (reply : (q : Q) → A q) : ReadProgram Q A α → α
  | .done value => value
  | .ask q next => (next (reply q)).answer reply

/-- The result of a program that can fail. -/
def serve (reply : (q : Q) → A q) (program : ExceptT ε (ReadProgram Q A) α) : Except ε α :=
  answer reply program.run

section Serve

variable (reply : (q : Q) → A q)

theorem answer_bind (program : ReadProgram Q A α) (rest : α → ReadProgram Q A β) :
    answer reply (program.bind rest) = answer reply (rest (answer reply program)) := by
  induction program with
  | done value => rfl
  | ask q next ih => exact ih (reply q)

@[simp] theorem serve_pure (value : α) :
    serve reply (pure value : ExceptT ε (ReadProgram Q A) α) = .ok value := rfl

@[simp] theorem serve_throw (error : ε) :
    serve reply (throw error : ExceptT ε (ReadProgram Q A) α) = .error error := rfl

@[simp] theorem serve_query (q : Q) :
    serve reply (query q : ExceptT ε (ReadProgram Q A) (A q)) = .ok (reply q) := rfl

@[simp] theorem serve_bind (program : ExceptT ε (ReadProgram Q A) α)
    (rest : α → ExceptT ε (ReadProgram Q A) β) :
    serve reply (program >>= rest) = serve reply program >>= fun value => serve reply (rest value) := by
  have hrun : (program >>= rest).run = program.run.bind fun result =>
      match result with
      | .ok value => (rest value).run
      | .error error => .done (.error error) := by
    change ReadProgram.bind _ _ = _
    congr 1
    funext result
    cases result with
    | ok value => rfl
    | error error => rfl
  rw [serve, hrun, answer_bind]
  change _ = (answer reply program.run).bind _
  cases answer reply program.run with
  | ok value => rfl
  | error error => rfl

/-- A served sequence serves its parts. -/
theorem serve_bind_ok {program : ExceptT ε (ReadProgram Q A) α}
    {rest : α → ExceptT ε (ReadProgram Q A) β} {result : β}
    (hserve : serve reply (program >>= rest) = .ok result) :
    ∃ value, serve reply program = .ok value ∧ serve reply (rest value) = .ok result := by
  rw [serve_bind] at hserve
  cases hprogram : serve reply program with
  | ok value =>
      rw [hprogram] at hserve
      exact ⟨value, rfl, hserve⟩
  | error error =>
      rw [hprogram] at hserve
      cases hserve

end Serve

/-! ### Runs -/

section Runs

variable {D : Type} (reply : D → (q : Q) → A q) (moves : D → D → Prop) (allowed : D → Q → Prop)

/-- The states of the store and what is left of a program, when the store may move before each query and a
query is only asked where it is allowed. -/
inductive Reaches (origin : D) (program : ReadProgram Q A α) : D → ReadProgram Q A α → Prop where
  | start : Reaches origin program origin program
  | move {store store' : D} {rest : ReadProgram Q A α} (reaches : Reaches origin program store rest)
      (moved : moves store store') : Reaches origin program store' rest
  | read {store : D} {q : Q} {next : A q → ReadProgram Q A α}
      (reaches : Reaches origin program store (.ask q next)) (asked : allowed store q) :
      Reaches origin program store (next (reply store q))

variable {reply moves allowed}

/-- What is left of the program has the answer of the whole program, in the state the run started in. -/
theorem Reaches.answer_eq {origin store : D} {program rest : ReadProgram Q A α}
    (reaches : Reaches reply moves allowed origin program store rest)
    (steady : ∀ store q, allowed store q → reply store q = reply origin q) :
    answer (reply origin) rest = answer (reply origin) program := by
  induction reaches with
  | start => rfl
  | move reaches moved ih => exact ih
  | read reaches asked ih =>
      rw [steady _ _ asked]
      exact ih

/-- A run in which the store stays ends with the answer of that state. -/
theorem Reaches.stay {origin store : D} {program : ReadProgram Q A α} (hallowed : ∀ q, allowed store q) :
    ∀ {rest : ReadProgram Q A α}, Reaches reply moves allowed origin program store rest →
      Reaches reply moves allowed origin program store (.done (answer (reply store) rest))
  | .done _, reaches => reaches
  | .ask q _, reaches => (reaches.read (hallowed q)).stay hallowed

/-- The value of a program whose queries are answered by the states of a list, one after the other. -/
def follow (reply : D → (q : Q) → A q) : List D → ReadProgram Q A α → Option α
  | _, .done value => some value
  | [], .ask _ _ => none
  | store :: stores, .ask q next => follow reply stores (next (reply store q))

/-- A list of states that move from one to the next is a run. -/
theorem Reaches.follow {origin : D} {program : ReadProgram Q A α} {value : α} :
    ∀ {stores : List D} {store : D} {rest : ReadProgram Q A α},
      Reaches reply moves (fun _ _ => True) origin program store rest →
      (store :: stores).IsChain moves → ReadProgram.follow reply stores rest = some value →
      ∃ store', Reaches reply moves (fun _ _ => True) origin program store' (.done value)
  | _, store, .done found, reaches, _, hfollow => by
      rw [ReadProgram.follow, Option.some.injEq] at hfollow
      subst hfollow
      exact ⟨store, reaches⟩
  | next :: stores, store, .ask q rest, reaches, hchain, hfollow => by
      obtain ⟨hmoves, hchain⟩ := List.isChain_cons_cons.1 hchain
      exact ((reaches.move hmoves).read trivial).follow hchain hfollow

end Runs

end ReadProgram
