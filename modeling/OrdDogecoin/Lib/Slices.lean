/-
Module: OrdDogecoin.Lib.Slices
Purpose: Code over slices with checked and unchecked accesses.  An unchecked access outside the slice
  panics, a checked one refuses; a loop that reads a slice item by item takes a number of rounds.  A loop
  whose rounds settle and use at least one element settles itself, two loops agree when their rounds agree
  at every position the first one meets, and the ranges of a loop that ends make up the whole slice.
Trusted boundary: `usize` has 64 bits
Main exports: Stop, readAll_congr, flatten_ranges
-/
import OrdDogecoin.Lib.Results
import Mathlib.Algebra.Order.Ring.Nat
import Mathlib.Data.List.Basic

namespace Slices

open Results

/-! ### Runs -/

/-- Why a run leaves no value: the code refuses, it panics, or its bound on the rounds is reached. -/
inductive Stop where
  | refused
  | panicked
  | unfinished
deriving DecidableEq, Repr

/-- A run that may stop. -/
abbrev Run (α : Type) := Except Stop α

variable {α β γ : Type} {items : List α}

/-- The run ends, with a value or a refusal. -/
def Settles (run : Run α) : Prop := ∀ stop, run = .error stop → stop = .refused

@[simp] theorem settles_ok (value : α) : Settles (.ok value : Run α) := by
  intro stop hstop
  cases hstop

@[simp] theorem settles_error {stop : Stop} : Settles (.error stop : Run α) ↔ stop = .refused :=
  ⟨fun settles => settles stop rfl, fun hrefused _ hstop => by cases hstop; exact hrefused⟩

theorem settles_refused : Settles (.error .refused : Run α) := settles_error.2 rfl

/-- Settling runs compose. -/
theorem Settles.bind {run : Run α} {next : α → Run β} (hrun : Settles run)
    (hnext : ∀ value, run = .ok value → Settles (next value)) : Settles (run >>= next) := by
  cases run with
  | ok value => exact hnext value rfl
  | error stop =>
      cases hrun stop rfl
      exact settles_refused

/-- The value of a check, or a refusal. -/
def orRefuse : Option α → Run α
  | some value => .ok value
  | none => .error .refused

theorem orRefuse_eq_ok {result : Option α} {value : α} : orRefuse result = .ok value ↔ result = some value := by
  cases result <;> simp [orRefuse]

@[simp] theorem settles_orRefuse (result : Option α) : Settles (orRefuse result) := by
  cases result <;> simp [orRefuse]

/-- What follows a run that always gives a value. -/
theorem settles_bind_ok {run : Run α} {next : α → β} :
    Settles (run >>= fun value => .ok (next value)) ↔ Settles run := by
  cases run <;> simp

/-- A run as its caller sees it. -/
def toOption : Run α → Option α
  | .ok value => some value
  | .error _ => none

/-! ### Sizes -/

/-- `+` on `usize`, which panics, and `checked_add`, which refuses. -/
def addUsize (a b : ℕ) : Run ℕ := if a + b < 2 ^ 64 then .ok (a + b) else .error .panicked

def checkedAddUsize (a b : ℕ) : Run ℕ := if a + b < 2 ^ 64 then .ok (a + b) else .error .refused

theorem addUsize_of_lt {a b : ℕ} (hlt : a + b < 2 ^ 64) : addUsize a b = .ok (a + b) := if_pos hlt

theorem checkedAddUsize_of_lt {a b : ℕ} (hlt : a + b < 2 ^ 64) : checkedAddUsize a b = .ok (a + b) :=
  if_pos hlt

theorem checkedAddUsize_eq_ok {a b sum : ℕ} (hsum : checkedAddUsize a b = .ok sum) : sum = a + b := by
  unfold checkedAddUsize at hsum
  split at hsum
  next =>
    cases hsum
    rfl
  next => cases hsum

theorem checkedAddUsize_settles (a b : ℕ) : Settles (checkedAddUsize a b) := by
  unfold checkedAddUsize
  split
  next => exact settles_ok _
  next => exact settles_refused

/-! ### Accesses -/

/-- `items[i]` and `items.get(i)`. -/
def index (items : List α) (i : ℕ) : Run α :=
  match items[i]? with
  | some item => .ok item
  | none => .error .panicked

def get (items : List α) (i : ℕ) : Run α :=
  match items[i]? with
  | some item => .ok item
  | none => .error .refused

/-- The items of a range that lies in the slice. -/
def rangeOr (stop : Stop) (items : List α) (start stopAt : ℕ) : Run (List α) :=
  if start ≤ stopAt ∧ stopAt ≤ items.length then .ok ((items.drop start).take (stopAt - start))
  else .error stop

/-- `&items[start..stop]` and `items.get(start..stop)`. -/
def slice (items : List α) (start stop : ℕ) : Run (List α) := rangeOr .panicked items start stop

def getSlice (items : List α) (start stop : ℕ) : Run (List α) := rangeOr .refused items start stop

def sliceFrom (items : List α) (start : ℕ) : Run (List α) := slice items start items.length

theorem index_of_lt {i : ℕ} (hi : i < items.length) (default : α) :
    index items i = .ok (items.getD i default) := by
  rw [index, List.getD_eq_getElem?_getD, List.getElem?_eq_getElem hi]
  rfl

theorem get_settles (items : List α) (i : ℕ) : Settles (get items i) := by
  unfold get
  split
  · exact settles_ok _
  · exact settles_refused

theorem get_eq_ok {i : ℕ} {item : α} :
    get items i = .ok item ↔ items[i]? = some item := by
  unfold get
  cases items[i]? with
  | some found => simp
  | none => simp

theorem get_of_lt {i : ℕ} (hi : i < items.length) (default : α) :
    get items i = .ok (items.getD i default) := by
  rw [get, List.getD_eq_getElem?_getD, List.getElem?_eq_getElem hi]
  rfl

theorem get_of_le {i : ℕ} (hi : items.length ≤ i) : get items i = .error .refused := by
  rw [get, List.getElem?_eq_none hi]

/-- The items in front are decided by as many of them. -/
theorem get_take {n i : ℕ} (hi : i < n) : get (items.take n) i = get items i := by
  rw [get, get, List.getElem?_take_of_lt hi]

theorem slice_of_le {start stop : ℕ} (hle : start ≤ stop) (hstop : stop ≤ items.length) :
    slice items start stop = .ok ((items.drop start).take (stop - start)) := if_pos ⟨hle, hstop⟩

theorem sliceFrom_of_le {start : ℕ} (hstart : start ≤ items.length) :
    sliceFrom items start = .ok (items.drop start) := by
  rw [sliceFrom, slice_of_le hstart (Nat.le_refl _), ← List.length_drop, List.take_length]

theorem getSlice_settles (items : List α) (start stop : ℕ) : Settles (getSlice items start stop) := by
  unfold getSlice rangeOr
  split
  · exact settles_ok _
  · exact settles_refused

theorem rangeOr_eq_ok {reason : Stop} {items part : List α} {start stop : ℕ} :
    rangeOr reason items start stop = .ok part ↔
      (start ≤ stop ∧ stop ≤ items.length) ∧ (items.drop start).take (stop - start) = part := by
  unfold rangeOr
  split
  next h => simp [h]
  next h => simp [h]

theorem slice_eq_ok {items part : List α} {start stop : ℕ} :
    slice items start stop = .ok part ↔
      (start ≤ stop ∧ stop ≤ items.length) ∧ (items.drop start).take (stop - start) = part :=
  rangeOr_eq_ok

theorem getSlice_eq_ok {items part : List α} {start stop : ℕ} :
    getSlice items start stop = .ok part ↔
      (start ≤ stop ∧ stop ≤ items.length) ∧ (items.drop start).take (stop - start) = part :=
  rangeOr_eq_ok

/-! ### Loops over a slice -/

/-- `while !items.is_empty()`: a round reads a value and says how many items it uses. -/
def readAll (round : List α → Run (β × ℕ)) : ℕ → List α → List β → Run (List β)
  | _, [], values => .ok values
  | 0, _ :: _, _ => .error .unfinished
  | fuel + 1, item :: items, values => do
      let (value, used) ← round (item :: items)
      let rest ← sliceFrom (item :: items) used
      readAll round fuel rest (values ++ [value])

/-- The items that are left at the start of each round. -/
def positions (round : List α → Run (β × ℕ)) : ℕ → List α → List (List α)
  | _, [] => []
  | 0, _ :: _ => []
  | fuel + 1, item :: items =>
      (item :: items) ::
        match round (item :: items) with
        | .ok (_, used) => positions round fuel ((item :: items).drop used)
        | .error _ => []

def ranges (round : List α → Run (β × ℕ)) : ℕ → List α → List (List α)
  | _, [] => []
  | 0, _ :: _ => []
  | fuel + 1, item :: items =>
      match round (item :: items) with
      | .ok (_, used) =>
          (item :: items).take used :: ranges round fuel ((item :: items).drop used)
      | .error _ => []

/-- A round ends, and it uses at least one item and no more than there are. -/
structure Advances (round : List α → Run (β × ℕ)) : Prop where
  settles : ∀ items, items ≠ [] → Settles (round items)
  pos : ∀ {items value used}, round items = .ok (value, used) → 0 < used
  le : ∀ {items value used}, round items = .ok (value, used) → used ≤ items.length

section Loops

variable {round round' : List α → Run (β × ℕ)} {fuel : ℕ}

theorem readAll_cons (hround : Advances round) {item : α} {items : List α} {values : List β} :
    readAll round (fuel + 1) (item :: items) values =
      (round (item :: items) >>= fun read =>
        readAll round fuel ((item :: items).drop read.2) (values ++ [read.1])) := by
  rw [readAll]
  cases hread : round (item :: items) with
  | error stop => rfl
  | ok read =>
      obtain ⟨value, used⟩ := read
      change (sliceFrom (item :: items) used >>= fun rest => readAll round fuel rest _) = _
      rw [sliceFrom_of_le (hround.le hread)]
      rfl

/-- What a round leaves is shorter. -/
theorem Advances.length_drop (hround : Advances round) {item : α} {items : List α} {value : β}
    {used : ℕ} (hread : round (item :: items) = .ok (value, used))
    (hfuel : (item :: items).length ≤ fuel + 1) : ((item :: items).drop used).length ≤ fuel := by
  have hpos := hround.pos hread
  rw [List.length_drop]
  omega

/-- A loop with as many rounds as there are items settles. -/
theorem readAll_settles (hround : Advances round) :
    ∀ {items : List α} {values : List β}, items.length ≤ fuel →
      Settles (readAll round fuel items values) := by
  induction fuel with
  | zero =>
      intro items values hfuel
      cases List.eq_nil_of_length_eq_zero (Nat.le_zero.mp hfuel)
      exact settles_ok _
  | succ fuel ih =>
      intro items values hfuel
      cases items with
      | nil => exact settles_ok _
      | cons item items =>
          rw [readAll_cons hround]
          refine Settles.bind (hround.settles _ (List.cons_ne_nil _ _)) ?_
          intro read hread
          exact ih (hround.length_drop hread hfuel)

/-- Rounds that agree wherever the first loop starts one make loops that agree. -/
theorem readAll_congr (hround : Advances round) (hround' : Advances round') :
    ∀ {items : List α} {values : List β},
      (∀ item rest, item :: rest ∈ positions round fuel items →
        round' (item :: rest) = round (item :: rest)) →
      readAll round' fuel items values = readAll round fuel items values := by
  induction fuel with
  | zero =>
      intro items values _
      cases items <;> rfl
  | succ fuel ih =>
      intro items values hagree
      cases items with
      | nil => rfl
      | cons item items =>
          rw [readAll_cons hround, readAll_cons hround', hagree _ _ List.mem_cons_self]
          cases hread : round (item :: items) with
          | error stop => rfl
          | ok read =>
              refine ih fun item rest hrest => hagree item rest (List.mem_cons_of_mem _ ?_)
              rw [hread]
              exact hrest

/-- The ranges of a loop that ends make up the slice. -/
theorem flatten_ranges (hround : Advances round) :
    ∀ {items : List α} {values read : List β}, readAll round fuel items values = .ok read →
      (ranges round fuel items).flatten = items := by
  induction fuel with
  | zero =>
      intro items values read hread
      cases items with
      | nil => rfl
      | cons item items => cases hread
  | succ fuel ih =>
      intro items values read hread
      cases items with
      | nil => rfl
      | cons item items =>
          rw [readAll_cons hround] at hread
          obtain ⟨⟨value, used⟩, hvalue, hrest⟩ := bind_eq_ok.mp hread
          rw [ranges, hvalue]
          change (item :: items).take used ++ _ = _
          rw [ih hrest, List.take_append_drop]

/-- Each value is read in the round that uses its range. -/
theorem forall₂_ranges (hround : Advances round) {R : List α → β → Prop}
    (hreads : ∀ {items value used}, round items = .ok (value, used) → R (items.take used) value) :
    ∀ {items : List α} {values read : List β}, readAll round fuel items values = .ok read →
      ∃ more, read = values ++ more ∧ List.Forall₂ R (ranges round fuel items) more := by
  induction fuel with
  | zero =>
      intro items values read hread
      cases items with
      | nil =>
          cases hread
          exact ⟨[], (List.append_nil _).symm, .nil⟩
      | cons item items => cases hread
  | succ fuel ih =>
      intro items values read hread
      cases items with
      | nil =>
          cases hread
          exact ⟨[], (List.append_nil _).symm, .nil⟩
      | cons item items =>
          rw [readAll_cons hround] at hread
          obtain ⟨⟨value, used⟩, hvalue, hrest⟩ := bind_eq_ok.mp hread
          obtain ⟨more, rfl, hmore⟩ := ih hrest
          refine ⟨value :: more, by simp, ?_⟩
          rw [ranges, hvalue]
          exact .cons (hreads hvalue) hmore

/-- A round on exactly what it uses is a whole loop. -/
theorem readAll_single (hround : Advances round) {items : List α} {values : List β} {value : β}
    (hread : round items = .ok (value, items.length)) (hfuel : items.length ≤ fuel) :
    readAll round fuel items values = .ok (values ++ [value]) := by
  cases items with
  | nil => exact absurd (hround.pos hread) (Nat.lt_irrefl 0)
  | cons item items =>
      cases fuel with
      | zero => exact absurd hfuel (Nat.not_succ_le_zero _)
      | succ fuel =>
          rw [readAll_cons hround, hread]
          change readAll round fuel ((item :: items).drop (item :: items).length) _ = _
          rw [List.drop_length]
          cases fuel <;> rfl

end Loops

end Slices
