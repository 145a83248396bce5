/-
Module: OrdDogecoin.Lib.AtomicBatch
Purpose: A key-value store with one atomic batch.  While a batch is open every write goes to an
  overlay and every read looks there first; a commit applies the overlay, an abort drops it.  A
  program that only uses the operations of the store behaves in a batch as on a copy of its own.
Trusted boundary: none
Main exports: AtomicBatch.Store, Program.Avoids.get_exec, Program.batch_exec
-/
import OrdDogecoin.Lib.KeyTable

namespace AtomicBatch

open KeyTable

/-! ### The store -/

section Store

variable {K V : Type} [DecidableEq K]

/-- An open batch: the keys in the order of their first write, the rows written or removed, and the
list lengths seen. -/
structure Batch (K V : Type) where
  writes : List K
  overlay : KeyTable K (Option V)
  lens : KeyTable K ℕ

/-- Rows, cached list lengths, and the batch that is open. -/
structure Store (K V : Type) where
  rows : KeyTable K V
  lens : KeyTable K ℕ
  batch : Option (Batch K V)

/-- How the length of a list is stored. -/
structure LengthRow (V : Type) where
  read : V → Option ℕ
  write : ℕ → V

def Batch.store (batch : Batch K V) (key : K) (value : Option V) : Batch K V where
  writes := if (batch.overlay.lookup key).isSome then batch.writes else batch.writes ++ [key]
  overlay := batch.overlay.insert key value
  lens := batch.lens

namespace Store

variable (store : Store K V)

/-- There must be no batch open. -/
def begin : Option (Store K V) :=
  match store.batch with
  | some _ => none
  | none => some { store with batch := some { writes := [], overlay := ∅, lens := ∅ } }

def abort : Store K V := { store with batch := none }

/-- The rows as a store of their own, with no batch and no length seen. -/
def copy : Store K V := { rows := store.rows, lens := ∅, batch := none }

def applyWrite (overlay : KeyTable K (Option V)) (rows : KeyTable K V) (key : K) : KeyTable K V :=
  match overlay.lookup key with
  | some (some value) => rows.insert key value
  | some none => rows.erase key
  | none => rows

def commit : Store K V :=
  match store.batch with
  | none => store
  | some batch =>
      { rows := batch.writes.foldl (applyWrite batch.overlay) store.rows
        lens := batch.lens ∪ store.lens
        batch := none }

def get (key : K) : Option V :=
  match store.batch with
  | none => store.rows.lookup key
  | some batch => (batch.overlay.lookup key).getD (store.rows.lookup key)

def put (key : K) (value : V) : Store K V :=
  match store.batch with
  | none => { store with rows := store.rows.insert key value }
  | some batch => { store with batch := some (batch.store key (some value)) }

def del (key : K) : Store K V :=
  match store.batch with
  | none => { store with rows := store.rows.erase key }
  | some batch => { store with batch := some (batch.store key none) }

def cachedLength (key : K) : Option ℕ :=
  match store.batch with
  | none => store.lens.lookup key
  | some batch => batch.lens.lookup key

def cacheLength (key : K) (length : ℕ) : Store K V :=
  match store.batch with
  | none => { store with lens := store.lens.insert key length }
  | some batch => { store with batch := some { batch with lens := batch.lens.insert key length } }

/-- The length a list has after one more record, in 64 bits. -/
def nextLength (codec : LengthRow V) (lengthKey : K) : Option ℕ :=
  match store.cachedLength lengthKey with
  | some length => some ((length + 1) % 2 ^ 64)
  | none =>
      match store.get lengthKey with
      | some row => (codec.read row).map fun length => (length + 1) % 2 ^ 64
      | none => some 1

/-- Append a record to a list: its new length, unless the length cannot be read. -/
def append (codec : LengthRow V) (lengthKey : K) (item : ℕ → K) (data : V) :
    Option ℕ × Store K V :=
  match store.nextLength codec lengthKey with
  | none => (none, store)
  | some length =>
      (some length, ((store.cacheLength lengthKey length).put lengthKey (codec.write length)).put
        (item ((length + (2 ^ 64 - 1)) % 2 ^ 64)) data)

end Store

/-! ### Programs -/

/-- A program over the operations of the store. -/
inductive Program (K V α : Type) where
  | pure (value : α)
  | get (key : K) (next : Option V → Program K V α)
  | put (key : K) (value : V) (next : Program K V α)
  | del (key : K) (next : Program K V α)
  | append (lengthKey : K) (item : ℕ → K) (data : V) (next : Option ℕ → Program K V α)

namespace Program

variable {α : Type}

def exec (codec : LengthRow V) : Program K V α → Store K V → α × Store K V
  | .pure value, store => (value, store)
  | .get key next, store => (next (store.get key)).exec codec store
  | .put key value next, store => next.exec codec (store.put key value)
  | .del key next, store => next.exec codec (store.del key)
  | .append lengthKey item data next, store =>
      let (length, store) := store.append codec lengthKey item data
      (next length).exec codec store

/-- The program writes and removes no row whose key is protected. -/
inductive Avoids (guarded : K → Prop) : Program K V α → Prop where
  | pure (value : α) : Avoids guarded (.pure value)
  | get {key : K} {next : Option V → Program K V α} (rest : ∀ found, Avoids guarded (next found)) :
      Avoids guarded (.get key next)
  | put {key : K} {value : V} {next : Program K V α} (hkey : ¬ guarded key)
      (rest : Avoids guarded next) : Avoids guarded (.put key value next)
  | del {key : K} {next : Program K V α} (hkey : ¬ guarded key) (rest : Avoids guarded next) :
      Avoids guarded (.del key next)
  | append {lengthKey : K} {item : ℕ → K} {data : V} {next : Option ℕ → Program K V α}
      (hlength : ¬ guarded lengthKey) (hitem : ∀ index, ¬ guarded (item index))
      (rest : ∀ length, Avoids guarded (next length)) :
      Avoids guarded (.append lengthKey item data next)

/-- Run a program and then one that depends on its result. -/
def bind {β : Type} : Program K V α → (α → Program K V β) → Program K V β
  | .pure value, rest => rest value
  | .get key next, rest => .get key fun found => (next found).bind rest
  | .put key value next, rest => .put key value (next.bind rest)
  | .del key next, rest => .del key (next.bind rest)
  | .append lengthKey item data next, rest =>
      .append lengthKey item data fun length => (next length).bind rest

omit [DecidableEq K] in
theorem Avoids.bind {β : Type} {guarded : K → Prop} {program : Program K V α}
    {rest : α → Program K V β} (avoids : program.Avoids guarded)
    (hrest : ∀ value, (rest value).Avoids guarded) : (program.bind rest).Avoids guarded := by
  induction avoids with
  | pure value => exact hrest value
  | get _ ih => exact .get ih
  | put hkey _ ih => exact .put hkey ih
  | del hkey _ ih => exact .del hkey ih
  | append hlength hitem _ ih => exact .append hlength hitem ih

omit [DecidableEq K] in
/-- What avoids more keys avoids fewer. -/
theorem Avoids.mono {guarded fewer : K → Prop} {program : Program K V α}
    (avoids : program.Avoids guarded) (hfewer : ∀ key, fewer key → guarded key) :
    program.Avoids fewer := by
  induction avoids with
  | pure value => exact .pure value
  | get _ ih => exact .get ih
  | put hkey _ ih => exact .put (fun hguarded => hkey (hfewer _ hguarded)) ih
  | del hkey _ ih => exact .del (fun hguarded => hkey (hfewer _ hguarded)) ih
  | append hlength hitem _ ih =>
      exact .append (fun hguarded => hlength (hfewer _ hguarded))
        (fun index hguarded => hitem index (hfewer _ hguarded)) ih

theorem exec_bind {β : Type} (codec : LengthRow V) (program : Program K V α)
    (rest : α → Program K V β) (store : Store K V) :
    (program.bind rest).exec codec store =
      (rest (program.exec codec store).1).exec codec (program.exec codec store).2 := by
  induction program generalizing store with
  | pure value => rfl
  | get key next ih => exact ih _ store
  | put key value next ih => exact ih _
  | del key next ih => exact ih _
  | append lengthKey item data next ih => exact ih _ _

end Program

/-! ### A batch as a copy of its own -/

/-- The store has a batch open over the rows of `base`, and shows what `plain` has. -/
structure Overlaid (base store plain : Store K V) : Prop where
  rows : store.rows = base.rows
  lens : store.lens = base.lens
  closed : plain.batch = none
  opened : ∃ batch, store.batch = some batch ∧ plain.lens = batch.lens ∧
    (∀ key, plain.rows.lookup key = (batch.overlay.lookup key).getD (base.rows.lookup key)) ∧
    ∀ key, (batch.overlay.lookup key).isSome ↔ key ∈ batch.writes

namespace Overlaid

variable {base store plain : Store K V}

/-- A new batch shows the rows, and no cached length. -/
theorem of_begin (hbegin : base.begin = some store) :
    Overlaid base store base.copy := by
  unfold Store.begin at hbegin
  cases hbatch : base.batch with
  | some batch => simp [hbatch] at hbegin
  | none =>
      rw [hbatch] at hbegin
      cases hbegin
      exact ⟨rfl, rfl, rfl, _, rfl, rfl, fun key => by simp [Store.copy], fun key => by simp⟩

theorem get_eq (overlaid : Overlaid base store plain) (key : K) : store.get key = plain.get key := by
  obtain ⟨batch, hbatch, -, hlookup, -⟩ := overlaid.opened
  simp only [Store.get, hbatch, overlaid.closed, hlookup key, overlaid.rows]

/-- A write to the batch is a write to the copy. -/
theorem write {value : Option V} {rows : KeyTable K V} {batch : Batch K V} {key : K}
    (overlaid : Overlaid base store plain) (hbatch : store.batch = some batch)
    (hrows : ∀ other, rows.lookup other = if other = key then value else plain.rows.lookup other) :
    Overlaid base { store with batch := some (batch.store key value) }
      { plain with rows := rows, batch := none } := by
  obtain ⟨found, hfound, hlens, hlookup, hwrites⟩ := overlaid.opened
  rw [hbatch] at hfound
  cases hfound
  refine ⟨overlaid.rows, overlaid.lens, rfl, _, rfl, hlens, ?_, ?_⟩
  · intro other
    simp only [hrows, Batch.store, lookup_insert_ite]
    split
    · rfl
    · exact hlookup other
  · intro other
    simp only [Batch.store, lookup_insert_ite]
    by_cases hsame : other = key
    · subst hsame
      rw [if_pos rfl]
      split
      next hold => simpa using (hwrites other).1 hold
      next => simp
    · rw [if_neg hsame, hwrites]
      split
      · rfl
      · simp [hsame]

theorem put (overlaid : Overlaid base store plain) (key : K) (value : V) :
    Overlaid base (store.put key value) (plain.put key value) := by
  obtain ⟨batch, hbatch, -⟩ := overlaid.opened
  simp only [Store.put, hbatch, overlaid.closed]
  apply overlaid.write hbatch
  exact fun other => lookup_insert_ite _ _ _ _

theorem del (overlaid : Overlaid base store plain) (key : K) :
    Overlaid base (store.del key) (plain.del key) := by
  obtain ⟨batch, hbatch, -⟩ := overlaid.opened
  simp only [Store.del, hbatch, overlaid.closed]
  apply overlaid.write hbatch
  exact fun other => lookup_erase_ite _ _ _

theorem nextLength_eq (overlaid : Overlaid base store plain) (codec : LengthRow V) (key : K) :
    store.nextLength codec key = plain.nextLength codec key := by
  obtain ⟨batch, hbatch, hlens, -⟩ := overlaid.opened
  have hcached : store.cachedLength key = plain.cachedLength key := by
    simp only [Store.cachedLength, hbatch, overlaid.closed, hlens]
  unfold Store.nextLength
  rw [hcached, overlaid.get_eq]

theorem cacheLength (overlaid : Overlaid base store plain) (key : K) (length : ℕ) :
    Overlaid base (store.cacheLength key length) (plain.cacheLength key length) := by
  obtain ⟨batch, hbatch, hlens, hlookup, hwrites⟩ := overlaid.opened
  simp only [Store.cacheLength, hbatch, overlaid.closed]
  refine ⟨overlaid.rows, overlaid.lens, rfl, _, rfl, ?_, hlookup, hwrites⟩
  rw [hlens]

theorem append (overlaid : Overlaid base store plain) (codec : LengthRow V) (lengthKey : K)
    (item : ℕ → K) (data : V) :
    (store.append codec lengthKey item data).1 = (plain.append codec lengthKey item data).1 ∧
      Overlaid base (store.append codec lengthKey item data).2
        (plain.append codec lengthKey item data).2 := by
  unfold Store.append
  rw [overlaid.nextLength_eq]
  cases plain.nextLength codec lengthKey with
  | none => exact ⟨rfl, overlaid⟩
  | some length => exact ⟨rfl, ((overlaid.cacheLength _ _).put _ _).put _ _⟩

/-- A program in a batch returns what it returns on the copy, and leaves what it leaves there. -/
theorem exec {α : Type} (codec : LengthRow V) (program : Program K V α)
    (overlaid : Overlaid base store plain) :
    (program.exec codec store).1 = (program.exec codec plain).1 ∧
      Overlaid base (program.exec codec store).2 (program.exec codec plain).2 := by
  induction program generalizing store plain with
  | pure value => exact ⟨rfl, overlaid⟩
  | get key next ih =>
      simp only [Program.exec, overlaid.get_eq]
      exact ih _ overlaid
  | put key value next ih => exact ih (overlaid.put key value)
  | del key next ih => exact ih (overlaid.del key)
  | append lengthKey item data next ih =>
      obtain ⟨hlength, hrest⟩ := overlaid.append codec lengthKey item data
      simp only [Program.exec, hlength]
      exact ih _ hrest

/-- An abort leaves what was there before. -/
theorem abort_eq (overlaid : Overlaid base store plain) (hbase : base.batch = none) :
    store.abort = base := by
  unfold Store.abort
  rw [overlaid.rows, overlaid.lens, ← hbase]

omit [DecidableEq K] in
theorem lookup_applyWrites [DecidableEq K] (overlay : KeyTable K (Option V)) (key : K) :
    ∀ (writes : List K) (rows : KeyTable K V),
      (writes.foldl (Store.applyWrite overlay) rows).lookup key =
        if key ∈ writes then (overlay.lookup key).getD (rows.lookup key) else rows.lookup key
  | [], rows => by simp
  | head :: writes, rows => by
      have hstep : (Store.applyWrite overlay rows head).lookup key =
          if key = head then (overlay.lookup key).getD (rows.lookup key) else rows.lookup key := by
        unfold Store.applyWrite
        by_cases hhead : key = head
        · subst hhead
          rw [if_pos rfl]
          split
          next value hvalue => simp [hvalue]
          next hvalue => simp [hvalue]
          next hvalue => simp [hvalue]
        · rw [if_neg hhead]
          split
          next value _ => rw [lookup_insert_ite, if_neg hhead]
          next => rw [lookup_erase_ite, if_neg hhead]
          next => rfl
      rw [List.foldl_cons, lookup_applyWrites overlay key writes, hstep]
      by_cases hhead : key = head
      · subst hhead
        cases overlay.lookup key with
        | none => simp
        | some value => simp
      · simp [hhead]

/-- A commit leaves the rows of the copy, and the lengths the batch has seen before the others. -/
theorem commit_spec (overlaid : Overlaid base store plain) :
    store.commit.batch = none ∧
      (∀ key, store.commit.rows.lookup key = plain.rows.lookup key) ∧
      store.commit.lens = plain.lens ∪ base.lens := by
  obtain ⟨batch, hbatch, hlens, hlookup, hwrites⟩ := overlaid.opened
  simp only [Store.commit, hbatch]
  refine ⟨trivial, fun key => ?_, by rw [hlens, overlaid.lens]⟩
  rw [lookup_applyWrites, hlookup, overlaid.rows]
  split
  · rfl
  next hunwritten =>
    have hnone : batch.overlay.lookup key = none := by
      cases hfound : batch.overlay.lookup key with
      | none => rfl
      | some value => exact absurd ((hwrites key).1 (by rw [hfound]; rfl)) hunwritten
    rw [hnone]
    rfl

end Overlaid

/-! ### Frames -/

namespace Store

variable {store : Store K V} {key other : K}

theorem get_put_of_ne (hne : other ≠ key) (value : V) :
    (store.put key value).get other = store.get other := by
  unfold Store.put
  cases hbatch : store.batch with
  | none => simp [Store.get, hbatch, hne]
  | some batch => simp [Store.get, hbatch, Batch.store, hne]

theorem get_put_self (store : Store K V) (key : K) (value : V) :
    (store.put key value).get key = some value := by
  unfold Store.put
  cases hbatch : store.batch with
  | none => simp [Store.get]
  | some batch => simp [Store.get, Batch.store]

theorem get_del_of_ne (hne : other ≠ key) : (store.del key).get other = store.get other := by
  unfold Store.del
  cases hbatch : store.batch with
  | none => simp [Store.get, hbatch, hne]
  | some batch => simp [Store.get, hbatch, Batch.store, hne]

theorem get_cacheLength (length : ℕ) : (store.cacheLength key length).get other = store.get other := by
  unfold Store.cacheLength
  cases hbatch : store.batch with
  | none => simp [Store.get, hbatch]
  | some batch => simp [Store.get, hbatch]

theorem get_append_of_ne (codec : LengthRow V) {item : ℕ → K} {data : V} (hlength : other ≠ key)
    (hitem : ∀ index, other ≠ item index) :
    (store.append codec key item data).2.get other = store.get other := by
  unfold Store.append
  cases store.nextLength codec key with
  | none => rfl
  | some length =>
      simp only
      rw [get_put_of_ne (hitem _), get_put_of_ne hlength, get_cacheLength]

end Store

theorem Store.get_append_self (store : Store K V) (codec : LengthRow V) {key : K} {item : ℕ → K}
    (data : V) {length : ℕ} (hitem : ∀ index, key ≠ item index)
    (hnext : store.nextLength codec key = some length) :
    (store.append codec key item data).1 = some length ∧
      (store.append codec key item data).2.get key = some (codec.write length) ∧
      (store.append codec key item data).2.get (item ((length + (2 ^ 64 - 1)) % 2 ^ 64)) =
        some data := by
  unfold Store.append
  rw [hnext]
  refine ⟨rfl, ?_, ?_⟩
  · simp only
    rw [get_put_of_ne (hitem _), get_put_self]
  · exact get_put_self _ _ _

/-- A program that avoids the protected keys leaves their rows. -/
theorem Program.Avoids.get_exec {α : Type} {guarded : K → Prop} {program : Program K V α}
    (avoids : program.Avoids guarded) (codec : LengthRow V) {key : K} (hkey : guarded key)
    (store : Store K V) : (program.exec codec store).2.get key = store.get key := by
  induction avoids generalizing store with
  | pure value => rfl
  | get rest ih => exact ih _ _
  | put hother rest ih =>
      rw [Program.exec, ih, Store.get_put_of_ne]
      rintro rfl
      exact hother hkey
  | del hother rest ih =>
      rw [Program.exec, ih, Store.get_del_of_ne]
      rintro rfl
      exact hother hkey
  | append hlength hitem rest ih =>
      simp only [Program.exec]
      rw [ih, Store.get_append_of_ne]
      · rintro rfl
        exact hlength hkey
      · intro index
        rintro rfl
        exact hitem index hkey

/-- A program opens no batch. -/
theorem Program.batch_exec {α : Type} (codec : LengthRow V) (program : Program K V α)
    {store : Store K V} (hclosed : store.batch = none) :
    (program.exec codec store).2.batch = none := by
  have hput : ∀ {store : Store K V} (key : K) (value : V), store.batch = none →
      (store.put key value).batch = none := by
    intro store key value hclosed
    simp [Store.put, hclosed]
  induction program generalizing store with
  | pure value => exact hclosed
  | get key next ih => exact ih _ hclosed
  | put key value next ih => exact ih (hput key value hclosed)
  | del key next ih =>
      apply ih
      simp [Store.del, hclosed]
  | append lengthKey item data next ih =>
      have hnext : (store.append codec lengthKey item data).2.batch = none := by
        unfold Store.append
        split
        next => exact hclosed
        next length _ =>
          apply hput
          apply hput
          simp [Store.cacheLength, hclosed]
      exact ih _ hnext

end Store

end AtomicBatch
