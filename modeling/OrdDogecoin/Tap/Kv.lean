/-
Module: OrdDogecoin.Tap.Kv
Purpose: The key-value rows of the TAP engine: the table, the overlay of the block, the overlay of an
  atomic batch, and the two caches of list lengths.  What the handlers read is what a plain map with
  rollback returns, as long as no row of a cached length is written directly.
Trusted boundary: rows are their encoded bytes; `LengthRow` stands for the encoding of a decimal text;
  the export journal and its file errors are left out
Main exports: TapBatch, KvState.view_step, kv_refines_plain
-/
import OrdDogecoin.Tap.Json
import OrdDogecoin.Lib.Rollback

namespace OrdDogecoin.Tap

open AtomicBatch KeyTable

variable {V : Type}

/-! ### The layers -/

/-- `TapBatch`: the table, and the rows written since the block began. -/
structure TapBatch (V : Type) where
  table : KeyTable Text V
  overlay : KeyTable Text V

namespace TapBatch

variable (db : TapBatch V)

def get (key : Text) : Option V :=
  match db.overlay.lookup key with
  | some value => some value
  | none => db.table.lookup key

def put (key : Text) (value : V) : TapBatch V := { db with overlay := db.overlay.insert key value }

/-- Every row of the overlay goes into the table. -/
def flush : TapBatch V := { table := db.overlay ∪ db.table, overlay := ∅ }

def del (key : Text) : TapBatch V :=
  { table := db.table.erase key, overlay := db.overlay.erase key }

/-- The rows of both layers. -/
def rows : KeyTable Text V := db.overlay ∪ db.table

end TapBatch

/-- The rows, the lengths cached in this block, and the batch that is open: its writes in order, its
overlay, and the lengths it has cached. -/
structure KvState (V : Type) where
  tapDb : TapBatch V
  listLenCache : KeyTable Text ℕ
  atomic : Option (Batch Text V)

def listKey (iteratorKey : Text) (index : ℕ) : Text := iteratorKey ++ '/' :: Nat.toDigits 10 index

def tapLeanNextNumberKey : Text := "_lean/next_number".toList

namespace KvState

variable (codec : LengthRow V) (state : KvState V)

/-- `tap_atomic_begin`: a nested batch panics. -/
def tapAtomicBegin : Option (KvState V) :=
  match state.atomic with
  | some _ => none
  | none => some { state with atomic := some { writes := [], overlay := ∅, lens := ∅ } }

def tapAtomicAbort : KvState V := { state with atomic := none }

/-- One write of a committed batch.  A key is in the list of writes once, so that taking it out of the
overlay on the way changes nothing. -/
def commitWrite (overlay : KeyTable Text (Option V)) (db : TapBatch V) (key : Text) : TapBatch V :=
  match overlay.lookup key with
  | some (some value) => db.put key value
  | some none => db.del key
  | none => db

def tapAtomicCommit : KvState V :=
  match state.atomic with
  | none => state
  | some batch =>
      { tapDb := batch.writes.foldl (commitWrite batch.overlay) state.tapDb
        listLenCache := batch.lens ∪ state.listLenCache
        atomic := none }

/-- `tap_put` of an encoded row. -/
def tapPut (key : Text) (value : V) : KvState V :=
  match state.atomic with
  | some batch => { state with atomic := some (batch.store key (some value)) }
  | none => { state with tapDb := state.tapDb.put key value }

def tapDel (key : Text) : KvState V :=
  match state.atomic with
  | some batch => { state with atomic := some (batch.store key none) }
  | none => { state with tapDb := state.tapDb.del key }

/-- `tap_get` before decoding. -/
def tapGet (key : Text) : Option V :=
  match state.atomic with
  | none => state.tapDb.get key
  | some batch =>
      match batch.overlay.lookup key with
      | some value => value
      | none => state.tapDb.get key

/-- The length after one more record, from the stored row. -/
def storedLength (lengthKey : Text) : Option ℕ :=
  match state.tapGet lengthKey with
  | some row => (codec.read row).map fun length => (length + 1) % 2 ^ 64
  | none => some 1

/-- The length after one more record: the cached one of the batch, or of the block outside of a
batch, before the stored one. -/
def listLength (lengthKey : Text) : Option ℕ :=
  let cached := match state.atomic with
    | some batch => batch.lens.lookup lengthKey
    | none => state.listLenCache.lookup lengthKey
  match cached with
  | some length => some ((length + 1) % 2 ^ 64)
  | none => state.storedLength codec lengthKey

/-- The length goes into the cache that is in use. -/
def cacheLength (lengthKey : Text) (length : ℕ) : KvState V :=
  match state.atomic with
  | some batch => { state with atomic := some { batch with lens := batch.lens.insert lengthKey length } }
  | none => { state with listLenCache := state.listLenCache.insert lengthKey length }

/-- `tap_set_list_record`: the new length, unless the stored one cannot be read. -/
def tapSetListRecord (lengthKey iteratorKey : Text) (data : V) : Option ℕ × KvState V :=
  match state.listLength codec lengthKey with
  | none => (none, state)
  | some length =>
      (some length, ((state.cacheLength lengthKey length).tapPut lengthKey (codec.write length)).tapPut
        (listKey iteratorKey (recordIndex length)) data)

/-- `tap_finalize_block`; a lean index stores its next number first. -/
def tapFinalizeBlock (nextNumber : Option V) : KvState V :=
  let db := match nextNumber with
    | none => state.tapDb
    | some number => state.tapDb.put tapLeanNextNumberKey number
  { state with tapDb := db.flush, listLenCache := ∅ }

end KvState

/-! ### Calls -/

inductive KvOp (V : Type) where
  | tapPut (key : Text) (value : V)
  | tapDel (key : Text)
  | tapGet (key : Text)
  | tapSetListRecord (lengthKey iteratorKey : Text) (data : V)
  | tapAtomicBegin
  | tapAtomicCommit
  | tapAtomicAbort
  | tapFinalizeBlock (nextNumber : Option V)

def KvState.step (codec : LengthRow V) (state : KvState V) : KvOp V → Option (Reply V × KvState V)
  | .tapPut key value => some (.done, state.tapPut key value)
  | .tapDel key => some (.done, state.tapDel key)
  | .tapGet key => some (.row (state.tapGet key), state)
  | .tapSetListRecord lengthKey iteratorKey data =>
      some (.length (state.tapSetListRecord codec lengthKey iteratorKey data).1,
        (state.tapSetListRecord codec lengthKey iteratorKey data).2)
  | .tapAtomicBegin => state.tapAtomicBegin.map fun opened => (.done, opened)
  | .tapAtomicCommit => some (.done, state.tapAtomicCommit)
  | .tapAtomicAbort => some (.done, state.tapAtomicAbort)
  | .tapFinalizeBlock nextNumber => some (.done, state.tapFinalizeBlock nextNumber)

/-- The call as an operation of a store with one layer of rows. -/
def KvOp.op : KvOp V → Op Text V
  | .tapPut key value => .put key value
  | .tapDel key => .del key
  | .tapGet key => .get key
  | .tapSetListRecord lengthKey iteratorKey data => .append lengthKey (listKey iteratorKey) data
  | .tapAtomicBegin => .begin
  | .tapAtomicCommit => .commit
  | .tapAtomicAbort => .abort
  | .tapFinalizeBlock nextNumber => .settle (nextNumber.map fun number => (tapLeanNextNumberKey, number))

/-! ### One layer of rows -/

namespace TapBatch

variable (db : TapBatch V)

theorem get_eq (key : Text) : db.get key = db.rows.lookup key := by
  unfold get rows
  cases hoverlay : db.overlay.lookup key with
  | some value =>
      have hmem : key ∈ db.overlay := AList.lookup_isSome.1 (by rw [hoverlay]; rfl)
      rw [AList.lookup_union_left hmem, hoverlay]
  | none =>
      have hmem : key ∉ db.overlay := AList.lookup_eq_none.1 hoverlay
      rw [AList.lookup_union_right hmem]

@[simp] theorem rows_put (key : Text) (value : V) : (db.put key value).rows = db.rows.insert key value :=
  AList.insert_union.symm

@[simp] theorem rows_del (key : Text) : (db.del key).rows = db.rows.erase key :=
  (AList.union_erase key db.overlay db.table).symm

@[simp] theorem rows_flush : db.flush.rows = db.rows := AList.empty_union

end TapBatch

namespace KvState

variable (state : KvState V)

/-- The state with the two layers of rows as one. -/
def view : Store Text V := { rows := state.tapDb.rows, lens := state.listLenCache, batch := state.atomic }

theorem view_tapPut (key : Text) (value : V) : (state.tapPut key value).view = state.view.put key value := by
  unfold tapPut Store.put view
  cases state.atomic with
  | none => simp
  | some batch => rfl

theorem view_tapDel (key : Text) : (state.tapDel key).view = state.view.del key := by
  unfold tapDel Store.del view
  cases state.atomic with
  | none => simp
  | some batch => rfl

theorem view_tapGet (key : Text) : state.tapGet key = state.view.get key := by
  unfold tapGet Store.get view
  cases state.atomic with
  | none => exact state.tapDb.get_eq key
  | some batch =>
      cases hoverlay : batch.overlay.lookup key with
      | none => simpa [hoverlay] using state.tapDb.get_eq key
      | some value => simp [hoverlay]

theorem view_cacheLength (key : Text) (length : ℕ) :
    (state.cacheLength key length).view = state.view.cacheLength key length := by
  unfold cacheLength Store.cacheLength view
  cases state.atomic with
  | none => rfl
  | some batch => rfl

theorem view_listLength (codec : LengthRow V) (key : Text) :
    state.listLength codec key = state.view.nextLength codec key := by
  have hcached : (match state.atomic with
      | some batch => batch.lens.lookup key
      | none => state.listLenCache.lookup key) = state.view.cachedLength key := by
    unfold Store.cachedLength view
    cases state.atomic with
    | none => rfl
    | some batch => rfl
  unfold Store.nextLength
  rw [← hcached, ← view_tapGet]
  rfl

theorem view_tapSetListRecord (codec : LengthRow V) (lengthKey iteratorKey : Text) (data : V) :
    (state.tapSetListRecord codec lengthKey iteratorKey data).1 =
        (state.view.append codec lengthKey (listKey iteratorKey) data).1 ∧
      (state.tapSetListRecord codec lengthKey iteratorKey data).2.view =
        (state.view.append codec lengthKey (listKey iteratorKey) data).2 := by
  unfold tapSetListRecord Store.append
  rw [view_listLength]
  cases state.view.nextLength codec lengthKey with
  | none => exact ⟨rfl, rfl⟩
  | some length =>
      refine ⟨rfl, ?_⟩
      simp only [view_tapPut, view_cacheLength]
      rfl

theorem rows_commitWrites (overlay : KeyTable Text (Option V)) :
    ∀ (writes : List Text) (db : TapBatch V),
      (writes.foldl (commitWrite overlay) db).rows = writes.foldl (Store.applyWrite overlay) db.rows
  | [], db => rfl
  | key :: writes, db => by
      have hwrite : (commitWrite overlay db key).rows = Store.applyWrite overlay db.rows key := by
        unfold commitWrite Store.applyWrite
        cases overlay.lookup key with
        | none => rfl
        | some value =>
            cases value with
            | none => simp
            | some row => simp
      rw [List.foldl_cons, List.foldl_cons, rows_commitWrites overlay writes, hwrite]

theorem view_tapAtomicCommit : state.tapAtomicCommit.view = state.view.commit := by
  cases hatomic : state.atomic with
  | none => simp [tapAtomicCommit, Store.commit, view, hatomic]
  | some batch => simp [tapAtomicCommit, Store.commit, view, hatomic, rows_commitWrites]

theorem view_tapFinalizeBlock (nextNumber : Option V) :
    (state.tapFinalizeBlock nextNumber).view =
      state.view.settle (nextNumber.map fun number => (tapLeanNextNumberKey, number)) := by
  unfold tapFinalizeBlock Store.settle view
  cases nextNumber with
  | none => simp [insertRow]
  | some number => simp [insertRow]

/-- Every call is the operation on one layer of rows. -/
theorem view_step (codec : LengthRow V) (op : KvOp V) :
    (state.step codec op).map (fun next => (next.1, next.2.view)) = state.view.step codec op.op := by
  cases op with
  | tapPut key value => simp [step, KvOp.op, Store.step, view_tapPut]
  | tapDel key => simp [step, KvOp.op, Store.step, view_tapDel]
  | tapGet key => simp [step, KvOp.op, Store.step, view_tapGet]
  | tapSetListRecord lengthKey iteratorKey data =>
      obtain ⟨hlength, hview⟩ := state.view_tapSetListRecord codec lengthKey iteratorKey data
      simp [step, KvOp.op, Store.step, hlength, hview]
  | tapAtomicBegin =>
      unfold step tapAtomicBegin KvOp.op Store.step Store.begin view
      cases state.atomic with
      | none => rfl
      | some batch => rfl
  | tapAtomicCommit => simp [step, KvOp.op, Store.step, view_tapAtomicCommit]
  | tapAtomicAbort => rfl
  | tapFinalizeBlock nextNumber => simp [step, KvOp.op, Store.step, view_tapFinalizeBlock]

/-! ### Discipline -/

/-- A length is cached under the key, by the block or by the batch. -/
def CachesLength (key : Text) : Prop :=
  (state.listLenCache.lookup key).isSome ∨ ∃ batch ∈ state.atomic, (batch.lens.lookup key).isSome

instance (key : Text) : Decidable (state.CachesLength key) :=
  inferInstanceAs (Decidable (_ ∨ ∃ batch ∈ state.atomic, (batch.lens.lookup key).isSome))

/-- No row of a cached length is written but as that length, and a block ends outside of a batch. -/
def Disciplined (codec : LengthRow V) (state : KvState V) : KvOp V → Prop
  | .tapPut key _ => ¬ state.CachesLength key
  | .tapDel key => ¬ state.CachesLength key
  | .tapSetListRecord lengthKey iteratorKey _ => ∀ length ∈ state.listLength codec lengthKey,
      listKey iteratorKey (recordIndex length) ≠ lengthKey ∧
        ¬ state.CachesLength (listKey iteratorKey (recordIndex length))
  | .tapFinalizeBlock _ => state.atomic = none
  | _ => True

instance (codec : LengthRow V) (state : KvState V) (call : KvOp V) :
    Decidable (state.Disciplined codec call) :=
  match call with
  | .tapPut key _ => inferInstanceAs (Decidable (¬ state.CachesLength key))
  | .tapDel key => inferInstanceAs (Decidable (¬ state.CachesLength key))
  | .tapSetListRecord lengthKey iteratorKey _ =>
      inferInstanceAs (Decidable (∀ length ∈ state.listLength codec lengthKey,
        listKey iteratorKey (recordIndex length) ≠ lengthKey ∧
          ¬ state.CachesLength (listKey iteratorKey (recordIndex length))))
  | .tapFinalizeBlock _ =>
      decidable_of_iff (state.atomic.isNone = true) Option.isNone_iff_eq_none
  | .tapGet _ | .tapAtomicBegin | .tapAtomicCommit | .tapAtomicAbort => isTrue trivial

theorem view_disciplined {codec : LengthRow V} (state : KvState V) (op : KvOp V)
    (disciplined : state.Disciplined codec op) : state.view.Disciplined codec op.op := by
  cases op with
  | tapPut key value => exact disciplined
  | tapDel key => exact disciplined
  | tapSetListRecord lengthKey iteratorKey data =>
      intro length hlength
      rw [← view_listLength] at hlength
      exact disciplined length hlength
  | tapFinalizeBlock nextNumber => exact disciplined
  | _ => trivial

/-- The state before any call of a block. -/
def start (table : KeyTable Text V) : KvState V :=
  { tapDb := { table := table, overlay := ∅ }, listLenCache := ∅, atomic := none }

theorem view_start (table : KeyTable Text V) :
    (start table).view = { rows := table, lens := ∅, batch := none } := by
  simp [start, view, TapBatch.rows]

/-! ### Lists -/

/-- The cached length in use: that of the batch, or of the block outside of a batch. -/
def cachedLength (key : Text) : Option ℕ :=
  match state.atomic with
  | some batch => batch.lens.lookup key
  | none => state.listLenCache.lookup key

/-- The list as it is read: the stored length, the records under the indices below it and no other,
and the cached length. -/
structure HoldsList (codec : LengthRow V) (state : KvState V) (lengthKey iteratorKey : Text)
    (records : List V) : Prop where
  length : state.tapGet lengthKey =
    if records.isEmpty then none else some (codec.write records.length)
  items : ∀ index, state.tapGet (listKey iteratorKey index) = records[index]?
  cached : ∀ length ∈ state.cachedLength lengthKey, length = records.length

end KvState

theorem listKey_injective (iteratorKey : Text) : Function.Injective (listKey iteratorKey) := by
  intro index index' hkeys
  have hdigits := List.append_cancel_left hkeys
  rw [List.cons.injEq] at hdigits
  exact toDigits_injective hdigits.2

/-- The call writes rows of the list only by appending to it. -/
def KvOp.Respects (lengthKey iteratorKey : Text) : KvOp V → Prop
  | .tapPut key _ => ¬ OfList lengthKey (listKey iteratorKey) key
  | .tapDel key => ¬ OfList lengthKey (listKey iteratorKey) key
  | .tapSetListRecord other items _ => (other = lengthKey → items = iteratorKey) ∧
      (other ≠ lengthKey → ¬ OfList lengthKey (listKey iteratorKey) other ∧
        ∀ index, ¬ OfList lengthKey (listKey iteratorKey) (listKey items index))
  | .tapFinalizeBlock (some _) => ¬ OfList lengthKey (listKey iteratorKey) tapLeanNextNumberKey
  | _ => True

theorem KvOp.Respects.op {lengthKey iteratorKey : Text} {call : KvOp V}
    (respects : call.Respects lengthKey iteratorKey) :
    call.op.Respects lengthKey (listKey iteratorKey) := by
  cases call with
  | tapPut key value => exact respects
  | tapDel key => exact respects
  | tapSetListRecord other items data =>
      refine ⟨fun hother => ?_, respects.2⟩
      rw [respects.1 hother]
  | tapFinalizeBlock nextNumber =>
      cases nextNumber with
      | none => exact fun entry hentry => (nomatch hentry)
      | some number =>
          rintro _ ⟨⟩
          exact respects
  | _ => trivial

/-- The records of a list after the calls, when it held `records` before them: those appended and not
rolled back. -/
def recordsAfter (lengthKey : Text) (records : List V) (calls : List (KvOp V)) : List V :=
  ((calls.map KvOp.op).foldl (listed lengthKey) (records, none)).1

namespace KvState

variable {codec : LengthRow V} {state : KvState V}

theorem view_cachedLength (key : Text) : state.cachedLength key = state.view.cachedLength key := by
  unfold cachedLength Store.cachedLength view
  cases state.atomic with
  | none => rfl
  | some batch => rfl

/-- A list that is stored in the map is read as that list. -/
theorem HoldsList.of_refines (lawful : codec.Lawful) {plain : AtomicBatch.Plain Text V}
    (refines : Refines codec state.view plain) {lengthKey iteratorKey : Text} {records : List V}
    (stored : ListStored codec plain.rows lengthKey (listKey iteratorKey) records)
    (hfits : records.length < 2 ^ 64) : state.HoldsList codec lengthKey iteratorKey records where
  length := by
    rw [view_tapGet, refines.get_eq]
    exact stored.length
  items index := by
    rw [view_tapGet, refines.get_eq]
    exact stored.items index
  cached length hlength := by
    rw [Option.mem_def, view_cachedLength] at hlength
    obtain ⟨hlt, hrow⟩ := refines.cached_length hlength
    rw [stored.length] at hrow
    split at hrow
    · cases hrow
    · have hread := lawful _ hfits
      rw [Option.some.inj hrow, lawful _ hlt] at hread
      exact Option.some.inj hread

end KvState

/-- Every disciplined run from the start of a block returns what a plain map with rollback returns.
A list whose rows are only written by appending stays stored densely, and its length, cached or
stored, is the number of its records. -/
theorem kv_refines_plain {codec : LengthRow V} (lawful : codec.Lawful) (table : KeyTable Text V)
    (calls : List (KvOp V))
    (disciplined : AlongOps (KvState.step codec) (KvState.Disciplined codec) calls
      (KvState.start table)) :
    (execOps (KvState.step codec) calls (KvState.start table)).map Prod.fst =
        (execOps (Plain.step codec) (calls.map KvOp.op) { rows := table, saved := none }).map Prod.fst ∧
      ∀ (lengthKey iteratorKey : Text) (records : List V),
        (∀ index, lengthKey ≠ listKey iteratorKey index) →
        ListStored codec table lengthKey (listKey iteratorKey) records →
        (∀ call ∈ calls, call.Respects lengthKey iteratorKey) →
        records.length + calls.length < 2 ^ 64 →
        ∀ replies state, execOps (KvState.step codec) calls (KvState.start table) =
            some (replies, state) →
          state.HoldsList codec lengthKey iteratorKey (recordsAfter lengthKey records calls) := by
  have hview := execOps_view (KvState.view_step · codec) calls (KvState.start table)
  have halong := AlongOps.view (KvState.view_step · codec) KvState.view_disciplined disciplined
  rw [KvState.view_start] at hview halong
  let plain : AtomicBatch.Plain Text V := { rows := table, saved := none }
  have hstart : Refines codec { rows := table, lens := ∅, batch := none } plain :=
    .closed (Tracks.start codec table) rfl
  rcases hstart.run lawful halong with ⟨replies, store, last, hstore, hplain, hrefines⟩ | ⟨hstore, hplain⟩
  · rw [hstore] at hview
    obtain ⟨⟨replies', state⟩, hexec, hsame⟩ := Option.map_eq_some_iff.1 hview
    cases hsame
    refine ⟨by rw [hexec, hplain]; rfl, ?_⟩
    intro lengthKey iteratorKey records hlength hstored hrespects hfits _ _ hexec'
    cases hexec.symm.trans hexec'
    have hkept : ListKept codec plain lengthKey (listKey iteratorKey) (records, none) :=
      ⟨hstored, fun _ hrows => (nomatch hrows), fun _ => rfl⟩
    have hlongest : longest (records, none) = records.length := Nat.max_eq_left (Nat.zero_le _)
    have hops : ∀ op ∈ calls.map KvOp.op, op.Respects lengthKey (listKey iteratorKey) := by
      intro op hop
      obtain ⟨call, hcall, rfl⟩ := List.mem_map.1 hop
      exact (hrespects call hcall).op
    have hcount : longest (records, none) + (calls.map KvOp.op).length < 2 ^ 64 := by
      rw [hlongest, List.length_map]
      exact hfits
    have hrun := hkept.run lawful (listKey_injective iteratorKey) hlength hops hcount hplain
    have hlonger := ListKept.longest_run lengthKey (calls.map KvOp.op) (records, none)
    have hshorter : (recordsAfter lengthKey records calls).length ≤
        longest ((calls.map KvOp.op).foldl (listed lengthKey) (records, none)) := Nat.le_max_left _ _
    exact .of_refines lawful hrefines hrun.stored (by omega)
  · rw [hstore] at hview
    rw [Option.map_eq_none_iff.1 hview, hplain]
    exact ⟨rfl, fun _ _ _ _ _ _ _ _ _ hexec => (nomatch hexec)⟩

/-! ### A length row written directly -/

/-- Rows as texts: a length is its decimal digits, and a row that is no number reads as zero. -/
def textRow : LengthRow Text where
  read row := some ((parseUsize row).getD 0)
  write length := Nat.toDigits 10 length

theorem textRow_lawful : textRow.Lawful := by
  intro length hlength
  simp [textRow, parseUsize_toDigits hlength]

/-- A record appended in a batch that is aborted, one in a batch that is committed, and one in the next
block. -/
def threeAppends : List (KvOp Text) :=
  [.tapAtomicBegin, .tapSetListRecord "bl/t".toList "bli/t".toList "a".toList, .tapAtomicAbort,
    .tapAtomicBegin, .tapSetListRecord "bl/t".toList "bli/t".toList "b".toList,
    .tapPut "x".toList "1".toList, .tapAtomicCommit, .tapFinalizeBlock none,
    .tapSetListRecord "bl/t".toList "bli/t".toList "c".toList, .tapGet "bl/t".toList,
    .tapGet "bli/t/0".toList]

theorem threeAppends_respects :
    ∀ call ∈ threeAppends, call.Respects "bl/t".toList "bli/t".toList := by
  simp [threeAppends, KvOp.Respects, OfList, listKey]

theorem threeAppends_refined :
    AlongOps (KvState.step textRow) (KvState.Disciplined textRow) threeAppends (KvState.start ∅) ∧
      (execOps (KvState.step textRow) threeAppends (KvState.start ∅)).map Prod.fst =
        (execOps (Plain.step textRow) (threeAppends.map KvOp.op) { rows := ∅, saved := none }).map
          Prod.fst ∧
      ∃ replies state,
        execOps (KvState.step textRow) threeAppends (KvState.start ∅) = some (replies, state) ∧
        state.HoldsList textRow "bl/t".toList "bli/t".toList ["b".toList, "c".toList] := by
  have disciplined : AlongOps (KvState.step textRow) (KvState.Disciplined textRow) threeAppends
      (KvState.start ∅) := by decide
  obtain ⟨hreplies, hlists⟩ := kv_refines_plain textRow_lawful ∅ threeAppends disciplined
  have hreturns : (execOps (KvState.step textRow) threeAppends (KvState.start ∅)).isSome := by decide
  obtain ⟨⟨replies, state⟩, hexec⟩ := Option.isSome_iff_exists.1 hreturns
  have hempty : ListStored textRow ∅ "bl/t".toList (listKey "bli/t".toList) [] := ⟨rfl, fun _ => rfl⟩
  have hlist := hlists "bl/t".toList "bli/t".toList [] (by simp [listKey]) hempty
    threeAppends_respects (by decide) replies state hexec
  exact ⟨disciplined, hreplies, replies, state, hexec, hlist⟩

/-- A list is appended to, its length row is removed, and it is appended to once more. -/
def removedLength : List (KvOp Text) :=
  [.tapSetListRecord "bl/t".toList "bli/t".toList "a".toList, .tapDel "bl/t".toList,
    .tapSetListRecord "bl/t".toList "bli/t".toList "b".toList, .tapGet "bl/t".toList]

/-- The cached length outlives its row. -/
theorem removedLength_not_refined :
    (execOps (KvState.step textRow) removedLength (KvState.start ∅)).map Prod.fst ≠
      (execOps (Plain.step textRow) (removedLength.map KvOp.op) { rows := ∅, saved := none }).map
        Prod.fst := by
  decide

end OrdDogecoin.Tap
