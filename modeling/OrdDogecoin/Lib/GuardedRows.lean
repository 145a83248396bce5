/-
Module: OrdDogecoin.Lib.GuardedRows
Purpose: Rows of a store that only some of its users write.  Whatever the others do, batches included,
  leaves these rows and their cached lengths; a list among them grows by its own appends.
Trusted boundary: none
Main exports: AtomicBatch.Store.Quiet, Store.HoldsList, HoldsList.append
-/
import OrdDogecoin.Lib.Rollback

namespace AtomicBatch

open KeyTable

section GuardedRows

variable {K V : Type} [DecidableEq K] {codec : LengthRow V} {store : Store K V}

/-! ### Guarded rows -/

/-- An open batch has written no guarded row and cached no guarded length. -/
def Store.Quiet (guarded : K → Prop) (store : Store K V) : Prop :=
  ∀ batch ∈ store.batch, ∀ key, guarded key →
    batch.overlay.lookup key = none ∧ batch.lens.lookup key = none

/-- The guarded rows and lengths are the same in both stores. -/
structure Store.SameOn (guarded : K → Prop) (store store' : Store K V) : Prop where
  rows : ∀ key, guarded key → store'.rows.lookup key = store.rows.lookup key
  lens : ∀ key, guarded key → store'.lens.lookup key = store.lens.lookup key
  quiet : store'.Quiet guarded

/-- The operation writes no guarded row. -/
def Op.Avoids (guarded : K → Prop) : Op K V → Prop
  | .put key _ => ¬ guarded key
  | .del key => ¬ guarded key
  | .append lengthKey item _ => ¬ guarded lengthKey ∧ ∀ index, ¬ guarded (item index)
  | .settle _ => False
  | _ => True

namespace Store

variable {guarded : K → Prop} {store' store'' : Store K V}

theorem Quiet.of_closed (hclosed : store.batch = none) : store.Quiet guarded := by
  intro batch hbatch
  rw [hclosed] at hbatch
  cases hbatch

theorem Quiet.get_eq (quiet : store.Quiet guarded) {key : K} (hkey : guarded key) :
    store.get key = store.rows.lookup key := by
  unfold Store.get
  cases hbatch : store.batch with
  | none => rfl
  | some batch => simp [(quiet batch hbatch key hkey).1]

theorem lookup_settle {row : Option (K × V)} {key : K} (hrow : ∀ entry ∈ row, key ≠ entry.1) :
    (store.settle row).rows.lookup key = store.rows.lookup key := by
  cases row with
  | none => rfl
  | some entry =>
      simp only [Store.settle, insertRow, lookup_insert_ite]
      exact if_neg (hrow entry rfl)

theorem put_closed (hclosed : store.batch = none) (key : K) (value : V) :
    store.put key value = { rows := store.rows.insert key value, lens := store.lens, batch := none } := by
  simp [Store.put, hclosed]

theorem append_closed (hclosed : store.batch = none) (codec : LengthRow V) (lengthKey : K)
    (item : ℕ → K) (data : V) : (store.append codec lengthKey item data).2.batch = none := by
  unfold Store.append
  cases store.nextLength codec lengthKey with
  | none => exact hclosed
  | some length => simp [Store.cacheLength, Store.put, hclosed]

namespace SameOn

theorem refl (quiet : store.Quiet guarded) : SameOn guarded store store :=
  ⟨fun _ _ => rfl, fun _ _ => rfl, quiet⟩

theorem trans (first : SameOn guarded store store') (second : SameOn guarded store' store'') :
    SameOn guarded store store'' where
  rows key hkey := (second.rows key hkey).trans (first.rows key hkey)
  lens key hkey := (second.lens key hkey).trans (first.lens key hkey)
  quiet := second.quiet

theorem mono {fewer : K → Prop} (same : SameOn guarded store store')
    (hfewer : ∀ key, fewer key → guarded key) : SameOn fewer store store' where
  rows key hkey := same.rows key (hfewer key hkey)
  lens key hkey := same.lens key (hfewer key hkey)
  quiet batch hbatch key hkey := same.quiet batch hbatch key (hfewer key hkey)

/-- A row that is not guarded goes to the batch. -/
theorem store_batch (quiet : store.Quiet guarded) {batch : Batch K V} (hbatch : store.batch = some batch)
    {key : K} (hkey : ¬ guarded key) (value : Option V) :
    SameOn guarded store { store with batch := some (batch.store key value) } where
  rows _ _ := rfl
  lens _ _ := rfl
  quiet := by
    rintro _ ⟨⟩ other hother
    have hne : other ≠ key := by
      rintro rfl
      exact hkey hother
    simp only [Batch.store, lookup_insert_ite, if_neg hne]
    exact quiet batch hbatch other hother

/-- A row that is not guarded goes to the rows. -/
theorem write_rows (hclosed : store.batch = none) {key : K} (hkey : ¬ guarded key) {value : Option V}
    {rows : KeyTable K V}
    (hrows : ∀ other, rows.lookup other = if other = key then value else store.rows.lookup other) :
    SameOn guarded store { store with rows := rows } where
  rows other hother := by
    refine (hrows other).trans (if_neg ?_)
    rintro rfl
    exact hkey hother
  lens _ _ := rfl
  quiet := .of_closed hclosed

theorem put (quiet : store.Quiet guarded) {key : K} (hkey : ¬ guarded key) (value : V) :
    SameOn guarded store (store.put key value) := by
  unfold Store.put
  cases hbatch : store.batch with
  | none => simpa only [hbatch] using write_rows hbatch hkey (lookup_insert_ite store.rows key · value)
  | some batch => exact store_batch quiet hbatch hkey (some value)

theorem del (quiet : store.Quiet guarded) {key : K} (hkey : ¬ guarded key) :
    SameOn guarded store (store.del key) := by
  unfold Store.del
  cases hbatch : store.batch with
  | none => simpa only [hbatch] using write_rows hbatch hkey (lookup_erase_ite store.rows key)
  | some batch => exact store_batch quiet hbatch hkey none

theorem cacheLength (quiet : store.Quiet guarded) {key : K} (hkey : ¬ guarded key) (length : ℕ) :
    SameOn guarded store (store.cacheLength key length) := by
  have hother : ∀ other, guarded other → other ≠ key := by
    rintro other hguarded rfl
    exact hkey hguarded
  unfold Store.cacheLength
  cases hbatch : store.batch with
  | none =>
      refine ⟨fun _ _ => rfl, fun other hguarded => ?_, .of_closed rfl⟩
      simp only [lookup_insert_ite, if_neg (hother other hguarded)]
  | some batch =>
      refine ⟨fun _ _ => rfl, fun _ _ => rfl, ?_⟩
      rintro _ ⟨⟩ other hguarded
      simp only [lookup_insert_ite, if_neg (hother other hguarded)]
      exact quiet batch hbatch other hguarded

theorem append (codec : LengthRow V) (quiet : store.Quiet guarded) {lengthKey : K} {item : ℕ → K}
    (hlength : ¬ guarded lengthKey) (hitem : ∀ index, ¬ guarded (item index)) (data : V) :
    SameOn guarded store (store.append codec lengthKey item data).2 := by
  unfold Store.append
  cases store.nextLength codec lengthKey with
  | none => exact refl quiet
  | some length =>
      have hcached := cacheLength quiet hlength length
      have hstored := hcached.trans (put hcached.quiet hlength (codec.write length))
      exact hstored.trans (put hstored.quiet (hitem _) data)

theorem commit (quiet : store.Quiet guarded) : SameOn guarded store store.commit := by
  cases hbatch : store.batch with
  | none =>
      have hcommit : store.commit = store := by simp [Store.commit, hbatch]
      rw [hcommit]
      exact refl quiet
  | some batch =>
      simp only [Store.commit, hbatch]
      refine ⟨fun key hkey => ?_, fun key hkey => ?_, .of_closed rfl⟩
      · rw [Overlaid.lookup_applyWrites, (quiet batch hbatch key hkey).1]
        exact ite_self _
      · have hmem : key ∉ batch.lens := AList.lookup_eq_none.1 (quiet batch hbatch key hkey).2
        exact AList.lookup_union_right hmem

/-- An operation that avoids the guarded rows leaves them. -/
theorem step {codec : LengthRow V} (quiet : store.Quiet guarded) {op : Op K V}
    (avoids : op.Avoids guarded) {reply : Reply V} (hstep : store.step codec op = some (reply, store')) :
    SameOn guarded store store' := by
  cases op with
  | get key =>
      cases hstep
      exact refl quiet
  | put key value =>
      cases hstep
      exact put quiet avoids value
  | del key =>
      cases hstep
      exact del quiet avoids
  | append lengthKey item data =>
      cases hstep
      exact append codec quiet avoids.1 avoids.2 data
  | begin =>
      obtain ⟨opened, hbegin, hsame⟩ := Option.map_eq_some_iff.1 hstep
      cases hsame
      unfold Store.begin at hbegin
      split at hbegin
      · cases hbegin
      · cases hbegin
        refine ⟨fun _ _ => rfl, fun _ _ => rfl, ?_⟩
        rintro _ ⟨⟩ key -
        exact ⟨rfl, rfl⟩
  | commit =>
      cases hstep
      exact commit quiet
  | abort =>
      cases hstep
      exact ⟨fun _ _ => rfl, fun _ _ => rfl, .of_closed rfl⟩
  | settle row => exact avoids.elim

end SameOn

/-! ### One list -/

/-- The rows hold the list, and a cached length is its length. -/
structure HoldsList (codec : LengthRow V) (store : Store K V) (lengthKey : K) (item : ℕ → K)
    (records : List V) : Prop where
  stored : ListStored codec store.rows lengthKey item records
  cached : ∀ length ∈ store.lens.lookup lengthKey, length = records.length

namespace HoldsList

variable {lengthKey : K} {item : ℕ → K} {records : List V}

theorem sameOn (holds : store.HoldsList codec lengthKey item records)
    (same : SameOn guarded store store') (hguarded : ∀ key, OfList lengthKey item key → guarded key) :
    store'.HoldsList codec lengthKey item records where
  stored := holds.stored.frame fun key hkey => same.rows key (hguarded key hkey)
  cached length hlength := by
    rw [same.lens _ (hguarded _ (.inl rfl))] at hlength
    exact holds.cached length hlength

/-- At the end of a block the list is read from its rows again. -/
theorem settle (holds : store.HoldsList codec lengthKey item records) {row : Option (K × V)}
    (hrow : ∀ entry ∈ row, ¬ OfList lengthKey item entry.1) :
    (store.settle row).HoldsList codec lengthKey item records where
  stored := by
    cases row with
    | none => exact holds.stored
    | some entry => exact holds.stored.insert (hrow entry rfl) entry.2
  cached length hlength := by simp [Store.settle] at hlength

/-- Outside of a batch a record is appended, and its index is the old length. -/
theorem append (lawful : codec.Lawful) (hclosed : store.batch = none)
    (holds : store.HoldsList codec lengthKey item records) (hinjective : Function.Injective item)
    (hlength : ∀ index, lengthKey ≠ item index) (data : V) (hfits : records.length + 1 < 2 ^ 64) :
    (store.append codec lengthKey item data).1 = some (records.length + 1) ∧
      (store.append codec lengthKey item data).2.HoldsList codec lengthKey item (records ++ [data]) := by
  have hstored := holds.stored.nextLengthOf_eq lawful hfits
  have hnext : store.nextLength codec lengthKey = some (records.length + 1) := by
    unfold Store.nextLength
    simp only [Store.cachedLength, Store.get, hclosed]
    cases hcached : store.lens.lookup lengthKey with
    | none => exact hstored
    | some length => simp only [holds.cached length hcached, Nat.mod_eq_of_lt hfits]
  have happended := holds.stored.append lawful hinjective hlength data hfits
  unfold appendTo at happended
  rw [hstored] at happended
  unfold Store.append
  rw [hnext]
  simp only [Store.cacheLength, hclosed, Store.put]
  refine ⟨trivial, happended, ?_⟩
  intro length hlast
  rw [Option.mem_def, lookup_insert_ite, if_pos rfl] at hlast
  rw [← Option.some.inj hlast, List.length_append, List.length_singleton]

end HoldsList

end Store

end GuardedRows

end AtomicBatch
