/-
Module: OrdDogecoin.Lib.Rollback
Purpose: A store with an atomic batch and cached list lengths refines a plain map that is saved when a
  batch opens and restored when it is aborted.  The lists of such a map are stored densely.
Trusted boundary: none
Main exports: AtomicBatch.Op, ListStored, ListStored.run
-/
import OrdDogecoin.Lib.AtomicBatch

namespace AtomicBatch

open KeyTable

section Rollback

variable {K V : Type} [DecidableEq K]

/-! ### Operations -/

inductive Op (K V : Type) where
  | get (key : K)
  | put (key : K) (value : V)
  | del (key : K)
  | append (lengthKey : K) (item : ℕ → K) (data : V)
  | begin
  | commit
  | abort
  /-- The end of a block: one more row, and no length is cached any longer. -/
  | settle (row : Option (K × V))

/-- What an operation returns. -/
inductive Reply (V : Type) where
  | done
  | row (value : Option V)
  | length (value : Option ℕ)
deriving DecidableEq, Repr

/-- The index of the last record of a list of this length, in 64 bits. -/
def recordIndex (length : ℕ) : ℕ := (length + (2 ^ 64 - 1)) % 2 ^ 64

def insertRow (rows : KeyTable K V) : Option (K × V) → KeyTable K V
  | none => rows
  | some (key, value) => rows.insert key value

namespace Store

def settle (store : Store K V) (row : Option (K × V)) : Store K V :=
  { store with rows := insertRow store.rows row, lens := ∅ }

def step (codec : LengthRow V) (store : Store K V) : Op K V → Option (Reply V × Store K V)
  | .get key => some (.row (store.get key), store)
  | .put key value => some (.done, store.put key value)
  | .del key => some (.done, store.del key)
  | .append lengthKey item data =>
      some (.length (store.append codec lengthKey item data).1,
        (store.append codec lengthKey item data).2)
  | .begin => store.begin.map fun opened => (.done, opened)
  | .commit => some (.done, store.commit)
  | .abort => some (.done, store.abort)
  | .settle row => some (.done, store.settle row)

def CachesLength (store : Store K V) (key : K) : Prop :=
  (store.lens.lookup key).isSome ∨ ∃ batch ∈ store.batch, (batch.lens.lookup key).isSome

/-- The operation writes no row of a cached length but as that length, and a block ends outside of a
batch. -/
def Disciplined (codec : LengthRow V) (store : Store K V) : Op K V → Prop
  | .put key _ => ¬ store.CachesLength key
  | .del key => ¬ store.CachesLength key
  | .append lengthKey item _ => ∀ length ∈ store.nextLength codec lengthKey,
      item (recordIndex length) ≠ lengthKey ∧ ¬ store.CachesLength (item (recordIndex length))
  | .settle _ => store.batch = none
  | _ => True

end Store

/-! ### A plain map with rollback -/

/-- The rows, and those to go back to. -/
structure Plain (K V : Type) where
  rows : KeyTable K V
  saved : Option (KeyTable K V)

/-- The length a list has after one more record. -/
def nextLengthOf (codec : LengthRow V) (rows : KeyTable K V) (lengthKey : K) : Option ℕ :=
  match rows.lookup lengthKey with
  | some row => (codec.read row).map fun length => (length + 1) % 2 ^ 64
  | none => some 1

/-- Append a record to a list. -/
def appendTo (codec : LengthRow V) (rows : KeyTable K V) (lengthKey : K) (item : ℕ → K) (data : V) :
    Option ℕ × KeyTable K V :=
  match nextLengthOf codec rows lengthKey with
  | none => (none, rows)
  | some length =>
      (some length, (rows.insert lengthKey (codec.write length)).insert (item (recordIndex length)) data)

def Plain.step (codec : LengthRow V) (plain : Plain K V) : Op K V → Option (Reply V × Plain K V)
  | .get key => some (.row (plain.rows.lookup key), plain)
  | .put key value => some (.done, { plain with rows := plain.rows.insert key value })
  | .del key => some (.done, { plain with rows := plain.rows.erase key })
  | .append lengthKey item data =>
      some (.length (appendTo codec plain.rows lengthKey item data).1,
        { plain with rows := (appendTo codec plain.rows lengthKey item data).2 })
  | .begin =>
      match plain.saved with
      | some _ => none
      | none => some (.done, { plain with saved := some plain.rows })
  | .commit => some (.done, { plain with saved := none })
  | .abort => some (.done, { rows := plain.saved.getD plain.rows, saved := none })
  | .settle row => some (.done, { plain with rows := insertRow plain.rows row })

/-! ### Refinement -/

def SameRows (rows rows' : KeyTable K V) : Prop := ∀ key, rows.lookup key = rows'.lookup key

/-- Every cached length is the stored one. -/
def Coherent (codec : LengthRow V) (rows : KeyTable K V) (lens : KeyTable K ℕ) : Prop :=
  ∀ key length, lens.lookup key = some length →
    length < 2 ^ 64 ∧ rows.lookup key = some (codec.write length)

/-- The codec reads back the lengths it writes. -/
def LengthRow.Lawful (codec : LengthRow V) : Prop :=
  ∀ length < 2 ^ 64, codec.read (codec.write length) = some length

/-- A store without a batch tracks a table. -/
structure Tracks (codec : LengthRow V) (store : Store K V) (rows : KeyTable K V) : Prop where
  closed : store.batch = none
  same : SameRows store.rows rows
  coherent : Coherent codec store.rows store.lens

/-- The store shows the rows of the map; an open batch lies over the rows to go back to. -/
inductive Refines (codec : LengthRow V) (store : Store K V) (plain : Plain K V) : Prop where
  | closed (tracks : Tracks codec store plain.rows) (hsaved : plain.saved = none)
  | opened {base copy : Store K V} {saved : KeyTable K V} (overlaid : Overlaid base store copy)
      (below : Tracks codec base saved) (above : Tracks codec copy plain.rows)
      (hsaved : plain.saved = some saved)
      (kept : ∀ key length, base.lens.lookup key = some length → copy.lens.lookup key = none →
        copy.rows.lookup key = some (codec.write length))

variable {codec : LengthRow V} {store : Store K V} {plain : Plain K V}

namespace Tracks

variable {rows : KeyTable K V}

theorem get_eq (tracks : Tracks codec store rows) (key : K) : store.get key = rows.lookup key := by
  simp only [Store.get, tracks.closed]
  exact tracks.same key

/-- A row that is no cached length is written. -/
theorem write (tracks : Tracks codec store rows) {key : K} {value : Option V}
    {written written' : KeyTable K V} (hcached : store.lens.lookup key = none)
    (hwritten : ∀ other, written.lookup other = if other = key then value else store.rows.lookup other)
    (hwritten' : ∀ other, written'.lookup other = if other = key then value else rows.lookup other) :
    Tracks codec { store with rows := written } written' where
  closed := tracks.closed
  same other := by
    rw [hwritten, hwritten', tracks.same]
  coherent other length hlength := by
    have hne : other ≠ key := by
      rintro rfl
      rw [hcached] at hlength
      cases hlength
    simp only [hwritten, if_neg hne]
    exact tracks.coherent other length hlength

theorem put (tracks : Tracks codec store rows) {key : K} (hcached : store.lens.lookup key = none)
    (value : V) : Tracks codec (store.put key value) (rows.insert key value) := by
  simp only [Store.put, tracks.closed]
  exact { tracks.write hcached (lookup_insert_ite _ _ · value) (lookup_insert_ite _ _ · value) with
    closed := rfl }

theorem del (tracks : Tracks codec store rows) {key : K} (hcached : store.lens.lookup key = none) :
    Tracks codec (store.del key) (rows.erase key) := by
  simp only [Store.del, tracks.closed]
  exact { tracks.write hcached (lookup_erase_ite _ _) (lookup_erase_ite _ _) with closed := rfl }

theorem cache (tracks : Tracks codec store rows) (key : K) {length : ℕ} (hlength : length < 2 ^ 64) :
    Tracks codec ((store.cacheLength key length).put key (codec.write length))
      (rows.insert key (codec.write length)) := by
  simp only [Store.cacheLength, tracks.closed, Store.put]
  refine ⟨rfl, fun other => ?_, fun other cached hcached => ?_⟩
  · simp only [lookup_insert_ite, tracks.same other]
  · simp only [lookup_insert_ite] at hcached ⊢
    split at hcached
    next hsame =>
      cases hcached
      rw [if_pos hsame]
      exact ⟨hlength, rfl⟩
    next hother =>
      rw [if_neg hother]
      exact tracks.coherent other cached hcached

theorem nextLength_eq (lawful : codec.Lawful) (tracks : Tracks codec store rows) (key : K) :
    store.nextLength codec key = nextLengthOf codec rows key := by
  unfold Store.nextLength nextLengthOf
  rw [tracks.get_eq]
  simp only [Store.cachedLength, tracks.closed]
  cases hcached : store.lens.lookup key with
  | none => rfl
  | some length =>
      obtain ⟨hlength, hrow⟩ := tracks.coherent key length hcached
      rw [tracks.same] at hrow
      simp [hrow, lawful length hlength]

omit [DecidableEq K] in
theorem lt_of_nextLength [DecidableEq K] {key : K} {length : ℕ}
    (hnext : store.nextLength codec key = some length) : length < 2 ^ 64 := by
  unfold Store.nextLength at hnext
  split at hnext
  · cases hnext
    exact Nat.mod_lt _ (by decide)
  · split at hnext
    · obtain ⟨_, -, rfl⟩ := Option.map_eq_some_iff.1 hnext
      exact Nat.mod_lt _ (by decide)
    · cases hnext
      decide

theorem append (lawful : codec.Lawful) (tracks : Tracks codec store rows) {lengthKey : K}
    {item : ℕ → K} (data : V)
    (hfree : ∀ length ∈ store.nextLength codec lengthKey,
      item (recordIndex length) ≠ lengthKey ∧ store.lens.lookup (item (recordIndex length)) = none) :
    (store.append codec lengthKey item data).1 = (appendTo codec rows lengthKey item data).1 ∧
      Tracks codec (store.append codec lengthKey item data).2
        (appendTo codec rows lengthKey item data).2 := by
  unfold Store.append appendTo
  rw [← tracks.nextLength_eq lawful]
  cases hnext : store.nextLength codec lengthKey with
  | none => exact ⟨rfl, tracks⟩
  | some length =>
      obtain ⟨hne, hcached⟩ := hfree length hnext
      refine ⟨rfl, (tracks.cache lengthKey (lt_of_nextLength hnext)).put ?_ data⟩
      simp only [Store.cacheLength, tracks.closed, Store.put, lookup_insert_ite]
      exact (if_neg hne).trans hcached

/-- The end of a block. -/
theorem settle (tracks : Tracks codec store rows) (row : Option (K × V)) :
    Tracks codec (store.settle row) (insertRow rows row) where
  closed := tracks.closed
  same key := by
    cases row with
    | none => exact tracks.same key
    | some row =>
        obtain ⟨key', value⟩ := row
        simp only [Store.settle, insertRow, lookup_insert_ite, tracks.same key]
  coherent key length hlength := by simp [Store.settle] at hlength

/-- A store starts without cached lengths. -/
theorem start (codec : LengthRow V) (rows : KeyTable K V) :
    Tracks codec { rows := rows, lens := ∅, batch := none } rows where
  closed := rfl
  same _ := rfl
  coherent key length hlength := by simp at hlength

end Tracks

namespace Refines

theorem get_eq (refines : Refines codec store plain) (key : K) :
    store.get key = plain.rows.lookup key := by
  cases refines with
  | closed tracks => exact tracks.get_eq key
  | opened overlaid below above => rw [overlaid.get_eq, above.get_eq]

/-- The cached length in use is the length the map stores. -/
theorem cached_length (refines : Refines codec store plain) {key : K} {length : ℕ}
    (hcached : store.cachedLength key = some length) :
    length < 2 ^ 64 ∧ plain.rows.lookup key = some (codec.write length) := by
  cases refines with
  | closed tracks =>
      simp only [Store.cachedLength, tracks.closed] at hcached
      rw [← tracks.same]
      exact tracks.coherent key length hcached
  | opened overlaid below above =>
      obtain ⟨batch, hbatch, hlens, -⟩ := overlaid.opened
      simp only [Store.cachedLength, hbatch] at hcached
      rw [← above.same]
      exact above.coherent key length (hlens ▸ hcached)

/-- In an open batch the copy caches what the batch does, and the base what the store does. -/
theorem not_cached {base copy : Store K V} (overlaid : Overlaid base store copy) {key : K}
    (hcached : ¬ store.CachesLength key) :
    base.lens.lookup key = none ∧ copy.lens.lookup key = none := by
  obtain ⟨batch, hbatch, hlens, -⟩ := overlaid.opened
  constructor
  · rw [← overlaid.lens]
    exact Option.not_isSome_iff_eq_none.1 fun hsome => hcached (Or.inl hsome)
  · rw [hlens]
    exact Option.not_isSome_iff_eq_none.1 fun hsome => hcached (Or.inr ⟨batch, hbatch, hsome⟩)

theorem not_cached_closed {key : K} (hcached : ¬ store.CachesLength key) :
    store.lens.lookup key = none :=
  Option.not_isSome_iff_eq_none.1 fun hsome => hcached (Or.inl hsome)

theorem put (refines : Refines codec store plain) {key : K} (value : V)
    (hcached : ¬ store.CachesLength key) :
    Refines codec (store.put key value) { plain with rows := plain.rows.insert key value } := by
  cases refines with
  | closed tracks hsaved => exact .closed (tracks.put (not_cached_closed hcached) value) hsaved
  | opened overlaid below above hsaved kept =>
      obtain ⟨hbase, hcopy⟩ := not_cached overlaid hcached
      refine .opened (overlaid.put key value) below (above.put hcopy value) hsaved ?_
      intro other length hlength hnone
      have hne : other ≠ key := by
        rintro rfl
        rw [hbase] at hlength
        cases hlength
      simp only [Store.put, above.closed] at hnone ⊢
      rw [lookup_insert_ite, if_neg hne]
      exact kept other length hlength hnone

theorem del (refines : Refines codec store plain) {key : K} (hcached : ¬ store.CachesLength key) :
    Refines codec (store.del key) { plain with rows := plain.rows.erase key } := by
  cases refines with
  | closed tracks hsaved => exact .closed (tracks.del (not_cached_closed hcached)) hsaved
  | opened overlaid below above hsaved kept =>
      obtain ⟨hbase, hcopy⟩ := not_cached overlaid hcached
      refine .opened (overlaid.del key) below (above.del hcopy) hsaved ?_
      intro other length hlength hnone
      have hne : other ≠ key := by
        rintro rfl
        rw [hbase] at hlength
        cases hlength
      simp only [Store.del, above.closed] at hnone ⊢
      rw [lookup_erase_ite, if_neg hne]
      exact kept other length hlength hnone

/-- An append leaves the lengths of other lists that the base has cached. -/
theorem kept_append {base copy : Store K V} (hclosed : copy.batch = none) {lengthKey : K} {item : ℕ → K}
    (data : V)
    (hfree : ∀ length ∈ copy.nextLength codec lengthKey, base.lens.lookup (item (recordIndex length)) = none)
    (kept : ∀ key length, base.lens.lookup key = some length → copy.lens.lookup key = none →
      copy.rows.lookup key = some (codec.write length)) :
    ∀ key length, base.lens.lookup key = some length →
      (copy.append codec lengthKey item data).2.lens.lookup key = none →
      (copy.append codec lengthKey item data).2.rows.lookup key = some (codec.write length) := by
  intro key length hlength hnone
  unfold Store.append at hnone ⊢
  cases hnext : copy.nextLength codec lengthKey with
  | none =>
      simp only [hnext] at hnone ⊢
      exact kept key length hlength hnone
  | some next =>
      have hitem : key ≠ item (recordIndex next) := by
        rintro rfl
        rw [hfree next hnext] at hlength
        cases hlength
      simp only [hnext, Store.put, Store.cacheLength, hclosed, lookup_insert_ite] at hnone ⊢
      split at hnone
      · cases hnone
      next hother =>
        rw [if_neg hother]
        exact (if_neg hitem).trans (kept key length hlength hnone)

theorem append (lawful : codec.Lawful) (refines : Refines codec store plain) {lengthKey : K}
    {item : ℕ → K} (data : V)
    (hfree : ∀ length ∈ store.nextLength codec lengthKey,
      item (recordIndex length) ≠ lengthKey ∧ ¬ store.CachesLength (item (recordIndex length))) :
    (store.append codec lengthKey item data).1 = (appendTo codec plain.rows lengthKey item data).1 ∧
      Refines codec (store.append codec lengthKey item data).2
        { plain with rows := (appendTo codec plain.rows lengthKey item data).2 } := by
  cases refines with
  | closed tracks hsaved =>
      obtain ⟨hlength, htracks⟩ := tracks.append lawful data fun length hnext =>
        ⟨(hfree length hnext).1, not_cached_closed (hfree length hnext).2⟩
      exact ⟨hlength, .closed htracks hsaved⟩
  | opened overlaid below above hsaved kept =>
      rw [overlaid.nextLength_eq] at hfree
      obtain ⟨hsame, hoverlaid⟩ := overlaid.append codec lengthKey item data
      obtain ⟨hlength, htracks⟩ := above.append lawful data fun length hnext =>
        ⟨(hfree length hnext).1, (not_cached overlaid (hfree length hnext).2).2⟩
      refine ⟨hsame.trans hlength, .opened hoverlaid below htracks hsaved ?_⟩
      apply kept_append above.closed data _ kept
      intro length hnext
      exact (not_cached overlaid (hfree length hnext).2).1

theorem commit (refines : Refines codec store plain) :
    Refines codec store.commit { plain with saved := none } := by
  cases refines with
  | closed tracks hsaved =>
      have hcommit : store.commit = store := by simp [Store.commit, tracks.closed]
      rw [hcommit]
      exact .closed tracks rfl
  | @opened base copy saved overlaid below above hsaved kept =>
      obtain ⟨hclosed, hrows, hlens⟩ := overlaid.commit_spec
      refine .closed ⟨hclosed, fun key => (hrows key).trans (above.same key), ?_⟩ rfl
      intro key length hlength
      rw [hrows]
      rw [hlens] at hlength
      cases hcopy : copy.lens.lookup key with
      | some cached =>
          have hmem : key ∈ copy.lens := AList.lookup_isSome.1 (by rw [hcopy]; rfl)
          rw [AList.lookup_union_left hmem, hcopy] at hlength
          cases hlength
          exact above.coherent key length hcopy
      | none =>
          have hmem : key ∉ copy.lens := AList.lookup_eq_none.1 hcopy
          rw [AList.lookup_union_right hmem] at hlength
          exact ⟨(below.coherent key length hlength).1, kept key length hlength hcopy⟩

theorem abort (refines : Refines codec store plain) :
    Refines codec store.abort { rows := plain.saved.getD plain.rows, saved := none } := by
  cases refines with
  | closed tracks hsaved =>
      have habort : store.abort = store := by
        obtain ⟨rows, lens, batch⟩ := store
        obtain rfl : batch = none := tracks.closed
        rfl
      rw [habort, hsaved]
      exact .closed tracks rfl
  | opened overlaid below above hsaved kept =>
      rw [overlaid.abort_eq below.closed, hsaved]
      exact .closed below rfl

theorem begin {opened : Store K V} (refines : Refines codec store plain)
    (hbegin : store.begin = some opened) :
    plain.saved = none ∧ Refines codec opened { plain with saved := some plain.rows } := by
  cases refines with
  | closed tracks hsaved =>
      refine ⟨hsaved, .opened (.of_begin hbegin) tracks ?_ rfl ?_⟩
      · exact ⟨rfl, tracks.same, fun key length hlength => by simp [Store.copy] at hlength⟩
      · intro key length hlength _
        exact (tracks.coherent key length hlength).2
  | opened overlaid =>
      obtain ⟨batch, hbatch, -⟩ := overlaid.opened
      simp [Store.begin, hbatch] at hbegin

theorem begin_eq_none (refines : Refines codec store plain) (hbegin : store.begin = none) :
    ∃ saved, plain.saved = some saved := by
  cases refines with
  | closed tracks => simp [Store.begin, tracks.closed] at hbegin
  | opened _ _ _ hsaved => exact ⟨_, hsaved⟩

/-- A disciplined operation returns what the map returns, and keeps showing its rows. -/
theorem step (lawful : codec.Lawful) (refines : Refines codec store plain) {op : Op K V}
    (disciplined : store.Disciplined codec op) :
    (∃ reply store' plain', store.step codec op = some (reply, store') ∧
        plain.step codec op = some (reply, plain') ∧ Refines codec store' plain') ∨
      (store.step codec op = none ∧ plain.step codec op = none) := by
  cases op with
  | get key => exact .inl ⟨_, _, _, rfl, by rw [refines.get_eq]; rfl, refines⟩
  | put key value => exact .inl ⟨_, _, _, rfl, rfl, refines.put value disciplined⟩
  | del key => exact .inl ⟨_, _, _, rfl, rfl, refines.del disciplined⟩
  | append lengthKey item data =>
      obtain ⟨hlength, happend⟩ := refines.append lawful data disciplined
      exact .inl ⟨_, _, _, rfl, by rw [hlength]; rfl, happend⟩
  | begin =>
      cases hbegin : store.begin with
      | none =>
          obtain ⟨saved, hsaved⟩ := refines.begin_eq_none hbegin
          exact .inr ⟨by simp [Store.step, hbegin], by simp [Plain.step, hsaved]⟩
      | some opened =>
          obtain ⟨hsaved, hopened⟩ := refines.begin hbegin
          exact .inl ⟨.done, opened, _, by simp [Store.step, hbegin],
            by simp only [Plain.step, hsaved], hopened⟩
  | commit => exact .inl ⟨_, _, _, rfl, rfl, refines.commit⟩
  | abort => exact .inl ⟨_, _, _, rfl, rfl, refines.abort⟩
  | settle row =>
      cases refines with
      | closed tracks hsaved => exact .inl ⟨_, _, _, rfl, rfl, .closed (tracks.settle row) hsaved⟩
      | opened overlaid =>
          obtain ⟨batch, hbatch, -⟩ := overlaid.opened
          rw [Store.Disciplined, hbatch] at disciplined
          cases disciplined

end Refines

/-! ### Runs -/

section Runs

variable {O R S : Type}

/-- The replies of a list of operations and the last state; `none` when one of them panics. -/
def execOps (step : S → O → Option (R × S)) : List O → S → Option (List R × S)
  | [], state => some ([], state)
  | op :: ops, state =>
      (step state op).bind fun next => (execOps step ops next.2).map fun rest =>
        (next.1 :: rest.1, rest.2)

/-- Every operation of the run is allowed in the state it is applied to. -/
def AlongOps (step : S → O → Option (R × S)) (allowed : S → O → Prop) : List O → S → Prop
  | [], _ => True
  | op :: ops, state => allowed state op ∧ ∀ next ∈ step state op, AlongOps step allowed ops next.2

instance AlongOps.decidable {step : S → O → Option (R × S)} {allowed : S → O → Prop}
    [∀ state op, Decidable (allowed state op)] :
    ∀ (ops : List O) (state : S), Decidable (AlongOps step allowed ops state)
  | [], _ => isTrue trivial
  | op :: ops, state =>
      have : ∀ next, Decidable (AlongOps step allowed ops next) := AlongOps.decidable ops
      inferInstanceAs (Decidable (allowed state op ∧ ∀ next ∈ step state op,
        AlongOps step allowed ops next.2))

/-- A run seen through a translation of its operations and a view of its states. -/
theorem execOps_view {O' S' : Type} {step : S → O → Option (R × S)} {step' : S' → O' → Option (R × S')}
    {op : O → O'} {view : S → S'}
    (hstep : ∀ state call, (step state call).map (fun next => (next.1, view next.2)) =
      step' (view state) (op call)) :
    ∀ (calls : List O) (state : S),
      (execOps step calls state).map (fun last => (last.1, view last.2)) =
        execOps step' (calls.map op) (view state)
  | [], state => rfl
  | call :: calls, state => by
      rw [List.map_cons]
      unfold execOps
      rw [← hstep state call]
      cases step state call with
      | none => rfl
      | some next =>
          simp only [Option.bind_some, Option.map_some]
          rw [← execOps_view hstep calls next.2]
          cases execOps step calls next.2 with
          | none => rfl
          | some last => rfl

/-- What is allowed along a run is allowed along the run that is seen. -/
theorem AlongOps.view {O' S' : Type} {step : S → O → Option (R × S)} {step' : S' → O' → Option (R × S')}
    {op : O → O'} {view : S → S'} {allowed : S → O → Prop} {allowed' : S' → O' → Prop}
    (hstep : ∀ state call, (step state call).map (fun next => (next.1, view next.2)) =
      step' (view state) (op call))
    (hallowed : ∀ state call, allowed state call → allowed' (view state) (op call)) :
    ∀ {calls : List O} {state : S}, AlongOps step allowed calls state →
      AlongOps step' allowed' (calls.map op) (view state)
  | [], _, _ => trivial
  | call :: calls, state, along => by
      refine ⟨hallowed state call along.1, ?_⟩
      intro next hnext
      rw [Option.mem_def, ← hstep state call] at hnext
      obtain ⟨before, hbefore, rfl⟩ := Option.map_eq_some_iff.1 hnext
      exact AlongOps.view hstep hallowed (along.2 before hbefore)

end Runs

/-- A disciplined run returns what the map returns. -/
theorem Refines.run (lawful : codec.Lawful) :
    ∀ {ops : List (Op K V)} {store : Store K V} {plain : Plain K V}, Refines codec store plain →
      AlongOps (Store.step codec) (Store.Disciplined codec) ops store →
      (∃ replies store' plain', execOps (Store.step codec) ops store = some (replies, store') ∧
          execOps (Plain.step codec) ops plain = some (replies, plain') ∧
          Refines codec store' plain') ∨
        (execOps (Store.step codec) ops store = none ∧ execOps (Plain.step codec) ops plain = none)
  | [], store, plain, refines, _ => .inl ⟨[], store, plain, rfl, rfl, refines⟩
  | op :: ops, store, plain, refines, along => by
      unfold execOps
      rcases refines.step lawful along.1 with
        ⟨reply, store', plain', hstore, hplain, hnext⟩ | ⟨hstore, hplain⟩
      · rw [hstore, hplain]
        rcases Refines.run lawful hnext (along.2 _ hstore) with
          ⟨replies, last, last', hlast, hlast', hrefines⟩ | ⟨hlast, hlast'⟩
        · exact .inl ⟨reply :: replies, last, last', by simp [hlast], by simp [hlast'], hrefines⟩
        · exact .inr ⟨by simp [hlast], by simp [hlast']⟩
      · exact .inr ⟨by simp [hstore], by simp [hplain]⟩

/-! ### Lists -/

/-- The rows hold the list: its length, and its records under the indices below it. -/
structure ListStored (codec : LengthRow V) (rows : KeyTable K V) (lengthKey : K) (item : ℕ → K)
    (records : List V) : Prop where
  length : rows.lookup lengthKey =
    if records.isEmpty then none else some (codec.write records.length)
  items : ∀ index, rows.lookup (item index) = records[index]?

def OfList (lengthKey : K) (item : ℕ → K) (key : K) : Prop := key = lengthKey ∨ ∃ index, key = item index

/-- The operation writes rows of the list only by appending to it. -/
def Op.Respects (lengthKey : K) (item : ℕ → K) : Op K V → Prop
  | .put key _ => ¬ OfList lengthKey item key
  | .del key => ¬ OfList lengthKey item key
  | .append other items _ => (other = lengthKey → items = item) ∧
      (other ≠ lengthKey → ¬ OfList lengthKey item other ∧
        ∀ index, ¬ OfList lengthKey item (items index))
  | .settle row => ∀ entry ∈ row, ¬ OfList lengthKey item entry.1
  | _ => True

/-- The records of the list after an operation, and those to go back to. -/
def listed (lengthKey : K) (state : List V × Option (List V)) : Op K V → List V × Option (List V)
  | .append other _ data => if other = lengthKey then (state.1 ++ [data], state.2) else state
  | .begin => (state.1, some state.1)
  | .commit => (state.1, none)
  | .abort => (state.2.getD state.1, none)
  | _ => state

/-- The length of the longer of the two. -/
def longest (state : List V × Option (List V)) : ℕ := max state.1.length (state.2.getD []).length

namespace ListStored

variable {rows : KeyTable K V} {lengthKey : K} {item : ℕ → K} {records : List V}

theorem frame {rows' : KeyTable K V} (stored : ListStored codec rows lengthKey item records)
    (hrows : ∀ key, OfList lengthKey item key → rows'.lookup key = rows.lookup key) :
    ListStored codec rows' lengthKey item records where
  length := (hrows _ (.inl rfl)).trans stored.length
  items index := (hrows _ (.inr ⟨index, rfl⟩)).trans (stored.items index)

theorem insert (stored : ListStored codec rows lengthKey item records) {key : K}
    (hkey : ¬ OfList lengthKey item key) (value : V) :
    ListStored codec (rows.insert key value) lengthKey item records := by
  apply stored.frame
  intro other hother
  rw [lookup_insert_ite, if_neg]
  rintro rfl
  exact hkey hother

theorem erase (stored : ListStored codec rows lengthKey item records) {key : K}
    (hkey : ¬ OfList lengthKey item key) :
    ListStored codec (rows.erase key) lengthKey item records := by
  apply stored.frame
  intro other hother
  rw [lookup_erase_ite, if_neg]
  rintro rfl
  exact hkey hother

theorem nextLengthOf_eq (lawful : codec.Lawful)
    (stored : ListStored codec rows lengthKey item records) (hfits : records.length + 1 < 2 ^ 64) :
    nextLengthOf codec rows lengthKey = some (records.length + 1) := by
  unfold nextLengthOf
  rw [stored.length]
  cases records with
  | nil => rfl
  | cons first rest =>
      simp only [List.isEmpty_cons, Bool.false_eq_true, if_false]
      rw [lawful _ (by omega), Option.map_some, Nat.mod_eq_of_lt hfits]

theorem recordIndex_succ {length : ℕ} (hfits : length + 1 < 2 ^ 64) : recordIndex (length + 1) = length := by
  unfold recordIndex
  omega

theorem append (lawful : codec.Lawful) (stored : ListStored codec rows lengthKey item records)
    (hinjective : Function.Injective item) (hlength : ∀ index, lengthKey ≠ item index) (data : V)
    (hfits : records.length + 1 < 2 ^ 64) :
    ListStored codec (appendTo codec rows lengthKey item data).2 lengthKey item (records ++ [data]) := by
  unfold appendTo
  rw [stored.nextLengthOf_eq lawful hfits]
  simp only [recordIndex_succ hfits]
  constructor
  · rw [lookup_insert_ite, if_neg (hlength _), lookup_insert_ite, if_pos rfl]
    simp
  · intro index
    rw [lookup_insert_ite, List.getElem?_append]
    by_cases hsame : index = records.length
    · subst hsame
      simp
    · rw [if_neg fun hitem => hsame (hinjective hitem), lookup_insert_ite,
        if_neg (Ne.symm (hlength index)), stored.items]
      by_cases hlt : index < records.length
      · simp [hlt]
      · have hbeyond : records.length ≤ index := by omega
        have hone : [data].length ≤ index - records.length := by
          rw [List.length_singleton]
          omega
        rw [if_neg hlt, List.getElem?_eq_none hbeyond, List.getElem?_eq_none hone]

/-- A list of its own keeps to its own rows. -/
theorem append_other (stored : ListStored codec rows lengthKey item records) {other : K}
    {items : ℕ → K} (data : V) (hother : ¬ OfList lengthKey item other)
    (hitems : ∀ index, ¬ OfList lengthKey item (items index)) :
    ListStored codec (appendTo codec rows other items data).2 lengthKey item records := by
  unfold appendTo
  cases nextLengthOf codec rows other with
  | none => exact stored
  | some length => exact (stored.insert hother _).insert (hitems _) data

end ListStored

/-- The list is stored in the rows of the map, and in those to go back to. -/
structure ListKept (codec : LengthRow V) (plain : Plain K V) (lengthKey : K) (item : ℕ → K)
    (state : List V × Option (List V)) : Prop where
  stored : ListStored codec plain.rows lengthKey item state.1
  saved : ∀ rows, plain.saved = some rows →
    ∃ records, state.2 = some records ∧ ListStored codec rows lengthKey item records
  none_saved : plain.saved = none → state.2 = none

namespace ListKept

variable {lengthKey : K} {item : ℕ → K} {state : List V × Option (List V)}

theorem withRows (kept : ListKept codec plain lengthKey item state) {rows : KeyTable K V}
    {records : List V} (stored : ListStored codec rows lengthKey item records) :
    ListKept codec { plain with rows := rows } lengthKey item (records, state.2) :=
  ⟨stored, kept.saved, kept.none_saved⟩

theorem closed (stored : ListStored codec plain.rows lengthKey item state.1) :
    ListKept codec { plain with saved := none } lengthKey item (state.1, none) :=
  ⟨stored, fun _ hrows => (nomatch hrows), fun _ => rfl⟩

theorem step (lawful : codec.Lawful) (hinjective : Function.Injective item)
    (hlength : ∀ index, lengthKey ≠ item index) (kept : ListKept codec plain lengthKey item state)
    {op : Op K V} (respects : op.Respects lengthKey item) (hfits : state.1.length + 1 < 2 ^ 64)
    {reply : Reply V} {plain' : Plain K V} (hstep : plain.step codec op = some (reply, plain')) :
    ListKept codec plain' lengthKey item (listed lengthKey state op) := by
  cases op with
  | get key =>
      cases hstep
      exact kept
  | put key value =>
      cases hstep
      exact kept.withRows (kept.stored.insert respects value)
  | del key =>
      cases hstep
      exact kept.withRows (kept.stored.erase respects)
  | append other items data =>
      cases hstep
      by_cases hother : other = lengthKey
      · obtain rfl := respects.1 hother
        subst hother
        have hlisted : listed other state (.append other items data) = (state.1 ++ [data], state.2) :=
          if_pos rfl
        rw [hlisted]
        exact kept.withRows (kept.stored.append lawful hinjective hlength data hfits)
      · obtain ⟨hkey, hitems⟩ := respects.2 hother
        have hlisted : listed lengthKey state (.append other items data) = state := if_neg hother
        rw [hlisted]
        exact kept.withRows (kept.stored.append_other data hkey hitems)
  | begin =>
      simp only [Plain.step] at hstep
      split at hstep
      · cases hstep
      · cases hstep
        refine ⟨kept.stored, ?_, fun hnone => nomatch hnone⟩
        rintro _ ⟨⟩
        exact ⟨state.1, rfl, kept.stored⟩
  | commit =>
      cases hstep
      exact closed kept.stored
  | abort =>
      cases hstep
      refine ⟨?_, fun _ hrows => (nomatch hrows), fun _ => rfl⟩
      cases hsaved : plain.saved with
      | none =>
          simp only [listed, kept.none_saved hsaved, Option.getD_none]
          exact kept.stored
      | some rows =>
          obtain ⟨records, hrecords, hstored⟩ := kept.saved rows hsaved
          simp only [listed, hrecords, Option.getD_some]
          exact hstored
  | settle row =>
      cases hstep
      cases row with
      | none => exact kept
      | some entry => exact kept.withRows (kept.stored.insert (respects entry rfl) entry.2)

/-- An operation makes the list, and the one to go back to, longer by one record at most. -/
theorem longest_listed (lengthKey : K) (state : List V × Option (List V)) (op : Op K V) :
    longest (listed lengthKey state op) ≤ longest state + 1 := by
  obtain ⟨records, saved⟩ := state
  cases op with
  | append other items data =>
      by_cases hother : other = lengthKey
      · simp only [listed, if_pos hother, longest, List.length_append, List.length_singleton]
        omega
      · simp only [listed, if_neg hother]
        exact Nat.le_succ _
  | begin =>
      simp only [listed, longest, Option.getD_some]
      omega
  | commit =>
      simp only [listed, longest, Option.getD_none, List.length_nil]
      omega
  | abort =>
      cases saved with
      | none => exact Nat.le_succ _
      | some saved =>
          simp only [listed, longest, Option.getD_some, Option.getD_none, List.length_nil]
          omega
  | get key => exact Nat.le_succ _
  | put key value => exact Nat.le_succ _
  | del key => exact Nat.le_succ _
  | settle row => exact Nat.le_succ _

theorem longest_run (lengthKey : K) :
    ∀ (ops : List (Op K V)) (state : List V × Option (List V)),
      longest (ops.foldl (listed lengthKey) state) ≤ longest state + ops.length
  | [], state => Nat.le_refl _
  | op :: ops, state => by
      have hrest := longest_run lengthKey ops (listed lengthKey state op)
      have hone := longest_listed lengthKey state op
      rw [List.foldl_cons, List.length_cons]
      omega

/-- Over a run that respects the list it stays stored, with the records appended and not rolled
back. -/
theorem run (lawful : codec.Lawful) (hinjective : Function.Injective item)
    (hlength : ∀ index, lengthKey ≠ item index) :
    ∀ {ops : List (Op K V)} {plain last : Plain K V} {state : List V × Option (List V)}
      {replies : List (Reply V)}, ListKept codec plain lengthKey item state →
      (∀ op ∈ ops, op.Respects lengthKey item) →
      longest state + ops.length < 2 ^ 64 →
      execOps (Plain.step codec) ops plain = some (replies, last) →
      ListKept codec last lengthKey item (ops.foldl (listed lengthKey) state)
  | [], plain, last, state, replies, kept, _, _, hexec => by
      cases hexec
      exact kept
  | op :: ops, plain, last, state, replies, kept, respects, hfits, hexec => by
      unfold execOps at hexec
      obtain ⟨⟨reply, next⟩, hstep, hrest⟩ := Option.bind_eq_some_iff.1 hexec
      obtain ⟨⟨rest, final⟩, hfinal, hsame⟩ := Option.map_eq_some_iff.1 hrest
      cases hsame
      rw [List.length_cons] at hfits
      have hlongest : state.1.length ≤ longest state := Nat.le_max_left _ _
      have hlonger := longest_listed lengthKey state op
      have hnext := kept.step lawful hinjective hlength (respects op List.mem_cons_self) (by omega) hstep
      rw [List.foldl_cons]
      apply run lawful hinjective hlength hnext (fun op hop => respects op (List.mem_cons_of_mem _ hop))
      · omega
      · exact hfinal

end ListKept

end Rollback

end AtomicBatch
