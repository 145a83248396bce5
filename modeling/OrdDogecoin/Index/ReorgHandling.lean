/-
Module: OrdDogecoin.Index.ReorgHandling
Purpose: What a roll-back leaves.  In every run in which a block with an uncommitted parent names the
  block fetched before it, a roll-back that succeeds leaves blocks of the node's chain at or below the
  fork, one that fails changes nothing, and five savepoints at distinct block counts are enough for
  every reorg that is reported as recoverable.
Trusted boundary: as in OrdDogecoin.Index.ReorgStore; a block hash determines its header, and the
  nodes follow chains of one network
Main exports: NetworkChain, ReorgHandled, reorg_handled_of_reaches
-/
import OrdDogecoin.Index.ReorgStore

namespace OrdDogecoin.Index

open Chain
open Feed (recordBlock reinstateMeta)
open Option (bind_eq_some_iff map_eq_some_iff map_some)

/-! ### Chains of one network -/

/-- Headers with the hashes of the network, from its genesis block on. -/
structure Known (header : BlockHash → BlockHeader) (genesis : BlockHeader) (headers : Headers) :
    Prop where
  starts : ∀ first, headers[0]? = some first → first = genesis
  hashed : ∀ block ∈ headers, header block.blockHash = block

/-- A chain of the network: linked, from its genesis block, with the headers behind its hashes. -/
structure NetworkChain (header : BlockHash → BlockHeader) (genesis : BlockHeader) (chain : BestChain) :
    Prop extends Known header genesis chain where
  linked : HashLinked chain

variable {header : BlockHash → BlockHeader} {genesis : BlockHeader} {block : BlockHeader}
  {store : Store} {state : IndexState} {nodeHash : ℕ → Option BlockHash} {action : IndexAction}
  {journal : Option JournalInput} {height reported depth : ℕ}

theorem Known.nil : Known header genesis [] where
  starts first hfirst := by cases hfirst
  hashed block hmem := absurd hmem List.not_mem_nil

theorem NetworkChain.nil : NetworkChain header genesis [] := ⟨.nil, .nil⟩

theorem Known.of_isPrefix {headers other : Headers} (known : Known header genesis headers)
    (hbefore : other <+: headers) : Known header genesis other where
  starts first hfirst := by
    obtain ⟨rest, rfl⟩ := hbefore
    apply known.starts first
    rw [List.getElem?_append_left (List.getElem?_eq_some_iff.1 hfirst).1, hfirst]
  hashed block hmem := known.hashed block (hbefore.subset hmem)

/-- A known header may be put on top, the genesis block on an empty chain. -/
theorem Known.append {headers : Headers} (known : Known header genesis headers)
    (hhashed : header block.blockHash = block) (hgenesis : headers.length = 0 → block = genesis) :
    Known header genesis (headers ++ [block]) where
  starts first hfirst := by
    cases headers with
    | nil =>
        cases hfirst
        exact hgenesis rfl
    | cons head headers => exact known.starts first hfirst
  hashed other hmem := by
    rcases List.mem_append.1 hmem with hmem | hmem
    · exact known.hashed other hmem
    · obtain rfl := List.mem_singleton.1 hmem
      exact hhashed

/-- Two chains of the network that agree at a height agree below it. -/
theorem NetworkChain.agree {chain other : BestChain} (network : NetworkChain header genesis chain)
    (network' : NetworkChain header genesis other) {height : ℕ}
    (hblock : chain[height]? = some block) (hother : other[height]? = some block) :
    ∀ below ≤ height, chain[below]? = other[below]? := by
  induction height generalizing block with
  | zero =>
      intro below hbelow
      obtain rfl := Nat.le_zero.1 hbelow
      rw [hblock, hother]
  | succ height ih =>
      intro below hbelow
      rcases Nat.eq_or_lt_of_le hbelow with rfl | hlt
      · rw [hblock, hother]
      · have hinside := (List.getElem?_eq_some_iff.1 hblock).1
        have hinside' := (List.getElem?_eq_some_iff.1 hother).1
        have hparent := List.getElem?_eq_getElem (l := chain) (i := height) (by omega)
        have hparent' := List.getElem?_eq_getElem (l := other) (i := height) (by omega)
        have hsame : chain[height] = other[height] := by
          have hhash := network.linked height block _ hblock hparent
          have hhash' := network'.linked height block _ hother hparent'
          have hleft := network.hashed _ (List.mem_of_getElem? hparent)
          have hright := network'.hashed _ (List.mem_of_getElem? hparent')
          rw [← hleft, ← hright, ← hhash, ← hhash']
        rw [hsame] at hparent
        exact ih hparent hparent' below (by omega)

/-! ### Savepoints -/

/-- A database that has grown out of another. -/
structure Extends (old new : Database) : Prop where
  headers : old.headers <+: new.headers
  generation : ∀ id, old.feedMeta.databaseId = some id → new.feedMeta.databaseId = some id

theorem Extends.refl (database : Database) : Extends database database :=
  ⟨List.prefix_rfl, fun _ h => h⟩

theorem Extends.trans {first second third : Database} (one : Extends first second)
    (two : Extends second third) : Extends first third :=
  ⟨one.headers.trans two.headers, fun id h => two.generation id (one.generation id h)⟩

theorem Extends.index {database after : Database}
    (hindex : database.index block journal = some after) : Extends database after := by
  refine ⟨?_, fun id hid => ?_⟩
  · rw [headers_index hindex]
    exact List.prefix_append _ _
  · unfold Database.index at hindex
    cases journal with
    | none =>
        cases hindex
        exact hid
    | some input =>
        obtain ⟨recorded, hrecorded, rfl⟩ := map_eq_some_iff.1 hindex
        unfold recordBlock at hrecorded
        dsimp only at hrecorded
        split at hrecorded
        · cases hrecorded
          simp only [Feed.ensureMeta, hid, Option.some_or]
        · cases hrecorded

/-- The savepoints of a database: earlier states of it, taken at block counts below ten or divisible
by ten, oldest first and at most five. -/
structure SavepointsKept (store : Store) : Prop where
  before : ∀ savepoint ∈ store.savepoints, Extends savepoint store.committed
  counts : ∀ savepoint ∈ store.savepoints,
    savepoint.headers.length < 10 ∨ savepoint.headers.length % 10 = 0
  sorted : (store.savepoints.map fun savepoint => savepoint.headers.length).Pairwise (· ≤ ·)
  few : store.savepoints.length ≤ 5

theorem SavepointsKept.extend {after : Database} (kept : SavepointsKept store)
    (extends' : Extends store.committed after) :
    SavepointsKept { store with committed := after } where
  before savepoint hmem := (kept.before savepoint hmem).trans extends'
  counts := kept.counts
  sorted := kept.sorted
  few := kept.few

theorem SavepointsKept.tail (kept : SavepointsKept store) :
    SavepointsKept { store with savepoints := store.savepoints.tail } where
  before savepoint hmem := kept.before savepoint (List.mem_of_mem_tail hmem)
  counts savepoint hmem := kept.counts savepoint (List.mem_of_mem_tail hmem)
  sorted := by
    rw [List.map_tail]
    exact kept.sorted.tail
  few := by
    have hfew := kept.few
    dsimp only
    rw [List.length_tail]
    omega

theorem SavepointsKept.append (kept : SavepointsKept store)
    (hcount : store.committed.headers.length < 10 ∨ store.committed.headers.length % 10 = 0)
    (hfew : store.savepoints.length ≤ 4) :
    SavepointsKept { store with savepoints := store.savepoints ++ [store.committed] } where
  before savepoint hmem := by
    rcases List.mem_append.1 hmem with hmem | hmem
    · exact kept.before savepoint hmem
    · obtain rfl := List.mem_singleton.1 hmem
      exact .refl _
  counts savepoint hmem := by
    rcases List.mem_append.1 hmem with hmem | hmem
    · exact kept.counts savepoint hmem
    · obtain rfl := List.mem_singleton.1 hmem
      exact hcount
  sorted := by
    rw [List.map_append, List.pairwise_append]
    refine ⟨kept.sorted, List.pairwise_singleton _ _, ?_⟩
    intro count hcount last hlast
    obtain ⟨savepoint, hmem, rfl⟩ := List.mem_map.1 hcount
    obtain rfl := List.mem_singleton.1 hlast
    exact (kept.before savepoint hmem).headers.length_le
  few := by
    dsimp only
    rw [List.length_append, List.length_singleton]
    omega

/-- `update_savepoints` after a commit. -/
theorem SavepointsKept.update (kept : SavepointsKept store) (nodeBlockCount : ℕ) :
    SavepointsKept { store with
      savepoints := updateSavepointsStore store.savepoints store.committed
        store.committed.headers.length nodeBlockCount } := by
  unfold updateSavepointsStore
  split
  next hdue =>
    have hcount : store.committed.headers.length < 10 ∨ store.committed.headers.length % 10 = 0 := by
      simp only [Bool.and_eq_true, Bool.or_eq_true, decide_eq_true_eq, savepointInterval] at hdue
      exact hdue.1.imp of_decide_eq_true of_decide_eq_true
    split
    next hfull =>
      have hfew := kept.few
      refine kept.tail.append hcount ?_
      dsimp only
      rw [List.length_tail]
      omega
    next hroom =>
      refine kept.append hcount ?_
      unfold maxSavepoints at hroom
      omega
  next => exact kept

theorem Extends.ensureMeta (database : Database) (fresh : Feed.FixedBytes 16) (coverage : ℕ) :
    Extends database
      { database with feedMeta := Feed.ensureMeta database.feedMeta fresh coverage } where
  headers := List.prefix_rfl
  generation id hid := by simp only [Feed.ensureMeta, hid, Option.some_or]

/-- The generation of the feed survives a roll-back. -/
theorem databaseId_restored {oldest before : Database} (extends' : Extends oldest before) :
    (oldest.restored before).feedMeta.databaseId = before.feedMeta.databaseId := by
  show before.feedMeta.databaseId.or oldest.feedMeta.databaseId = before.feedMeta.databaseId
  cases hold : oldest.feedMeta.databaseId with
  | none => exact Option.or_none
  | some id => rw [extends'.generation id hold, Option.some_or]

/-- A restored savepoint is the only one left. -/
theorem SavepointsKept.restored (kept : SavepointsKept store) {oldest : Database}
    (hmem : oldest ∈ store.savepoints) :
    SavepointsKept { committed := oldest.restored store.committed, savepoints := [oldest] } where
  before savepoint hsavepoint := by
    obtain rfl := List.mem_singleton.1 hsavepoint
    have extends' := kept.before savepoint hmem
    refine ⟨List.prefix_rfl, fun id hid => ?_⟩
    exact (databaseId_restored extends').trans (extends'.generation id hid)
  counts savepoint hsavepoint := by
    obtain rfl := List.mem_singleton.1 hsavepoint
    exact kept.counts savepoint hmem
  sorted := List.pairwise_singleton _ _
  few := by simp

/-- What a roll-back does to the store. -/
theorem handleReorgStore_cases (store : Store) (height depth : ℕ) :
    handleReorgStore store height depth = (.error .unrecoverable, store) ∨
      ∃ oldest, store.savepoints.head? = some oldest ∧
        oldest.headers.length ≤ height - depth + 1 ∧
        handleReorgStore store height depth =
          (.ok (), { committed := oldest.restored store.committed, savepoints := [oldest] }) := by
  cases holdest : store.savepoints.head? with
  | none => simp [handleReorgStore, holdest]
  | some oldest =>
      by_cases habove : height - depth + 1 < oldest.headers.length
      · simp [handleReorgStore, holdest, habove]
      · exact .inr ⟨oldest, rfl, by omega, by simp [handleReorgStore, holdest, habove]⟩

/-! ### The invariant -/

/-- The blocks of a session: fetched from chains of the network, on top of the committed ones. -/
structure SessionKnown (header : BlockHash → BlockHeader) (genesis : BlockHeader) (committed : Database)
    (session : OpenSession) : Prop where
  extends' : Extends committed session.database
  known : Known header genesis session.database.headers
  fetched : ∀ height block, session.fetched height = some block →
    header block.blockHash = block ∧ (height = 0 → block = genesis)

/-- What holds of the nodes, the store and the session in every reached state. -/
structure Restorable (header : BlockHash → BlockHeader) (genesis : BlockHeader) (state : IndexState) :
    Prop where
  primary : NetworkChain header genesis state.primary
  secondary : NetworkChain header genesis state.secondary
  known : Known header genesis state.store.committed.headers
  kept : SavepointsKept state.store
  session : ∀ session, state.session = some session →
    SessionKnown header genesis state.store.committed session

theorem Restorable.empty : Restorable header genesis IndexState.empty where
  primary := .nil
  secondary := .nil
  known := .nil
  kept := ⟨fun savepoint hmem => absurd hmem List.not_mem_nil,
    fun savepoint hmem => absurd hmem List.not_mem_nil, List.Pairwise.nil, Nat.zero_le _⟩
  session session hsession := by cases hsession

theorem Restorable.endSession (restorable : Restorable header genesis state) (reorged : Bool) :
    Restorable header genesis { state with session := none, unrecoverablyReorged := reorged } where
  primary := restorable.primary
  secondary := restorable.secondary
  known := restorable.known
  kept := restorable.kept
  session session hsession := by cases hsession

theorem Restorable.commit {session : OpenSession} (restorable : Restorable header genesis state)
    (hsession : SessionKnown header genesis state.store.committed session)
    (hheight : session.height = session.database.headers.length) :
    Restorable header genesis (state.commit session) where
  primary := restorable.primary
  secondary := restorable.secondary
  known := hsession.known
  kept := by
    have hkept := (restorable.kept.extend hsession.extends').update (state.primary.length - 1)
    dsimp only at hkept
    rw [← hheight] at hkept
    exact hkept
  session other hother := by
    cases hother
    exact ⟨.refl _, hsession.known, hsession.fetched⟩

theorem Restorable.recover (restorable : Restorable header genesis state) (error : ReorgError) :
    Restorable header genesis (state.recover error) := by
  cases error with
  | unrecoverable => exact restorable.endSession true
  | recoverable height depth =>
      unfold IndexState.recover
      rcases handleReorgStore_cases state.store height depth with hhandled |
        ⟨oldest, holdest, -, hhandled⟩
      · simp only [hhandled]
        exact restorable.endSession true
      · have hmem : oldest ∈ state.store.savepoints := List.mem_of_head? holdest
        simp only [hhandled]
        refine ⟨restorable.primary, restorable.secondary, ?_, restorable.kept.restored hmem, ?_⟩
        · exact restorable.known.of_isPrefix (restorable.kept.before oldest hmem).headers
        · intro session hsession
          cases hsession

theorem SessionKnown.index {committed database : Database} {session : OpenSession}
    (hsession : SessionKnown header genesis committed session)
    (hheight : session.height = session.database.headers.length)
    (hfetched : session.fetched session.height = some block)
    (hindex : session.database.index block journal = some database) :
    SessionKnown header genesis committed
      { session with
        height := session.height + 1
        database := database
        uncommitted := session.uncommitted + 1 } where
  extends' := hsession.extends'.trans (.index hindex)
  known := by
    have hblock := hsession.fetched session.height block hfetched
    dsimp only
    rw [headers_index hindex]
    exact hsession.known.append hblock.1 fun hempty => hblock.2 (hheight.trans hempty)
  fetched := hsession.fetched

theorem Restorable.indexBlock {settings : Settings} {state next : IndexState}
    {session : OpenSession} (restorable : Restorable header genesis state)
    (hcurrent : state.session = some session)
    (hheight : session.height = session.database.headers.length)
    (hfetched : session.fetched session.height = some block)
    (hstep : state.indexBlock settings nodeHash journal session block = some next) :
    Restorable header genesis next := by
  unfold IndexState.indexBlock at hstep
  split at hstep
  next error herror =>
    cases hstep
    exact restorable.recover error
  next hok =>
    obtain ⟨database, hdatabase, rfl⟩ := map_eq_some_iff.1 hstep
    have hsession := (restorable.session session hcurrent).index hheight hfetched hdatabase
    have hgrown : session.height + 1 = database.headers.length := by
      rw [headers_index hdatabase, List.length_append, List.length_singleton, hheight]
    dsimp only
    split
    · exact restorable.commit hsession hgrown
    · refine ⟨restorable.primary, restorable.secondary, restorable.known, restorable.kept, ?_⟩
      intro other hother
      cases hother
      exact hsession

/-- The nodes only follow chains of the network. -/
def Networked (header : BlockHash → BlockHeader) (genesis : BlockHeader) (action : IndexAction) : Prop :=
  ∀ fromPrimary chain, action = .reorganise fromPrimary chain → NetworkChain header genesis chain

/-- Besides, a block with an uncommitted parent names the block fetched below it. -/
def Followed (header : BlockHash → BlockHeader) (genesis : BlockHeader) (state : IndexState)
    (action : IndexAction) : Prop :=
  Networked header genesis action ∧
    ∀ visible, action.view = some visible → fetchedLinked state.view visible = true

theorem Restorable.step {settings : Settings} {state next : IndexState}
    (restorable : Restorable header genesis state) (linked : Linked state.view)
    (hnetwork : Networked header genesis action) (hstep : state.step settings action = some next) :
    Restorable header genesis next := by
  have hheight : ∀ session, state.session = some session →
      session.height = session.database.headers.length := by
    intro session hsession
    have hvisible : state.view.session = some session.view := by
      rw [IndexState.view, hsession]
      rfl
    exact (linked.session session.view hvisible).height_eq
  cases action with
  | reorganise fromPrimary chain =>
      have hchain := hnetwork fromPrimary chain rfl
      cases fromPrimary with
      | true =>
          cases hstep
          exact ⟨hchain, restorable.secondary, restorable.known, restorable.kept, restorable.session⟩
      | false =>
          cases hstep
          exact ⟨restorable.primary, hchain, restorable.known, restorable.kept, restorable.session⟩
  | begin =>
      cases hsession : state.session with
      | some session => simp [IndexState.step, hsession] at hstep
      | none =>
          simp only [IndexState.step, hsession, Option.some.injEq] at hstep
          cases hstep
          refine ⟨restorable.primary, restorable.secondary, restorable.known, restorable.kept, ?_⟩
          intro session hsession
          cases hsession
          exact ⟨.refl _, restorable.known, fun height block hblock => by cases hblock⟩
  | fetch fromPrimary height =>
      obtain ⟨session, hsession, hstep⟩ := bind_eq_some_iff.1 hstep
      split at hstep
      · cases hstep
      next hfree =>
        obtain ⟨block, hblock, hstep⟩ := bind_eq_some_iff.1 hstep
        cases hstep
        refine ⟨restorable.primary, restorable.secondary, restorable.known, restorable.kept, ?_⟩
        intro other hother
        cases hother
        have hknown := restorable.session session hsession
        refine ⟨hknown.extends', hknown.known, ?_⟩
        intro other fetched hfetched
        dsimp only at hfetched
        split at hfetched
        next hsame =>
          cases hfetched
          have hchain : NetworkChain header genesis (state.chain fromPrimary) := by
            cases fromPrimary with
            | true => exact restorable.primary
            | false => exact restorable.secondary
          refine ⟨hchain.hashed block (List.mem_of_getElem? hblock), fun hzero => ?_⟩
          obtain rfl : height = 0 := hsame.symm.trans hzero
          exact hchain.starts block hblock
        next => exact hknown.fetched other fetched hfetched
  | indexBlock nodeHash journal =>
      obtain ⟨session, hsession, hstep⟩ := bind_eq_some_iff.1 hstep
      obtain ⟨block, hblock, hstep⟩ := bind_eq_some_iff.1 hstep
      exact restorable.indexBlock hsession (hheight session hsession) hblock hstep
  | finish =>
      obtain ⟨session, hsession, hstep⟩ := bind_eq_some_iff.1 hstep
      cases hstep
      split
      · exact (restorable.commit (restorable.session session hsession)
          (hheight session hsession)).endSession _
      · exact restorable.endSession _
  | fail =>
      obtain ⟨session, hsession, hstep⟩ := bind_eq_some_iff.1 hstep
      cases hstep
      exact restorable.endSession _
  | createGeneration fresh coverage =>
      cases hsession : state.session with
      | some session => simp [IndexState.step, hsession] at hstep
      | none =>
          simp only [IndexState.step, hsession, Option.some.injEq] at hstep
          cases hstep
          refine ⟨restorable.primary, restorable.secondary, restorable.known,
            restorable.kept.extend (.ensureMeta _ fresh coverage), ?_⟩
          intro session hother
          cases hother

/-- Every followed step keeps the links and what can be restored. -/
theorem Followed.preserves {settings : Settings} {state next : IndexState}
    (hfollowed : Followed header genesis state action)
    (hstate : Linked state.view ∧ Restorable header genesis state)
    (hstep : state.step settings action = some next) :
    Linked next.view ∧ Restorable header genesis next := by
  refine ⟨?_, hstate.2.step hstate.1 hfollowed.1 hstep⟩
  have hview := step_view hstep
  cases hvisible : action.view with
  | none =>
      rw [hvisible] at hview
      rw [show next.view = state.view from hview]
      exact hstate.1
  | some visible =>
      rw [hvisible] at hview
      exact hstate.1.step (hfollowed.2 visible hvisible) hview

/-! ### The report of a reorg -/

/-- What the report of a recoverable reorg says: the fork is the first height, from the tip down, at
which the committed block is the one the node answers with. -/
theorem detectReorg_recoverable {committed : Headers}
    (hdetect : detectReorg block height committed nodeHash = .error (.recoverable reported depth)) :
    reported = height ∧ (blockHash committed (checkedSub height 1)).isSome ∧ 1 ≤ depth ∧
      depth < 40 + height % 10 ∧
      blockHash committed (checkedSub height depth) = nodeHash (height - depth) ∧
      ∀ above, 1 ≤ above → above < depth →
        blockHash committed (checkedSub height above) ≠ nodeHash (height - above) := by
  unfold detectReorg at hdetect
  split at hdetect
  next prev hprev =>
    split at hdetect
    · cases hdetect
    · dsimp only at hdetect
      split at hdetect
      next found hfound =>
        cases hdetect
        obtain ⟨hmatch, hmem, hfirst⟩ := List.find?_range'_eq_some.1 hfound
        have hrange := List.mem_range'_1.1 hmem
        unfold maxSavepoints savepointInterval at hrange
        refine ⟨rfl, by rw [hprev]; rfl, hrange.1, by omega, of_decide_eq_true hmatch, ?_⟩
        intro above hpos hbelow
        have hnot := hfirst above hpos hbelow
        simpa using hnot
      next => cases hdetect
  next => cases hdetect

/-- A reorg is only reported for the block on top of the committed ones. -/
theorem height_of_reported {committed : Headers} (hheight : committed.length ≤ height)
    (hdetect : detectReorg block height committed nodeHash = .error (.recoverable reported depth)) :
    height = committed.length ∧ 0 < height := by
  have hsome := (detectReorg_recoverable hdetect).2.1
  unfold checkedSub at hsome
  split at hsome
  next hpos =>
    have hinside : height - 1 < committed.length := by simpa [blockHash] using hsome
    omega
  next hzero =>
    obtain rfl : committed = [] := List.eq_nil_of_length_eq_zero (by omega)
    cases hsome

/-- The fork is not below the genesis block, which every node has. -/
theorem depth_le_of_reported {committed : Headers} (known : Known header genesis committed)
    (hheight : committed.length ≤ height) (hgenesis : nodeHash 0 = some genesis.blockHash)
    (hdetect : detectReorg block height committed nodeHash = .error (.recoverable reported depth)) :
    depth ≤ height := by
  obtain ⟨hlength, hpos⟩ := height_of_reported hheight hdetect
  by_contra hdeep
  have hfirst := (detectReorg_recoverable hdetect).2.2.2.2.2 height hpos (by omega)
  apply hfirst
  have hzero := List.getElem?_eq_getElem (l := committed) (i := 0) (by omega)
  have hstarts := known.starts _ hzero
  rw [checkedSub, if_pos (Nat.le_refl height), Nat.sub_self, hgenesis]
  simp only [blockHash, hzero, map_some, hstarts]

/-! ### Roll-backs of a run -/

/-- Five savepoints at distinct block counts of at least ten. -/
def FiveSavepoints (savepoints : List Database) : Prop :=
  ∃ counts : List ℕ, counts.Sublist (savepoints.map fun savepoint => savepoint.headers.length) ∧
    counts.length = 5 ∧ counts.Nodup ∧ ∀ count ∈ counts, 10 ≤ count

/-- What a roll-back over the fork at `height - depth` does to a state. -/
structure ReorgHandled (state : IndexState) (height depth : ℕ) : Prop where
  onNodeChain : ∀ store, handleReorgStore state.store height depth = (.ok (), store) →
    ∀ level block, store.committed.headers[level]? = some block →
      level ≤ height - depth ∧ state.primary[level]? = some block
  counted : ∀ store, handleReorgStore state.store height depth = (.ok (), store) →
    store.committed.reorgs = state.store.committed.reorgs + 1
  generation : ∀ store, handleReorgStore state.store height depth = (.ok (), store) →
    store.committed.feedMeta.databaseId = state.store.committed.feedMeta.databaseId
  unchanged : ∀ error store, handleReorgStore state.store height depth = (.error error, store) →
    store = state.store
  rolledBack : FiveSavepoints state.store.savepoints →
    ∃ store, handleReorgStore state.store height depth = (.ok (), store)

/-- The first of five distinct multiples of ten is forty below the last. -/
theorem head_of_five {counts : List ℕ} {top : ℕ} (hlength : counts.length = 5)
    (hnodup : counts.Nodup) (hsorted : counts.Pairwise (· ≤ ·))
    (hcounts : ∀ count ∈ counts, count % 10 = 0 ∧ count ≤ top) :
    ∀ first, counts.head? = some first → first + 40 + top % 10 ≤ top := by
  intro first hfirst
  match counts, hlength with
  | [first', second, third, fourth, fifth], _ =>
      cases hfirst
      simp only [List.mem_cons, List.not_mem_nil, or_false, forall_eq_or_imp, forall_eq] at hcounts
      simp only [List.nodup_cons, List.mem_cons, List.not_mem_nil, or_false, not_or] at hnodup
      simp only [List.pairwise_cons, List.mem_cons, List.not_mem_nil, or_false, forall_eq_or_imp,
        forall_eq] at hsorted
      omega

/-- Five savepoints reach down to every fork that is reported. -/
theorem SavepointsKept.oldest_of_five (kept : SavepointsKept store)
    (hfive : FiveSavepoints store.savepoints) :
    ∃ oldest, store.savepoints.head? = some oldest ∧
      oldest.headers.length + 40 + store.committed.headers.length % 10 ≤
        store.committed.headers.length := by
  obtain ⟨counts, hsub, hlength, hnodup, hten⟩ := hfive
  have hall : counts = store.savepoints.map fun savepoint => savepoint.headers.length := by
    apply hsub.eq_of_length_le
    have hfew := kept.few
    rw [List.length_map]
    omega
  have hcounts : ∀ count ∈ counts, count % 10 = 0 ∧ count ≤ store.committed.headers.length := by
    intro count hmem
    have hlarge := hten count hmem
    rw [hall] at hmem
    obtain ⟨savepoint, hsavepoint, rfl⟩ := List.mem_map.1 hmem
    refine ⟨?_, (kept.before savepoint hsavepoint).headers.length_le⟩
    have hcounts := kept.counts savepoint hsavepoint
    omega
  have hhead := head_of_five hlength hnodup (hall ▸ kept.sorted) hcounts
  cases hsavepoints : store.savepoints with
  | nil =>
      rw [hall, hsavepoints] at hlength
      cases hlength
  | cons oldest savepoints =>
      refine ⟨oldest, rfl, hhead _ ?_⟩
      rw [hall, hsavepoints]
      rfl

/-- A fork below which the committed blocks are those of the node is rolled back to. -/
theorem Restorable.handled {depth : ℕ}
    (restorable : Restorable header genesis state)
    (hlinked : HashLinked state.store.committed.headers)
    (hpos : 1 ≤ depth) (hdepth : depth ≤ state.store.committed.headers.length)
    (hmax : depth < 40 + state.store.committed.headers.length % 10)
    (hsame : blockHash state.store.committed.headers
        (some (state.store.committed.headers.length - depth)) =
      (state.primary[state.store.committed.headers.length - depth]?).map BlockHeader.blockHash) :
    ReorgHandled state state.store.committed.headers.length depth := by
  have hcases := handleReorgStore_cases state.store state.store.committed.headers.length depth
  have hok : ∀ store, handleReorgStore state.store state.store.committed.headers.length depth =
      (.ok (), store) → ∃ oldest ∈ state.store.savepoints,
        oldest.headers.length ≤ state.store.committed.headers.length - depth + 1 ∧
        store.committed = oldest.restored state.store.committed := by
    intro store hok
    rcases hcases with herror | ⟨oldest, holdest, hcount, hrolled⟩
    · rw [herror] at hok
      cases hok
    · rw [hrolled] at hok
      cases hok
      exact ⟨oldest, List.mem_of_head? holdest, hcount, rfl⟩
  constructor
  case onNodeChain =>
    intro store hstore level block hblock
    obtain ⟨oldest, hmem, hcount, hrestored⟩ := hok store hstore
    have hheaders : (oldest.restored state.store.committed).headers = oldest.headers := rfl
    rw [hrestored, hheaders] at hblock
    have hinside := (List.getElem?_eq_some_iff.1 hblock).1
    have hlevel : level ≤ state.store.committed.headers.length - depth := by omega
    refine ⟨hlevel, ?_⟩
    -- the fork is one block in both chains, and both are linked below it
    have hfork := List.getElem?_eq_getElem (l := state.store.committed.headers)
      (i := state.store.committed.headers.length - depth) (by omega)
    have hnode : state.primary[state.store.committed.headers.length - depth]? =
        some state.store.committed.headers[state.store.committed.headers.length - depth] := by
      rw [blockHash, hfork, map_some] at hsame
      obtain ⟨other, hother, hhash⟩ := map_eq_some_iff.1 hsame.symm
      have hleft := restorable.known.hashed _ (List.mem_of_getElem? hfork)
      have hright := restorable.primary.hashed _ (List.mem_of_getElem? hother)
      rw [hother, ← hright, hhash, hleft]
    have hagree := NetworkChain.agree ⟨restorable.known, hlinked⟩ restorable.primary hfork hnode
      level hlevel
    rw [← hagree]
    obtain ⟨rest, hrest⟩ := (restorable.kept.before oldest hmem).headers
    rw [← hrest, List.getElem?_append_left hinside, hblock]
  case counted =>
    intro store hstore
    obtain ⟨oldest, -, -, hrestored⟩ := hok store hstore
    rw [hrestored]
    rfl
  case generation =>
    intro store hstore
    obtain ⟨oldest, hmem, -, hrestored⟩ := hok store hstore
    rw [hrestored]
    exact databaseId_restored (restorable.kept.before oldest hmem)
  case unchanged =>
    intro error store hstore
    rcases hcases with herror | ⟨oldest, -, -, hrolled⟩
    · rw [herror] at hstore
      cases hstore
      rfl
    · rw [hrolled] at hstore
      cases hstore
  case rolledBack =>
    intro hfive
    obtain ⟨oldest, holdest, hcount⟩ := restorable.kept.oldest_of_five hfive
    refine ⟨{ committed := oldest.restored state.store.committed, savepoints := [oldest] }, ?_⟩
    unfold handleReorgStore
    rw [holdest]
    exact if_neg (by omega)

/-- In every run in which the nodes follow chains of one network and each block with an uncommitted
parent names the block fetched below it, every recoverable reorg is handled. -/
theorem reorg_handled_of_reaches {settings : Settings} {state : IndexState} {session : OpenSession}
    {block : BlockHeader} {nodeHash : ℕ → Option BlockHash} {height depth : ℕ}
    (reaches : Run.Reaches (IndexState.step settings) (Followed header genesis) IndexState.empty state)
    (hsession : state.session = some session)
    (hgenesis : nodeHash 0 = some genesis.blockHash)
    (hdetect : detectReorg block session.height state.store.committed.headers nodeHash =
      .error (.recoverable height depth))
    (hfork : nodeHash (height - depth) =
      (state.primary[height - depth]?).map BlockHeader.blockHash) :
    ReorgHandled state height depth := by
  obtain ⟨linked, restorable⟩ := reaches.invariant
    (fun state => Linked state.view ∧ Restorable header genesis state)
    (fun hstate hfollowed hstep => hfollowed.preserves hstate hstep) ⟨.empty, .empty⟩
  have hvisible : state.view.session = some session.view := by
    rw [IndexState.view, hsession]
    rfl
  have hopen : session.height = session.database.headers.length :=
    (linked.session session.view hvisible).height_eq
  have hbelow : state.store.committed.headers.length ≤ session.height := by
    rw [hopen]
    exact (restorable.session session hsession).extends'.headers.length_le
  obtain ⟨hreported, -, hpos, hmax, hmatch, -⟩ := detectReorg_recoverable hdetect
  have hdepth := depth_le_of_reported restorable.known hbelow hgenesis hdetect
  have hlength := (height_of_reported hbelow hdetect).1
  subst hreported
  rw [checkedSub, if_pos hdepth, hfork] at hmatch
  rw [hlength] at hmatch hmax hdepth ⊢
  exact restorable.handled linked.committed hpos hdepth hmax hmatch

/-! ### Two runs over one network -/

/-- The blocks of a small network with three tips. -/
def forkedBlocks : List BlockHeader :=
  [⟨1, 0, 0, 0, 0⟩, ⟨2, 1, 0, 0, 0⟩, ⟨3, 1, 0, 0, 0⟩, ⟨4, 3, 0, 0, 0⟩, ⟨6, 4, 0, 0, 0⟩,
    ⟨7, 4, 0, 0, 0⟩, ⟨8, 7, 0, 0, 0⟩]

def forkedGenesis : BlockHeader := ⟨1, 0, 0, 0, 0⟩

def forkedHeader (hash : BlockHash) : BlockHeader :=
  (forkedBlocks.find? fun block => block.blockHash = hash).getD forkedGenesis

def branchC : BestChain := branchB ++ [⟨6, 4, 0, 0, 0⟩]

def branchD : BestChain := branchB ++ [⟨7, 4, 0, 0, 0⟩, ⟨8, 7, 0, 0, 0⟩]

/-- The answers of a node on branch D. -/
def branchDHash (height : ℕ) : Option BlockHash := branchD[height]?.map BlockHeader.blockHash

/-- Whether a chain belongs to the small network. -/
def inForkedNetwork (chain : BestChain) : Bool :=
  chain.head?.all (· = forkedGenesis) && chain.all (fun block => forkedHeader block.blockHash = block) &&
    HashLinked chain

theorem networkChain_of_inForkedNetwork {chain : BestChain} (hchain : inForkedNetwork chain = true) :
    NetworkChain forkedHeader forkedGenesis chain := by
  simp only [inForkedNetwork, Bool.and_eq_true, decide_eq_true_eq, List.all_eq_true] at hchain
  obtain ⟨⟨hstarts, hhashed⟩, hlinked⟩ := hchain
  refine ⟨⟨?_, hhashed⟩, hlinked⟩
  intro first hfirst
  rw [List.head?_eq_getElem?, hfirst] at hstarts
  simpa using hstarts

def networkedCheck : IndexAction → Bool
  | .reorganise _ chain => inForkedNetwork chain
  | _ => true

theorem networked_of_check (hcheck : networkedCheck action = true) :
    Networked forkedHeader forkedGenesis action := by
  rintro fromPrimary chain rfl
  exact networkChain_of_inForkedNetwork hcheck

def followedCheck (state : IndexState) (action : IndexAction) : Bool :=
  networkedCheck action && action.view.all (fetchedLinked state.view)

theorem followed_of_check (hcheck : followedCheck state action = true) :
    Followed forkedHeader forkedGenesis state action := by
  simp only [followedCheck, Bool.and_eq_true] at hcheck
  refine ⟨networked_of_check hcheck.1, ?_⟩
  intro visible hvisible
  simpa [hvisible] using hcheck.2

/-- Index the blocks fetched so far. -/
def indexNext : IndexAction := .indexBlock branchDHash none

/-- After a first update that committed three blocks: one more block, and then the node leaves it for
branch D, whose tip has been fetched. -/
def reorgTail : List IndexAction :=
  [.reorganise true branchC, .begin, .fetch true 3, indexNext, .finish, .reorganise true branchD,
    .begin, .fetch true 4]

def straightRun : List IndexAction :=
  [.reorganise true branchB, .begin, .fetch true 0, .fetch true 1, .fetch true 2, indexNext, indexNext,
    indexNext, .finish] ++ reorgTail

/-- The node leaves branch A between the second and the third fetch of the first update. -/
def crossedRun : List IndexAction :=
  [.reorganise true branchA, .begin, .fetch true 0, .fetch true 1, .reorganise true branchB,
    .fetch true 2, indexNext, indexNext, indexNext, .finish] ++ reorgTail

/-- What the two runs show of their last state. -/
def reorgSight (state : IndexState) : Option ℕ × BestChain × Headers :=
  (state.session.map OpenSession.height, state.primary, state.store.committed.headers)

theorem straightRun_handled :
    ∃ state, Run.Reaches (IndexState.step plainSettings) (Followed forkedHeader forkedGenesis)
        IndexState.empty state ∧
      detectReorg ⟨8, 7, 0, 0, 0⟩ 4 state.store.committed.headers branchDHash =
        .error (.recoverable 4 2) ∧
      ReorgHandled state 4 2 := by
  have hexec : (Run.exec (IndexState.step plainSettings) followedCheck straightRun
      IndexState.empty).map reorgSight = some (some 4, branchD, branchC) := by decide
  obtain ⟨state, reaches, hsight⟩ := Run.exists_reaches_of_exec followed_of_check hexec
  simp only [reorgSight, Prod.mk.injEq] at hsight
  obtain ⟨hheight, hprimary, hcommitted⟩ := hsight
  obtain ⟨session, hsession, hheight⟩ := map_eq_some_iff.1 hheight
  have hdetect : detectReorg ⟨8, 7, 0, 0, 0⟩ 4 state.store.committed.headers branchDHash =
      .error (.recoverable 4 2) := by
    rw [hcommitted]
    rfl
  have hreported : detectReorg ⟨8, 7, 0, 0, 0⟩ session.height state.store.committed.headers
      branchDHash = .error (.recoverable 4 2) := by
    rw [hheight, hdetect]
  refine ⟨state, reaches, hdetect, reorg_handled_of_reaches reaches hsession rfl hreported ?_⟩
  rw [hprimary]
  rfl

/-- Both nodes only follow chains of one network, and yet a roll-back that succeeds leaves a block
that is not on the node's chain. -/
theorem crossedRun_not_handled :
    ∃ state, Run.Reaches (IndexState.step plainSettings)
        (fun _ action => Networked forkedHeader forkedGenesis action) IndexState.empty state ∧
      state.primary = branchD ∧
      detectReorg ⟨8, 7, 0, 0, 0⟩ 4 state.store.committed.headers branchDHash =
        .error (.recoverable 4 2) ∧
      (∃ store, handleReorgStore state.store 4 2 = (.ok (), store) ∧
        store.committed.headers[1]? = some ⟨2, 1, 0, 0, 0⟩) ∧
      ¬ ReorgHandled state 4 2 := by
  have hexec : (Run.exec (IndexState.step plainSettings) (fun _ action => networkedCheck action)
      crossedRun IndexState.empty).map
        (fun state => (reorgSight state, state.store.savepoints.head?.map Database.headers)) =
      some ((some 4, branchD, [⟨1, 0, 0, 0, 0⟩, ⟨2, 1, 0, 0, 0⟩, ⟨4, 3, 0, 0, 0⟩, ⟨6, 4, 0, 0, 0⟩]),
        some [⟨1, 0, 0, 0, 0⟩, ⟨2, 1, 0, 0, 0⟩, ⟨4, 3, 0, 0, 0⟩]) := by decide
  obtain ⟨state, reaches, hsight⟩ := Run.exists_reaches_of_exec networked_of_check hexec
  simp only [reorgSight, Prod.mk.injEq] at hsight
  obtain ⟨⟨-, hprimary, hcommitted⟩, holdest⟩ := hsight
  obtain ⟨oldest, holdest, hheaders⟩ := map_eq_some_iff.1 holdest
  have hrolled : handleReorgStore state.store 4 2 =
      (.ok (), { committed := oldest.restored state.store.committed, savepoints := [oldest] }) := by
    unfold handleReorgStore
    rw [holdest]
    simp [hheaders]
  have hblock : (oldest.restored state.store.committed).headers[1]? = some ⟨2, 1, 0, 0, 0⟩ := by
    show oldest.headers[1]? = _
    rw [hheaders]
    rfl
  refine ⟨state, reaches, hprimary, ?_, ⟨_, hrolled, hblock⟩, ?_⟩
  · rw [hcommitted]
    rfl
  · intro handled
    have hnode := (handled.onNodeChain _ hrolled 1 _ hblock).2
    rw [hprimary] at hnode
    revert hnode
    decide

end OrdDogecoin.Index
