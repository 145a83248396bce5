/-
Module: OrdDogecoin.Index.HashLinked
Purpose: When the indexed chain is hash-linked.  `detect_reorg` compares a block with its committed
  parent only, so a block whose parent is still uncommitted is accepted unchecked.  In every run
  in which such a block does name the block fetched before it, every committed state is linked,
  through all commits, savepoints and roll-backs.
Trusted boundary: as in OrdDogecoin.Index.Reorg
Main exports: fetchedLinked, Linked, committed_hashLinked
-/
import OrdDogecoin.Index.Reorg
import OrdDogecoin.Lib.Run

namespace OrdDogecoin.Index

open Chain

/-! ### Linked chains -/

/-- Linkedness relates neighbours only, so it can be evaluated. -/
theorem hashLinked_iff_isChain {headers : Headers} :
    HashLinked headers ↔
      headers.IsChain fun parent header => header.prevBlockhash = parent.blockHash := by
  rw [List.isChain_iff_getElem]
  constructor
  · intro linked height hlt
    exact linked height _ _ (List.getElem?_eq_getElem hlt) (List.getElem?_eq_getElem (by omega))
  · intro hchain height header parent hheader hparent
    obtain ⟨hlt, rfl⟩ := List.getElem?_eq_some_iff.1 hheader
    obtain ⟨-, rfl⟩ := List.getElem?_eq_some_iff.1 hparent
    exact hchain height hlt

instance (headers : Headers) : Decidable (HashLinked headers) :=
  decidable_of_iff _ hashLinked_iff_isChain.symm

theorem HashLinked.nil : HashLinked [] := by
  intro height header parent hheader
  simp at hheader

variable {header : BlockHeader} {nodeHash : ℕ → Option BlockHash}

/-- A block may be put on top of a linked chain when it names the last block. -/
theorem HashLinked.append {headers : Headers} (linked : HashLinked headers)
    (hparent : ∀ parent, headers.getLast? = some parent → header.prevBlockhash = parent.blockHash) :
    HashLinked (headers ++ [header]) := by
  intro height child parent hchild hbelow
  have hlt : height + 1 < (headers ++ [header]).length := (List.getElem?_eq_some_iff.1 hchild).1
  rw [List.length_append, List.length_singleton] at hlt
  rw [List.getElem?_append_left (by omega)] at hbelow
  rcases Nat.lt_or_ge (height + 1) headers.length with hinside | htop
  · rw [List.getElem?_append_left hinside] at hchild
    exact linked height child parent hchild hbelow
  · have hlast : headers.getLast? = some parent := by
      rw [List.getLast?_eq_getElem?, ← hbelow]
      congr 1
      omega
    rw [List.getElem?_append_right htop, show height + 1 - headers.length = 0 by omega] at hchild
    cases hchild
    exact hparent parent hlast

/-! ### What one turn checks -/

/-- A block at the block count that passes `detect_reorg` names the last committed block. -/
theorem parent_of_detectReorg_ok {committed : Headers}
    (hok : detectReorg header committed.length committed nodeHash = .ok ()) {parent : BlockHeader}
    (hlast : committed.getLast? = some parent) : header.prevBlockhash = parent.blockHash := by
  have hne : committed ≠ [] := by
    rintro rfl
    cases hlast
  have hpos : 0 < committed.length := List.length_pos_iff.2 hne
  have hhash : blockHash committed (checkedSub committed.length 1) = some parent.blockHash := by
    rw [checkedSub, if_pos (Nat.succ_le_of_lt hpos), blockHash, ← List.getLast?_eq_getElem?, hlast]
    rfl
  rw [detectReorg, hhash] at hok
  by_cases hsame : parent.blockHash = header.prevBlockhash
  · exact hsame.symm
  · simp only [if_neg hsame] at hok
    split at hok <;> cases hok

/-- A block whose parent is also fetched but not committed names that parent as fetched. -/
def fetchedLinked (state : State) : Action → Bool
  | .indexBlock _ =>
      match state.session with
      | none => true
      | some session =>
          session.uncommitted = 0 ||
            match session.fetched session.height, session.fetched (session.height - 1) with
            | some header, some parent => header.prevBlockhash = parent.blockHash
            | _, _ => true
  | _ => true

/-! ### The invariant -/

/-- The open transaction extends the committed blocks by the uncommitted ones, as fetched. -/
structure SessionLinked (committed : Headers) (session : Session) : Prop where
  height_eq : session.height = session.openHeaders.length
  linked : HashLinked session.openHeaders
  of_committed : session.uncommitted = 0 → session.openHeaders = committed
  last_fetched : 0 < session.uncommitted → ∃ last, session.openHeaders.getLast? = some last ∧
    session.fetched (session.height - 1) = some last

structure Linked (state : State) : Prop where
  committed : HashLinked state.committed
  savepoints : ∀ savepoint ∈ state.savepoints, HashLinked savepoint
  session : ∀ session, state.session = some session → SessionLinked state.committed session

theorem Linked.empty : Linked State.empty where
  committed := .nil
  savepoints savepoint hmem := by cases hmem
  session session hsession := by cases hsession

variable {state : State}

/-- Ending a session keeps the committed part. -/
theorem Linked.endSession (linked : Linked state) (reorged : Bool) :
    Linked { state with session := none, unrecoverablyReorged := reorged } where
  committed := linked.committed
  savepoints := linked.savepoints
  session session hsession := by cases hsession

theorem mem_updateSavepoints {savepoints : List Headers} {committed savepoint : Headers}
    {height nodeBlockCount : ℕ}
    (hmem : savepoint ∈ updateSavepoints savepoints committed height nodeBlockCount) :
    savepoint ∈ savepoints ∨ savepoint = committed := by
  unfold updateSavepoints at hmem
  split at hmem
  · rcases List.mem_append.1 hmem with hold | hnew
    · split at hold
      · exact .inl (List.mem_of_mem_tail hold)
      · exact .inl hold
    · exact .inr (List.mem_singleton.1 hnew)
  · exact .inl hmem

variable {session : Session}

/-- A commit publishes a linked chain. -/
theorem Linked.commit (linked : Linked state) (hsession : HashLinked session.openHeaders)
    (hheight : session.height = session.openHeaders.length) : Linked (state.commit session) where
  committed := hsession
  savepoints savepoint hmem := by
    rcases mem_updateSavepoints hmem with hold | rfl
    · exact linked.savepoints savepoint hold
    · exact hsession
  session other hother := by
    cases hother
    exact ⟨hheight, hsession, fun _ => rfl, fun hpos => absurd hpos (Nat.lt_irrefl 0)⟩

/-- A roll-back restores a savepoint or keeps the committed state. -/
theorem Linked.recover (linked : Linked state) (error : ReorgError) :
    Linked (state.recover error) := by
  cases error with
  | unrecoverable => exact linked.endSession true
  | recoverable height depth =>
      cases hhandled : handleReorg state.savepoints height depth with
      | error error =>
          simp only [State.recover, hhandled]
          exact linked.endSession true
      | ok restored =>
          have hmem : restored ∈ state.savepoints := by
            unfold handleReorg at hhandled
            cases holdest : state.savepoints.head? with
            | none => simp [holdest] at hhandled
            | some oldest =>
                simp only [holdest] at hhandled
                split at hhandled
                · cases hhandled
                · cases hhandled
                  exact List.mem_of_head? holdest
          have hrestored := linked.savepoints restored hmem
          simp only [State.recover, hhandled]
          refine ⟨hrestored, ?_, ?_⟩
          · intro savepoint hsavepoint
            cases List.mem_singleton.1 hsavepoint
            exact hrestored
          · intro session hsession
            cases hsession

/-- The block accepted by a turn of the loop names the last block of the open transaction. -/
theorem SessionLinked.parent (hsession : SessionLinked state.committed session)
    (hcurrent : state.session = some session)
    (hfetched : session.fetched session.height = some header)
    (hlinked : fetchedLinked state (.indexBlock nodeHash) = true)
    (hok : detectReorg header session.height state.committed nodeHash = .ok ())
    {parent : BlockHeader} (hlast : session.openHeaders.getLast? = some parent) :
    header.prevBlockhash = parent.blockHash := by
  rcases Nat.eq_zero_or_pos session.uncommitted with hzero | hpos
  · -- the parent is committed: this is what `detect_reorg` compares
    have hopen := hsession.of_committed hzero
    rw [hsession.height_eq, hopen] at hok
    exact parent_of_detectReorg_ok hok (hopen ▸ hlast)
  · obtain ⟨last, hopen, hparent⟩ := hsession.last_fetched hpos
    cases hlast.symm.trans hopen
    simpa [fetchedLinked, hcurrent, hfetched, hparent, Nat.pos_iff_ne_zero.1 hpos] using hlinked

/-- One turn of the loop keeps the invariant. -/
theorem Linked.indexBlock {settings : Settings} (linked : Linked state)
    (hcurrent : state.session = some session)
    (hfetched : session.fetched session.height = some header)
    (hlinked : fetchedLinked state (.indexBlock nodeHash) = true) :
    Linked (state.indexBlock settings nodeHash session header) := by
  have hsession := linked.session session hcurrent
  unfold State.indexBlock
  cases hdetect : detectReorg header session.height state.committed nodeHash with
  | error error => exact linked.recover error
  | ok _ =>
      have hopen : HashLinked (session.openHeaders ++ [header]) := by
        apply hsession.linked.append
        intro parent hlast
        exact hsession.parent hcurrent hfetched hlinked hdetect hlast
      have hheight : session.height + 1 = (session.openHeaders ++ [header]).length := by
        rw [hsession.height_eq, List.length_append, List.length_singleton]
      dsimp only
      split
      · exact linked.commit hopen hheight
      · refine ⟨linked.committed, linked.savepoints, ?_⟩
        intro next hnext
        cases hnext
        exact ⟨hheight, hopen, fun hzero => absurd hzero (Nat.succ_ne_zero _),
          fun _ => ⟨header, List.getLast?_concat, hfetched⟩⟩

/-- Fetching another block keeps the blocks fetched before. -/
theorem Linked.fetch {height : ℕ} (linked : Linked state) (hcurrent : state.session = some session)
    (hnew : session.fetched height = none) :
    Linked { state with
      session := some { session with
        fetched := fun other => if other = height then some header else session.fetched other } } := by
  refine ⟨linked.committed, linked.savepoints, ?_⟩
  intro next hnext
  cases hnext
  have hsession := linked.session session hcurrent
  refine ⟨hsession.height_eq, hsession.linked, hsession.of_committed, ?_⟩
  intro hpos
  obtain ⟨last, hopen, hlast⟩ := hsession.last_fetched hpos
  have hne : session.height - 1 ≠ height := by
    rintro rfl
    cases hnew.symm.trans hlast
  exact ⟨last, hopen, by simp only [if_neg hne, hlast]⟩

theorem Linked.begin (linked : Linked state) (startingHeight : ℕ) :
    Linked { state with
      session := some
        { height := state.committed.length
          startingHeight := startingHeight
          openHeaders := state.committed
          uncommitted := 0
          fetched := fun _ => none } } := by
  refine ⟨linked.committed, linked.savepoints, ?_⟩
  intro session hsession
  cases hsession
  exact ⟨rfl, linked.committed, fun _ => rfl, fun hpos => absurd hpos (Nat.lt_irrefl 0)⟩

/-- Every step of a run that meets the condition keeps the invariant. -/
theorem Linked.step {settings : Settings} {state next : State} {action : Action}
    (linked : Linked state) (hlinked : fetchedLinked state action = true)
    (hstep : state.step settings action = some next) : Linked next := by
  cases action with
  | reorganise fromPrimary chain =>
      cases fromPrimary <;> cases hstep <;>
        exact ⟨linked.committed, linked.savepoints, linked.session⟩
  | begin =>
      cases hcurrent : state.session with
      | some session => simp [State.step, hcurrent] at hstep
      | none =>
          simp only [State.step, hcurrent, Option.some.injEq] at hstep
          cases hstep
          exact linked.begin state.primary.length
  | fetch fromPrimary height =>
      cases hcurrent : state.session with
      | none => simp [State.step, hcurrent] at hstep
      | some session =>
          simp only [State.step, hcurrent, Option.bind_eq_bind, Option.bind_some] at hstep
          split at hstep
          · cases hstep
          · next hfree =>
            cases hheader : (state.chain fromPrimary)[height]? with
            | none => simp [hheader] at hstep
            | some header =>
                rw [hheader, Option.bind_some, Option.some.injEq] at hstep
                cases hstep
                have hnew : session.fetched height = none := by
                  simp only [Bool.or_eq_true, not_or] at hfree
                  simpa using hfree.2
                exact linked.fetch hcurrent hnew
  | indexBlock nodeHash =>
      cases hcurrent : state.session with
      | none => simp [State.step, hcurrent] at hstep
      | some session =>
          cases hfetched : session.fetched session.height with
          | none => simp [State.step, hcurrent, hfetched] at hstep
          | some header =>
              simp only [State.step, hcurrent, hfetched, Option.bind_eq_bind, Option.bind_some,
                Option.some.injEq] at hstep
              cases hstep
              exact linked.indexBlock hcurrent hfetched hlinked
  | finish =>
      cases hcurrent : state.session with
      | none => simp [State.step, hcurrent] at hstep
      | some session =>
          simp only [State.step, hcurrent, Option.bind_eq_bind, Option.bind_some,
            Option.some.injEq] at hstep
          cases hstep
          have hsession := linked.session session hcurrent
          split
          · exact (linked.commit hsession.linked hsession.height_eq).endSession _
          · exact linked.endSession _
  | fail =>
      cases hcurrent : state.session with
      | none => simp [State.step, hcurrent] at hstep
      | some session =>
          simp only [State.step, hcurrent, Option.bind_eq_bind, Option.bind_some,
            Option.some.injEq] at hstep
          cases hstep
          exact linked.endSession _

/-- In every run in which each block with an uncommitted parent names the block fetched below it,
every committed state is hash-linked. -/
theorem committed_hashLinked {settings : Settings} {state : State}
    (reaches : Run.Reaches (State.step settings)
      (fun state action => fetchedLinked state action = true) State.empty state) :
    HashLinked state.committed :=
  (reaches.invariant Linked (fun linked hlinked hstep => linked.step hlinked hstep)
    Linked.empty).committed

def plainSettings : Settings where
  indexSats := false
  firstInscriptionHeight := 0
  tapLean := false
  heightLimit := none

/-- Two branches over one genesis block. -/
def branchA : BestChain := [⟨1, 0, 0, 0, 0⟩, ⟨2, 1, 0, 0, 0⟩]

def branchB : BestChain := [⟨1, 0, 0, 0, 0⟩, ⟨3, 1, 0, 0, 0⟩, ⟨4, 3, 0, 0, 0⟩]

/-- One update that indexes and commits a whole branch. -/
def oneBranchRun : List Action :=
  [.reorganise true branchB, .begin, .fetch true 0, .fetch true 1, .fetch true 2,
    .indexBlock fun _ => none, .indexBlock fun _ => none, .indexBlock fun _ => none, .finish]

/-- The same update, but the node leaves branch A between the second and the third fetch. -/
def mixedRun : List Action :=
  [.reorganise true branchA, .begin, .fetch true 0, .fetch true 1, .reorganise true branchB,
    .fetch true 2, .indexBlock fun _ => none, .indexBlock fun _ => none,
    .indexBlock fun _ => none, .finish]

theorem oneBranchRun_hashLinked :
    ∃ state, Run.Reaches (State.step plainSettings)
        (fun state action => fetchedLinked state action = true) State.empty state ∧
      state.committed = branchB ∧ HashLinked state.committed := by
  have hexec : (Run.exec (State.step plainSettings) fetchedLinked oneBranchRun State.empty).map
      State.committed = some branchB := by decide
  obtain ⟨state, reaches, hcommitted⟩ := Run.exists_reaches_of_exec (fun hcheck => hcheck) hexec
  exact ⟨state, reaches, hcommitted, committed_hashLinked reaches⟩

/-- Both nodes only ever have linked chains, no error is raised, and yet the committed block of
height 2 names a block that is not the one committed at height 1. -/
theorem mixedRun_not_hashLinked :
    HashLinked branchA ∧ HashLinked branchB ∧
      ∃ state, Run.Reaches (State.step plainSettings) (fun _ _ => True) State.empty state ∧
        state.committed = [⟨1, 0, 0, 0, 0⟩, ⟨2, 1, 0, 0, 0⟩, ⟨4, 3, 0, 0, 0⟩] ∧
        state.unrecoverablyReorged = false ∧ ¬ HashLinked state.committed := by
  have hexec : (Run.exec (State.step plainSettings) (fun _ _ => true) mixedRun State.empty).map
      (fun state => (state.committed, state.unrecoverablyReorged)) =
        some ([⟨1, 0, 0, 0, 0⟩, ⟨2, 1, 0, 0, 0⟩, ⟨4, 3, 0, 0, 0⟩], false) := by decide
  obtain ⟨state, reaches, hview⟩ := Run.exists_reaches_of_exec (fun _ => trivial) hexec
  obtain ⟨hcommitted, hreorged⟩ := Prod.mk.inj hview
  refine ⟨by decide, by decide, state, reaches, hcommitted, hreorged, ?_⟩
  rw [hcommitted]
  decide

end OrdDogecoin.Index
