/-
Module: OrdDogecoin.Tap.LockSafety
Purpose: Runs in which locks and obligations are created and consumed while anything else may happen to
  the other rows.  Each is consumed at most once, in time and with a preimage, and what is paid out is
  what was bound.
Trusted boundary: none
Main exports: SafetyRun, ObligationSafe, consumes_safely_of_reaches
-/
import OrdDogecoin.Tap.Settlements
import OrdDogecoin.Lib.Run

namespace OrdDogecoin.Tap

open ProofHandler

/-! ### Runs -/

/-- The creation of a lock or an obligation. -/
structure CreationEvent where
  id : Text
  before : ProofStore
  after : ProofStore

/-- The release of a lock or the settlement of an obligation: what it named, and when and with which
preimage it came. -/
structure ConsumeEvent where
  id : Text
  op : Text
  height : ℕ
  preimage : Option Json
  before : ProofStore
  after : ProofStore

/-- The rows, and what has happened to locks and obligations. -/
structure SafetyRun where
  store : ProofStore
  locks : List CreationEvent
  releases : List ConsumeEvent
  obligations : List CreationEvent
  settlements : List ConsumeEvent

/-- The actions on locks and obligations, and anything else, which leaves their rows alone. -/
inductive SafetyAction where
  | lock (context : TapContext) (link : TokenAuthCreateRecord) (place : ActionPlace) (action : Json)
  | release (context : TapContext) (link : Option TokenAuthCreateRecord) (action : Json)
  | openObligation (context : TapContext) (link : Option TokenAuthCreateRecord) (place : ActionPlace)
      (action : Json)
  | settle (context : TapContext) (action : Json)
  | other (update : ProofStore → ProofStore)

/-- The event of a release or a settlement that names its object in a field. -/
def consumeEvent (env : ProofEnv) (context : TapContext) (action : Json) (key : String)
    (before after : ProofStore) : ConsumeEvent where
  id := action.text key
  op := env.toLowercase (action.text "op")
  height := context.height
  preimage := action.get "preimage"
  before := before
  after := after

def safetyStep (env : ProofEnv) (run : SafetyRun) : SafetyAction → Option SafetyRun
  | .lock context link place action =>
      ((processTokenProofLockAction env context action link place).commit run.store).map fun after =>
        { run with
          store := after
          locks := run.locks ++
            [{ id := tokenProofLockId place, before := run.store, after := after }] }
  | .release context link action =>
      ((processTokenProofReleaseAction env context action link).commit run.store).map fun after =>
        { run with
          store := after
          releases := run.releases ++ [consumeEvent env context action "lock" run.store after] }
  | .openObligation context link place action =>
      ((processObligationOpenAction env context action link place).commit run.store).map fun after =>
        { run with
          store := after
          obligations := run.obligations ++
            [{ id := tokenProofLockId place, before := run.store, after := after }] }
  | .settle context action =>
      ((processObligationSettleAction env context action).commit run.store).map fun after =>
        { run with
          store := after
          settlements := run.settlements ++ [consumeEvent env context action "ob" run.store after] }
  | .other update =>
      some
        { run with
          store :=
            { update run.store with
              l := run.store.l
              lc := run.store.lc
              ob := run.store.ob
              obc := run.store.obc } }

/-- A run starts without locks and obligations, whatever the other rows are. -/
def SafetyRun.start (store : ProofStore) : SafetyRun where
  store := { store with l := ∅, lc := ∅, ob := ∅, obc := ∅ }
  locks := []
  releases := []
  obligations := []
  settlements := []

/-! ### Safety -/

/-- A consumption through the claim of a hash lock: in time, and with a preimage of the hash. -/
def ClaimedInTime (env : ProofEnv) (event : ConsumeEvent) (hash : Text) (refundAfter : ℕ) : Prop :=
  event.height < refundAfter ∧
    ∃ preimage, event.preimage = some preimage ∧
      env.toLowercase (hashProofPreimage env preimage) = env.toLowercase hash

/-- A release pays out the total that the creation of its lock has bound, and a hash lock is claimed
before and refunded from its refund height on. -/
def LockSafe (env : ProofEnv) (locks : List CreationEvent) (event : ConsumeEvent) : Prop :=
  ∃ lock action, releaseAction event.op = some action ∧
    (∃ creation ∈ locks, creation.id = event.id ∧
      Locked env event.id lock creation.before creation.after) ∧
    Released env lock action event.before event.after ∧
    lock.total = lock.remaining + ((lock.allocationsTo .account).map Prod.snd).sum +
      ((lock.allocationsTo .authority).map Prod.snd).sum +
      ((lock.allocationsTo .burn).map Prod.snd).sum ∧
    ∀ hash, lock.condition = .hashlock hash →
      ∃ refundAfter, lock.refundAfter = some refundAfter ∧
        match action with
        | .claim => ClaimedInTime env event hash refundAfter
        | .refund => refundAfter ≤ event.height

def TokenObligationRecord.settledTo (obligation : TokenObligationRecord) : SettleAction → ObligationTarget
  | .refund => obligation.rf
  | _ => obligation.cl

/-- A settlement pays the amount that opening its obligation has reserved, to the claim target before
and to the refund target from its refund height on. -/
def ObligationSafe (env : ProofEnv) (obligations : List CreationEvent) (event : ConsumeEvent) : Prop :=
  ∃ obligation action, settleAction event.op = some action ∧
    (∃ creation ∈ obligations, creation.id = event.id ∧
      Opened env event.id obligation (obligation.tickKey env) creation.before creation.after) ∧
    Settled env obligation (obligation.settledTo action) event.before event.after ∧
    match action with
    | .refund => obligation.ra ≤ event.height
    | _ => ClaimedInTime env event obligation.hash obligation.ra

/-- What holds in every state of a run. -/
structure SafetyInvariant (env : ProofEnv) (run : SafetyRun) : Prop where
  created : ∀ {id lock}, run.store.l.lookup id = some lock →
    ∃ creation ∈ run.locks, creation.id = id ∧ Locked env id lock creation.before creation.after
  released : ∀ event ∈ run.releases, (run.store.lc.lookup event.id).isSome
  releasedOnce : (run.releases.map ConsumeEvent.id).Nodup
  releasesSafe : ∀ event ∈ run.releases, LockSafe env run.locks event
  opened : ∀ {id obligation}, run.store.ob.lookup id = some obligation → obligation.st = .opened →
    ∃ creation ∈ run.obligations, creation.id = id ∧
      Opened env id obligation (obligation.tickKey env) creation.before creation.after
  settled : ∀ event ∈ run.settlements, (run.store.obc.lookup event.id).isSome
  settledOnce : (run.settlements.map ConsumeEvent.id).Nodup
  settlementsSafe : ∀ event ∈ run.settlements, ObligationSafe env run.obligations event

section Steps

variable {env : ProofEnv} {context : TapContext} {store after : ProofStore} {run : SafetyRun}

theorem LockSafe.mono {locks locks' : List CreationEvent} {event : ConsumeEvent}
    (hsub : locks ⊆ locks') (safe : LockSafe env locks event) : LockSafe env locks' event := by
  obtain ⟨lock, action, haction, ⟨creation, hmem, hcreation⟩, hrest⟩ := safe
  exact ⟨lock, action, haction, ⟨creation, hsub hmem, hcreation⟩, hrest⟩

theorem ObligationSafe.mono {obligations obligations' : List CreationEvent} {event : ConsumeEvent}
    (hsub : obligations ⊆ obligations') (safe : ObligationSafe env obligations event) :
    ObligationSafe env obligations' event := by
  obtain ⟨obligation, action, haction, ⟨creation, hmem, hcreation⟩, hrest⟩ := safe
  exact ⟨obligation, action, haction, ⟨creation, hsub hmem, hcreation⟩, hrest⟩

/-- A new event keeps the events apart when its object had not been consumed. -/
theorem nodup_append_event {events : List ConsumeEvent} {event : ConsumeEvent}
    (Consumed : Text → Prop) (hconsumed : ∀ old ∈ events, Consumed old.id)
    (hnew : ¬ Consumed event.id) (hnodup : (events.map ConsumeEvent.id).Nodup) :
    ((events ++ [event]).map ConsumeEvent.id).Nodup := by
  rw [List.map_append, List.nodup_append]
  refine ⟨hnodup, List.nodup_singleton _, ?_⟩
  intro id hid other hother
  obtain ⟨old, hold, rfl⟩ := List.mem_map.1 hid
  rw [List.map_singleton, List.mem_singleton] at hother
  rintro rfl
  exact hnew (hother ▸ hconsumed old hold)

namespace SafetyInvariant

theorem start (store : ProofStore) : SafetyInvariant env (SafetyRun.start store) where
  created hrow := by cases hrow
  released event hevent := by cases hevent
  releasedOnce := List.nodup_nil
  releasesSafe event hevent := by cases hevent
  opened hrow := by cases hrow
  settled event hevent := by cases hevent
  settledOnce := List.nodup_nil
  settlementsSafe event hevent := by cases hevent

/-- What does not touch the rows of locks and obligations keeps the invariant. -/
theorem frame (inv : SafetyInvariant env run) (next : ProofStore) (hl : next.l = run.store.l)
    (hlc : next.lc = run.store.lc) (hob : next.ob = run.store.ob) (hobc : next.obc = run.store.obc) :
    SafetyInvariant env { run with store := next } where
  created hrow := inv.created (hl ▸ hrow)
  released event hevent := by
    dsimp only
    rw [hlc]
    exact inv.released event hevent
  releasedOnce := inv.releasedOnce
  releasesSafe := inv.releasesSafe
  opened hrow hopened := inv.opened (hob ▸ hrow) hopened
  settled event hevent := by
    dsimp only
    rw [hobc]
    exact inv.settled event hevent
  settledOnce := inv.settledOnce
  settlementsSafe := inv.settlementsSafe

theorem lock (inv : SafetyInvariant env run) {id : Text} {lock : TokenLockRecord}
    (locked : Locked env id lock run.store after) :
    SafetyInvariant env
      { run with
        store := after
        locks := run.locks ++ [{ id := id, before := run.store, after := after }] } := by
  obtain ⟨ll, hafter⟩ := locked.frame
  have hframe := inv.frame { after with l := run.store.l } rfl (by rw [hafter]) (by rw [hafter])
    (by rw [hafter])
  have hsub : run.locks ⊆ run.locks ++ [{ id := id, before := run.store, after := after }] :=
    List.subset_append_left _ _
  exact
    { created := by
        intro other row hrow
        dsimp only at hrow ⊢
        have hl : after.l = run.store.l.insert id lock := by rw [hafter]
        rw [hl] at hrow
        obtain ⟨rfl, rfl⟩ | ⟨-, hold⟩ := KeyTable.lookup_insert_cases hrow
        · exact ⟨_, List.mem_append_right _ (List.mem_singleton.2 rfl), rfl, locked⟩
        · obtain ⟨creation, hmem, hcreation⟩ := inv.created hold
          exact ⟨creation, hsub hmem, hcreation⟩
      released := hframe.released
      releasedOnce := hframe.releasedOnce
      releasesSafe := fun event hevent => (hframe.releasesSafe event hevent).mono hsub
      opened := hframe.opened
      settled := hframe.settled
      settledOnce := hframe.settledOnce
      settlementsSafe := hframe.settlementsSafe }

theorem release_in_time {action : Json} {link : Option TokenAuthCreateRecord}
    {release : TokenProofReleaseValidation}
    (checked : ReleaseChecked env context action link run.store release) {hash : Text}
    (hhash : release.lock.condition = .hashlock hash) :
    ∃ refundAfter, release.lock.refundAfter = some refundAfter ∧
      match release.action with
      | .claim => ClaimedInTime env (consumeEvent env context action "lock" run.store after) hash
          refundAfter
      | .refund => refundAfter ≤ context.height := by
  have htarget := checked.target
  unfold TokenLockRecord.target at htarget
  rw [hhash] at htarget
  cases haction : release.action with
  | claim =>
      rw [haction] at htarget
      dsimp only at htarget ⊢
      obtain ⟨refundAfter, hrefund, htarget⟩ := Option.bind_eq_some_iff.1 htarget
      obtain ⟨htime, htarget⟩ := Proc.guard_bind_eq_some.1 htarget
      obtain ⟨preimage, hpreimage, htarget⟩ := Option.bind_eq_some_iff.1 htarget
      obtain ⟨hmatch, -⟩ := Proc.guard_bind_eq_some.1 htarget
      exact ⟨refundAfter, hrefund, htime, preimage, hpreimage, hmatch⟩
  | refund =>
      rw [haction] at htarget
      dsimp only at htarget ⊢
      obtain ⟨refundAfter, hrefund, htarget⟩ := Option.bind_eq_some_iff.1 htarget
      obtain ⟨htime, -⟩ := Proc.guard_bind_eq_some.1 htarget
      exact ⟨refundAfter, hrefund, htime⟩

theorem release (inv : SafetyInvariant env run) {action : Json} {link : Option TokenAuthCreateRecord}
    {release : TokenProofReleaseValidation}
    (checked : ReleaseChecked env context action link run.store release)
    (released : Released env release.lock release.action run.store after)
    (hafter : ReleaseFrame context release run.store after) :
    SafetyInvariant env
      { run with
        store := after
        releases := run.releases ++ [consumeEvent env context action "lock" run.store after] } := by
  obtain ⟨b, ll, ab, abli, abo, ahrps, ahrc, ccn, hafter⟩ := hafter
  have hframe := inv.frame { after with lc := run.store.lc } (by rw [hafter]) rfl (by rw [hafter])
    (by rw [hafter])
  have hid : (consumeEvent env context action "lock" run.store after).id = release.id := checked.id_eq
  have hlc : ∀ id, after.lc.lookup id = if id = release.id then after.lc.lookup release.id
      else run.store.lc.lookup id := by
    intro id
    rw [hafter]
    dsimp only
    rw [KeyTable.lookup_insert_ite, AList.lookup_insert]
  have hlcNew : (after.lc.lookup release.id).isSome := by
    rw [hafter]
    dsimp only
    rw [AList.lookup_insert]
    rfl
  have safe : LockSafe env run.locks (consumeEvent env context action "lock" run.store after) := by
    refine ⟨release.lock, release.action, checked.action_eq, ?_, released, release.lock.total_eq, ?_⟩
    · rw [hid]
      exact inv.created checked.created
    · exact fun hash hhash => release_in_time checked hhash
  exact
    { created := hframe.created
      released := by
        intro event hevent
        dsimp only
        rw [hlc]
        split
        next => exact hlcNew
        next hne =>
          rcases List.mem_append.1 hevent with hold | hnew
          · exact inv.released event hold
          · exact absurd (by rw [List.mem_singleton.1 hnew]; exact hid) hne
      releasedOnce := by
        refine nodup_append_event (fun id => (run.store.lc.lookup id).isSome) inv.released ?_
          inv.releasedOnce
        rw [hid, checked.unconsumed]
        simp
      releasesSafe := by
        intro event hevent
        rcases List.mem_append.1 hevent with hold | hnew
        · exact inv.releasesSafe event hold
        · rw [List.mem_singleton.1 hnew]
          exact safe
      opened := hframe.opened
      settled := hframe.settled
      settledOnce := hframe.settledOnce
      settlementsSafe := hframe.settlementsSafe }

theorem openObligation (inv : SafetyInvariant env run) {id : Text} {obligation : TokenObligationRecord}
    (opened : Opened env id obligation (obligation.tickKey env) run.store after) :
    SafetyInvariant env
      { run with
        store := after
        obligations := run.obligations ++ [{ id := id, before := run.store, after := after }] } := by
  obtain ⟨oll, hafter⟩ := opened.frame
  have hframe := inv.frame { after with ob := run.store.ob } (by rw [hafter]) (by rw [hafter]) rfl
    (by rw [hafter])
  have hsub : run.obligations ⊆
      run.obligations ++ [{ id := id, before := run.store, after := after }] :=
    List.subset_append_left _ _
  exact
    { created := hframe.created
      released := hframe.released
      releasedOnce := hframe.releasedOnce
      releasesSafe := hframe.releasesSafe
      opened := by
        intro other row hrow hopen
        dsimp only at hrow ⊢
        have hob : after.ob = run.store.ob.insert id obligation := by rw [hafter]
        rw [hob] at hrow
        obtain ⟨rfl, rfl⟩ | ⟨-, hold⟩ := KeyTable.lookup_insert_cases hrow
        · exact ⟨_, List.mem_append_right _ (List.mem_singleton.2 rfl), rfl, opened⟩
        · obtain ⟨creation, hmem, hcreation⟩ := inv.opened hold hopen
          exact ⟨creation, hsub hmem, hcreation⟩
      settled := hframe.settled
      settledOnce := hframe.settledOnce
      settlementsSafe := fun event hevent => (hframe.settlementsSafe event hevent).mono hsub }

/-- Where a settlement goes, and its times. -/
theorem settle_in_time {action : Json} {settle : ObligationSettleValidation}
    (checked : SettleChecked env context action run.store settle) :
    settle.target = settle.obligation.settledTo settle.action ∧
      match settle.action with
      | .refund => settle.obligation.ra ≤ context.height
      | _ => ClaimedInTime env (consumeEvent env context action "ob" run.store after)
          settle.obligation.hash settle.obligation.ra := by
  have htarget := checked.target
  unfold TokenObligationRecord.target at htarget
  have hclaim : ((do
      guard (context.height < settle.obligation.ra)
      let preimage ← action.get "preimage"
      guard (env.toLowercase (hashProofPreimage env preimage) =
        env.toLowercase settle.obligation.hash)
      some settle.obligation.cl) : Option ObligationTarget) = some settle.target →
      settle.target = settle.obligation.cl ∧
        ClaimedInTime env (consumeEvent env context action "ob" run.store after)
          settle.obligation.hash settle.obligation.ra := by
    intro htarget
    obtain ⟨htime, htarget⟩ := Proc.guard_bind_eq_some.1 htarget
    obtain ⟨preimage, hpreimage, htarget⟩ := Option.bind_eq_some_iff.1 htarget
    obtain ⟨hmatch, htarget⟩ := Proc.guard_bind_eq_some.1 htarget
    exact ⟨(Option.some.inj htarget).symm, htime, preimage, hpreimage, hmatch⟩
  cases haction : settle.action with
  | claim =>
      rw [haction] at htarget
      exact hclaim htarget
  | final =>
      rw [haction] at htarget
      exact hclaim htarget
  | refund =>
      rw [haction] at htarget
      dsimp only at htarget ⊢
      split at htarget
      next htime => exact ⟨(Option.some.inj htarget).symm, htime⟩
      next => cases htarget

theorem settle (inv : SafetyInvariant env run) {action : Json} {settle : ObligationSettleValidation}
    (checked : SettleChecked env context action run.store settle)
    (settled : Settled env settle.obligation settle.target run.store after)
    (hafter : SettleFrame context settle run.store after) :
    SafetyInvariant env
      { run with
        store := after
        settlements := run.settlements ++ [consumeEvent env context action "ob" run.store after] } := by
  obtain ⟨b, oll, ab, abli, abo, amm, hafter⟩ := hafter
  have hframe := inv.frame { after with ob := run.store.ob, obc := run.store.obc } (by rw [hafter])
    (by rw [hafter]) rfl rfl
  have hid : (consumeEvent env context action "ob" run.store after).id = settle.id := checked.id_eq
  have hobc : ∀ id, after.obc.lookup id = if id = settle.id then after.obc.lookup settle.id
      else run.store.obc.lookup id := by
    intro id
    rw [hafter]
    dsimp only
    rw [KeyTable.lookup_insert_ite, AList.lookup_insert]
  have hobcNew : (after.obc.lookup settle.id).isSome := by
    rw [hafter]
    dsimp only
    rw [AList.lookup_insert]
    rfl
  have safe : ObligationSafe env run.obligations
      (consumeEvent env context action "ob" run.store after) := by
    obtain ⟨htarget, htime⟩ := settle_in_time checked
    refine ⟨settle.obligation, settle.action, checked.action_eq, ?_, htarget ▸ settled, htime⟩
    rw [hid]
    exact inv.opened checked.created checked.opened
  exact
    { created := hframe.created
      released := hframe.released
      releasedOnce := hframe.releasedOnce
      releasesSafe := hframe.releasesSafe
      opened := by
        intro id row hrow hopen
        dsimp only at hrow
        rw [hafter] at hrow
        obtain ⟨-, rfl⟩ | ⟨-, hold⟩ := KeyTable.lookup_insert_cases hrow
        · dsimp only at hopen
          cases haction : settle.action <;> rw [haction] at hopen <;> cases hopen
        · exact inv.opened hold hopen
      settled := by
        intro event hevent
        dsimp only
        rw [hobc]
        split
        next => exact hobcNew
        next hne =>
          rcases List.mem_append.1 hevent with hold | hnew
          · exact inv.settled event hold
          · exact absurd (by rw [List.mem_singleton.1 hnew]; exact hid) hne
      settledOnce := by
        refine nodup_append_event (fun id => (run.store.obc.lookup id).isSome) inv.settled ?_
          inv.settledOnce
        rw [hid, checked.unconsumed]
        simp
      settlementsSafe := by
        intro event hevent
        rcases List.mem_append.1 hevent with hold | hnew
        · exact inv.settlementsSafe event hold
        · rw [List.mem_singleton.1 hnew]
          exact safe }

/-- Every action keeps the invariant. -/
theorem step (lawful : LawfulText env) (inv : SafetyInvariant env run) {action : SafetyAction}
    {next : SafetyRun} (hstep : safetyStep env run action = some next) :
    SafetyInvariant env next := by
  cases action with
  | lock context link place action =>
      obtain ⟨after, hcommit, rfl⟩ := Option.map_eq_some_iff.1 hstep
      obtain ⟨lock, -, locked⟩ := of_commit (processTokenProofLockAction_spec lawful) hcommit
      exact inv.lock locked
  | release context link action =>
      obtain ⟨after, hcommit, rfl⟩ := Option.map_eq_some_iff.1 hstep
      obtain ⟨release, checked, released, hframe⟩ :=
        of_commit processTokenProofReleaseAction_spec hcommit
      exact inv.release checked released hframe
  | openObligation context link place action =>
      obtain ⟨after, hcommit, rfl⟩ := Option.map_eq_some_iff.1 hstep
      obtain ⟨obligation, tick, checked, opened⟩ :=
        of_commit processObligationOpenAction_spec hcommit
      cases checked.tick_eq lawful
      exact inv.openObligation opened
  | settle context action =>
      obtain ⟨after, hcommit, rfl⟩ := Option.map_eq_some_iff.1 hstep
      obtain ⟨settle, checked, settled, hframe⟩ :=
        of_commit processObligationSettleAction_spec hcommit
      exact inv.settle checked settled hframe
  | other update =>
      cases hstep
      exact inv.frame _ rfl rfl rfl rfl

end SafetyInvariant

end Steps

/-! ### Every run -/

/-- The consumptions of a run: no object twice, so never a claim and a refund of one, and each of them
safe. -/
structure ConsumesSafely (env : ProofEnv) (run : SafetyRun) : Prop where
  releasedOnce : (run.releases.map ConsumeEvent.id).Nodup
  releasesSafe : ∀ event ∈ run.releases, LockSafe env run.locks event
  settledOnce : (run.settlements.map ConsumeEvent.id).Nodup
  settlementsSafe : ∀ event ∈ run.settlements, ObligationSafe env run.obligations event

/-- In every run locks and obligations are consumed safely. -/
theorem consumes_safely_of_reaches {env : ProofEnv} (lawful : LawfulText env) {store : ProofStore}
    {run : SafetyRun}
    (hreaches : Run.Reaches (safetyStep env) (fun _ _ => True) (SafetyRun.start store) run) :
    ConsumesSafely env run := by
  have inv : SafetyInvariant env run := by
    apply hreaches.invariant (SafetyInvariant env)
    · intro run next action inv _ hstep
      exact inv.step lawful hstep
    · exact .start store
  exact
    { releasedOnce := inv.releasedOnce
      releasesSafe := inv.releasesSafe
      settledOnce := inv.settledOnce
      settlementsSafe := inv.settlementsSafe }

/-! ### A hash lock and an obligation -/

/-- An account with ten tokens of a deployed ticker. -/
def tenTokens : ProofStore where
  toTapStore := { TapStore.empty with
    d := (∅ : KeyTable TickKey DeployRecord).insert dogKey
      { tick := "dog".toList, max := 1000, lim := 0, dec := 0, ins := [], dmt := false, elem := none,
        prj := none, dim := none, dt := none, prv := none }
    b := (∅ : KeyTable (Address × TickKey) ℤ).insert ("n1".toList, dogKey) 10 }
  ll := ∅
  oll := ∅
  ah := ∅
  ab := ∅
  abli := ∅
  abo := ∅
  ahs := ∅
  ahrps := ∅
  ahrc := ∅
  sp := ∅
  rcli := []

/-- The digest of `secret`. -/
def secretHash : String := "2bb80d537b1da3e38bd30361aa855686bde0eacd7162fef6a25fe97bf527a25b"

/-- A lock that is claimed in time by the owner of an allocation, and an obligation that is refunded
after its time. -/
def safetyActions : List SafetyAction :=
  let link : TokenAuthCreateRecord := { addr := "n1".toList, auth := [], ins := "l".toList }
  let account : Json := textObject [("tt", "a"), ("to", "n1"), ("tick", "dog")]
  [.lock plainContext link { inscription := "p".toList, index := 0 }
      (.object [("kind".toList, .string "htlc".toList), ("tick".toList, .string "dog".toList),
        ("amt".toList, .string "4".toList), ("claim".toList, .string "n2".toList),
        ("refund".toList, .string "n1".toList), ("refund_after".toList, .string "200".toList),
        ("condition".toList, textObject [("type", "hashlock"), ("hash", secretHash)]),
        ("al".toList, .array
          [textObject [("tt", "a"), ("to", "n2"), ("amt", "1"), ("rl", "of")]])]),
    .openObligation plainContext (some link) { inscription := "p".toList, index := 1 }
      (.object [("src".toList, account), ("amt".toList, .string "2".toList),
        ("cl".toList, textObject [("tt", "a"), ("to", "n3")]), ("rf".toList, account),
        ("cond".toList, textObject [("ty", "hash"), ("h", secretHash)]),
        ("ra".toList, .string "100".toList), ("exp".toList, .string "150".toList)]),
    .release plainContext none (textObject [("op", "claim"), ("lock", "p:0"), ("preimage", "secret")]),
    .settle plainContext (textObject [("op", "ob-refund"), ("ob", "p:1")])]

/-- The balances of the two accounts, and how often each kind of event happened. -/
def safetyView (run : SafetyRun) : ℤ × ℤ × ℕ × ℕ :=
  (bigAt run.store.b ("n1".toList, dogKey), bigAt run.store.b ("n2".toList, dogKey),
    run.releases.length, run.settlements.length)

theorem lockAndObligation_safe :
    ∃ run, Run.Reaches (safetyStep plainEnv) (fun _ _ => True) (SafetyRun.start tenTokens) run ∧
      safetyView run = (5, 5, 1, 1) ∧ ConsumesSafely plainEnv run := by
  have hexec : (Run.exec (safetyStep plainEnv) (fun _ _ => true) safetyActions
      (SafetyRun.start tenTokens)).map safetyView = some (5, 5, 1, 1) := by decide +kernel
  have hrun : ∃ run, Run.Reaches (safetyStep plainEnv) (fun _ _ => True)
      (SafetyRun.start tenTokens) run ∧ safetyView run = (5, 5, 1, 1) :=
    Run.exists_reaches_of_exec (fun _ => trivial) hexec
  obtain ⟨run, hreaches, hview⟩ := hrun
  exact ⟨run, hreaches, hview, consumes_safely_of_reaches plainEnv_lawful hreaches⟩

end OrdDogecoin.Tap
