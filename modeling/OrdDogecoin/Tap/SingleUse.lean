/-
Module: OrdDogecoin.Tap.SingleUse
Purpose: An inscribed TAP operation takes effect at most once, on the first move of its inscription,
  and for its inscriber.
Trusted boundary: an inscription is created once and before it moves, and heights do not go down
Main exports: DispatchState, SingleUse, operations_single_use
-/
import OrdDogecoin.Tap.DispatchEffects

namespace OrdDogecoin.Tap

open Chain KeyTable Proc

/-! ### Runs -/

/-- The rows, who inscribed what, who owned an inscription after its first move, and what moves did. -/
structure DispatchState where
  ops : OpStore
  height : ℕ
  inscriber : KeyTable InscriptionId Address
  firstOwner : KeyTable InscriptionId Address
  log : List (InscriptionId × MoveEffect)

def DispatchState.empty : DispatchState :=
  { ops := .empty, height := 0, inscriber := ∅, firstOwner := ∅, log := [] }

/-- An inscription is created, one moves, or another handler of the protocol runs. -/
inductive DispatchAction where
  | created (created : Created) (effects : CreatedEffects)
  | moved (moved : Moved) (effects : MovedEffects)
  | other (effect : TapStore → TapStore)

/-- The owner after the first move that counts. -/
def recordOwner (env : TapEnv) (context : TapContext) (moved : Moved) (state : DispatchState) :
    KeyTable InscriptionId Address :=
  if countsAsMove env context moved state.ops &&
      (state.firstOwner.lookup moved.inscriptionId).isNone then
    state.firstOwner.insert moved.inscriptionId moved.ownerAddress
  else state.firstOwner

def dispatchStep (env : TapEnv) (state : DispatchState) (action : TapContext × DispatchAction) :
    Option DispatchState :=
  let context := action.1
  match action.2 with
  | .created created effects =>
      some { state with
        ops := tapOnInscriptionCreated env context effects created state.ops
        height := context.height
        inscriber := state.inscriber.insert created.inscriptionId created.ownerAddress }
  | .moved moved effects =>
      some { state with
        ops := tapOnInscriptionTransferred env context effects moved state.ops
        height := context.height
        firstOwner := recordOwner env context moved state
        log := state.log ++
          ((moveEffect env context moved state.ops).map (moved.inscriptionId, ·)).toList }
  | .other effect =>
      some { state with
        ops := { state.ops with tap := unlinked effect state.ops.tap }
        height := context.height }

/-- An inscription that is created now was neither created nor moved before. -/
def DispatchAction.IsNew (state : DispatchState) : DispatchAction → Prop
  | .created inscription _ =>
      state.inscriber.lookup inscription.inscriptionId = none ∧
        state.firstOwner.lookup inscription.inscriptionId = none
  | _ => True

instance (state : DispatchState) (action : DispatchAction) : Decidable (action.IsNew state) :=
  match action with
  | .created inscription _ =>
      inferInstanceAs (Decidable (state.inscriber.lookup inscription.inscriptionId = none ∧
        state.firstOwner.lookup inscription.inscriptionId = none))
  | .moved _ _ => isTrue trivial
  | .other _ => isTrue trivial

/-- Blocks come in the order of their heights. -/
def InOrder (state : DispatchState) (action : TapContext × DispatchAction) : Prop :=
  state.height ≤ action.1.height ∧ action.2.IsNew state

instance (state : DispatchState) (action : TapContext × DispatchAction) :
    Decidable (InOrder state action) :=
  inferInstanceAs (Decidable (state.height ≤ action.1.height ∧ action.2.IsNew state))

/-! ### Creation -/

section Creation

variable {env : TapEnv} {context : TapContext} {created : Created} {before after : OpStore}

theorem LinkOf.mono {before after : TapStore} {id : InscriptionId} {pointer : TransferPointer}
    (link : LinkOf before id pointer)
    (hdeployed : ∀ tick, (before.d.lookup tick).isSome → (after.d.lookup tick).isSome)
    (hrows : ∀ atr, linkedRow before pointer = some atr → linkedRow after pointer = some atr) :
    LinkOf after id pointer := by
  obtain ⟨atr, hrow, haddr, htx⟩ := link.row
  exact ⟨hdeployed _ link.deployed, atr, hrows atr hrow, haddr, htx⟩

/-- What the handlers of a new inscription leave: its rows, if it has any, are of its inscriber, and it
has a link or an accumulator but not both. -/
structure CreatedKept (created : Created) (before after : OpStore) : Prop where
  others : ∀ other, other ≠ created.inscriptionId → SameRoute other before after
  deployed : ∀ tick, (before.tap.d.lookup tick).isSome → (after.tap.d.lookup tick).isSome
  rows : ∀ pointer atr, linkedRow before.tap pointer = some atr →
    linkedRow after.tap pointer = some atr
  link : ∀ pointer, after.tap.tl.lookup created.inscriptionId = some (some pointer) →
    pointer.addr = created.ownerAddress ∧ LinkOf after.tap created.inscriptionId pointer ∧
      after.tap.a.lookup created.inscriptionId = none
  accumulator : ∀ acc, after.tap.a.lookup created.inscriptionId = some acc →
    acc.addr = created.ownerAddress

/-- What the handlers before the transfer leave. -/
structure EarlierKept (id : InscriptionId) (before after : OpStore) : Prop where
  others : ∀ other, other ≠ id → SameRoute other before after
  tl : after.tap.tl = before.tap.tl
  a : after.tap.a = before.tap.a
  atrli : after.tap.atrli = before.tap.atrli
  deployed : ∀ tick, (before.tap.d.lookup tick).isSome → (after.tap.d.lookup tick).isSome

theorem EarlierKept.trans {id : InscriptionId} {before after last : OpStore}
    (first : EarlierKept id before after) (second : EarlierKept id after last) :
    EarlierKept id before last where
  others other hother := (first.others other hother).trans (second.others other hother)
  tl := second.tl.trans first.tl
  a := second.a.trans first.a
  atrli := second.atrli.trans first.atrli
  deployed tick hdeployed := second.deployed tick (first.deployed tick hdeployed)

theorem earlierKept_earlierCreated (effects : CreatedEffects) (id : InscriptionId) (state : OpStore) :
    EarlierKept id state (earlierCreated effects id state) := by
  have hearlier : EarlierKept id state { state with tap := unlinked effects.earlier state.tap } := by
    have links : SameLinks id state.tap (unlinked effects.earlier state.tap) := .unlinked _ _ _
    exact ⟨fun other _ => ⟨rfl, rfl, rfl, rfl, rfl, rfl⟩, rfl, rfl, rfl, links.deployed⟩
  have hclaimed : ∀ state : OpStore, EarlierKept id state
      { state with bmh := state.bmh.insert id (), kind := state.kind.insert id .bm } := by
    intro state
    refine ⟨fun other hother => ⟨?_, ?_, rfl, rfl, rfl, rfl⟩, rfl, rfl, rfl, fun _ hdeployed => hdeployed⟩
    · simp only [lookup_insert_ite, if_neg hother]
    · simp only [lookup_insert_ite, if_neg hother]
  have hminted : ∀ (state : OpStore) (holder : DmtHolderRecord), EarlierKept id state
      { state with
        tap := { state.tap with dmtmh := state.tap.dmtmh.insert (inscriptionText id) holder }
        kind := state.kind.insert id .dmtmh } := by
    intro state holder
    refine ⟨fun other hother => ⟨?_, rfl, rfl, ?_, rfl, rfl⟩, rfl, rfl, rfl, fun _ hdeployed => hdeployed⟩
    · simp only [lookup_insert_ite, if_neg hother]
    · have htext : inscriptionText other ≠ inscriptionText id :=
        fun hsame => hother (inscriptionText_injective hsame)
      simp only [lookup_insert_ite, if_neg htext]
  unfold earlierCreated
  dsimp only
  split
  · split
    · exact hearlier.trans (hclaimed _)
    · exact hearlier
  next holder hminted' =>
    split
    · exact (hearlier.trans (hclaimed _)).trans (hminted _ holder)
    · exact hearlier.trans (hminted _ holder)

theorem CreatedKept.after_earlier {middle : OpStore} (kept : CreatedKept created middle after)
    (earlier : EarlierKept created.inscriptionId before middle) : CreatedKept created before after where
  others other hother := (earlier.others other hother).trans (kept.others other hother)
  deployed tick hdeployed := kept.deployed tick (earlier.deployed tick hdeployed)
  rows pointer atr hrow := kept.rows pointer atr (by
    unfold linkedRow
    rw [earlier.atrli]
    exact hrow)
  link := kept.link
  accumulator := kept.accumulator

/-- A verified privilege is marked as such. -/
theorem CreatedKept.verified (kept : CreatedKept created before after) :
    CreatedKept created before
      { after with
        prvins := after.prvins.insert created.inscriptionId ()
        kind := after.kind.insert created.inscriptionId .prvins } where
  others other hother := (kept.others other hother).trans
    ⟨by simp only [lookup_insert_ite, if_neg hother], rfl,
      by simp only [lookup_insert_ite, if_neg hother], rfl, rfl, rfl⟩
  deployed := kept.deployed
  rows := kept.rows
  link := kept.link
  accumulator := kept.accumulator

/-- What the handlers of the transfer and of the accumulators leave. -/
theorem createdKept_accumulatorsCreated (env : TapEnv) (context : TapContext) (effects : CreatedEffects)
    (created : Created) {state : OpStore} (hlink : (state.tap.tl.lookup created.inscriptionId).join = none)
    (hacc : state.tap.a.lookup created.inscriptionId = none) :
    CreatedKept created state
      { transferCreated env context created state with
        tap := accumulatorsCreated env context effects created
          (transferCreated env context created state).tap } := by
  have transfer : TransferKept env context created state.tap
      (transferCreated env context created state).tap := transferKept_indexTokenTransferCreated created
  have accumulators : AccumulatorKept env context created
      (transferCreated env context created state).tap (accumulatorsCreated env context effects created
        (transferCreated env context created state).tap) := .accumulatorsCreated effects _
  have hrows : ∀ pointer atr, linkedRow (transferCreated env context created state).tap pointer =
      some atr → linkedRow (accumulatorsCreated env context effects created
        (transferCreated env context created state).tap) pointer = some atr := by
    intro pointer atr hrow
    unfold linkedRow
    rw [accumulators.links.atrli]
    exact hrow
  refine ⟨fun other hother => ⟨?_, rfl, rfl, ?_, ?_, ?_⟩, ?_, ?_, ?_, ?_⟩
  · simp only [transferCreated]
    split
    · rw [lookup_insert_ite, if_neg hother]
    · rfl
  · exact congrArg _ (accumulators.links.dmtmh.trans transfer.dmtmh)
  · refine (congrArg _ accumulators.links.tl).trans ?_
    rcases transfer.link with hsame | ⟨pointer, hnew, -⟩
    · rw [hsame]
    · rw [hnew, lookup_insert_ite, if_neg hother]
  · refine (accumulators.links.accumulators other hother).trans ?_
    rw [transfer.a]
  · intro tick hdeployed
    refine accumulators.links.deployed tick ?_
    rw [transfer.d]
    exact hdeployed
  · exact fun pointer atr hrow => hrows pointer atr (transfer.rows pointer atr hrow)
  · intro pointer hpointer
    dsimp only at hpointer ⊢
    rw [accumulators.links.tl] at hpointer
    rcases transfer.link with hsame | ⟨linked, hnew, haddr, hlinked, htransfer⟩
    · rw [hsame] at hpointer
      rw [hpointer] at hlink
      cases hlink
    · rw [hnew, lookup_insert_ite, if_pos rfl] at hpointer
      obtain rfl : linked = pointer := Option.some.inj (Option.some.inj hpointer)
      refine ⟨haddr, hlinked.mono accumulators.links.deployed (hrows linked), ?_⟩
      rcases accumulators.accumulator with hkept | ⟨-, hother⟩
      · rw [hkept, transfer.a]
        exact hacc
      · exact absurd htransfer hother
  · intro acc hfound
    dsimp only at hfound
    rcases accumulators.accumulator with hkept | ⟨⟨new, hnew, haddr⟩, -⟩
    · rw [hkept, transfer.a, hacc] at hfound
      cases hfound
    · obtain rfl := Option.some.inj (hnew.symm.trans hfound)
      exact haddr

theorem createdKept_tapOnInscriptionCreated (effects : CreatedEffects) (created : Created)
    (state : OpStore) (hlink : (state.tap.tl.lookup created.inscriptionId).join = none)
    (hacc : state.tap.a.lookup created.inscriptionId = none) :
    CreatedKept created state (tapOnInscriptionCreated env context effects created state) := by
  unfold tapOnInscriptionCreated
  dsimp only
  split
  · have earlier := earlierKept_earlierCreated { effects with minted := none } created.inscriptionId state
    exact {
      others := earlier.others
      deployed := earlier.deployed
      rows pointer atr hrow := by
        unfold linkedRow
        rw [earlier.atrli]
        exact hrow
      link pointer hpointer := by
        rw [earlier.tl] at hpointer
        rw [hpointer] at hlink
        cases hlink
      accumulator acc hfound := by
        rw [earlier.a, hacc] at hfound
        cases hfound }
  · have earlier := earlierKept_earlierCreated effects created.inscriptionId state
    have kept := (createdKept_accumulatorsCreated env context effects created
      (by rw [earlier.tl]; exact hlink) (by rw [earlier.a]; exact hacc)).after_earlier earlier
    split
    · exact kept.verified
    · exact kept

/-- Before the start of TAP a new inscription gets no rows. -/
theorem liveOp_tapOnInscriptionCreated (effects : CreatedEffects) (created : Created) {state : OpStore}
    (hstart : featureEnabled env context .tapStart = false)
    (hlink : (state.tap.tl.lookup created.inscriptionId).join = none)
    (hacc : state.tap.a.lookup created.inscriptionId = none) :
    liveOp (tapOnInscriptionCreated env context effects created state) created.inscriptionId = none := by
  have earlier := earlierKept_earlierCreated { effects with minted := none } created.inscriptionId state
  unfold tapOnInscriptionCreated
  simp only [hstart, Bool.not_false, if_true]
  refine liveOp_eq_none ?_ ?_
  · rw [earlier.tl, hlink]
  · rw [earlier.a, hacc]

end Creation

/-! ### Moves -/

section Moves

variable {env : TapEnv} {context : TapContext} {moved : Moved} {before after : OpStore}

/-- What a move leaves: links and accumulators are only taken away, a move that counts leaves no live
operation, and the balances change by what the move is said to do. -/
structure MovedKept (env : TapEnv) (context : TapContext) (moved : Moved) (before after : OpStore) :
    Prop where
  others : ∀ other, other ≠ moved.inscriptionId → SameRoute other before after
  deployed : ∀ tick, (before.tap.d.lookup tick).isSome → (after.tap.d.lookup tick).isSome
  rows : ∀ pointer atr, linkedRow before.tap pointer = some atr →
    linkedRow after.tap pointer = some atr
  tl : ∀ pointer, after.tap.tl.lookup moved.inscriptionId = some (some pointer) →
    before.tap.tl.lookup moved.inscriptionId = some (some pointer)
  a : ∀ acc, after.tap.a.lookup moved.inscriptionId = some acc →
    before.tap.a.lookup moved.inscriptionId = some acc
  spent : countsAsMove env context moved before = true → liveOp after moved.inscriptionId = none
  idle : moveEffect env context moved before = none → after.tap.b = before.tap.b
  covered : ∀ sender receiver tick amount, moveEffect env context moved before =
    some (.transferred sender receiver tick amount) →
      after.tap.b = movedBalances sender receiver tick amount before.tap.b

theorem MovedKept.link_of_some (kept : MovedKept env context moved before after) {id : InscriptionId}
    {pointer : TransferPointer} (hpointer : after.tap.tl.lookup id = some (some pointer)) :
    before.tap.tl.lookup id = some (some pointer) := by
  by_cases hid : id = moved.inscriptionId
  · subst hid
    exact kept.tl pointer hpointer
  · rw [← (kept.others id hid).tl]
    exact hpointer

theorem MovedKept.accumulator_of_some (kept : MovedKept env context moved before after)
    {id : InscriptionId} {acc : TapAccumulatorEntry} (hacc : after.tap.a.lookup id = some acc) :
    before.tap.a.lookup id = some acc := by
  by_cases hid : id = moved.inscriptionId
  · subst hid
    exact kept.a acc hacc
  · rw [← (kept.others id hid).a]
    exact hacc

/-- An inscription without a live operation does not get one by a move. -/
theorem MovedKept.liveOp_none (kept : MovedKept env context moved before after) {id : InscriptionId}
    (hlive : liveOp before id = none) : liveOp after id = none := by
  by_cases hid : id = moved.inscriptionId
  · subst hid
    exact kept.spent (by simp only [countsAsMove, hlive])
  · rw [(kept.others id hid).liveOp_eq]
    exact hlive

/-- A move that only marks the inscription. -/
theorem MovedKept.of_tap_eq (htap : after.tap = before.tap)
    (hothers : ∀ other, other ≠ moved.inscriptionId → SameRoute other before after)
    (hlive : liveOp before moved.inscriptionId = none)
    (hspent : liveOp after moved.inscriptionId = none) : MovedKept env context moved before after where
  others := hothers
  deployed tick hdeployed := by rw [htap]; exact hdeployed
  rows pointer atr hrow := by rw [htap]; exact hrow
  tl pointer hpointer := by rw [← htap]; exact hpointer
  a acc hacc := by rw [← htap]; exact hacc
  spent _ := hspent
  idle _ := by rw [htap]
  covered sender receiver tick amount heffect := by
    simp [moveEffect, hlive] at heffect

theorem MovedKept.link {routed : OpStore} {pointer : TransferPointer}
    (hstart : featureEnabled env context .tapStart = true)
    (hlive : liveOp before moved.inscriptionId = some (.transfer pointer))
    (hacc : before.tap.a.lookup moved.inscriptionId = none) (htap : routed.tap = before.tap)
    (hothers : ∀ other, other ≠ moved.inscriptionId → SameRoute other before routed)
    (ran : TransferRan env context moved pointer (transferCounts env context moved pointer) before.tap
      ((indexTokenTransferExecuted env context moved).after before.tap)) :
    MovedKept env context moved before (transferExecuted env context moved routed) := by
  have hafter : (transferExecuted env context moved routed).tap =
      (indexTokenTransferExecuted env context moved).after before.tap := by
    simp only [transferExecuted, htap]
  have hcounts : countsAsMove env context moved before = transferCounts env context moved pointer := by
    simp only [countsAsMove, hlive]
  have heffect : moveEffect env context moved before =
      transferEffect env context moved before.tap pointer := by
    simp only [moveEffect, hstart, if_true, hlive]
  refine ⟨fun other hother => (hothers other hother).trans (.transferExecuted hother ?_ ?_ ?_),
    ?_, ?_, ?_, ?_, ?_, ?_, ?_⟩
  · rw [htap]
    exact ran.dmtmh
  · rw [htap, ran.tl]
    split
    · rw [lookup_insert_ite, if_neg hother]
    · rfl
  · rw [htap]
    exact ran.a
  · intro tick hdeployed
    rw [hafter, ran.d]
    exact hdeployed
  · intro row atr hrow
    rw [hafter]
    unfold linkedRow
    rw [ran.atrli]
    exact hrow
  · intro found hfound
    rw [hafter, ran.tl] at hfound
    split at hfound
    · rw [lookup_insert_ite, if_pos rfl] at hfound
      cases hfound
    · exact hfound
  · intro acc hfound
    rw [hafter, ran.a] at hfound
    exact hfound
  · intro hmove
    rw [hcounts] at hmove
    have hcleared : (transferExecuted env context moved routed).tap.tl.lookup moved.inscriptionId =
        some none := by
      rw [hafter, ran.tl, if_pos hmove, lookup_insert_ite, if_pos rfl]
    refine liveOp_eq_none (by rw [hcleared]; rfl) ?_
    rw [hafter, ran.a]
    exact hacc
  · intro hnone
    rw [hafter]
    exact ran.uncovered (heffect.symm.trans hnone)
  · intro sender receiver tick amount hsome
    rw [hafter]
    exact ran.covered sender receiver tick amount (heffect.symm.trans hsome)

theorem MovedKept.accumulator {effects : MovedEffects} {acc : TapAccumulatorEntry}
    (hstart : featureEnabled env context .tapStart = true)
    (hlive : liveOp before moved.inscriptionId = some (.accumulated acc))
    (hlink : (before.tap.tl.lookup moved.inscriptionId).join = none)
    (hacc : before.tap.a.lookup moved.inscriptionId = some acc) :
    MovedKept env context moved before
      { before with tap := tapExecuteAccumulatorForInscription env context effects moved before.tap } := by
  obtain ⟨links, hdropped⟩ := executeAccumulator_spec env context effects moved before.tap
  have heffect : moveEffect env context moved before =
      if acc.addr = moved.ownerAddress then (accumulatedOp env acc.op).map .ran else none := by
    simp only [moveEffect, hstart, if_true, hlive]
  refine ⟨fun other hother => ⟨rfl, rfl, rfl, ?_, ?_, links.accumulators other hother⟩,
    links.deployed, ?_, ?_, ?_, fun _ => ?_, ?_, ?_⟩
  · exact congrArg _ links.dmtmh
  · exact congrArg _ links.tl
  · intro pointer atr hrow
    unfold linkedRow
    rw [links.atrli]
    exact hrow
  · intro pointer hpointer
    rw [← links.tl]
    exact hpointer
  · intro found hfound
    dsimp only at hfound
    rw [hdropped] at hfound
    cases hfound
  · exact liveOp_eq_none (by dsimp only; rw [links.tl]; exact hlink) hdropped
  · intro hnone
    rw [heffect] at hnone
    simp only [tapExecuteAccumulatorForInscription, hacc]
    by_cases howner : acc.addr = moved.ownerAddress
    · rw [if_pos howner, Option.map_eq_none_iff] at hnone
      rw [if_neg (fun hne => hne howner), hnone]
      rfl
    · rw [if_pos howner]
      rfl
  · intro sender receiver tick amount hsome
    rw [heffect] at hsome
    obtain ⟨-, hran⟩ := Option.ite_none_right_eq_some.1 hsome
    obtain ⟨op, -, hop⟩ := Option.map_eq_some_iff.1 hran
    cases hop

/-- A move, when links are links of their inscriptions and TAP has started once there are any. -/
theorem movedKept_tapOnInscriptionTransferred (effects : MovedEffects) (moved : Moved) {state : OpStore}
    (hlinks : ∀ pointer, state.tap.tl.lookup moved.inscriptionId = some (some pointer) →
      LinkOf state.tap moved.inscriptionId pointer ∧ state.tap.a.lookup moved.inscriptionId = none)
    (hstarted : featureEnabled env context .tapStart = false →
      liveOp state moved.inscriptionId = none) :
    MovedKept env context moved state
      (tapOnInscriptionTransferred env context effects moved state) := by
  unfold tapOnInscriptionTransferred
  cases hstart : featureEnabled env context .tapStart with
  | false => exact .of_tap_eq rfl (fun other _ => .refl other state) (hstarted hstart) (hstarted hstart)
  | true =>
      rw [if_neg (by simp)]
      generalize hresult : tapDispatchTransferSlow env context effects moved state = result
      have routed := routed_tapDispatchTransferSlow env context effects moved state
      rw [hresult] at routed
      cases routed with
      | kept hlive => exact .of_tap_eq rfl (fun other _ => .refl other state) hlive hlive
      | marked kind hlive hkept =>
          exact .of_tap_eq rfl (fun other hother => .mark state kind hother) hlive hkept
      | link pointer routed hlive htap hsame =>
          obtain ⟨found, hfound, hlink, htick⟩ := linkedOp_eq_some (linkedOp_of_liveOp hlive)
          cases hfound
          obtain ⟨link, hacc⟩ := hlinks pointer hlink
          exact .link hstart hlive hacc htap hsame
            (transferRan_indexTokenTransferExecuted moved hlink htick link)
      | accumulator acc hlive hlink hacc => exact .accumulator hstart hlive hlink hacc

end Moves

/-! ### Every run -/

/-- The rows of a run: only created inscriptions have any, of their inscriber; an inscription has a link
or an accumulator but not both; and an inscription that has moved has no live operation. -/
structure Tracked (env : TapEnv) (state : DispatchState) : Prop where
  fresh : ∀ id, state.inscriber.lookup id = none →
    (state.ops.tap.tl.lookup id).join = none ∧ state.ops.tap.a.lookup id = none
  link : ∀ id pointer, state.ops.tap.tl.lookup id = some (some pointer) →
    state.inscriber.lookup id = some pointer.addr ∧ LinkOf state.ops.tap id pointer ∧
      state.ops.tap.a.lookup id = none
  accumulator : ∀ id acc, state.ops.tap.a.lookup id = some acc →
    state.inscriber.lookup id = some acc.addr
  started : ∀ id, (liveOp state.ops id).isSome →
    featureHeight env.mainnet .tapStart ≤ state.height
  spent : ∀ id, (state.firstOwner.lookup id).isSome → liveOp state.ops id = none

/-- What an entry of the log says about who inscribed and who owned first. -/
def LogEntry (state : DispatchState) (id : InscriptionId) : MoveEffect → Prop
  | .transferred sender receiver _ _ =>
      state.inscriber.lookup id = some sender ∧ state.firstOwner.lookup id = some receiver
  | .ran _ => ∃ address, state.inscriber.lookup id = some address ∧
      state.firstOwner.lookup id = some address

/-- The log: every inscription is in it once at most, and its owners are those of its first move. -/
structure Logged (state : DispatchState) : Prop where
  once : (state.log.map Prod.fst).Nodup
  entries : ∀ id effect, (id, effect) ∈ state.log → LogEntry state id effect

section Steps

variable {env : TapEnv} {context : TapContext} {state : DispatchState} {state' : DispatchState}

theorem Tracked.empty : Tracked env .empty where
  fresh _ _ := ⟨rfl, rfl⟩
  link _ _ hlink := nomatch hlink
  accumulator _ _ hacc := nomatch hacc
  started _ hlive := nomatch hlive
  spent _ hmoved := nomatch hmoved

theorem tracked_created (tracked : Tracked env state) (created : Created) (effects : CreatedEffects)
    (hheight : state.height ≤ context.height)
    (hnew : (DispatchAction.created created effects).IsNew state)
    (hstep : dispatchStep env state (context, .created created effects) = some state') :
    Tracked env state' := by
  obtain rfl := Option.some.inj hstep
  obtain ⟨hlink, hacc⟩ := tracked.fresh _ hnew.1
  have kept : CreatedKept created state.ops (tapOnInscriptionCreated env context effects created
    state.ops) := createdKept_tapOnInscriptionCreated effects created state.ops hlink hacc
  have hinscriber : ∀ id, id ≠ created.inscriptionId →
      (state.inscriber.insert created.inscriptionId created.ownerAddress).lookup id =
        state.inscriber.lookup id := fun id hid => by rw [lookup_insert_ite, if_neg hid]
  refine ⟨fun id hnone => ?_, fun id pointer hpointer => ?_, fun id acc hfound => ?_,
    fun id hlive => ?_, fun id hmoved => ?_⟩
  · have hid : id ≠ created.inscriptionId := by
      rintro rfl
      simp only [lookup_insert_ite, if_pos] at hnone
      cases hnone
    have same := kept.others id hid
    dsimp only at hnone ⊢
    rw [same.tl, same.a]
    exact tracked.fresh id ((hinscriber id hid).symm.trans hnone)
  · dsimp only at hpointer ⊢
    by_cases hid : id = created.inscriptionId
    · subst hid
      obtain ⟨haddr, hlinked, hnone⟩ := kept.link pointer hpointer
      rw [lookup_insert_ite, if_pos rfl, haddr]
      exact ⟨rfl, hlinked, hnone⟩
    · have same := kept.others id hid
      rw [same.tl] at hpointer
      obtain ⟨haddr, hlinked, hnone⟩ := tracked.link id pointer hpointer
      rw [hinscriber id hid, same.a]
      exact ⟨haddr, hlinked.mono kept.deployed (kept.rows pointer), hnone⟩
  · dsimp only at hfound ⊢
    by_cases hid : id = created.inscriptionId
    · subst hid
      rw [lookup_insert_ite, if_pos rfl, kept.accumulator acc hfound]
    · rw [(kept.others id hid).a] at hfound
      rw [hinscriber id hid]
      exact tracked.accumulator id acc hfound
  · dsimp only at hlive ⊢
    by_cases hid : id = created.inscriptionId
    · subst hid
      by_contra hbefore
      have hstart : featureEnabled env context .tapStart = false := decide_eq_false hbefore
      rw [liveOp_tapOnInscriptionCreated effects created hstart hlink hacc] at hlive
      cases hlive
    · rw [(kept.others id hid).liveOp_eq] at hlive
      exact (tracked.started id hlive).trans hheight
  · dsimp only at hmoved ⊢
    have hid : id ≠ created.inscriptionId := by
      rintro rfl
      rw [hnew.2] at hmoved
      cases hmoved
    rw [(kept.others id hid).liveOp_eq]
    exact tracked.spent id hmoved

/-- What a move leaves in a tracked state. -/
theorem Tracked.movedKept (tracked : Tracked env state) (hheight : state.height ≤ context.height)
    (moved : Moved) (effects : MovedEffects) :
    MovedKept env context moved state.ops
      (tapOnInscriptionTransferred env context effects moved state.ops) := by
  refine movedKept_tapOnInscriptionTransferred effects moved (fun pointer hpointer => ?_) fun hstart => ?_
  · exact (tracked.link _ pointer hpointer).2
  · by_contra hlive
    have hreached := tracked.started _ (Option.isSome_iff_ne_none.2 hlive)
    exact absurd (hreached.trans hheight) (of_decide_eq_false hstart)

theorem tracked_moved (tracked : Tracked env state) (moved : Moved) (effects : MovedEffects)
    (hheight : state.height ≤ context.height)
    (hstep : dispatchStep env state (context, .moved moved effects) = some state') :
    Tracked env state' := by
  obtain rfl := Option.some.inj hstep
  have kept := tracked.movedKept hheight moved effects
  refine ⟨fun id hnone => ?_, fun id pointer hpointer => ?_, fun id acc hfound => ?_,
    fun id hlive => ?_, fun id hmoved => ?_⟩
  · obtain ⟨hlink, hacc⟩ := tracked.fresh id hnone
    constructor
    · rw [Option.eq_none_iff_forall_ne_some]
      intro pointer hpointer
      rw [kept.link_of_some (Option.join_eq_some_iff.1 hpointer)] at hlink
      cases hlink
    · rw [Option.eq_none_iff_forall_ne_some]
      intro acc hfound
      rw [kept.accumulator_of_some hfound] at hacc
      cases hacc
  · obtain ⟨haddr, hlinked, hnone⟩ := tracked.link id pointer (kept.link_of_some hpointer)
    refine ⟨haddr, hlinked.mono kept.deployed (kept.rows pointer), ?_⟩
    rw [Option.eq_none_iff_forall_ne_some]
    intro acc hfound
    rw [kept.accumulator_of_some hfound] at hnone
    cases hnone
  · exact tracked.accumulator id acc (kept.accumulator_of_some hfound)
  · refine (tracked.started id ?_).trans hheight
    rw [Option.isSome_iff_ne_none] at hlive ⊢
    exact fun hnone => hlive (kept.liveOp_none hnone)
  · dsimp only [recordOwner] at hmoved ⊢
    split at hmoved
    next hfirst =>
      rw [lookup_insert_ite] at hmoved
      split at hmoved
      next hid =>
        subst hid
        exact kept.spent (Bool.and_eq_true_iff.1 hfirst).1
      next => exact kept.liveOp_none (tracked.spent id hmoved)
    next => exact kept.liveOp_none (tracked.spent id hmoved)

theorem tracked_other (tracked : Tracked env state) (effect : TapStore → TapStore)
    (hheight : state.height ≤ context.height)
    (hstep : dispatchStep env state (context, .other effect) = some state') : Tracked env state' := by
  obtain rfl := Option.some.inj hstep
  have hdeployed : ∀ tick, (state.ops.tap.d.lookup tick).isSome →
      ((unlinked effect state.ops.tap).d.lookup tick).isSome :=
    (SameLinks.unlinked ⟨0, 0⟩ effect state.ops.tap).deployed
  exact {
    fresh := tracked.fresh
    link := fun id pointer hpointer => by
      obtain ⟨haddr, hlinked, hnone⟩ := tracked.link id pointer hpointer
      exact ⟨haddr, hlinked.mono hdeployed fun _ hrow => hrow, hnone⟩
    accumulator := tracked.accumulator
    started := fun id hlive => (tracked.started id hlive).trans hheight
    spent := tracked.spent }

theorem tracked_dispatchStep (tracked : Tracked env state) {action : TapContext × DispatchAction}
    (hallowed : InOrder state action) (hstep : dispatchStep env state action = some state') :
    Tracked env state' := by
  obtain ⟨context, action⟩ := action
  cases action with
  | created created effects =>
      exact tracked_created tracked created effects hallowed.1 hallowed.2 hstep
  | moved moved effects => exact tracked_moved tracked moved effects hallowed.1 hstep
  | other effect => exact tracked_other tracked effect hallowed.1 hstep

/-- A move that does something is the first one that counts, and does it for the inscriber. -/
theorem Tracked.first (tracked : Tracked env state) {moved : Moved} {effect : MoveEffect}
    (heffect : moveEffect env context moved state.ops = some effect) :
    countsAsMove env context moved state.ops = true ∧
      state.firstOwner.lookup moved.inscriptionId = none ∧
      match effect with
      | .transferred sender receiver _ _ =>
          state.inscriber.lookup moved.inscriptionId = some sender ∧ receiver = moved.ownerAddress
      | .ran _ => state.inscriber.lookup moved.inscriptionId = some moved.ownerAddress := by
  have hunmoved : liveOp state.ops moved.inscriptionId ≠ none →
      state.firstOwner.lookup moved.inscriptionId = none := by
    intro hlive
    rw [Option.eq_none_iff_forall_ne_some]
    intro owner howner
    exact hlive (tracked.spent _ (by rw [howner]; rfl))
  rcases moveEffect_eq_some heffect with ⟨pointer, amount, hlive, hcounts, rfl⟩ |
    ⟨acc, op, hlive, howner, rfl⟩
  · have hnone := hunmoved (by rw [hlive]; exact nofun)
    refine ⟨by simp only [countsAsMove, hlive, hcounts], hnone, ?_⟩
    · obtain ⟨found, hfound, hlink, -⟩ := linkedOp_eq_some (linkedOp_of_liveOp hlive)
      cases hfound
      exact ⟨(tracked.link _ pointer hlink).1, rfl⟩
  · have hnone := hunmoved (by rw [hlive]; exact nofun)
    refine ⟨by simp only [countsAsMove, hlive], hnone, ?_⟩
    · rw [← howner]
      exact tracked.accumulator _ acc (accumulator_of_liveOp hlive)

theorem Logged.empty : Logged .empty := ⟨List.nodup_nil, fun _ _ hentry => nomatch hentry⟩

theorem Logged.moved (logged : Logged state) {id : InscriptionId} {effect : MoveEffect}
    (hentry : (id, effect) ∈ state.log) : (state.firstOwner.lookup id).isSome := by
  have entry := logged.entries id effect hentry
  cases effect with
  | transferred sender receiver tick amount =>
      rw [entry.2]
      rfl
  | ran op =>
      obtain ⟨address, -, howner⟩ := entry
      rw [howner]
      rfl

/-- Who inscribed and who owned first does not change. -/
theorem LogEntry.mono {id : InscriptionId} {effect : MoveEffect}
    (entry : LogEntry state id effect)
    (hinscriber : ∀ address, state.inscriber.lookup id = some address →
      state'.inscriber.lookup id = some address)
    (howner : ∀ address, state.firstOwner.lookup id = some address →
      state'.firstOwner.lookup id = some address) : LogEntry state' id effect := by
  cases effect with
  | transferred sender receiver tick amount => exact ⟨hinscriber _ entry.1, howner _ entry.2⟩
  | ran op =>
      obtain ⟨address, hinscribed, howned⟩ := entry
      exact ⟨address, hinscriber _ hinscribed, howner _ howned⟩

theorem logged_moved (tracked : Tracked env state) (logged : Logged state) (moved : Moved)
    (effects : MovedEffects)
    (hstep : dispatchStep env state (context, .moved moved effects) = some state') :
    Logged state' := by
  obtain rfl := Option.some.inj hstep
  have hkept : ∀ id address, state.firstOwner.lookup id = some address →
      (recordOwner env context moved state).lookup id = some address := by
    intro id address howner
    unfold recordOwner
    split
    next hfirst =>
      rw [lookup_insert_ite]
      split
      next hid =>
        subst hid
        simp [howner] at hfirst
      next => exact howner
    next => exact howner
  cases heffect : moveEffect env context moved state.ops with
  | none =>
      refine ⟨by simpa using logged.once, fun id effect hentry => ?_⟩
      have hentry : (id, effect) ∈ state.log := by simpa [heffect] using hentry
      exact (logged.entries id effect hentry).mono (fun _ hinscribed => hinscribed) (hkept id)
  | some effect =>
      obtain ⟨hcounts, hnone, howners⟩ := tracked.first heffect
      have hfresh : moved.inscriptionId ∉ state.log.map Prod.fst := by
        intro hmem
        obtain ⟨⟨id, earlier⟩, hentry, hid⟩ := List.mem_map.1 hmem
        subst hid
        have hmoved := logged.moved hentry
        rw [hnone] at hmoved
        cases hmoved
      have hlog : (state.log ++ [(moved.inscriptionId, effect)]).map Prod.fst =
          state.log.map Prod.fst ++ [moved.inscriptionId] := List.map_append
      constructor
      · simp only [Option.map_some, Option.toList_some]
        rw [hlog, List.nodup_append]
        exact ⟨logged.once, List.nodup_singleton _, fun id hid other hother => by
          rintro rfl
          exact hfresh (List.mem_singleton.1 hother ▸ hid)⟩
      · intro id found hentry
        rcases List.mem_append.1 hentry with hold | hnew
        · exact (logged.entries id found hold).mono (fun _ hinscribed => hinscribed) (hkept id)
        · simp only [Option.map_some, Option.toList_some, List.mem_singleton, Prod.mk.injEq] at hnew
          obtain ⟨rfl, rfl⟩ := hnew
          have howner : (recordOwner env context moved state).lookup moved.inscriptionId =
              some moved.ownerAddress := by
            simp only [recordOwner, hcounts, hnone, Option.isNone_none, Bool.and_self, if_true,
              lookup_insert_ite]
          cases found with
          | transferred sender receiver tick amount => exact ⟨howners.1, howners.2 ▸ howner⟩
          | ran op => exact ⟨moved.ownerAddress, howners, howner⟩

theorem logged_dispatchStep (tracked : Tracked env state) (logged : Logged state)
    {action : TapContext × DispatchAction} (hallowed : InOrder state action)
    (hstep : dispatchStep env state action = some state') : Logged state' := by
  obtain ⟨context, action⟩ := action
  cases action with
  | created created effects =>
      obtain rfl := Option.some.inj hstep
      refine ⟨logged.once, fun id effect hentry => ?_⟩
      refine (logged.entries id effect hentry).mono (fun address hinscribed => ?_) fun _ howner => howner
      have hid : id ≠ created.inscriptionId := by
        rintro rfl
        rw [hallowed.2.1] at hinscribed
        cases hinscribed
      dsimp only
      rw [lookup_insert_ite, if_neg hid]
      exact hinscribed
  | moved moved effects => exact logged_moved tracked logged moved effects hstep
  | other effect =>
      obtain rfl := Option.some.inj hstep
      exact ⟨logged.once, logged.entries⟩

end Steps

/-! ### Single use -/

/-- An operation takes effect once at most: `once`, for the log of a run.  A transfer goes from the
inscriber to the owner after the first move; an accumulated operation runs when that owner is the
inscriber; after the first move nothing changes any more; and a move changes balances by what it is
logged for. -/
structure SingleUse (env : TapEnv) (state : DispatchState) : Prop where
  once : (state.log.map Prod.fst).Nodup
  transferred : ∀ id sender receiver tick amount, (id, .transferred sender receiver tick amount) ∈
    state.log → state.inscriber.lookup id = some sender ∧ state.firstOwner.lookup id = some receiver
  executed : ∀ id op, (id, .ran op) ∈ state.log → ∃ address,
    state.inscriber.lookup id = some address ∧ state.firstOwner.lookup id = some address
  first : ∀ context moved, (moveEffect env context moved state.ops).isSome →
    state.firstOwner.lookup moved.inscriptionId = none ∧
      countsAsMove env context moved state.ops = true
  spent : ∀ context effects moved, (state.firstOwner.lookup moved.inscriptionId).isSome →
    (tapOnInscriptionTransferred env context effects moved state.ops).tap = state.ops.tap
  idle : ∀ context effects moved, state.height ≤ context.height →
    moveEffect env context moved state.ops = none →
      (tapOnInscriptionTransferred env context effects moved state.ops).tap.b = state.ops.tap.b
  moves : ∀ context effects moved sender receiver tick amount, state.height ≤ context.height →
    moveEffect env context moved state.ops = some (.transferred sender receiver tick amount) →
      (tapOnInscriptionTransferred env context effects moved state.ops).tap.b =
        movedBalances sender receiver tick amount state.ops.tap.b

/-- A move of an inscription without a live operation. -/
theorem tap_tapOnInscriptionTransferred_of_spent {env : TapEnv} {context : TapContext}
    {effects : MovedEffects} {moved : Moved} {state : OpStore}
    (hlive : liveOp state moved.inscriptionId = none) :
    (tapOnInscriptionTransferred env context effects moved state).tap = state.tap := by
  unfold tapOnInscriptionTransferred
  split
  · rfl
  · generalize hresult : tapDispatchTransferSlow env context effects moved state = result
    have routed := routed_tapDispatchTransferSlow env context effects moved state
    rw [hresult] at routed
    cases routed with
    | kept => rfl
    | marked => rfl
    | link pointer routed hfound =>
        rw [hlive] at hfound
        cases hfound
    | accumulator acc hfound =>
        rw [hlive] at hfound
        cases hfound

/-- Over every run, an inscribed operation is used once at most, by the first move that counts. -/
theorem operations_single_use (env : TapEnv) {state : DispatchState}
    (reaches : Run.Reaches (dispatchStep env) InOrder .empty state) : SingleUse env state := by
  obtain ⟨tracked, logged⟩ : Tracked env state ∧ Logged state :=
    reaches.invariant (fun state => Tracked env state ∧ Logged state)
      (fun inv hallowed hstep => ⟨tracked_dispatchStep inv.1 hallowed hstep,
        logged_dispatchStep inv.1 inv.2 hallowed hstep⟩) ⟨.empty, .empty⟩
  exact {
    once := logged.once
    transferred := fun id sender receiver tick amount hentry => logged.entries id _ hentry
    executed := fun id op hentry => logged.entries id _ hentry
    first := fun context moved hsome => by
      obtain ⟨effect, heffect⟩ := Option.isSome_iff_exists.1 hsome
      exact ⟨(tracked.first heffect).2.1, (tracked.first heffect).1⟩
    spent := fun context effects moved hmoved =>
      tap_tapOnInscriptionTransferred_of_spent (tracked.spent _ hmoved)
    idle := fun context effects moved hheight heffect =>
      (tracked.movedKept hheight moved effects).idle heffect
    moves := fun context effects moved sender receiver tick amount hheight heffect =>
      (tracked.movedKept hheight moved effects).covered sender receiver tick amount heffect }

/-! ### A transfer and a send -/

def moveDocument : Json :=
  .object (textFields [("p", "tap"), ("op", "token-transfer"), ("tick", "abc"), ("amt", "10")])

/-- Five of `abc` to the buyer. -/
def sendDocument : Json :=
  .object (textFields [("p", "tap"), ("op", "token-send")] ++
    [("items".toList, .array [.object (textFields [("tick", "abc"), ("amt", "5")] ++
      [("address".toList, .string sampleBuyer)])])])

/-- The libraries, on the given network. -/
def dispatchEnv (mainnet : Bool) : TapEnv :=
  { sampleEnv with
    mainnet := mainnet
    parse := fun body =>
      [deployDocument "abc", mintDocument "abc", moveDocument, sendDocument].find? fun json =>
        json.body = body }

/-- The seller deploys `abc` and mints a hundred. -/
def fundSeller (env : TapEnv) (store : TapStore) : TapStore :=
  (indexMints env sampleContext (inscribed 3 sampleSeller (mintDocument "abc"))).after
    ((indexDeployments env sampleContext (inscribed 1 sampleSeller (deployDocument "abc"))).after store)

def noCreatedEffects : CreatedEffects where
  earlier := id
  claimed := false
  minted := none
  redeemed := id
  verified := false

def noMovedEffects : MovedEffects where
  tokenAuth := id
  privilegeAuth := id

/-- The inscription of transaction `txid` moves to `owner` in transaction `next`. -/
def inscriptionMovedTo (txid next : Txid) (owner : Address) : Moved where
  inscriptionId := ⟨txid, 0⟩
  newSatpoint := ⟨⟨next, 0⟩, 0⟩
  ownerAddress := owner

/-- A transfer of ten moves to the buyer and on to a third address; a send of five runs. -/
def usedRun : List (TapContext × DispatchAction) :=
  [.other (fundSeller (dispatchEnv true)),
    .created (inscribed 5 sampleSeller moveDocument) noCreatedEffects,
    .created (inscribed 6 sampleSeller sendDocument) noCreatedEffects,
    .moved (inscriptionMovedTo 5 7 sampleBuyer) noMovedEffects,
    .moved (inscriptionMovedTo 6 8 sampleSeller) noMovedEffects,
    .moved (inscriptionMovedTo 5 9 sampleFeeReceiver) noMovedEffects,
    .moved (inscriptionMovedTo 6 10 sampleSeller) noMovedEffects].map fun action => (sampleContext, action)

def movedKey : TickKey := "\"abc\"".toList

/-- The log and the balances of a ticker. -/
def dispatchView (state : DispatchState) : List (InscriptionId × MoveEffect) × List ℤ :=
  (state.log, [sampleSeller, sampleBuyer, sampleFeeReceiver].map fun address =>
    i128At state.ops.tap.b address movedKey)

/-- Each of the two operations is used once. -/
theorem usedRun_single_use :
    ∃ state, Run.Reaches (dispatchStep (dispatchEnv true)) InOrder .empty state ∧
      dispatchView state = ([(⟨5, 0⟩, .transferred sampleSeller sampleBuyer movedKey 10),
        (⟨6, 0⟩, .ran .tokenSend)], [85, 15, 0]) ∧ SingleUse (dispatchEnv true) state := by
  have hexec : (Run.exec (dispatchStep (dispatchEnv true))
      (fun state action => decide (InOrder state action)) usedRun .empty).map dispatchView =
        some ([(⟨5, 0⟩, .transferred sampleSeller sampleBuyer movedKey 10),
          (⟨6, 0⟩, .ran .tokenSend)], [85, 15, 0]) := by decide +kernel
  have hrun := Run.exists_reaches_of_exec of_decide_eq_true hexec
  obtain ⟨state, reaches, hview⟩ := hrun
  exact ⟨state, reaches, hview, operations_single_use (dispatchEnv true) reaches⟩

/-- The seller is a blocked reward address. -/
def shieldedContext : TapContext :=
  { sampleContext with
    bltr := fun address => address = sampleSeller
    dmtRewardAddress := fun address => address = sampleSeller }

/-- The seller inscribes a transfer of ten. -/
def shieldedRun : List (TapContext × DispatchAction) :=
  [.other (fundSeller (dispatchEnv false)),
    .created (inscribed 5 sampleSeller moveDocument) noCreatedEffects].map fun action =>
      (sampleContext, action)

/-- The rows after the seller, while it is blocked, has sent the transfer to itself. -/
def shieldedMove (state : DispatchState) : OpStore :=
  tapOnInscriptionTransferred (dispatchEnv false) shieldedContext noMovedEffects
    (inscriptionMovedTo 5 7 sampleSeller) state.ops

/-- The rows after the seller, no longer blocked, has sent it to the buyer. -/
def laterMove (ops : OpStore) : OpStore :=
  tapOnInscriptionTransferred (dispatchEnv false) sampleContext noMovedEffects
    (inscriptionMovedTo 5 8 sampleBuyer) ops

/-- The first move of a transfer to another transaction does not use it up when a blocked reward address
sends it to itself: once the address is unblocked the next move transfers the amount. -/
theorem shieldedMove_not_spent :
    ∃ state, Run.Reaches (dispatchStep (dispatchEnv false)) InOrder .empty state ∧
      state.firstOwner.lookup ⟨5, 0⟩ = none ∧
      (inscriptionMovedTo 5 7 sampleSeller).newSatpoint.outpoint.txid ≠
        (inscriptionMovedTo 5 7 sampleSeller).inscriptionId.txid ∧
      (laterMove (shieldedMove state)).tap.b ≠ (shieldedMove state).tap.b := by
  have hexec : (Run.exec (dispatchStep (dispatchEnv false))
      (fun state action => decide (InOrder state action)) shieldedRun .empty).map (fun state =>
        (state.firstOwner.lookup ⟨5, 0⟩, i128At (shieldedMove state).tap.b sampleBuyer movedKey,
          i128At (laterMove (shieldedMove state)).tap.b sampleBuyer movedKey)) =
        some (none, 0, 10) := by decide +kernel
  have hrun := Run.exists_reaches_of_exec of_decide_eq_true hexec
  obtain ⟨state, reaches, hview⟩ := hrun
  simp only [Prod.mk.injEq] at hview
  obtain ⟨howner, hbefore, hafter⟩ := hview
  refine ⟨state, reaches, howner, by decide, fun hsame => ?_⟩
  rw [hsame, hbefore] at hafter
  cases hafter

end OrdDogecoin.Tap
