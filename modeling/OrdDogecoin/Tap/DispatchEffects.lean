/-
Module: OrdDogecoin.Tap.DispatchEffects
Purpose: What the handlers of a new and of a moved inscription do to links, to accumulators and to
  balances.
Trusted boundary: none
Main exports: SameLinks, movedBalances, TransferRan
-/
import OrdDogecoin.Tap.Dispatch
import OrdDogecoin.Tap.Conservation
import OrdDogecoin.Tap.DogemapRows

namespace OrdDogecoin.Tap

open Chain KeyTable Proc

/-! ### Rows of other inscriptions -/

/-- The links are the same, deployments stay, and so do the accumulators of other inscriptions. -/
structure SameLinks (id : InscriptionId) (before after : TapStore) : Prop where
  tl : after.tl = before.tl
  atrli : after.atrli = before.atrli
  dmtmh : after.dmtmh = before.dmtmh
  deployed : ∀ tick, (before.d.lookup tick).isSome → (after.d.lookup tick).isSome
  accumulators : ∀ other, other ≠ id → after.a.lookup other = before.a.lookup other

namespace SameLinks

variable {id : InscriptionId} {before after last : TapStore}

theorem refl (id : InscriptionId) (store : TapStore) : SameLinks id store store :=
  ⟨rfl, rfl, rfl, fun _ hdeployed => hdeployed, fun _ _ => rfl⟩

theorem trans (first : SameLinks id before after) (second : SameLinks id after last) :
    SameLinks id before last where
  tl := second.tl.trans first.tl
  atrli := second.atrli.trans first.atrli
  dmtmh := second.dmtmh.trans first.dmtmh
  deployed tick hdeployed := second.deployed tick (first.deployed tick hdeployed)
  accumulators other hother := (second.accumulators other hother).trans (first.accumulators other hother)

/-- What writes none of these rows. -/
theorem frame (same : SameLinks id before after) (htl : last.tl = after.tl)
    (hatrli : last.atrli = after.atrli) (hdmtmh : last.dmtmh = after.dmtmh) (hd : last.d = after.d)
    (ha : last.a = after.a) : SameLinks id before last :=
  same.trans ⟨htl, hatrli, hdmtmh, fun tick hdeployed => by rw [hd]; exact hdeployed, fun _ _ => by rw [ha]⟩

theorem unlinked (id : InscriptionId) (effect : TapStore → TapStore) (store : TapStore) :
    SameLinks id store (unlinked effect store) where
  tl := rfl
  atrli := rfl
  dmtmh := rfl
  deployed tick hdeployed := by
    have hmem : tick ∈ store.d := AList.lookup_isSome.1 hdeployed
    simp only [Tap.unlinked]
    rw [AList.lookup_union_left hmem]
    exact hdeployed
  accumulators _ _ := rfl

theorem putAccumulator (created : Created) (op : String) (json : Json)
    (same : SameLinks created.inscriptionId before after) :
    SameLinks created.inscriptionId before (putAccumulator created op json after) :=
  same.trans ⟨rfl, rfl, rfl, fun _ hdeployed => hdeployed, fun other hother => by
    simp only [Tap.putAccumulator, lookup_insert_ite, if_neg hother]⟩

theorem dropAccumulator (id : InscriptionId) (same : SameLinks id before after) :
    SameLinks id before (dropAccumulator id after) :=
  same.trans ⟨rfl, rfl, rfl, fun _ hdeployed => hdeployed, fun other hother => by
    simp only [Tap.dropAccumulator, lookup_erase_ite, if_neg hother]⟩

end SameLinks

/-! ### Executed handlers -/

section Handlers

variable {env : TapEnv} {context : TapContext} {id : InscriptionId} {start store : TapStore}
  {pointer : TransferPointer} {moved : Moved} {state : OpStore}

theorem sameLinks_execInternalSendOne (same : SameLinks id start store) (sender receiver : Address)
    (tick : Text) (amtVal : Json) :
    Keeps (SameLinks id start) (execInternalSendOne env context sender receiver tick amtVal) store := by
  unfold execInternalSendOne
  refine keeps_read (keeps_get same fun deployed _ => ?_)
  refine keeps_get same fun amount _ => keeps_read (keeps_read (keeps_read ?_))
  refine keeps_require same fun _ => keeps_require same fun _ => ?_
  exact keeps_write (keeps_write_last (same.frame rfl rfl rfl rfl rfl))

theorem sameLinks_sendAll (sender : Address) (items : List Json) :
    ∀ {store : TapStore}, SameLinks id start store →
      SameLinks id start (sendAll env context sender items store) := by
  induction items with
  | nil => exact fun same => same
  | cons item items ih =>
      intro store same
      have hone : Keeps (SameLinks id start) (sendOne env context sender item) store := by
        unfold sendOne
        refine keeps_get same fun _ _ => keeps_get same fun tick _ => ?_
        refine keeps_get same fun receiver _ => keeps_get same fun amtVal _ => ?_
        exact sameLinks_execInternalSendOne same sender receiver tick amtVal
      exact ih hone.after

theorem sameLinks_indexTokenSendExecuted (moved : Moved) :
    SameLinks moved.inscriptionId store ((indexTokenSendExecuted env context moved).after store) := by
  have same := SameLinks.refl moved.inscriptionId store
  have hkeeps : Keeps (SameLinks moved.inscriptionId store)
      (indexTokenSendExecuted env context moved) store := by
    unfold indexTokenSendExecuted
    refine keeps_require same fun _ => keeps_read (keeps_get same fun acc _ => ?_)
    refine keeps_require same fun _ => keeps_require same fun _ => ?_
    exact keeps_write (keeps_write_last (.dropAccumulator _ (sameLinks_sendAll _ _ same)))
  exact hkeeps.after

theorem sameLinks_recordOffer {inscriptionId : InscriptionId} {tickKey : TickKey} {fail : Bool}
    {offer : TradeOfferRecord} (item : Json) {state : List Text × TapStore}
    (same : SameLinks id start state.2) :
    SameLinks id start (recordOffer env context inscriptionId tickKey fail offer item state).2 := by
  unfold recordOffer
  split
  · exact same
  · dsimp only
    split
    · exact same
    · split
      · exact same.frame rfl rfl rfl rfl rfl
      · exact same.frame rfl rfl rfl rfl rfl

theorem sameLinks_recordOffers {inscriptionId : InscriptionId} {tickKey : TickKey} {fail : Bool}
    {offer : TradeOfferRecord} (items : List Json) :
    ∀ {state : List Text × TapStore}, SameLinks id start state.2 →
      SameLinks id start (items.foldl (fun state item =>
        recordOffer env context inscriptionId tickKey fail offer item state) state).2 := by
  induction items with
  | nil => exact fun same => same
  | cons item items ih =>
      intro state same
      exact ih (sameLinks_recordOffer item same)

theorem sameLinks_runTrade (same : SameLinks id start store) (moved : Moved)
    (acc : TapAccumulatorEntry) : SameLinks id start (runTrade env context moved acc store) := by
  unfold runTrade
  dsimp only
  split
  · exact same
  split
  · split
    · unfold cancelOffer
      split
      · exact same
      · dsimp only
        split
        · exact same
        · split
          · exact same.frame rfl rfl rfl rfl rfl
          · exact same
    · unfold openOffer
      split
      · exact same
      · apply sameLinks_recordOffers
        dsimp only
        split
        · exact same
        · exact same.frame rfl rfl rfl rfl rfl
  split
  · unfold applyFill
    split
    · exact same
    · dsimp only
      split <;> exact same.frame rfl rfl rfl rfl rfl
  · exact same

theorem sameLinks_indexTokenTradeExecuted (moved : Moved) :
    SameLinks moved.inscriptionId store ((indexTokenTradeExecuted env context moved).after store) := by
  have same := SameLinks.refl moved.inscriptionId store
  have hkeeps : Keeps (SameLinks moved.inscriptionId store)
      (indexTokenTradeExecuted env context moved) store := by
    unfold indexTokenTradeExecuted
    refine keeps_require same fun _ => keeps_read (keeps_get same fun acc _ => ?_)
    refine keeps_require same fun _ => keeps_require same fun _ => ?_
    exact keeps_write (keeps_write_last (.dropAccumulator _ (sameLinks_runTrade same moved acc)))
  exact hkeeps.after

theorem sameLinks_executedHandler (effects : MovedEffects) (moved : Moved) (op : AccumulatedOp) :
    SameLinks moved.inscriptionId store (executedHandler env context effects moved store op) := by
  cases op with
  | tokenSend => exact sameLinks_indexTokenSendExecuted moved
  | tokenTrade => exact sameLinks_indexTokenTradeExecuted moved
  | tokenAuth =>
      simp only [executedHandler]
      split
      · exact .refl _ _
      · exact .unlinked _ _ _
  | privilegeAuth =>
      simp only [executedHandler]
      split
      · exact .refl _ _
      · exact .unlinked _ _ _
  | blockTransferables => exact .refl _ _
  | unblockTransferables => exact .refl _ _

/-- The accumulator is gone, whoever owns the inscription, and no other row of this kind changes. -/
theorem executeAccumulator_spec (env : TapEnv) (context : TapContext) (effects : MovedEffects)
    (moved : Moved) (store : TapStore) :
    SameLinks moved.inscriptionId store
        (tapExecuteAccumulatorForInscription env context effects moved store) ∧
      (tapExecuteAccumulatorForInscription env context effects moved store).a.lookup
        moved.inscriptionId = none := by
  unfold tapExecuteAccumulatorForInscription
  split
  next hnone => exact ⟨.refl _ _, hnone⟩
  next acc hacc =>
    have hdropped : ∀ store : TapStore, (dropAccumulator moved.inscriptionId store).a.lookup
        moved.inscriptionId = none := fun store => by
      simp only [dropAccumulator, lookup_erase_ite, if_pos]
    split
    · exact ⟨.dropAccumulator _ (.refl _ _), hdropped _⟩
    · refine ⟨.dropAccumulator _ ?_, hdropped _⟩
      split
      · exact sameLinks_executedHandler effects moved _
      · exact .dropAccumulator _ (.refl _ _)

/-! ### Creation -/

def linkedRow (store : TapStore) (pointer : TransferPointer) : Option TransferInitRecord :=
  ((store.atrli.lookup (pointer.addr, pointer.tick)).getD [])[pointer.index]?

/-- A link of an inscription: its row is of the same address and of the inscription's transaction, and
the ticker is deployed. -/
structure LinkOf (store : TapStore) (id : InscriptionId) (pointer : TransferPointer) : Prop where
  deployed : (store.d.lookup pointer.tick).isSome
  row : ∃ atr, linkedRow store pointer = some atr ∧ atr.addr = pointer.addr ∧ atr.tx = id.txid

/-- The inscription is this operation. -/
def Inscribes (env : TapEnv) (context : TapContext) (created : Created) (op : String) : Prop :=
  ∃ json, createdJson env context created = some json ∧
    env.toLowercase (json.text "op") = op.toList

/-- What the handler of a new transfer leaves. -/
structure TransferKept (env : TapEnv) (context : TapContext) (created : Created)
    (before after : TapStore) : Prop where
  a : after.a = before.a
  d : after.d = before.d
  dmtmh : after.dmtmh = before.dmtmh
  rows : ∀ pointer atr, linkedRow before pointer = some atr → linkedRow after pointer = some atr
  link : after.tl = before.tl ∨ ∃ pointer,
    after.tl = before.tl.insert created.inscriptionId (some pointer) ∧
      pointer.addr = created.ownerAddress ∧ LinkOf after created.inscriptionId pointer ∧
      Inscribes env context created "token-transfer"

theorem createdJson_txid {created : Created} {json : Json}
    (hjson : createdJson env context created = some json) :
    created.satpoint.outpoint.txid = created.inscriptionId.txid := by
  unfold createdJson at hjson
  by_contra hne
  rw [if_pos hne] at hjson
  cases hjson

/-- A row is added at the end of the list of its address and ticker. -/
theorem linkedRow_append {before after : TapStore} {address : Address} {tick : TickKey}
    {atr : TransferInitRecord}
    (hatrli : after.atrli = before.atrli.insert (address, tick)
      (((before.atrli.lookup (address, tick)).getD []) ++ [atr])) :
    (∀ pointer row, linkedRow before pointer = some row → linkedRow after pointer = some row) ∧
      linkedRow after ⟨address, tick, ((before.atrli.lookup (address, tick)).getD []).length⟩ =
        some atr := by
  unfold linkedRow
  rw [hatrli]
  constructor
  · intro pointer row hrow
    rw [lookup_insert_ite]
    split
    next hkey =>
      rw [hkey] at hrow
      rw [Option.getD_some, List.getElem?_append_left (List.getElem?_eq_some_iff.1 hrow).1]
      exact hrow
    next => exact hrow
  · rw [lookup_insert_ite, if_pos rfl, Option.getD_some]
    simp

theorem TransferKept.of_written (tick : TickKey) (atr : TransferInitRecord) {after : TapStore}
    {created : Created} (ha : after.a = store.a) (hd : after.d = store.d)
    (hdmtmh : after.dmtmh = store.dmtmh)
    (hatrli : after.atrli = store.atrli.insert (created.ownerAddress, tick)
      (((store.atrli.lookup (created.ownerAddress, tick)).getD []) ++ [atr]))
    (htl : after.tl = store.tl ∨ after.tl = store.tl.insert created.inscriptionId
      (some ⟨created.ownerAddress, tick,
        ((store.atrli.lookup (created.ownerAddress, tick)).getD []).length⟩))
    (haddr : atr.addr = created.ownerAddress) (htx : atr.tx = created.inscriptionId.txid)
    (hdeployed : (store.d.lookup tick).isSome)
    (htransfer : Inscribes env context created "token-transfer") :
    TransferKept env context created store after := by
  obtain ⟨hrows, hnew⟩ := linkedRow_append hatrli
  refine ⟨ha, hd, hdmtmh, hrows, htl.imp_right fun hlinked => ⟨_, hlinked, rfl, ⟨?_, ?_⟩, htransfer⟩⟩
  · rw [hd]
    exact hdeployed
  · exact ⟨atr, hnew, haddr, htx⟩

theorem transferKept_indexTokenTransferCreated (created : Created) :
    TransferKept env context created store
      ((indexTokenTransferCreated env context created).after store) := by
  have kept : TransferKept env context created store store :=
    ⟨rfl, rfl, rfl, fun _ _ hrow => hrow, .inl rfl⟩
  have hkeeps : Keeps (TransferKept env context created store)
      (indexTokenTransferCreated env context created) store := by
    unfold indexTokenTransferCreated
    refine keeps_get kept fun json hjson => keeps_require kept fun hop => ?_
    refine keeps_get kept fun amtVal _ => keeps_require kept fun _ => ?_
    refine keeps_require kept fun _ => keeps_get kept fun _ _ => ?_
    refine keeps_require kept fun _ => keeps_require kept fun _ => ?_
    generalize (if created.inscriptionNumber < 0 then _ else _) = tick
    refine keeps_read (keeps_get kept fun deployed hdeployed => keeps_read ?_)
    refine keeps_get kept fun tokensLeft _ => ?_
    refine keeps_get kept fun amount _ => keeps_read (keeps_write (keeps_read ?_))
    refine keeps_write (keeps_write_last ?_)
    have htransfer : Inscribes env context created "token-transfer" := by
      refine ⟨json, hjson, ?_⟩
      simp only [Bool.and_eq_true, decide_eq_true_eq] at hop
      exact hop.1.2
    have hdeployed : (store.d.lookup (jsonStringifyLower env tick)).isSome := by
      rw [hdeployed]
      rfl
    refine .of_written (jsonStringifyLower env tick)
      ⟨created.ownerAddress, amount, created.satpoint.outpoint.txid⟩
      ?_ ?_ ?_ ?_ ?_ rfl (createdJson_txid hjson) hdeployed htransfer
    · split <;> rfl
    · split <;> rfl
    · split <;> rfl
    · split <;> rfl
    · split
      · exact .inl rfl
      · exact .inr rfl
  exact hkeeps.after

/-- What a handler leaves that may keep an accumulator: the new one is of the inscriber, and the
inscription is no transfer. -/
structure AccumulatorKept (env : TapEnv) (context : TapContext) (created : Created)
    (before after : TapStore) : Prop where
  links : SameLinks created.inscriptionId before after
  accumulator : after.a.lookup created.inscriptionId = before.a.lookup created.inscriptionId ∨
    (∃ acc, after.a.lookup created.inscriptionId = some acc ∧ acc.addr = created.ownerAddress) ∧
      ¬ Inscribes env context created "token-transfer"

namespace AccumulatorKept

variable {created : Created} {before after last : TapStore}

theorem refl (env : TapEnv) (context : TapContext) (created : Created) (store : TapStore) :
    AccumulatorKept env context created store store := ⟨.refl _ _, .inl rfl⟩

theorem trans (first : AccumulatorKept env context created before after)
    (second : AccumulatorKept env context created after last) :
    AccumulatorKept env context created before last where
  links := first.links.trans second.links
  accumulator := by
    rcases second.accumulator with hsame | hnew
    · rw [hsame]
      exact first.accumulator
    · exact .inr hnew

/-- An inscription of another operation is no transfer. -/
theorem put {op : String} {json json' : Json} (hjson : createdJson env context created = some json)
    (hop : env.toLowercase (json.text "op") = op.toList) (hother : op ≠ "token-transfer") :
    AccumulatorKept env context created before (putAccumulator created op json' before) where
  links := .putAccumulator created op json' (.refl _ _)
  accumulator := by
    refine .inr ⟨⟨{ op := op.toList, json := json', addr := created.ownerAddress }, ?_, rfl⟩, ?_⟩
    · simp only [putAccumulator, lookup_insert_ite, if_pos]
    · rintro ⟨json'', hjson'', hop''⟩
      rw [hjson] at hjson''
      cases hjson''
      exact hother (String.toList_inj.1 (hop.symm.trans hop''))

theorem indexAccumulatorCreated (op : String) (accepts : Json → Bool) (hother : op ≠ "token-transfer")
    (store : TapStore) : AccumulatorKept env context created store
      ((indexAccumulatorCreated env context op accepts created).after store) := by
  have kept := refl env context created store
  have hkeeps : Keeps (AccumulatorKept env context created store)
      (Tap.indexAccumulatorCreated env context op accepts created) store := by
    unfold Tap.indexAccumulatorCreated
    refine keeps_get kept fun json hjson => keeps_require kept fun hop => ?_
    refine keeps_require kept fun _ => keeps_write_last (put hjson ?_ hother)
    exact of_decide_eq_true (Bool.and_eq_true_iff.1 hop).2
  exact hkeeps.after

theorem indexTokenSendCreated (store : TapStore) :
    AccumulatorKept env context created store
      ((indexTokenSendCreated env context created).after store) := by
  have kept := refl env context created store
  have hkeeps : Keeps (AccumulatorKept env context created store)
      (Tap.indexTokenSendCreated env context created) store := by
    unfold Tap.indexTokenSendCreated
    refine keeps_get kept fun json hjson => keeps_require kept fun hop => ?_
    refine keeps_get kept fun items _ => keeps_require kept fun _ => ?_
    refine keeps_require kept fun _ => keeps_require kept fun _ => ?_
    refine keeps_get kept fun items _ => keeps_write_last (put hjson ?_ (by decide))
    exact of_decide_eq_true (Bool.and_eq_true_iff.1 hop).2
  exact hkeeps.after

theorem indexTokenTradeCreated (store : TapStore) :
    AccumulatorKept env context created store
      ((indexTokenTradeCreated env context created).after store) := by
  have kept := refl env context created store
  have hkeeps : Keeps (AccumulatorKept env context created store)
      (Tap.indexTokenTradeCreated env context created) store := by
    unfold Tap.indexTokenTradeCreated
    refine keeps_get kept fun json hjson => keeps_require kept fun hop => ?_
    have hop := of_decide_eq_true (Bool.and_eq_true_iff.1 hop).2
    refine keeps_require kept fun _ => keeps_require kept fun _ => ?_
    split
    · exact keeps_require kept fun _ => keeps_write_last (put hjson hop (by decide))
    · refine keeps_get kept fun tick _ => keeps_require kept fun _ => ?_
      refine keeps_require kept fun _ => keeps_require kept fun _ => ?_
      exact keeps_get kept fun _ _ => keeps_write_last (put hjson hop (by decide))
  exact hkeeps.after

theorem accumulatorsCreated (effects : CreatedEffects) (store : TapStore) :
    AccumulatorKept env context created store
      (accumulatorsCreated env context effects created store) := by
  have hredeemed : ∀ store : TapStore,
      AccumulatorKept env context created store (unlinked effects.redeemed store) :=
    fun store => ⟨.unlinked _ _ _, .inl rfl⟩
  have hsend : AccumulatorKept env context created store _ := indexTokenSendCreated store
  have hauth := (hsend.trans (indexTokenTradeCreated _)).trans
    (indexAccumulatorCreated "token-auth" tokenAuthAccumulates (by decide) _)
  have hprivilege := (hauth.trans (hredeemed _)).trans
    (indexAccumulatorCreated "privilege-auth" privilegeAuthAccumulates (by decide) _)
  have hblock := hprivilege.trans
    (indexAccumulatorCreated "block-transferables" (fun _ => true) (by decide) _)
  exact hblock.trans (indexAccumulatorCreated "unblock-transferables" (fun _ => true) (by decide) _)

end AccumulatorKept

/-! ### Live operations -/

/-- An operation that a move of its inscription can still run. -/
inductive LiveOp where
  | transfer (pointer : TransferPointer)
  | accumulated (acc : TapAccumulatorEntry)

/-- The link of an inscription; one without a ticker is never followed. -/
def linkedOp (store : TapStore) (id : InscriptionId) : Option LiveOp :=
  match (store.tl.lookup id).join with
  | none => none
  | some pointer => if pointer.tick.isEmpty then none else some (.transfer pointer)

/-- The operation that the next move of an inscription is routed to. -/
def liveOp (state : OpStore) (id : InscriptionId) : Option LiveOp :=
  match state.kind.lookup id with
  | some .tl => linkedOp state.tap id
  | some _ => none
  | none =>
      if (state.bmh.lookup id).isSome || (state.tap.dmtmh.lookup (inscriptionText id)).isSome ||
          (state.prvins.lookup id).isSome then none
      else
        match (state.tap.tl.lookup id).join with
        | some _ => linkedOp state.tap id
        | none => (state.tap.a.lookup id).map .accumulated

/-- What a move does: it transfers an amount, or it runs an accumulated operation. -/
inductive MoveEffect where
  | transferred (sender receiver : Address) (tick : TickKey) (amount : ℤ)
  | ran (op : AccumulatedOp)
deriving DecidableEq, Repr

/-- The balances after a transfer. -/
def movedBalances (sender receiver : Address) (tick : TickKey) (amount : ℤ)
    (balances : KeyTable (Address × TickKey) ℤ) : KeyTable (Address × TickKey) ℤ :=
  if receiver = sender then balances
  else
    (balances.insert (sender, tick) (i128At balances sender tick - amount)).insert (receiver, tick)
      (wrapI128 (i128At balances receiver tick + amount))

/-- What a transfer of a linked row does; nothing when the amount is not covered. -/
def transferEffect (env : TapEnv) (context : TapContext) (moved : Moved) (store : TapStore)
    (pointer : TransferPointer) : Option MoveEffect :=
  if moved.newSatpoint.outpoint.txid = moved.inscriptionId.txid then none
  else if tapBlocksDmtRewardTransferExecution env context pointer.addr then none
  else
    match linkedRow store pointer, store.b.lookup (pointer.addr, pointer.tick),
      store.t.lookup (pointer.addr, pointer.tick) with
    | some atr, some balance, some transferable =>
        let amount : ℤ := if atr.amt < 2 ^ 127 then atr.amt else 0
        if amount ≤ (readI128 transferable).getD 0 ∧ amount ≤ (readI128 balance).getD 0 then
          some (.transferred pointer.addr moved.ownerAddress pointer.tick amount)
        else none
    | _, _, _ => none

/-- What a move of an inscription does. -/
def moveEffect (env : TapEnv) (context : TapContext) (moved : Moved) (state : OpStore) :
    Option MoveEffect :=
  if featureEnabled env context .tapStart then
    match liveOp state moved.inscriptionId with
    | none => none
    | some (.transfer pointer) => transferEffect env context moved state.tap pointer
    | some (.accumulated acc) =>
        if acc.addr = moved.ownerAddress then (accumulatedOp env acc.op).map .ran else none
  else none

/-- A transfer that moves to another transaction, unless a blocked reward address sends it to itself. -/
def transferCounts (env : TapEnv) (context : TapContext) (moved : Moved) (pointer : TransferPointer) :
    Bool :=
  moved.newSatpoint.outpoint.txid ≠ moved.inscriptionId.txid &&
    !(tapBlocksDmtRewardTransferExecution env context pointer.addr &&
      moved.ownerAddress = pointer.addr)

/-- A move counts unless its inscription is a transfer that stays in its own transaction, or that a
blocked reward address sends to itself. -/
def countsAsMove (env : TapEnv) (context : TapContext) (moved : Moved) (state : OpStore) : Bool :=
  match liveOp state moved.inscriptionId with
  | some (.transfer pointer) => transferCounts env context moved pointer
  | _ => true

/-- What the executed handler of a transfer leaves. -/
structure TransferRan (env : TapEnv) (context : TapContext) (moved : Moved) (pointer : TransferPointer)
    (counts : Bool) (before after : TapStore) : Prop where
  a : after.a = before.a
  d : after.d = before.d
  atrli : after.atrli = before.atrli
  dmtmh : after.dmtmh = before.dmtmh
  tl : after.tl = if counts then before.tl.insert moved.inscriptionId none else before.tl
  idle : counts = false → after = before
  uncovered : transferEffect env context moved before pointer = none → after.b = before.b
  covered : ∀ sender receiver tick amount, transferEffect env context moved before pointer =
    some (.transferred sender receiver tick amount) →
      after.b = movedBalances sender receiver tick amount before.b

/-- The balances after a transfer that is not blocked. -/
theorem settleTransfer_b (sender receiver : Address) (tick : TickKey) (amount : ℤ) {balance : ℤ}
    (transferable : ℤ) (hbalance : store.b.lookup (sender, tick) = some balance) :
    (settleTransfer sender receiver tick amount ((readI128 balance).getD 0) transferable store).b =
      if amount ≤ transferable ∧ amount ≤ (readI128 balance).getD 0 then
        movedBalances sender receiver tick amount store.b
      else store.b := by
  have hread : i128At store.b sender tick = (readI128 balance).getD 0 := by
    simp only [i128At, hbalance, Option.bind_some]
  unfold settleTransfer movedBalances
  rw [hread]
  by_cases hcovered : amount ≤ transferable ∧ amount ≤ (readI128 balance).getD 0
  · have hnofail : ¬ (transferable - amount < 0 ∨ (readI128 balance).getD 0 - amount < 0) := by omega
    by_cases hself : receiver = sender
    · simp only [hcovered, hself, and_self, if_true, ne_eq, not_true, and_false, if_false]
    · simp only [hnofail, hself, hcovered, and_self, if_true, if_false, ne_eq, not_false_eq_true]
  · have hfail : transferable - amount < 0 ∨ (readI128 balance).getD 0 - amount < 0 := by omega
    simp only [hfail, not_true, false_and, if_false, if_neg hcovered]

theorem settleTransfer_frame (sender receiver : Address) (tick : TickKey)
    (amount balance transferable : ℤ) (store : TapStore) :
    (settleTransfer sender receiver tick amount balance transferable store).a = store.a ∧
      (settleTransfer sender receiver tick amount balance transferable store).d = store.d ∧
      (settleTransfer sender receiver tick amount balance transferable store).atrli = store.atrli ∧
      (settleTransfer sender receiver tick amount balance transferable store).dmtmh = store.dmtmh ∧
      (settleTransfer sender receiver tick amount balance transferable store).tl = store.tl := by
  unfold settleTransfer
  dsimp only
  split <;> exact ⟨rfl, rfl, rfl, rfl, rfl⟩

theorem transferEffect_eq (moved : Moved) {atr : TransferInitRecord} {balance transferable : ℤ}
    (hother : moved.newSatpoint.outpoint.txid ≠ moved.inscriptionId.txid)
    (hblocked : ¬ tapBlocksDmtRewardTransferExecution env context pointer.addr = true)
    (hrow : linkedRow store pointer = some atr)
    (hbalance : store.b.lookup (pointer.addr, pointer.tick) = some balance)
    (htransferable : store.t.lookup (pointer.addr, pointer.tick) = some transferable) :
    transferEffect env context moved store pointer =
      if (if atr.amt < 2 ^ 127 then (atr.amt : ℤ) else 0) ≤ (readI128 transferable).getD 0 ∧
          (if atr.amt < 2 ^ 127 then (atr.amt : ℤ) else 0) ≤ (readI128 balance).getD 0 then
        some (.transferred pointer.addr moved.ownerAddress pointer.tick
          (if atr.amt < 2 ^ 127 then atr.amt else 0))
      else none := by
  simp only [transferEffect, if_neg hother, if_neg hblocked, hrow, hbalance, htransferable]

theorem TransferRan.refl (heffect : transferEffect env context moved store pointer = none) :
    TransferRan env context moved pointer false store store :=
  ⟨rfl, rfl, rfl, rfl, rfl, fun _ => rfl, fun _ => rfl, fun _ _ _ _ hcovered => by
    rw [heffect] at hcovered
    cases hcovered⟩

theorem TransferRan.cleared {after : TapStore}
    (ha : after.a = store.a) (hd : after.d = store.d) (hatrli : after.atrli = store.atrli)
    (hdmtmh : after.dmtmh = store.dmtmh) (htl : after.tl = store.tl.insert moved.inscriptionId none)
    (huncovered : transferEffect env context moved store pointer = none → after.b = store.b)
    (hcovered : ∀ sender receiver tick amount, transferEffect env context moved store pointer =
      some (.transferred sender receiver tick amount) →
        after.b = movedBalances sender receiver tick amount store.b) :
    TransferRan env context moved pointer true store after :=
  ⟨ha, hd, hatrli, hdmtmh, htl, fun hfalse => (nomatch hfalse), huncovered, hcovered⟩

/-- A transfer whose link is followed: the link is emptied, and the amount moves if it is covered. -/
theorem transferRan_indexTokenTransferExecuted (moved : Moved)
    (hlink : store.tl.lookup moved.inscriptionId = some (some pointer))
    (htick : pointer.tick.isEmpty = false) (link : LinkOf store moved.inscriptionId pointer) :
    TransferRan env context moved pointer (transferCounts env context moved pointer) store
      ((indexTokenTransferExecuted env context moved).after store) := by
  obtain ⟨atr, hrow, haddr, htx⟩ := link.row
  have hkeeps : Keeps (TransferRan env context moved pointer (transferCounts env context moved pointer)
      store) (indexTokenTransferExecuted env context moved) store := by
    unfold indexTokenTransferExecuted
    refine wp_exitIf (fun hsame => ?_) fun hother => wp_read (wp_orExit (fun hnone => ?_) ?_)
    · have hsame : moved.newSatpoint.outpoint.txid = moved.inscriptionId.txid := by simpa using hsame
      have hcounts : transferCounts env context moved pointer = false := by
        simp [transferCounts, hsame]
      rw [hcounts]
      exact .refl (by simp [transferEffect, hsame])
    · rw [hlink] at hnone
      cases hnone
    have hother : moved.newSatpoint.outpoint.txid ≠ moved.inscriptionId.txid := by simpa using hother
    intro found hfound
    obtain rfl := Option.some.inj (hlink.symm.trans hfound)
    refine wp_orExit (fun hnone => nomatch hnone) fun found hfound => ?_
    obtain rfl := Option.some.inj hfound
    refine wp_read (wp_orExit (fun hnone => ?_) fun found hfound => ?_)
    · exact nomatch hrow.symm.trans hnone
    obtain rfl : atr = found := Option.some.inj (hrow.symm.trans hfound)
    refine wp_exitIf (fun hguard => ?_) fun _ => wp_exitIf (fun hguard => ?_) fun _ => ?_
    · simp [haddr, htick] at hguard
    · rw [htx] at hguard
      simp [hother.symm] at hguard
    refine wp_read (wp_exitIf (fun hguard => ?_) fun _ => ?_)
    · simp [link.deployed] at hguard
    rw [haddr]
    by_cases hblocked : tapBlocksDmtRewardTransferExecution env context pointer.addr = true
    · rw [if_pos hblocked]
      have heffect : transferEffect env context moved store pointer = none := by
        simp [transferEffect, hother, hblocked]
      refine wp_write_last ?_
      by_cases hself : moved.ownerAddress = pointer.addr
      · have hcounts : transferCounts env context moved pointer = false := by
          simp [transferCounts, hblocked, hself]
        rw [if_pos hself, hcounts]
        exact .refl heffect
      · have hcounts : transferCounts env context moved pointer = true := by
          simp [transferCounts, hself, hother]
        rw [if_neg hself, hcounts]
        split
        · exact .cleared rfl rfl rfl rfl rfl (fun _ => rfl) (by simp [heffect])
        · exact .cleared rfl rfl rfl rfl rfl (fun _ => rfl) (by simp [heffect])
    · rw [if_neg hblocked]
      refine wp_read (wp_write (wp_write_last ?_))
      have hcounts : transferCounts env context moved pointer = true := by
        simp [transferCounts, hblocked, hother]
      rw [hcounts]
      cases hbalance : store.b.lookup (pointer.addr, pointer.tick) with
      | none =>
          have heffect : transferEffect env context moved store pointer = none := by
            simp [transferEffect, hbalance]
          exact .cleared rfl rfl rfl rfl rfl (fun _ => rfl) (by simp [heffect])
      | some balance =>
          cases htransferable : store.t.lookup (pointer.addr, pointer.tick) with
          | none =>
              have heffect : transferEffect env context moved store pointer = none := by
                simp [transferEffect, htransferable]
              exact .cleared rfl rfl rfl rfl rfl (fun _ => rfl) (by simp [heffect])
          | some transferable =>
              obtain ⟨ha, hd, hatrli, hdmtmh, htl⟩ := settleTransfer_frame pointer.addr
                moved.ownerAddress pointer.tick (if atr.amt < 2 ^ 127 then atr.amt else 0)
                ((readI128 balance).getD 0) ((readI128 transferable).getD 0) store
              have hsettled := settleTransfer_b pointer.addr moved.ownerAddress pointer.tick
                (if atr.amt < 2 ^ 127 then atr.amt else 0) ((readI128 transferable).getD 0) hbalance
              have heffect := transferEffect_eq moved hother hblocked hrow hbalance htransferable
              have hcleared := congrArg (fun table : KeyTable InscriptionId (Option TransferPointer) =>
                table.insert moved.inscriptionId none) htl
              refine .cleared ha hd hatrli hdmtmh hcleared (fun hnone => ?_) ?_
              · refine hsettled.trans (if_neg fun hcovered => ?_)
                rw [heffect, if_pos hcovered] at hnone
                cases hnone
              · intro sender receiver tick amount hsome
                rw [heffect] at hsome
                obtain ⟨hcovered, hmoved⟩ := Option.ite_none_right_eq_some.1 hsome
                cases hmoved
                exact hsettled.trans (if_pos hcovered)
  exact hkeeps.after

/-! ### The dispatcher -/

/-- The rows that route the moves of an inscription. -/
structure SameRoute (id : InscriptionId) (before after : OpStore) : Prop where
  kind : after.kind.lookup id = before.kind.lookup id
  bmh : after.bmh.lookup id = before.bmh.lookup id
  prvins : after.prvins.lookup id = before.prvins.lookup id
  dmtmh : after.tap.dmtmh.lookup (inscriptionText id) = before.tap.dmtmh.lookup (inscriptionText id)
  tl : after.tap.tl.lookup id = before.tap.tl.lookup id
  a : after.tap.a.lookup id = before.tap.a.lookup id

theorem SameRoute.refl (id : InscriptionId) (state : OpStore) : SameRoute id state state :=
  ⟨rfl, rfl, rfl, rfl, rfl, rfl⟩

theorem SameRoute.trans {before after last : OpStore} (first : SameRoute id before after)
    (second : SameRoute id after last) : SameRoute id before last :=
  ⟨second.kind.trans first.kind, second.bmh.trans first.bmh, second.prvins.trans first.prvins,
    second.dmtmh.trans first.dmtmh, second.tl.trans first.tl, second.a.trans first.a⟩

theorem SameRoute.liveOp_eq {before after : OpStore} (same : SameRoute id before after) :
    liveOp after id = liveOp before id := by
  simp only [liveOp, linkedOp, same.kind, same.bmh, same.prvins, same.dmtmh, same.tl, same.a]

/-- An inscription without rows has no live operation. -/
theorem liveOp_eq_none (hlink : (state.tap.tl.lookup id).join = none)
    (hacc : state.tap.a.lookup id = none) : liveOp state id = none := by
  unfold liveOp linkedOp
  rw [hlink, hacc]
  split
  · rfl
  · rfl
  · split <;> rfl

theorem linkedOp_eq_some {live : LiveOp} (hlinked : linkedOp store id = some live) :
    ∃ pointer, live = .transfer pointer ∧ store.tl.lookup id = some (some pointer) ∧
      pointer.tick.isEmpty = false := by
  unfold linkedOp at hlinked
  split at hlinked
  · cases hlinked
  next pointer hpointer =>
    split at hlinked
    · cases hlinked
    next htick =>
      cases hlinked
      exact ⟨pointer, rfl, Option.join_eq_some_iff.1 hpointer, by simpa using htick⟩

theorem linkedOp_of_liveOp (hlive : liveOp state id = some (.transfer pointer)) :
    linkedOp state.tap id = some (.transfer pointer) := by
  unfold liveOp at hlive
  split at hlive
  · exact hlive
  · cases hlive
  · split at hlive
    · cases hlive
    · split at hlive
      · exact hlive
      · obtain ⟨acc, -, hacc⟩ := Option.map_eq_some_iff.1 hlive
        cases hacc

theorem accumulator_of_liveOp {acc : TapAccumulatorEntry}
    (hlive : liveOp state id = some (.accumulated acc)) : state.tap.a.lookup id = some acc := by
  have hlinked : linkedOp state.tap id ≠ some (.accumulated acc) := fun hlinked => by
    obtain ⟨pointer, hpointer, -⟩ := linkedOp_eq_some hlinked
    cases hpointer
  unfold liveOp at hlive
  split at hlive
  · exact absurd hlive hlinked
  · cases hlive
  · split at hlive
    · cases hlive
    · split at hlive
      · exact absurd hlive hlinked
      · obtain ⟨found, hfound, hacc⟩ := Option.map_eq_some_iff.1 hlive
        cases hacc
        exact hfound

/-- A transfer that moves an amount counts as a move, and moves it to the new owner. -/
theorem transferEffect_eq_some {effect : MoveEffect}
    (heffect : transferEffect env context moved store pointer = some effect) :
    transferCounts env context moved pointer = true ∧
      ∃ amount, effect = .transferred pointer.addr moved.ownerAddress pointer.tick amount := by
  unfold transferEffect at heffect
  split at heffect
  · cases heffect
  next hother =>
    split at heffect
    · cases heffect
    next hblocked =>
      refine ⟨by simp [transferCounts, hother, hblocked], ?_⟩
      split at heffect
      · obtain ⟨-, hmoved⟩ := Option.ite_none_right_eq_some.1 heffect
        exact ⟨_, (Option.some.inj hmoved).symm⟩
      · cases heffect

/-- What a move that does something does. -/
theorem moveEffect_eq_some {effect : MoveEffect}
    (heffect : moveEffect env context moved state = some effect) :
    (∃ pointer amount, liveOp state moved.inscriptionId = some (.transfer pointer) ∧
      transferCounts env context moved pointer = true ∧
      effect = .transferred pointer.addr moved.ownerAddress pointer.tick amount) ∨
    ∃ acc op, liveOp state moved.inscriptionId = some (.accumulated acc) ∧
      acc.addr = moved.ownerAddress ∧ effect = .ran op := by
  unfold moveEffect at heffect
  split at heffect
  · split at heffect
    · cases heffect
    next pointer hlive =>
      obtain ⟨hcounts, amount, rfl⟩ := transferEffect_eq_some heffect
      exact .inl ⟨pointer, amount, hlive, hcounts, rfl⟩
    next acc hlive =>
      obtain ⟨howner, hran⟩ := Option.ite_none_right_eq_some.1 heffect
      obtain ⟨op, -, rfl⟩ := Option.map_eq_some_iff.1 hran
      exact .inr ⟨acc, op, hlive, howner, rfl⟩
  · cases heffect

/-- Without a live link the executed handler of a transfer leaves at once. -/
theorem after_indexTokenTransferExecuted_of_unlinked (moved : Moved)
    (hlinked : linkedOp store moved.inscriptionId = none) :
    (indexTokenTransferExecuted env context moved).after store = store := by
  have hkeeps : Keeps (· = store) (indexTokenTransferExecuted env context moved) store := by
    unfold indexTokenTransferExecuted
    refine keeps_require rfl fun _ => keeps_read (keeps_get rfl fun link hlink => ?_)
    refine keeps_get rfl fun pointer hpointer => keeps_read (keeps_get rfl fun atr _ => ?_)
    refine keeps_require rfl fun hguard => ?_
    subst hpointer
    simp only [linkedOp, hlink, Option.join_some] at hlinked
    split at hlinked
    next hempty => simp [hempty] at hguard
    next => cases hlinked
  exact hkeeps.after

theorem SameRoute.transferExecuted {other : InscriptionId}
    (hother : other ≠ moved.inscriptionId)
    (hdmtmh : ((indexTokenTransferExecuted env context moved).after state.tap).dmtmh = state.tap.dmtmh)
    (htl : ((indexTokenTransferExecuted env context moved).after state.tap).tl.lookup other =
      state.tap.tl.lookup other)
    (ha : ((indexTokenTransferExecuted env context moved).after state.tap).a = state.tap.a) :
    SameRoute other state (transferExecuted env context moved state) where
  kind := by
    unfold Tap.transferExecuted
    dsimp only
    split
    · rw [lookup_erase_ite, if_neg hother]
    · rfl
  bmh := rfl
  prvins := rfl
  dmtmh := congrArg _ hdmtmh
  tl := htl
  a := congrArg _ ha

/-- Marking an inscription with the kind of another route. -/
theorem liveOp_mark {kind : Kind} (hkind : kind ≠ .tl) :
    liveOp { state with kind := state.kind.insert id kind } id = none := by
  cases kind with
  | tl => exact absurd rfl hkind
  | bm => simp only [liveOp, lookup_insert_ite, if_pos]
  | dmtmh => simp only [liveOp, lookup_insert_ite, if_pos]
  | prvins => simp only [liveOp, lookup_insert_ite, if_pos]

theorem SameRoute.mark {other : InscriptionId} (state : OpStore) (kind : Kind) (hother : other ≠ id) :
    SameRoute other state { state with kind := state.kind.insert id kind } :=
  ⟨by simp only [lookup_insert_ite, if_neg hother], rfl, rfl, rfl, rfl, rfl⟩

/-- The routes of a move: it has no live operation and at most marks the inscription, it follows a
link, or it runs an accumulator. -/
inductive Routed (env : TapEnv) (context : TapContext) (effects : MovedEffects) (moved : Moved)
    (state : OpStore) : OpStore → Prop where
  | kept (hlive : liveOp state moved.inscriptionId = none) :
      Routed env context effects moved state state
  | marked (kind : Kind) (hlive : liveOp state moved.inscriptionId = none)
      (hkept : liveOp { state with kind := state.kind.insert moved.inscriptionId kind }
        moved.inscriptionId = none) :
      Routed env context effects moved state
        { state with kind := state.kind.insert moved.inscriptionId kind }
  | link (pointer : TransferPointer) (routed : OpStore)
      (hlive : liveOp state moved.inscriptionId = some (.transfer pointer))
      (htap : routed.tap = state.tap)
      (hsame : ∀ other, other ≠ moved.inscriptionId → SameRoute other state routed) :
      Routed env context effects moved state (transferExecuted env context moved routed)
  | accumulator (acc : TapAccumulatorEntry)
      (hlive : liveOp state moved.inscriptionId = some (.accumulated acc))
      (hlink : (state.tap.tl.lookup moved.inscriptionId).join = none)
      (hacc : state.tap.a.lookup moved.inscriptionId = some acc) :
      Routed env context effects moved state
        { state with tap := tapExecuteAccumulatorForInscription env context effects moved state.tap }

/-- The route through the link of a transfer. -/
theorem Routed.transfer {effects : MovedEffects} {state routed : OpStore}
    (hroute : liveOp state moved.inscriptionId = linkedOp state.tap moved.inscriptionId)
    (hrouted : routed = state ∨
      routed = { state with kind := state.kind.insert moved.inscriptionId .tl }) :
    Routed env context effects moved state (transferExecuted env context moved routed) := by
  have htap : routed.tap = state.tap := by
    rcases hrouted with rfl | rfl <;> rfl
  cases hlinked : linkedOp state.tap moved.inscriptionId with
  | some live =>
      obtain ⟨pointer, rfl, -, -⟩ := linkedOp_eq_some hlinked
      refine .link pointer routed (hroute.trans hlinked) htap fun other hother => ?_
      rcases hrouted with rfl | rfl
      · exact .refl other _
      · exact .mark state .tl hother
  | none =>
      have hafter : (indexTokenTransferExecuted env context moved).after routed.tap = routed.tap :=
        after_indexTokenTransferExecuted_of_unlinked moved (by rw [htap]; exact hlinked)
      have hstays : transferExecuted env context moved routed = routed := by
        simp [Tap.transferExecuted, hafter]
      rw [hstays]
      rcases hrouted with rfl | rfl
      · exact .kept (hroute.trans hlinked)
      · refine .marked .tl (hroute.trans hlinked) ?_
        simpa only [liveOp, lookup_insert_ite, if_pos] using hlinked

theorem routed_tapDispatchTransferSlow (env : TapEnv) (context : TapContext) (effects : MovedEffects)
    (moved : Moved) (state : OpStore) :
    Routed env context effects moved state
      (tapDispatchTransferSlow env context effects moved state) := by
  cases hkind : state.kind.lookup moved.inscriptionId with
  | some kind =>
      cases kind with
      | tl =>
          simp only [tapDispatchTransferSlow, hkind]
          exact .transfer (by simp only [liveOp, hkind]) (.inl rfl)
      | bm =>
          simp only [tapDispatchTransferSlow, hkind]
          exact .kept (by simp only [liveOp, hkind])
      | dmtmh =>
          simp only [tapDispatchTransferSlow, hkind]
          exact .kept (by simp only [liveOp, hkind])
      | prvins =>
          simp only [tapDispatchTransferSlow, hkind]
          exact .kept (by simp only [liveOp, hkind])
  | none =>
      simp only [tapDispatchTransferSlow, hkind]
      split
      next hbmh => exact .marked .bm (by simp [liveOp, hkind, hbmh]) (liveOp_mark (by decide))
      next hbmh =>
      split
      next hdmtmh => exact .marked .dmtmh (by simp [liveOp, hkind, hdmtmh]) (liveOp_mark (by decide))
      next hdmtmh =>
      split
      next hprvins => exact .marked .prvins (by simp [liveOp, hkind, hprvins]) (liveOp_mark (by decide))
      next hprvins =>
      split
      next pointer hpointer =>
        refine .transfer ?_ (.inr rfl)
        simp [liveOp, hkind, hbmh, hdmtmh, hprvins, hpointer]
      next hunlinked =>
        have hlink : (state.tap.tl.lookup moved.inscriptionId).join = none := by
          cases hlookup : state.tap.tl.lookup moved.inscriptionId with
          | none => rfl
          | some link =>
              cases link with
              | none => rfl
              | some pointer => exact absurd hlookup (hunlinked pointer)
        have hlive : liveOp state moved.inscriptionId =
            (state.tap.a.lookup moved.inscriptionId).map .accumulated := by
          simp [liveOp, hkind, hbmh, hdmtmh, hprvins, hlink]
        cases hacc : state.tap.a.lookup moved.inscriptionId with
        | some acc => exact .accumulator acc (by rw [hlive, hacc]; rfl) hlink hacc
        | none =>
            have hstays : tapExecuteAccumulatorForInscription env context effects moved state.tap =
                state.tap := by
              simp only [tapExecuteAccumulatorForInscription, hacc]
            rw [hstays]
            exact .kept (by rw [hlive, hacc]; rfl)

end Handlers

end OrdDogecoin.Tap
