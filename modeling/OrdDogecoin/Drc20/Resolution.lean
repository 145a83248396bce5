/-
Module: OrdDogecoin.Drc20.Resolution
Purpose: DRC-20 messages against the history of moves.  When the carried inscriptions of every
  transaction keep their order, which only the wrap-around of lean replay can break, every operation of
  a transaction is read, in order; each inscription gives at most one inscribing message and at most one
  transfer message, for its first move, and no decision is written over another.
Trusted boundary: as in OrdDogecoin.Drc20.Messages; the node knows the transactions of the chain
Main exports: readOperations_of_walk, operationsInOrder, messages_complete_of_inOrder
-/
import OrdDogecoin.Drc20.Availability
import OrdDogecoin.Inscriptions.MoveHistory

namespace OrdDogecoin.Drc20

open Chain KeyTable
open Inscriptions (InscriptionOp Move MoveLog History Traced BlockLogged Recorded)

/-! ### Reading the operations of a transaction -/

section Read

variable {env : MessageEnv} {inscribeTransfer : KeyTable InscriptionId TransferInfo} {tx : Transaction}

/-- Operations in the order of the inputs are read, each of them once. -/
theorem readOperations_of_walk {inputs : List TxIn} :
    ∀ {operations : List InscriptionOp},
      Walk (inputs.map TxIn.previousOutput)
        (operations.map fun op => op.oldSatpoint.outpoint) →
      readOperations env inscribeTransfer tx inputs operations =
        (operations.map fun op => (op, Message.resolve env inscribeTransfer tx op), []) := by
  induction inputs with
  | nil =>
      intro operations walk
      obtain rfl := List.map_eq_nil_iff.1 walk.eq_nil
      rfl
  | cons input inputs ih =>
      intro operations walk
      rw [List.map_cons] at walk
      have hrest := walk.dropWhile
      simp only [List.dropWhile_map, Function.comp_def] at hrest
      rw [readOperations]
      dsimp only
      rw [ih hrest, ← List.map_append, List.takeWhile_append_dropWhile]

end Read

/-! ### Messages as moves -/

/-- A message of an inscription that was just made. -/
def Message.inscribes (msg : Message) : Bool :=
  match msg.op with
  | .transfer _ => false
  | _ => true

/-- The key of the decision that a message leads to. -/
def Message.key (msg : Message) : Txid × InscriptionId := (msg.txid, msg.inscriptionId)

def Message.move (msg : Message) : Move where
  txid := msg.txid
  inscriptionId := msg.inscriptionId
  isNew := msg.inscribes
  oldSatpoint := msg.oldSatpoint

variable {env : MessageEnv}

/-- A new inscription is never read as the second half of a transfer. -/
theorem inscribes_of_inscribedOperation {tx : Transaction} {id : InscriptionId}
    {operation : Operation} (hoperation : inscribedOperation env tx id = some operation)
    (transfer : Transfer) : operation ≠ .transfer transfer := by
  rintro rfl
  unfold inscribedOperation deserializeDrc20Operation at hoperation
  obtain ⟨body, -, hoperation⟩ := Option.bind_eq_some_iff.1 hoperation
  split at hoperation
  · cases hoperation
  · obtain ⟨raw, -, hoperation⟩ := Option.bind_eq_some_iff.1 hoperation
    cases raw <;> cases hoperation

/-- A message is about the move of its operation; a transfer leaves the transaction of the
inscription. -/
theorem move_of_resolve {inscribeTransfer : KeyTable InscriptionId TransferInfo} {tx : Transaction}
    {op : InscriptionOp} {msg : Message}
    (hresolve : Message.resolve env inscribeTransfer tx op = some msg) :
    msg.move = op.move ∧ (msg.inscribes = false → op.move.LeavesHome) := by
  obtain ⟨htxid, hid, hold, -, -, hcases⟩ := resolve_cases hresolve
  have hinscribes : msg.inscribes = op.move.isNew ∧ (msg.inscribes = false → op.move.LeavesHome) := by
    rcases hcases with ⟨inscription, haction, -, hoperation⟩ | ⟨haction, -, hhome, transfer, hoperation⟩
    · have hnot := inscribes_of_inscribedOperation hoperation
      have hinscribes : msg.inscribes = true := by
        unfold Message.inscribes
        cases hop : msg.op with
        | transfer transfer => exact absurd hop (hnot transfer)
        | _ => rfl
      rw [hinscribes]
      exact ⟨by rw [InscriptionOp.move, haction], fun h => (by cases h)⟩
    · have hinscribes : msg.inscribes = false := by rw [Message.inscribes, hoperation]
      have hmove : op.move.isNew = false := by rw [InscriptionOp.move, haction]
      rw [hinscribes, hmove]
      exact ⟨rfl, fun _ => ⟨hmove, hhome.symm⟩⟩
  refine ⟨?_, hinscribes.2⟩
  rw [Message.move, hinscribes.1, htxid, hid, hold]
  rfl

/-- The messages of all blocks so far. -/
def Drc20State.messages (state : Drc20State) : List Message := state.trail.filterMap Prod.snd

/-- What was read agrees with what the messages say. -/
def Agrees (read : InscriptionOp × Option Message) : Prop :=
  ∀ msg, read.2 = some msg →
    msg.move = read.1.move ∧ (msg.inscribes = false → read.1.move.LeavesHome)

theorem moves_sublist {trail : List (InscriptionOp × Option Message)}
    (hagrees : ∀ read ∈ trail, Agrees read) :
    ((trail.filterMap Prod.snd).map Message.move).Sublist (trail.map fun read => read.1.move) := by
  induction trail with
  | nil => exact List.Sublist.refl _
  | cons read trail ih =>
      have hrest := ih fun other hmem => hagrees other (List.mem_cons_of_mem _ hmem)
      obtain ⟨op, message⟩ := read
      cases message with
      | none => exact hrest.cons _
      | some msg =>
          have hmove := (hagrees (op, some msg) List.mem_cons_self msg rfl).1
          change (msg.move :: _).Sublist (op.move :: _)
          rw [hmove]
          exact hrest.cons_cons _

/-! ### What a run promises -/

/-- What the messages of all blocks so far promise. -/
structure MessagesComplete (state : Drc20State) : Prop where
  /-- No operation was passed over, ... -/
  read : state.unread = []
  /-- ... an inscription gives one inscribing message at most, ... -/
  inscribed : ((state.messages.filter Message.inscribes).map Message.inscriptionId).Nodup
  /-- ... and one transfer message at most, ... -/
  transferred :
    ((state.messages.filter fun msg => !msg.inscribes).map Message.inscriptionId).Nodup
  /-- ... which no transfer that is not its first gives; ... -/
  first : state.trail.Pairwise fun earlier later =>
    earlier.1.inscriptionId = later.1.inscriptionId → earlier.1.action = .transfer →
      later.1.action = .transfer → later.2 = none
  /-- ... no two messages have the key of one decision, ... -/
  keys : (state.messages.map Message.key).Nodup
  /-- ... and the decision of each is there. -/
  decided : state.ledger.operationDecisions.keys.Perm (state.messages.map Message.key)

/-- The messages so far, within a history. -/
structure MessagesTraced (env : MessageEnv) (moves : List Move) (state : Drc20State) : Prop where
  trail : (state.trail.map fun read => read.1.move).Sublist moves
  unread : state.unread = []
  agrees : ∀ read ∈ state.trail, Agrees read
  decided : state.ledger.operationDecisions.keys.Perm (state.messages.map Message.key)
  issued : Issued env.toEnv state.ledger.tokenInfo state.ledger.tokenBalance

theorem MessagesTraced.empty (env : MessageEnv) (moves : List Move) :
    MessagesTraced env moves Drc20State.empty where
  trail := List.nil_sublist _
  unread := rfl
  agrees _ hmem := absurd hmem List.not_mem_nil
  decided := List.Perm.refl _
  issued := Issued.empty _

theorem MessagesTraced.complete {moves : List Move} {state : Drc20State}
    (traced : MessagesTraced env moves state) (history : History moves) : MessagesComplete state := by
  have htrail := history.sublist traced.trail
  have hmessages := htrail.sublist (moves_sublist traced.agrees)
  have hhome : ∀ msg ∈ state.messages, msg.inscribes = false → msg.move.LeavesHome := by
    intro msg hmem hinscribes
    obtain ⟨read, hread, hmsg⟩ := List.mem_filterMap.1 hmem
    obtain ⟨hmove, hleaves⟩ := traced.agrees read hread msg hmsg
    rw [hmove]
    exact hleaves hinscribes
  constructor
  · exact traced.unread
  · have hinscribed := hmessages.inscribed
    rw [List.filter_map, List.map_map] at hinscribed
    exact hinscribed
  · have hfirst := List.pairwise_map.1 hmessages.first
    rw [List.Nodup, List.pairwise_map]
    refine (hfirst.sublist List.filter_sublist).imp_of_mem fun {a b} ha hb hnot heq => ?_
    obtain ⟨-, ha⟩ := List.mem_filter.1 ha
    obtain ⟨hb, hb'⟩ := List.mem_filter.1 hb
    exact hnot heq (by simpa [Message.move] using ha) (hhome b hb (by simpa using hb'))
  · have hfirst := List.pairwise_map.1 htrail.first
    refine hfirst.imp_of_mem fun {earlier later} _ hlater hnot heq haction haction' => ?_
    have hold : earlier.1.move.isNew = false := by rw [InscriptionOp.move, haction]
    have hold' : later.1.move.isNew = false := by rw [InscriptionOp.move, haction']
    cases hmsg : later.2 with
    | none => rfl
    | some msg =>
        obtain ⟨hmove, hleaves⟩ := traced.agrees later hlater msg hmsg
        have hinscribes : msg.inscribes = false := (congrArg Move.isNew hmove).trans hold'
        exact absurd (hleaves hinscribes) (hnot heq hold)
  · have hkeys := hmessages.keys
    rw [List.map_map] at hkeys
    exact hkeys
  · exact traced.decided

/-! ### Executing -/

/-- An execution message keeps transaction and inscription. -/
theorem key_of_createExecutionMessage {lookups : Lookups} {msg : Message}
    {execution : ExecutionMessage}
    (hcreate : createExecutionMessage env lookups msg = .ok execution) :
    (execution.txid, execution.inscriptionId) = msg.key := by
  unfold createExecutionMessage at hcreate
  cases hnumber : getInscriptionNumberById lookups msg.inscriptionId with
  | error halt =>
      rw [hnumber] at hcreate
      cases hcreate
  | ok number =>
      cases hfrom : getScriptKeyOnSatpoint env lookups msg.oldSatpoint with
      | error halt =>
          rw [hnumber, hfrom] at hcreate
          cases hcreate
      | ok fromKey =>
          rw [hnumber, hfrom] at hcreate
          cases hinside : msg.satInOutputs with
          | false =>
              rw [hinside] at hcreate
              cases hcreate
              rfl
          | true =>
              rw [hinside] at hcreate
              cases hto : getScriptKeyOnSatpoint env lookups msg.newSatpoint with
              | error halt =>
                  rw [hto] at hcreate
                  cases hcreate
              | ok toKey =>
                  rw [hto] at hcreate
                  cases hcreate
                  rfl

/-- Messages with new keys add their decisions, by induction on them. -/
theorem decisions_runMessages {lookups : Lookups} {context : BlockContext} {messages : List Message} :
    ∀ {ledger after : Ledger} {keys : List (Txid × InscriptionId)},
      runMessages env lookups context messages ledger = .ok after →
      Issued env.toEnv ledger.tokenInfo ledger.tokenBalance →
      ledger.operationDecisions.keys.Perm keys → (keys ++ messages.map Message.key).Nodup →
      after.operationDecisions.keys.Perm (keys ++ messages.map Message.key) ∧
        Issued env.toEnv after.tokenInfo after.tokenBalance := by
  induction messages with
  | nil =>
      intro ledger after keys hrun issued hperm _
      cases hrun
      rw [List.map_nil, List.append_nil]
      exact ⟨hperm, issued⟩
  | cons msg messages ih =>
      intro ledger after keys hrun issued hperm hnodup
      cases hcreate : createExecutionMessage env lookups msg with
      | error halt =>
          rw [runMessages, hcreate] at hrun
          cases hrun
      | ok execution =>
          rw [runMessages, hcreate] at hrun
          obtain ⟨made, hdecisions, -, hissued⟩ := decides_executeMessage issued context execution
          rw [key_of_createExecutionMessage hcreate] at hdecisions
          rw [List.map_cons, List.append_cons] at hnodup ⊢
          have hfresh : msg.key ∉ keys := by
            have hfirst := (List.nodup_append.1 hnodup).1
            intro hmem
            exact (List.nodup_append.1 hfirst).2.2 msg.key hmem msg.key List.mem_cons_self rfl
          refine ih hrun hissued ?_ hnodup
          rw [hdecisions, keys_insert_of_not_mem fun hmem => hfresh (hperm.mem_iff.1 hmem)]
          exact (hperm.cons msg.key).trans (List.perm_append_singleton msg.key keys).symm

/-! ### Blocks -/

section Block

variable {env : MessageEnv} {moves : List Move} {context : BlockContext} {lookups : Lookups}
  {operations : KeyTable Txid (List InscriptionOp)}

/-- The operations of a transaction are its moves, in the order of its inputs. -/
def HandedOver (operations : KeyTable Txid (List InscriptionOp)) (entry : Transaction × List Move) :
    Prop :=
  ((operations.lookup entry.1.txid).getD []).map InscriptionOp.move = entry.2 ∧
    Walk (entry.1.input.map TxIn.previousOutput)
      (((operations.lookup entry.1.txid).getD []).map fun op => op.oldSatpoint.outpoint)

theorem handedOver_of_recorded {log : MoveLog} (recorded : Recorded log [] operations) :
    ∀ entry ∈ log, HandedOver operations entry := by
  intro entry hmem
  have hmoves := recorded.moves entry hmem
  have hwalk := recorded.walks entry hmem
  rw [← hmoves, List.map_append, List.map_map] at hwalk
  simp only [Inscriptions.queuedFor, List.filter_nil, List.map_nil, List.append_nil] at hmoves hwalk
  exact ⟨hmoves, hwalk⟩

theorem MessagesTraced.transaction {entry : Transaction × List Move} {rest : List Move}
    {state state' : Drc20State} (history : History moves)
    (traced : MessagesTraced env moves state) (hcoinbase : entry.1.isCoinbase = false)
    (hhanded : HandedOver operations entry)
    (hsublist : ((state.trail.map fun read => read.1.move) ++ (entry.2 ++ rest)).Sublist moves)
    (hindex : indexTransaction env context lookups operations state entry.1 = .ok state') :
    MessagesTraced env moves state' ∧
      (state'.trail.map fun read => read.1.move) =
        (state.trail.map fun read => read.1.move) ++ entry.2 := by
  obtain ⟨tx, own⟩ := entry
  obtain ⟨hown, walk⟩ := hhanded
  dsimp only at hown walk hindex hcoinbase hsublist ⊢
  subst hown
  have hread : readOperations env state.ledger.inscribeTransfer tx tx.input
      ((operations.lookup tx.txid).getD []) = _ := readOperations_of_walk walk
  unfold indexTransaction at hindex
  rw [hcoinbase] at hindex
  simp only [Bool.false_eq_true, if_false, resolveMessage, hread] at hindex
  cases hrun : runMessages env lookups context
      ((((operations.lookup tx.txid).getD []).map fun op =>
        (op, Message.resolve env state.ledger.inscribeTransfer tx op)).filterMap Prod.snd)
      state.ledger with
  | error halt =>
      rw [hrun] at hindex
      cases hindex
  | ok ledger =>
      rw [hrun] at hindex
      cases hindex
      have hmoves : ((state.trail ++ ((operations.lookup tx.txid).getD []).map fun op =>
          (op, Message.resolve env state.ledger.inscribeTransfer tx op)).map fun read =>
            read.1.move) = (state.trail.map fun read => read.1.move) ++
              ((operations.lookup tx.txid).getD []).map InscriptionOp.move := by
        rw [List.map_append, List.map_map]
        rfl
      have htrail : ((state.trail ++ ((operations.lookup tx.txid).getD []).map fun op =>
          (op, Message.resolve env state.ledger.inscribeTransfer tx op)).map fun read =>
            read.1.move).Sublist moves := by
        rw [hmoves]
        refine List.Sublist.trans ?_ hsublist
        exact (List.sublist_append_left _ _).append_left _
      have hagrees : ∀ read ∈ state.trail ++ ((operations.lookup tx.txid).getD []).map fun op =>
          (op, Message.resolve env state.ledger.inscribeTransfer tx op), Agrees read := by
        intro read hmem
        rcases List.mem_append.1 hmem with hmem | hmem
        · exact traced.agrees read hmem
        · obtain ⟨op, -, rfl⟩ := List.mem_map.1 hmem
          exact fun msg hmsg => move_of_resolve hmsg
      have hkeys := ((history.sublist htrail).sublist (moves_sublist hagrees)).keys
      rw [List.map_map, List.filterMap_append, List.map_append] at hkeys
      obtain ⟨hdecided, hissued⟩ := decisions_runMessages hrun traced.issued traced.decided hkeys
      refine ⟨⟨htrail, ?_, hagrees, ?_, hissued⟩, hmoves⟩
      · dsimp only
        rw [traced.unread]
        rfl
      · rw [Drc20State.messages, List.filterMap_append, List.map_append]
        exact hdecided

/-- The transactions behind the coinbase, by induction on them. -/
theorem MessagesTraced.foldlM {log : MoveLog} (history : History moves) :
    ∀ {state state' : Drc20State}, MessagesTraced env moves state →
      (∀ entry ∈ log, entry.1.isCoinbase = false) → (∀ entry ∈ log, HandedOver operations entry) →
      ((state.trail.map fun read => read.1.move) ++ log.flatMap Prod.snd).Sublist moves →
      (log.map Prod.fst).foldlM (indexTransaction env context lookups operations) state = .ok state' →
      MessagesTraced env moves state' := by
  induction log with
  | nil =>
      intro state state' traced _ _ _ hfold
      cases hfold
      exact traced
  | cons entry log ih =>
      intro state state' traced hcoinbase hhanded hsublist hfold
      rw [List.map_cons, List.foldlM_cons] at hfold
      rw [List.flatMap_cons] at hsublist
      cases hindex : indexTransaction env context lookups operations state entry.1 with
      | error halt =>
          rw [hindex] at hfold
          cases hfold
      | ok middle =>
          rw [hindex] at hfold
          obtain ⟨htraced, hmoves⟩ := traced.transaction history (hcoinbase entry List.mem_cons_self)
            (hhanded entry List.mem_cons_self) hsublist hindex
          refine ih htraced (fun other hmem => hcoinbase other (List.mem_cons_of_mem _ hmem))
            (fun other hmem => hhanded other (List.mem_cons_of_mem _ hmem)) ?_ hfold
          rwa [hmoves, List.append_assoc]

/-- The history may go on, and transactions may be stored. -/
theorem MessagesTraced.store {state : Drc20State} (traced : MessagesTraced env moves state)
    (more : List Move) (transactions : KeyTable Txid Transaction) :
    MessagesTraced env (moves ++ more) { state with transactions := transactions } where
  trail := traced.trail.trans (List.sublist_append_left moves more)
  unread := traced.unread
  agrees := traced.agrees
  decided := traced.decided
  issued := traced.issued

/-- A block whose operations are the moves of its transactions. -/
theorem MessagesTraced.block {log : MoveLog} {state state' : Drc20State} {block : BlockData}
    {coinbase : Transaction} {txs : List Transaction} {rawTransaction : Txid → Option Transaction}
    {height : ℕ} {idToEntry : KeyTable InscriptionId Inscriptions.InscriptionEntry}
    (traced : MessagesTraced env moves state) (history : History (moves ++ log.flatMap Prod.snd))
    (hhanded : ∀ entry ∈ log, HandedOver operations entry)
    (hlog : log.map Prod.fst = txs ++ [coinbase]) (htxdata : block.txdata = coinbase :: txs)
    (hcoinbase : coinbase.isCoinbase = true) (hothers : ∀ tx ∈ txs, tx.isCoinbase = false)
    (hindex : indexBlock env rawTransaction height block operations idToEntry state = .ok state') :
    MessagesTraced env (moves ++ log.flatMap Prod.snd) state' := by
  obtain ⟨front, back, rfl, hfront, -⟩ := List.map_eq_append_iff.1 hlog
  unfold indexBlock at hindex
  dsimp only at hindex
  rw [htxdata, List.foldlM_cons, ← hfront] at hindex
  -- the coinbase is skipped
  rw [indexTransaction, if_pos hcoinbase] at hindex
  refine MessagesTraced.foldlM history (traced.store _ _) (fun entry hmem => ?_)
    (fun entry hmem => hhanded entry (List.mem_append_left _ hmem)) ?_ hindex
  · exact hothers entry.1 (hfront ▸ List.mem_map_of_mem hmem)
  · rw [List.flatMap_append, ← List.append_assoc]
    exact (traced.trail.append (List.Sublist.refl _)).trans (List.sublist_append_left _ _)

end Block

/-! ### Runs -/

section Run

open Inscriptions (Index IndexEnv IndexAction locationStep BlockInOrder)

variable {K : Type} {base : IndexEnv K Unit} {env : MessageEnv}

/-- The fees of every transaction of a block carry its inscriptions in order; the node knows the
block. -/
def operationsInOrder (base : IndexEnv K Unit) (env : MessageEnv)
    (state : Index K (Except Halt Drc20State) × ChainState) : IndexAction → Prop
  | .commit => True
  | .block block => base.serves block = true ∧ BlockInOrder (withDrc20 base env) state block

instance (state : Index K (Except Halt Drc20State) × ChainState) (action : IndexAction) :
    Decidable (operationsInOrder base env state action) :=
  match action with
  | .commit => isTrue trivial
  | .block _ => inferInstanceAs (Decidable (_ ∧ _))

def FollowsHistory (base : IndexEnv K Unit) (env : MessageEnv)
    (state : Index K (Except Halt Drc20State) × ChainState) : Prop :=
  ∃ moves, Traced (withDrc20 base env) state moves ∧
    ∀ drc20, state.1.tables.protocols = .ok drc20 → MessagesTraced env moves drc20

theorem handedOver_cases {index : Index K (Except Halt Drc20State)} {chain chain' : ChainState}
    {block : BlockData} {moves : List Move} {lostSats : ℕ}
    {updater : Inscriptions.Updater K (Except Halt Drc20State)}
    (traced : Traced (withDrc20 base env) (index, chain) moves)
    (horder : operationsInOrder base env (index, chain) (.block block))
    (hvalid : chain.applyBlock (base.subsidy index.tables.height) block = some chain')
    (hfold : block.processingOrder.foldlM
      (Inscriptions.indexTransaction (withDrc20 base env) (index.context block))
      (index.tables.lostSats, index.updater (withDrc20 base env) block) = some (lostSats, updater)) :
    ∃ log coinbase txs, log.map Prod.fst = txs ++ [coinbase] ∧ block.txdata = coinbase :: txs ∧
      coinbase.isCoinbase = true ∧ (∀ tx ∈ txs, tx.isCoinbase = false) ∧
      BlockLogged (withDrc20 base env) updater chain' moves log ∧
      ∀ entry ∈ log, HandedOver updater.operations entry := by
  obtain ⟨coinbase, txs, -, htxdata, hcoinbase, hothers, -⟩ := applyBlock_cases hvalid
  obtain ⟨log, hlog, settled⟩ := traced.pass horder.1 horder.2 hvalid hfold
  refine ⟨log, coinbase, txs, ?_, htxdata, hcoinbase, hothers, settled,
    handedOver_of_recorded settled.recorded⟩
  rw [hlog, BlockData.processingOrder, htxdata]
  rfl

theorem FollowsHistory.block {index index' : Index K (Except Halt Drc20State)}
    {chain chain' : ChainState} {block : BlockData} (follows : FollowsHistory base env (index, chain))
    (horder : operationsInOrder base env (index, chain) (.block block))
    (hvalid : chain.applyBlock (base.subsidy index.tables.height) block = some chain')
    (hindex : Inscriptions.indexBlock (withDrc20 base env) index block = some index') :
    FollowsHistory base env (index', chain') := by
  obtain ⟨moves, traced, hmessages⟩ := follows
  obtain ⟨⟨lostSats, updater⟩, hfold, hindex⟩ := Option.bind_eq_some_iff.1 hindex
  cases hindex
  obtain ⟨log, coinbase, txs, hlog, htxdata, hcoinbase, hothers, settled, hhanded⟩ :=
    handedOver_cases traced horder hvalid hfold
  refine ⟨moves ++ log.flatMap Prod.snd, settled.finish _, fun drc20 hok => ?_⟩
  have hprotocols : updater.protocols = index.tables.protocols :=
    (Inscriptions.KeptByPass.protocols (withDrc20 base env) (index.context block) block.txdata
      index.tables.protocols).foldlM (fun tx htx => Inscriptions.mem_processingOrder.1 htx) hfold rfl
  change drc20Protocols env _ index.tables.height block updater.operations updater.idToEntry
    updater.protocols = .ok drc20 at hok
  rw [hprotocols] at hok
  cases hbefore : index.tables.protocols with
  | error halt =>
      rw [hbefore] at hok
      cases hok
  | ok before =>
      rw [hbefore] at hok
      exact (hmessages before hbefore).block settled.tracked.history hhanded hlog htxdata hcoinbase
        hothers hok

theorem FollowsHistory.step {state state' : Index K (Except Halt Drc20State) × ChainState}
    {action : IndexAction} (follows : FollowsHistory base env state)
    (horder : operationsInOrder base env state action)
    (hstep : locationStep (withDrc20 base env) state action = some state') :
    FollowsHistory base env state' := by
  obtain ⟨index, chain⟩ := state
  obtain ⟨chain', hchain, hstep⟩ := Option.bind_eq_some_iff.1 hstep
  obtain ⟨index', hindex, hstep⟩ := Option.bind_eq_some_iff.1 hstep
  cases hstep
  cases action with
  | block block => exact follows.block horder hchain hindex
  | commit =>
      cases hchain
      cases hindex
      obtain ⟨moves, traced, hmessages⟩ := follows
      exact ⟨moves, traced.commit, hmessages⟩

/-- In every run in which the fees of each transaction carry its inscriptions in order, the operations
of every transaction of the next valid block are read, each once and in order, whatever the table of
inscribed transfers; and the messages so far are complete: one inscribing and one transfer message per
inscription at most, the latter for its first move, and no decision written twice. -/
theorem messages_complete_of_inOrder {start : ChainState} (known : start.Known)
    (hnode : ∀ outpoint value, start.utxo.lookup outpoint = some value →
      base.nodeValue outpoint = some value)
    {height : ℕ} {tapKv : K} {state : Index K (Except Halt Drc20State) × ChainState}
    (reaches : Run.Reaches (locationStep (withDrc20 base env)) (operationsInOrder base env)
      (Index.empty height tapKv (.ok Drc20State.empty), start) state) :
    (∀ block chain operations, operationsInOrder base env state (.block block) →
      state.2.applyBlock (base.subsidy state.1.tables.height) block = some chain →
      handedOver (withDrc20 base env) state.1 block = some operations →
      ∀ tx ∈ block.txdata, tx.isCoinbase = false → ∀ inscribeTransfer,
        readOperations env inscribeTransfer tx tx.input ((operations.lookup tx.txid).getD []) =
          (((operations.lookup tx.txid).getD []).map fun op =>
            (op, Message.resolve env inscribeTransfer tx op), [])) ∧
      ∀ drc20, state.1.tables.protocols = .ok drc20 → MessagesComplete drc20 := by
  have hnode : ∀ outpoint value, start.utxo.lookup outpoint = some value →
      (withDrc20 base env).nodeValue outpoint = some value := hnode
  have hempty : ∀ drc20, (Except.ok Drc20State.empty : Except Halt Drc20State) = .ok drc20 →
      MessagesTraced env [] drc20 := by
    intro drc20 hok
    cases hok
    exact MessagesTraced.empty env []
  obtain ⟨moves, traced, hmessages⟩ := reaches.invariant (FollowsHistory base env)
    (fun follows horder hstep => follows.step horder hstep)
    ⟨[], Traced.empty known hnode height tapKv _, hempty⟩
  constructor
  · intro block chain operations horder hvalid hhanded tx htx hcoinbase inscribeTransfer
    obtain ⟨⟨lostSats, updater⟩, hfold, rfl⟩ := Option.map_eq_some_iff.1 hhanded
    obtain ⟨log, coinbase, txs, hlog, htxdata, hfirst, -, -, hhanded⟩ :=
      handedOver_cases traced horder hvalid hfold
    have hmem : tx ∈ log.map Prod.fst := by
      rw [htxdata] at htx
      rw [hlog, List.mem_append, List.mem_singleton]
      exact (List.mem_cons.1 htx).symm
    obtain ⟨entry, hentry, rfl⟩ := List.mem_map.1 hmem
    exact readOperations_of_walk (hhanded entry hentry).2
  · exact fun drc20 hok => (hmessages drc20 hok).complete traced.tracked.history

end Run

/-! ### The wrap-around of lean replay -/

/-- A coinbase with three outputs; a reveal and a deployment that spend two of them; and a block in
which the third is spent in front of a transaction that pays both inscriptions away as fees. -/
def carryBlocks : List BlockData :=
  [{ header := { blockHash := 1, prevBlockhash := 0 }
     txdata := [Inscriptions.spendOf 1 OutPoint.null [] [200, 1000, 1000]] },
   { header := { blockHash := 4, prevBlockhash := 1 }
     txdata :=
       [Inscriptions.spendOf 4 OutPoint.null [] [100],
        Inscriptions.spendOf 2 ⟨1, 1⟩ Inscriptions.plainScript [1000],
        deployReveal 3 ⟨1, 2⟩ "taps"] },
   { header := { blockHash := 7, prevBlockhash := 4 }
     txdata :=
       [Inscriptions.spendOf 7 OutPoint.null [] [100],
        Inscriptions.spendOf 5 ⟨1, 0⟩ [] [200],
        { txid := 6
          input := [{ previousOutput := ⟨2, 0⟩ }, { previousOutput := ⟨3, 0⟩ }]
          output := [{ value := 0 }] }] }]

/-- An index in one of the two modes, beside a node that has these blocks. -/
def carryBase (lean : Bool) : Inscriptions.IndexEnv Unit Unit :=
  { Inscriptions.plainEnv with
    tapLean := lean
    subsidy := fun height => if height = 0 then 2200 else 100
    node := fun txid => ((carryBlocks.flatMap BlockData.txdata).find? fun tx =>
      tx.txid = txid).map fun tx => (0, tx) }

/-- The first block, a commit, and the other two. -/
def carryActions : List Inscriptions.IndexAction :=
  match carryBlocks.map Inscriptions.IndexAction.block with
  | [] => []
  | first :: rest => first :: .commit :: rest

/-- The inscriptions of the moves that were read, of the messages, and of the moves that were not. -/
def readView (state : Inscriptions.Index Unit (Except Halt Drc20State) × ChainState) :
    Option (List InscriptionId × List InscriptionId × List InscriptionId) :=
  match state.1.tables.protocols with
  | .error _ => none
  | .ok drc20 =>
      some (drc20.trail.map fun read => read.1.inscriptionId,
        drc20.messages.map Message.inscriptionId, drc20.unread.map InscriptionOp.inscriptionId)

/-- The full index reads the moves of the last block in order. -/
theorem fullCarry_complete :
    ∃ state drc20, Run.Reaches
        (Inscriptions.locationStep (withDrc20 (carryBase false) (deployEnv "taps")))
        (operationsInOrder (carryBase false) (deployEnv "taps"))
        (Inscriptions.Index.empty 0 () (.ok Drc20State.empty), { utxo := ∅, seen := [] }) state ∧
      readView state = some ([⟨2, 0⟩, ⟨3, 0⟩, ⟨2, 0⟩, ⟨3, 0⟩], [⟨3, 0⟩], []) ∧
      state.1.tables.protocols = .ok drc20 ∧ MessagesComplete drc20 := by
  have hexec : (Run.exec (Inscriptions.locationStep (withDrc20 (carryBase false) (deployEnv "taps")))
      (fun state action => decide (operationsInOrder (carryBase false) (deployEnv "taps") state action))
      carryActions
      (Inscriptions.Index.empty 0 () (.ok Drc20State.empty), { utxo := ∅, seen := [] })).map
        readView = some (some ([⟨2, 0⟩, ⟨3, 0⟩, ⟨2, 0⟩, ⟨3, 0⟩], [⟨3, 0⟩], [])) := by decide +kernel
  obtain ⟨state, reaches, hview⟩ := Run.exists_reaches_of_exec of_decide_eq_true hexec
  have hknown : ChainState.Known { utxo := ∅, seen := [] } :=
    ⟨List.not_mem_nil, fun outpoint value hvalue => by cases hvalue⟩
  have hcomplete := (messages_complete_of_inOrder hknown
    (fun outpoint value hvalue => by cases hvalue) reaches).2
  cases hok : state.1.tables.protocols with
  | error halt =>
      rw [readView, hok] at hview
      cases hview
  | ok drc20 => exact ⟨state, drc20, reaches, hview, hok, hcomplete drc20 hok⟩

/-- Lean replay counts the first spender of the last block at minus 200: the reward wraps around between
the two carried inscriptions, they are recorded in the wrong order, and the first is passed over. -/
theorem leanCarry_incomplete :
    ∃ state drc20, Run.Reaches
        (Inscriptions.locationStep (withDrc20 (carryBase true) (deployEnv "taps")))
        (fun _ action => ∀ block, action = .block block → (carryBase true).serves block = true)
        (Inscriptions.Index.empty 0 () (.ok Drc20State.empty), { utxo := ∅, seen := [] }) state ∧
      readView state = some ([⟨2, 0⟩, ⟨3, 0⟩, ⟨3, 0⟩], [⟨3, 0⟩], [⟨2, 0⟩]) ∧
      state.1.tables.protocols = .ok drc20 ∧ ¬ MessagesComplete drc20 := by
  have hexec : (Run.exec (Inscriptions.locationStep (withDrc20 (carryBase true) (deployEnv "taps")))
      (fun _ action => servesAction (carryBase true) action) carryActions
      (Inscriptions.Index.empty 0 () (.ok Drc20State.empty), { utxo := ∅, seen := [] })).map
        readView = some (some ([⟨2, 0⟩, ⟨3, 0⟩, ⟨3, 0⟩], [⟨3, 0⟩], [⟨2, 0⟩])) := by decide +kernel
  have hrun : ∃ state, Run.Reaches
      (Inscriptions.locationStep (withDrc20 (carryBase true) (deployEnv "taps")))
      (fun _ action => ∀ block, action = .block block → (carryBase true).serves block = true)
      (Inscriptions.Index.empty 0 () (.ok Drc20State.empty), { utxo := ∅, seen := [] }) state ∧
      readView state = some ([⟨2, 0⟩, ⟨3, 0⟩, ⟨3, 0⟩], [⟨3, 0⟩], [⟨2, 0⟩]) := by
    apply Run.exists_reaches_of_exec _ hexec
    rintro state action hcheck block rfl
    exact hcheck
  obtain ⟨state, reaches, hview⟩ := hrun
  cases hok : state.1.tables.protocols with
  | error halt =>
      rw [readView, hok] at hview
      cases hview
  | ok drc20 =>
      refine ⟨state, drc20, reaches, hview, hok, fun complete => ?_⟩
      simp only [readView, hok, complete.read, Option.some.injEq, Prod.mk.injEq] at hview
      cases hview.2.2

end OrdDogecoin.Drc20
