/-
Module: OrdDogecoin.Drc20.Availability
Purpose: When the DRC-20 index keeps running.  The look-ups behind an execution message find the
  owner scripts of every message of a valid block; they find the inscription number when the index
  keeps the entry of the inscription, which lean replay does not do for most DRC-20 inscriptions.  In
  every run in which each inscribed DRC-20 operation is kept, no block ends with an error.
Trusted boundary: as in OrdDogecoin.Drc20.Messages; the node knows the transactions of the chain
Main exports: operationKept, Running, drc20_runs_of_kept
-/
import OrdDogecoin.Drc20.Messages
import OrdDogecoin.Drc20.Atomicity
import OrdDogecoin.Inscriptions.Operations
import OrdDogecoin.Inscriptions.LocationInvariant
import OrdDogecoin.Inscriptions.Values
import OrdDogecoin.Chain.Blocks

namespace OrdDogecoin.Drc20

open Chain KeyTable
open Inscriptions (InscriptionOp InscriptionEntry OperationSound PlaceOf)

/-! ### Owner scripts -/

section Scripts

variable {env : MessageEnv} {lookups : Lookups}

/-- The output behind an outpoint is found. -/
def Lookups.Finds (lookups : Lookups) (outpoint : OutPoint) : Prop :=
  ((lookups.transaction outpoint.txid).bind fun tx => tx.output[outpoint.vout]?).isSome

theorem getScriptKeyOnSatpoint_ok (env : MessageEnv) {satpoint : SatPoint}
    (hfinds : lookups.Finds satpoint.outpoint) :
    ∃ key, getScriptKeyOnSatpoint env lookups satpoint = .ok key := by
  obtain ⟨output, houtput⟩ := Option.isSome_iff_exists.1 hfinds
  exact ⟨env.scriptKey output.scriptPubkey, by rw [getScriptKeyOnSatpoint, houtput]⟩

theorem finds_of_transaction {outpoint : OutPoint} {tx : Transaction}
    (htx : lookups.transaction outpoint.txid = some tx) (hvout : outpoint.vout < tx.output.length) :
    lookups.Finds outpoint := by
  rw [Lookups.Finds, htx, Option.bind_some, List.getElem?_eq_getElem hvout]
  rfl

/-- Transactions of a block with one id are one. -/
theorem eq_of_txid_eq {txdata : List Transaction} (hdistinct : (txdata.map Transaction.txid).Nodup)
    {tx other : Transaction} (htx : tx ∈ txdata) (hother : other ∈ txdata)
    (hid : tx.txid = other.txid) : tx = other :=
  List.inj_on_of_nodup_map hdistinct htx hother hid

/-- Outputs of the block are found. -/
theorem finds_of_mem (hdistinct : (lookups.txdata.map Transaction.txid).Nodup) {tx : Transaction}
    (htx : tx ∈ lookups.txdata) {vout : ℕ} (hvout : vout < tx.output.length) :
    lookups.Finds (tx.outpoint vout) := by
  have htransaction : lookups.transaction (tx.outpoint vout).txid = some tx → lookups.Finds _ :=
    fun hfound => finds_of_transaction hfound hvout
  apply htransaction
  unfold Lookups.transaction
  cases hfind : lookups.txdata.find? fun other => other.txid = (tx.outpoint vout).txid with
  | none =>
      have hnot := List.find?_eq_none.1 hfind tx htx
      exact absurd (decide_eq_true rfl) hnot
  | some found =>
      have hid : found.txid = (tx.outpoint vout).txid := by simpa using List.find?_some hfind
      rw [eq_of_txid_eq hdistinct (List.mem_of_find?_eq_some hfind) htx hid, Option.some_or]

/-- Outputs of earlier blocks are found in the transaction index or at the node. -/
theorem finds_of_earlier {outpoint : OutPoint}
    (hother : ∀ tx ∈ lookups.txdata, tx.txid ≠ outpoint.txid)
    (hstored : ∀ tx, lookups.transactions.lookup outpoint.txid = some tx →
      outpoint.vout < tx.output.length)
    (hnode : ∃ tx, lookups.rawTransaction outpoint.txid = some tx ∧
      outpoint.vout < tx.output.length) : lookups.Finds outpoint := by
  have hfind : (lookups.txdata.find? fun tx => tx.txid = outpoint.txid) = none := by
    rw [List.find?_eq_none]
    intro tx htx
    simpa using hother tx htx
  cases hrow : lookups.transactions.lookup outpoint.txid with
  | some tx =>
      have htransaction : lookups.transaction outpoint.txid = some tx := by
        rw [Lookups.transaction, hfind, hrow]
        rfl
      exact finds_of_transaction htransaction (hstored tx hrow)
  | none =>
      obtain ⟨tx, hraw, hvout⟩ := hnode
      refine finds_of_transaction ?_ hvout
      rw [Lookups.transaction, hfind, hrow, hraw]
      rfl

end Scripts

/-! ### Messages of a transaction -/

section Messages

variable {env : MessageEnv} {inscribeTransfer : KeyTable InscriptionId TransferInfo} {tx : Transaction}

/-- What was read is an operation that moves away from an input. -/
theorem mem_readOperations {inputs : List TxIn} :
    ∀ {operations : List InscriptionOp} {read : InscriptionOp × Option Message},
      read ∈ (readOperations env inscribeTransfer tx inputs operations).1 →
      read.1 ∈ operations ∧ read.2 = Message.resolve env inscribeTransfer tx read.1 ∧
        ∃ input ∈ inputs, read.1.oldSatpoint.outpoint = input.previousOutput := by
  induction inputs with
  | nil => exact fun hmem => absurd hmem List.not_mem_nil
  | cons input inputs ih =>
      intro operations read hmem
      rcases List.mem_append.1 hmem with hmem | hmem
      · obtain ⟨op, hop, rfl⟩ := List.mem_map.1 hmem
        have hinput : op.oldSatpoint.outpoint = input.previousOutput := by
          simpa using List.mem_takeWhile_imp hop
        exact ⟨List.takeWhile_subset _ hop, rfl, input, List.mem_cons_self, hinput⟩
      · obtain ⟨hop, hresolve, found, hfound, hinput⟩ := ih hmem
        exact ⟨List.dropWhile_subset _ hop, hresolve, found, List.mem_cons_of_mem _ hfound, hinput⟩

/-- The messages of a transaction come from its operations. -/
theorem mem_resolveMessage {operations : List InscriptionOp} {msg : Message}
    (hmem : msg ∈ resolveMessage env inscribeTransfer tx operations) :
    ∃ op ∈ operations, Message.resolve env inscribeTransfer tx op = some msg ∧
      ∃ input ∈ tx.input, op.oldSatpoint.outpoint = input.previousOutput := by
  obtain ⟨read, hread, hmsg⟩ := List.mem_filterMap.1 hmem
  obtain ⟨hop, hresolve, hinput⟩ := mem_readOperations hread
  exact ⟨read.1, hop, hresolve.symm.trans hmsg, hinput⟩

/-- The operation that a message carries, besides the fields it copies. -/
theorem resolve_cases {op : InscriptionOp} {msg : Message}
    (hresolve : Message.resolve env inscribeTransfer tx op = some msg) :
    msg.txid = op.txid ∧ msg.inscriptionId = op.inscriptionId ∧ msg.oldSatpoint = op.oldSatpoint ∧
      msg.newSatpoint = op.newSatpoint ∧
      (msg.satInOutputs = true → op.newSatpoint.outpoint.txid = op.txid) ∧
      ((∃ inscription, op.action = .new inscription ∧ op.newSatpoint.outpoint.txid = op.txid ∧
          inscribedOperation env tx op.inscriptionId = some msg.op) ∨
        (op.action = .transfer ∧ (inscribeTransfer.lookup op.inscriptionId).isSome ∧
          op.inscriptionId.txid = op.oldSatpoint.outpoint.txid ∧
          ∃ transfer, msg.op = .transfer transfer)) := by
  obtain ⟨operation, hoperation, rfl⟩ := Option.map_eq_some_iff.1 hresolve
  refine ⟨rfl, rfl, rfl, rfl, of_decide_eq_true, ?_⟩
  unfold ledgerOperation at hoperation
  cases haction : op.action with
  | new inscription =>
      rw [haction] at hoperation
      dsimp only at hoperation
      split at hoperation
      next hinside => exact .inl ⟨inscription, rfl, hinside, hoperation⟩
      next => cases hoperation
  | transfer =>
      rw [haction] at hoperation
      dsimp only at hoperation
      split at hoperation
      · cases hoperation
      next info hinfo =>
        split at hoperation
        next hfirst =>
          cases hoperation
          exact .inr ⟨rfl, by rw [hinfo]; rfl, hfirst, _, rfl⟩
        next => cases hoperation

end Messages

/-! ### Executing the messages of a transaction -/

section Execute

variable {env : MessageEnv} {lookups : Lookups}

/-- The look-ups of a message succeed. -/
structure Message.Found (lookups : Lookups) (msg : Message) : Prop where
  number : (lookups.idToEntry.lookup msg.inscriptionId).isSome
  old : lookups.Finds msg.oldSatpoint.outpoint
  new : msg.satInOutputs = true → lookups.Finds msg.newSatpoint.outpoint

theorem Message.Found.createExecutionMessage (env : MessageEnv) {msg : Message}
    (found : msg.Found lookups) :
    ∃ execution, createExecutionMessage env lookups msg = .ok execution ∧
      execution.txid = msg.txid ∧ execution.inscriptionId = msg.inscriptionId ∧
      execution.op = msg.op := by
  obtain ⟨entry, hentry⟩ := Option.isSome_iff_exists.1 found.number
  obtain ⟨fromKey, hfrom⟩ := getScriptKeyOnSatpoint_ok env found.old
  unfold Drc20.createExecutionMessage getInscriptionNumberById
  rw [hentry, hfrom]
  cases hinside : msg.satInOutputs with
  | false => exact ⟨_, rfl, rfl, rfl, rfl⟩
  | true =>
      obtain ⟨toKey, hto⟩ := getScriptKeyOnSatpoint_ok env (found.new hinside)
      rw [hto]
      exact ⟨_, rfl, rfl, rfl, rfl⟩

/-- An accepted operation leaves a record only for its own inscription. -/
theorem Applies.recorded {context : BlockContext} {msg : ExecutionMessage} {before after : Ledger}
    {amount : Option ℕ} (happlies : Applies env.toEnv context msg before amount after)
    {id : InscriptionId} (hrecord : (after.inscribeTransfer.lookup id).isSome) :
    (before.inscribeTransfer.lookup id).isSome ∨ id = msg.inscriptionId := by
  cases happlies with
  | deploy => exact .inl hrecord
  | mint => exact .inl hrecord
  | inscribeTransfer =>
      have hrecord : ((before.inscribeTransfer.insert msg.inscriptionId _).lookup id).isSome := hrecord
      rw [lookup_insert_ite] at hrecord
      split at hrecord
      next hsame => exact .inr hsame
      next => exact .inl hrecord
  | transfer =>
      left
      have herased : ((before.inscribeTransfer.erase msg.inscriptionId).lookup id).isSome := by
        unfold Ledger.moveTo at hrecord
        dsimp only [Ledger.removeInscribeTransferInscription, Ledger.removeTransferable] at hrecord
        split at hrecord
        · exact hrecord
        · exact hrecord
      obtain ⟨info, hinfo⟩ := Option.isSome_iff_exists.1 herased
      rw [(lookup_erase_cases hinfo).2]
      rfl

theorem recorded_executeMessage {ledger : Ledger}
    (issued : Issued env.toEnv ledger.tokenInfo ledger.tokenBalance) (context : BlockContext)
    (msg : ExecutionMessage) {id : InscriptionId}
    (hrecord : ((executeMessage env.toEnv context msg ledger).inscribeTransfer.lookup id).isSome) :
    (ledger.inscribeTransfer.lookup id).isSome ∨ id = msg.inscriptionId := by
  obtain ⟨made, -, hdecides, -⟩ := decides_executeMessage issued context msg
  unfold Decides at hdecides
  split at hdecides
  · left
    have hsame := congrArg Ledger.inscribeTransfer hdecides
    dsimp only at hsame
    rwa [hsame] at hrecord
  · exact hdecides.recorded hrecord

/-- The ledger between two messages: every record belongs to an inscription with an entry. -/
structure LedgerEntered (env : MessageEnv) (idToEntry : KeyTable InscriptionId InscriptionEntry)
    (ledger : Ledger) : Prop where
  issued : Issued env.toEnv ledger.tokenInfo ledger.tokenBalance
  entered : ∀ id, (ledger.inscribeTransfer.lookup id).isSome → (idToEntry.lookup id).isSome

/-- Messages whose look-ups succeed are executed, by induction on them. -/
theorem runMessages_ok (context : BlockContext) {messages : List Message} :
    ∀ {ledger : Ledger}, LedgerEntered env lookups.idToEntry ledger →
      (∀ msg ∈ messages, msg.Found lookups) →
      ∃ after, runMessages env lookups context messages ledger = .ok after ∧
        LedgerEntered env lookups.idToEntry after := by
  induction messages with
  | nil => exact fun entered _ => ⟨_, rfl, entered⟩
  | cons msg messages ih =>
      intro ledger entered hfound
      have found := hfound msg List.mem_cons_self
      obtain ⟨execution, hcreate, -, hid, -⟩ := found.createExecutionMessage env
      have hnext : LedgerEntered env lookups.idToEntry
          (executeMessage env.toEnv context execution ledger) := by
        refine ⟨?_, fun id hrecord => ?_⟩
        · obtain ⟨-, -, -, hissued⟩ := decides_executeMessage entered.issued context execution
          exact hissued
        · rcases recorded_executeMessage entered.issued context execution hrecord with hold | rfl
          · exact entered.entered id hold
          · rw [hid]
            exact found.number
      obtain ⟨after, hrun, hafter⟩ := ih hnext fun other hmem =>
        hfound other (List.mem_cons_of_mem _ hmem)
      refine ⟨after, ?_, hafter⟩
      rw [runMessages, hcreate]
      exact hrun

end Execute

/-! ### Blocks -/

section Block

variable {env : MessageEnv} {chain chain' : ChainState} {lookups : Lookups}

theorem lookup_storeTransactions {txdata : List Transaction} :
    ∀ {transactions : KeyTable Txid Transaction} {txid : Txid} {tx : Transaction},
      (storeTransactions env txdata transactions).lookup txid = some tx →
      (tx ∈ txdata ∧ tx.txid = txid) ∨ transactions.lookup txid = some tx := by
  unfold storeTransactions
  split
  next =>
    induction txdata with
    | nil => exact fun hrow => .inr hrow
    | cons first txdata ih =>
        intro transactions txid tx hrow
        rcases ih hrow with ⟨hmem, hid⟩ | hrow
        · exact .inl ⟨List.mem_cons_of_mem _ hmem, hid⟩
        · rcases lookup_insert_cases hrow with ⟨rfl, rfl⟩ | ⟨-, hrow⟩
          · exact .inl ⟨List.mem_cons_self, rfl⟩
          · exact .inr hrow
  next => exact fun hrow => .inr hrow

/-- The transaction index agrees with the chain. -/
structure Stored (transactions : KeyTable Txid Transaction) (chain : ChainState) : Prop where
  inside : ∀ outpoint value tx, chain.utxo.lookup outpoint = some value →
    transactions.lookup outpoint.txid = some tx → outpoint.vout < tx.output.length
  seen : ∀ txid tx, transactions.lookup txid = some tx → txid ∈ chain.seen

theorem Stored.empty (chain : ChainState) : Stored ∅ chain where
  inside _ _ _ _ hrow := by cases hrow
  seen _ _ hrow := by cases hrow

/-- A row for an output that was unspent before the block is an old one. -/
theorem Stored.before {transactions : KeyTable Txid Transaction} {txdata : List Transaction}
    (stored : Stored transactions chain) (known : chain.Known)
    (applied : BlockApplied chain txdata chain') {outpoint : OutPoint} {value : ℕ}
    {tx : Transaction} (hvalue : chain.utxo.lookup outpoint = some value)
    (hrow : (storeTransactions env txdata transactions).lookup outpoint.txid = some tx) :
    outpoint.vout < tx.output.length := by
  rcases lookup_storeTransactions hrow with ⟨hmem, hid⟩ | hrow
  · exact absurd (hid ▸ known.2 outpoint value hvalue) (applied.fresh tx hmem).2
  · exact stored.inside outpoint value tx hvalue hrow

theorem Stored.block {transactions : KeyTable Txid Transaction} {txdata : List Transaction}
    (stored : Stored transactions chain) (known : chain.Known)
    (applied : BlockApplied chain txdata chain') :
    Stored (storeTransactions env txdata transactions) chain' where
  inside outpoint value tx hvalue hrow := by
    rcases applied.unspent outpoint value hvalue with hold | ⟨other, hother, number, output, rfl, houtput, -⟩
    · exact stored.before known applied hold hrow
    · have hvout := (List.getElem?_eq_some_iff.1 houtput).1
      rcases lookup_storeTransactions hrow with ⟨hmem, hid⟩ | hrow
      · rw [eq_of_txid_eq applied.distinct hmem hother hid]
        exact hvout
      · exact absurd (stored.seen _ tx hrow) (applied.fresh other hother).2
  seen txid tx hrow := by
    rw [applied.seen]
    rcases lookup_storeTransactions hrow with ⟨hmem, rfl⟩ | hrow
    · exact .inl (List.mem_map_of_mem hmem)
    · exact .inr (stored.seen txid tx hrow)

/-- What the look-ups of a valid block have to go on. -/
structure Served (lookups : Lookups) (chain chain' : ChainState) : Prop where
  applied : BlockApplied chain lookups.txdata chain'
  known : chain.Known
  stored : ∀ outpoint value tx, chain.utxo.lookup outpoint = some value →
    lookups.transactions.lookup outpoint.txid = some tx → outpoint.vout < tx.output.length
  node : ∀ outpoint value, chain.utxo.lookup outpoint = some value →
    ∃ tx, lookups.rawTransaction outpoint.txid = some tx ∧ outpoint.vout < tx.output.length

/-- Outputs that the transactions of the block spend are found. -/
theorem Served.finds (served : Served lookups chain chain') {outpoint : OutPoint} {value : ℕ}
    (available : Available chain lookups.txdata outpoint value) :
    lookups.Finds outpoint := by
  rcases available with hold | ⟨tx, htx, number, output, rfl, houtput, -⟩
  · apply finds_of_earlier
    · rintro tx htx hid
      exact (served.applied.fresh tx htx).2 (hid ▸ served.known.2 outpoint value hold)
    · exact fun tx hrow => served.stored outpoint value tx hold hrow
    · exact served.node outpoint value hold
  · exact finds_of_mem served.applied.distinct htx (List.getElem?_eq_some_iff.1 houtput).1

/-- A new inscription that stands for a DRC-20 operation is one that the index keeps. -/
def operationKept {K P : Type} (base : Inscriptions.IndexEnv K P) (env : MessageEnv) (tx : Transaction)
    (op : InscriptionOp) : Bool :=
  match op.action with
  | .transfer => true
  | .new inscription =>
      op.newSatpoint.outpoint.txid ≠ op.txid ||
        (inscribedOperation env tx op.inscriptionId).isNone || base.keeps inscription

/-- The messages of a transaction of the block: all their look-ups succeed. -/
theorem Served.found {K P : Type} {base : Inscriptions.IndexEnv K P} {ledger : Ledger}
    {tx : Transaction} {operations : List InscriptionOp} (served : Served lookups chain chain')
    (entered : LedgerEntered env lookups.idToEntry ledger) (htx : tx ∈ lookups.txdata)
    (hcoinbase : tx.isCoinbase = false)
    (hsound : ∀ op ∈ operations, OperationSound base lookups.txdata lookups.idToEntry tx.txid op)
    (hkept : ∀ op ∈ operations, operationKept base env tx op = true) {msg : Message}
    (hmsg : msg ∈ resolveMessage env ledger.inscribeTransfer tx operations) : msg.Found lookups := by
  obtain ⟨op, hop, hresolve, input, hinput, hold⟩ := mem_resolveMessage hmsg
  obtain ⟨-, hid, holdSatpoint, hnewSatpoint, hinside, hcases⟩ := resolve_cases hresolve
  have sound := hsound op hop
  constructor
  · rw [hid]
    rcases hcases with ⟨inscription, haction, htxid, hoperation⟩ | ⟨-, hrecord, -⟩
    · apply sound.entered inscription haction
      have hkeeps := hkept op hop
      rw [operationKept, haction] at hkeeps
      simpa [htxid, hoperation] using hkeeps
    · exact entered.entered _ hrecord
  · obtain ⟨value, available⟩ := served.applied.spent tx htx hcoinbase input hinput
    rw [holdSatpoint, hold]
    exact served.finds available
  · intro hout
    rw [hnewSatpoint]
    have htxid := hinside hout
    obtain ⟨other, hother, hnull | ⟨vout, hvout, houtpoint⟩⟩ := sound.placed
    · -- the null outpoint belongs to no transaction
      rw [hnull, sound.keyed] at htxid
      exact absurd htxid.symm (served.applied.fresh tx htx).1
    · rw [houtpoint]
      exact finds_of_mem served.applied.distinct hother hvout

/-- The state after a transaction whose messages were executed. -/
def Drc20State.afterReading (env : MessageEnv) (state : Drc20State) (tx : Transaction)
    (txOperations : List InscriptionOp) (ledger : Ledger) : Drc20State :=
  let read := readOperations env state.ledger.inscribeTransfer tx tx.input txOperations
  { state with
    ledger := ledger
    trail := state.trail ++ read.1
    unread := state.unread ++ read.2 }

theorem indexTransaction_of_runMessages {context : BlockContext}
    {operations : KeyTable Txid (List InscriptionOp)} {state : Drc20State} {tx : Transaction}
    {ledger : Ledger} (hcoinbase : tx.isCoinbase = false)
    (hrun : runMessages env lookups context (resolveMessage env state.ledger.inscribeTransfer tx
      ((operations.lookup tx.txid).getD [])) state.ledger = .ok ledger) :
    indexTransaction env context lookups operations state tx =
      .ok (state.afterReading env tx ((operations.lookup tx.txid).getD []) ledger) := by
  unfold indexTransaction
  rw [hcoinbase]
  dsimp only
  rw [hrun]
  rfl

/-- A block whose operations are sound and kept is indexed without an error. -/
theorem foldlM_indexTransaction_ok {K P : Type} {base : Inscriptions.IndexEnv K P}
    {operations : KeyTable Txid (List InscriptionOp)}
    (served : Served lookups chain chain') (context : BlockContext)
    (hsound : ∀ txid ops, operations.lookup txid = some ops → ∀ op ∈ ops,
      OperationSound base lookups.txdata lookups.idToEntry txid op)
    (hkept : ∀ tx ∈ lookups.txdata, tx.isCoinbase = false →
      ∀ op ∈ (operations.lookup tx.txid).getD [], operationKept base env tx op = true)
    (txs : List Transaction) :
    ∀ (state : Drc20State), (∀ tx ∈ txs, tx ∈ lookups.txdata) →
      LedgerEntered env lookups.idToEntry state.ledger →
      ∃ after, txs.foldlM (indexTransaction env context lookups operations) state = .ok after ∧
        LedgerEntered env lookups.idToEntry after.ledger ∧
        after.transactions = state.transactions := by
  induction txs with
  | nil => exact fun _ _ entered => ⟨_, rfl, entered, rfl⟩
  | cons tx txs ih =>
      intro state htxs entered
      have htx := htxs tx List.mem_cons_self
      obtain ⟨next, hnext, hentered, hstored⟩ :
          ∃ next, indexTransaction env context lookups operations state tx = .ok next ∧
            LedgerEntered env lookups.idToEntry next.ledger ∧
            next.transactions = state.transactions := by
        cases hcoinbase : tx.isCoinbase with
        | true => exact ⟨state, by rw [indexTransaction, hcoinbase]; rfl, entered, rfl⟩
        | false =>
            have hops : ∀ op ∈ (operations.lookup tx.txid).getD [],
                OperationSound base lookups.txdata lookups.idToEntry tx.txid op := by
              cases hrow : operations.lookup tx.txid with
              | none => exact fun op hop => absurd hop List.not_mem_nil
              | some ops => exact hsound tx.txid ops hrow
            obtain ⟨ledger, hrun, hledger⟩ := runMessages_ok context entered fun msg hmsg =>
              served.found entered htx hcoinbase hops (hkept tx htx hcoinbase) hmsg
            exact ⟨_, indexTransaction_of_runMessages hcoinbase hrun, hledger, rfl⟩
      obtain ⟨after, hfold, hafter, hstored'⟩ := ih next
        (fun other hmem => htxs other (List.mem_cons_of_mem _ hmem)) hentered
      refine ⟨after, ?_, hafter, hstored'.trans hstored⟩
      rw [List.foldlM_cons, hnext]
      exact hfold

end Block

/-! ### Runs -/

section Run

open Inscriptions (Index IndexEnv IndexAction locationStep)

variable {K : Type} {base : IndexEnv K Unit} {env : MessageEnv}

/-- The operations that the inscription updater hands over for a block. -/
def handedOver {P : Type} (indexEnv : IndexEnv K P) (index : Index K P) (block : BlockData) :
    Option (KeyTable Txid (List InscriptionOp)) :=
  (block.processingOrder.foldlM (Inscriptions.indexTransaction indexEnv (index.context block))
    (index.tables.lostSats, index.updater indexEnv block)).map fun state => state.2.operations

/-- Every new inscription of a block that stands for a DRC-20 operation is kept by the index; the node
knows the block. -/
def operationsKept (base : IndexEnv K Unit) (env : MessageEnv)
    (state : Index K (Except Halt Drc20State) × ChainState) : IndexAction → Bool
  | .commit => true
  | .block block =>
      base.serves block &&
        (handedOver (withDrc20 base env) state.1 block).all fun operations =>
          block.txdata.all fun tx => tx.isCoinbase ||
            ((operations.lookup tx.txid).getD []).all (operationKept base env tx)

/-- The DRC-20 index is running, over a chain that the node knows. -/
structure Running (base : IndexEnv K Unit) (env : MessageEnv)
    (state : Index K (Except Halt Drc20State) × ChainState) : Prop where
  ok : ∃ drc20, state.1.tables.protocols = .ok drc20 ∧
    LedgerEntered env state.1.tables.idToEntry drc20.ledger ∧ Stored drc20.transactions state.2
  known : state.2.Known
  node : ∀ outpoint value, state.2.utxo.lookup outpoint = some value →
    base.nodeValue outpoint = some value

theorem Running.empty {start : ChainState} (known : start.Known)
    (hnode : ∀ outpoint value, start.utxo.lookup outpoint = some value →
      base.nodeValue outpoint = some value) (height : ℕ) (tapKv : K) :
    Running base env (Index.empty height tapKv (.ok Drc20State.empty), start) where
  ok := ⟨Drc20State.empty, rfl, ⟨Issued.empty _, fun _ hrecord => by cases hrecord⟩, Stored.empty _⟩
  known := known
  node := hnode

/-- A block whose DRC-20 inscriptions are kept is indexed without an error. -/
theorem Running.block {index index' : Index K (Except Halt Drc20State)} {chain chain' : ChainState}
    {block : BlockData} (running : Running base env (index, chain))
    (hkept : operationsKept base env (index, chain) (.block block) = true)
    (hvalid : chain.applyBlock (base.subsidy index.tables.height) block = some chain')
    (hindex : Inscriptions.indexBlock (withDrc20 base env) index block = some index') :
    Running base env (index', chain') := by
  have applied := blockApplied_of_applyBlock hvalid
  obtain ⟨drc20, hok, entered, stored⟩ := running.ok
  obtain ⟨hserves, hkept⟩ := Bool.and_eq_true_iff.1 hkept
  obtain ⟨⟨lostSats, updater⟩, hfold, hindex⟩ := Option.bind_eq_some_iff.1 hindex
  cases hindex
  have hmem : ∀ tx ∈ block.processingOrder, tx ∈ block.txdata :=
    fun tx htx => Inscriptions.mem_processingOrder.1 htx
  -- the pass over the inscriptions records sound operations and keeps the entries
  have hsound := (Inscriptions.OperationsSound.kept (withDrc20 base env) (index.context block)
    block.txdata).foldlM hmem hfold fun txid operations hrow => by cases hrow
  have hentries : ∀ id, (index.tables.idToEntry.lookup id).isSome →
      (updater.idToEntry.lookup id).isSome := fun id hentry =>
    (Inscriptions.KeptByPass.entry (withDrc20 base env) (index.context block) block.txdata
      id).foldlM hmem hfold hentry
  have hprotocols : updater.protocols = .ok drc20 :=
    (Inscriptions.KeptByPass.protocols (withDrc20 base env) (index.context block) block.txdata
      (.ok drc20)).foldlM hmem hfold hok
  have hkept : ∀ tx ∈ block.txdata, tx.isCoinbase = false →
      ∀ op ∈ (updater.operations.lookup tx.txid).getD [],
        operationKept (withDrc20 base env) env tx op = true := by
    intro tx htx hcoinbase op hop
    have hhanded : handedOver (withDrc20 base env) index block = some updater.operations := by
      rw [handedOver, hfold]
      rfl
    rw [hhanded, Option.all_some] at hkept
    have hall := List.all_eq_true.1 hkept tx htx
    rw [hcoinbase, Bool.false_or] at hall
    exact List.all_eq_true.1 hall op hop
  have served : Served
      { txdata := block.txdata
        idToEntry := updater.idToEntry
        transactions := storeTransactions env block.txdata drc20.transactions
        rawTransaction := fun txid => (base.node txid).map Prod.snd } chain chain' := by
    refine ⟨applied, running.known, fun outpoint value tx hvalue hrow =>
      stored.before running.known applied hvalue hrow, fun outpoint value hvalue => ?_⟩
    obtain ⟨⟨height, tx⟩, hnode, houtput⟩ :=
      Option.bind_eq_some_iff.1 (running.node outpoint value hvalue)
    obtain ⟨output, houtput, -⟩ := Option.bind_eq_some_iff.1 houtput
    exact ⟨tx, by simp [hnode], (List.getElem?_eq_some_iff.1 houtput).1⟩
  have entered' : LedgerEntered env updater.idToEntry drc20.ledger :=
    ⟨entered.issued, fun id hrecord => hentries id (entered.entered id hrecord)⟩
  obtain ⟨after, hafter, hledger, htransactions⟩ := foldlM_indexTransaction_ok served
    { blockheight := index.tables.height
      blockhash := block.header.blockHash
      blocktime := block.header.time
      reorgEpoch := env.reorgEpoch } hsound hkept block.txdata
    { drc20 with transactions := storeTransactions env block.txdata drc20.transactions }
    (fun tx htx => htx) entered'
  constructor
  · refine ⟨after, ?_, hledger, ?_⟩
    · show drc20Protocols env _ index.tables.height block updater.operations updater.idToEntry
        updater.protocols = .ok after
      rw [hprotocols]
      exact hafter
    · rw [htransactions]
      exact stored.block running.known applied
  · exact applied.known running.known
  · intro outpoint value hvalue
    rcases applied.unspent outpoint value hvalue with hold | ⟨tx, htx, number, output, rfl, houtput, rfl⟩
    · exact running.node outpoint value hold
    · exact Inscriptions.nodeValue_of_serves hserves htx houtput

theorem Running.step {state state' : Index K (Except Halt Drc20State) × ChainState}
    {action : IndexAction} (running : Running base env state)
    (hkept : operationsKept base env state action = true)
    (hstep : locationStep (withDrc20 base env) state action = some state') :
    Running base env state' := by
  obtain ⟨index, chain⟩ := state
  obtain ⟨chain', hchain, hstep⟩ := Option.bind_eq_some_iff.1 hstep
  obtain ⟨index', hindex, hstep⟩ := Option.bind_eq_some_iff.1 hstep
  cases hstep
  cases action with
  | block block => exact running.block hkept hchain hindex
  | commit =>
      cases hchain
      cases hindex
      exact ⟨running.ok, running.known, running.node⟩

/-- In every run in which each new inscription that stands for a DRC-20 operation is kept by the index,
no block ends the DRC-20 index with an error. -/
theorem drc20_runs_of_kept {start : ChainState} (known : start.Known)
    (hnode : ∀ outpoint value, start.utxo.lookup outpoint = some value →
      base.nodeValue outpoint = some value)
    {height : ℕ} {tapKv : K} {state : Index K (Except Halt Drc20State) × ChainState}
    (reaches : Run.Reaches (locationStep (withDrc20 base env))
      (fun state action => operationsKept base env state action = true)
      (Index.empty height tapKv (.ok Drc20State.empty), start) state) :
    ∃ drc20, state.1.tables.protocols = .ok drc20 := by
  have running := reaches.invariant (Running base env)
    (fun running hkept hstep => running.step hkept hstep) (Running.empty known hnode height tapKv)
  obtain ⟨drc20, hok, -⟩ := running.ok
  exact ⟨drc20, hok⟩

end Run

/-! ### Lean replay -/

def deployBody (tick : String) : Inscriptions.Bytes :=
  ("\x7b\"p\":\"drc-20\",\"op\":\"deploy\",\"tick\":\"" ++ tick ++ "\",\"max\":\"1000\"\x7d").toList.map
    fun c => c.toNat.toUInt8

/-- A transaction that inscribes it as text. -/
def deployReveal (txid : Txid) (outpoint : OutPoint) (tick : String) : Transaction :=
  let contentType := "text/plain".toList.map fun c => c.toNat.toUInt8
  Inscriptions.spendOf txid outpoint
    ([3, 111, 114, 100, 81, 10] ++ contentType ++ [0, (deployBody tick).length.toUInt8] ++
      deployBody tick) [100]

/-- A coinbase, and a block that deploys a token. -/
def deployBlocks (tick : String) : List BlockData :=
  [{ header := { blockHash := 1, prevBlockhash := 0 }
     txdata := [Inscriptions.spendOf 1 OutPoint.null [] [100]] },
   { header := { blockHash := 3, prevBlockhash := 1 }
     txdata := [Inscriptions.spendOf 3 OutPoint.null [] [100], deployReveal 2 ⟨1, 0⟩ tick] }]

/-- A lean index beside a node that has these blocks. -/
def leanBase (tick : String) : Inscriptions.IndexEnv Unit Unit :=
  { Inscriptions.plainEnv with
    tapLean := true
    node := fun txid => (((deployBlocks tick).flatMap BlockData.txdata).find? fun tx =>
      tx.txid = txid).map fun tx => (0, tx) }

/-- The libraries, on this body. -/
def deployEnv (tick : String) : MessageEnv where
  parseUnsigned text := if text = "1000".toList then some (Num.ofNat 1000)
    else if text = "18".toList then some (Num.ofNat 18) else none
  lowerHex tick := tick.chars
  indexTransactions := false
  reorgEpoch := 0
  parseJson body :=
    if body = deployBody tick then
      some (.object [("p".toList, .string "drc-20".toList), ("op".toList, .string "deploy".toList),
        ("tick".toList, .string tick.toList), ("max".toList, .string "1000".toList)])
    else none
  lowercase text := text
  scriptKey _ := .scriptHash []

/-- What the DRC-20 index shows: its tokens, or what halted it. -/
def drc20View (state : Inscriptions.Index Unit (Except Halt Drc20State) × ChainState) :
    Except Halt ℕ :=
  state.1.tables.protocols.map fun drc20 => drc20.ledger.tokenInfo.keys.length

/-- What the DRC-20 updater stopped the index with. -/
def drc20Halt (state : Inscriptions.Index Unit (Except Halt Drc20State) × ChainState) : Option Halt :=
  match state.1.tables.protocols with
  | .ok _ => none
  | .error halt => some halt

/-- The node serves the block of an action. -/
def servesAction (base : Inscriptions.IndexEnv Unit Unit) : Inscriptions.IndexAction → Bool
  | .block block => base.serves block
  | .commit => true

/-- A token whose inscriptions mention "tap" is kept, and deployed. -/
theorem keptDeploy_runs :
    ∃ state, Run.Reaches (Inscriptions.locationStep (withDrc20 (leanBase "taps") (deployEnv "taps")))
        (fun state action => operationsKept (leanBase "taps") (deployEnv "taps") state action = true)
        (Inscriptions.Index.empty 0 () (.ok Drc20State.empty), { utxo := ∅, seen := [] }) state ∧
      drc20View state = .ok 1 ∧ ∃ drc20, state.1.tables.protocols = .ok drc20 := by
  have hexec : (Run.exec (Inscriptions.locationStep (withDrc20 (leanBase "taps") (deployEnv "taps")))
      (operationsKept (leanBase "taps") (deployEnv "taps"))
      ((deployBlocks "taps").map .block)
      (Inscriptions.Index.empty 0 () (.ok Drc20State.empty), { utxo := ∅, seen := [] })).map
        (fun state => (drc20View state).toOption) = some (some 1) := by decide +kernel
  obtain ⟨state, reaches, hview⟩ := Run.exists_reaches_of_exec (fun hcheck => hcheck) hexec
  have hknown : ChainState.Known { utxo := ∅, seen := [] } :=
    ⟨List.not_mem_nil, fun outpoint value hvalue => by cases hvalue⟩
  obtain ⟨drc20, hok⟩ := drc20_runs_of_kept hknown (fun outpoint value hvalue => by cases hvalue) reaches
  refine ⟨state, reaches, ?_, drc20, hok⟩
  unfold drc20View at hview ⊢
  rw [hok] at hview ⊢
  exact congrArg Except.ok (Option.some.inj hview)

/-- Any other token stops the index with its deployment. -/
theorem leanDeploy_halts :
    ∃ state, Run.Reaches (Inscriptions.locationStep (withDrc20 (leanBase "woof") (deployEnv "woof")))
        (fun _ action => ∀ block, action = .block block → (leanBase "woof").serves block = true)
        (Inscriptions.Index.empty 0 () (.ok Drc20State.empty), { utxo := ∅, seen := [] }) state ∧
      state.1.tables.protocols = .error (.numberNotFound ⟨2, 0⟩) := by
  have hexec : (Run.exec (Inscriptions.locationStep (withDrc20 (leanBase "woof") (deployEnv "woof")))
      (fun _ action => servesAction (leanBase "woof") action) ((deployBlocks "woof").map .block)
      (Inscriptions.Index.empty 0 () (.ok Drc20State.empty), { utxo := ∅, seen := [] })).map
        drc20Halt = some (some (.numberNotFound ⟨2, 0⟩)) := by decide +kernel
  have hrun : ∃ state, Run.Reaches
      (Inscriptions.locationStep (withDrc20 (leanBase "woof") (deployEnv "woof")))
      (fun _ action => ∀ block, action = .block block → (leanBase "woof").serves block = true)
      (Inscriptions.Index.empty 0 () (.ok Drc20State.empty), { utxo := ∅, seen := [] }) state ∧
      drc20Halt state = some (.numberNotFound ⟨2, 0⟩) := by
    apply Run.exists_reaches_of_exec _ hexec
    rintro state action hcheck block rfl
    exact hcheck
  obtain ⟨state, reaches, hview⟩ := hrun
  refine ⟨state, reaches, ?_⟩
  unfold drc20Halt at hview
  split at hview
  · cases hview
  next halt hhalt =>
    cases hview
    exact hhalt

end OrdDogecoin.Drc20
