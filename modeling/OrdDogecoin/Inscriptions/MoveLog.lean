/-
Module: OrdDogecoin.Inscriptions.MoveLog
Purpose: The operations of a block against the moves of its transactions.  While a block is indexed, the
  operations recorded for a transaction, followed by its inscriptions that are still on their way, are
  the moves the transaction made, in the order of its inputs; the coinbase keeps that order when the
  offsets behind the fees do.
Trusted boundary: the node knows the transactions of the blocks it gave
Main exports: carriesInOrder, Logged.transaction, Logged.coinbase
-/
import OrdDogecoin.Inscriptions.Tracking
import OrdDogecoin.Inscriptions.LocationInvariant

namespace OrdDogecoin.Inscriptions

open Chain KeyTable
open List (mem_cons_self mem_cons_of_mem mem_append mem_map not_mem_nil mem_cons append_nil mem_filter map_map)

variable {K P : Type} {env : IndexEnv K P} {context : BlockContext K P} {tx : Transaction}

/-! ### Records -/

/-- The moves of a transaction, for the transactions so far. -/
abbrev MoveLog := List (Transaction × List Move)

/-- The queued inscriptions that a transaction moves. -/
def queuedFor (txid : Txid) (queue : List Flotsam) : List Flotsam :=
  queue.filter fun flotsam => flotsam.txid = txid

theorem queuedFor_append (txid : Txid) (first second : List Flotsam) :
    queuedFor txid (first ++ second) = queuedFor txid first ++ queuedFor txid second :=
  List.filter_append ..

theorem queuedFor_self {txid : Txid} {queue : List Flotsam}
    (hqueue : ∀ flotsam ∈ queue, flotsam.txid = txid) : queuedFor txid queue = queue := by
  unfold queuedFor
  rw [List.filter_eq_self]
  exact fun flotsam hmem => decide_eq_true (hqueue flotsam hmem)

theorem queuedFor_other {txid : Txid} {queue : List Flotsam}
    (hqueue : ∀ flotsam ∈ queue, flotsam.txid ≠ txid) : queuedFor txid queue = [] := by
  unfold queuedFor
  rw [List.filter_eq_nil_iff]
  exact fun flotsam hmem => by simpa using hqueue flotsam hmem

/-- What is recorded of the moves of a block. -/
structure Recorded (log : MoveLog) (queue : List Flotsam)
    (operations : KeyTable Txid (List InscriptionOp)) : Prop where
  moves : ∀ entry ∈ log,
    ((operations.lookup entry.1.txid).getD []).map InscriptionOp.move ++
      (queuedFor entry.1.txid queue).map Flotsam.move = entry.2
  walks : ∀ entry ∈ log, Walk (entry.1.input.map TxIn.previousOutput)
    (entry.2.map fun move => move.oldSatpoint.outpoint)
  others : ∀ txid, (∀ entry ∈ log, entry.1.txid ≠ txid) →
    operations.lookup txid = none ∧ ∀ flotsam ∈ queue, flotsam.txid ≠ txid

namespace Recorded

variable {log : MoveLog} {queue : List Flotsam} {operations : KeyTable Txid (List InscriptionOp)}

theorem empty : Recorded [] [] ∅ where
  moves _ hmem := absurd hmem not_mem_nil
  walks _ hmem := absurd hmem not_mem_nil
  others _ _ := ⟨rfl, fun _ hmem => absurd hmem not_mem_nil⟩

/-- The moves of one more transaction, all of them in front of the queue. -/
theorem enter (recorded : Recorded log queue operations) {own : List Flotsam}
    (hfresh : ∀ entry ∈ log, entry.1.txid ≠ tx.txid) (hown : ∀ flotsam ∈ own, flotsam.txid = tx.txid)
    (walk : Walk (tx.input.map TxIn.previousOutput)
      (own.map fun flotsam => flotsam.oldSatpoint.outpoint)) :
    Recorded (log ++ [(tx, own.map Flotsam.move)]) (own ++ queue) operations := by
  obtain ⟨hnone, hqueue⟩ := recorded.others tx.txid hfresh
  constructor
  · intro entry hmem
    rw [queuedFor_append]
    rcases mem_append.1 hmem with hmem | hmem
    · rw [queuedFor_other fun flotsam hflotsam heq =>
        hfresh entry hmem ((hown flotsam hflotsam).symm.trans heq).symm, List.nil_append]
      exact recorded.moves entry hmem
    · obtain rfl := List.mem_singleton.1 hmem
      rw [hnone, queuedFor_self hown, queuedFor_other hqueue, append_nil]
      rfl
  · intro entry hmem
    rcases mem_append.1 hmem with hmem | hmem
    · exact recorded.walks entry hmem
    · obtain rfl := List.mem_singleton.1 hmem
      rw [map_map]
      exact walk
  · intro txid hother
    obtain ⟨hnone', hqueue'⟩ := recorded.others txid fun entry hmem =>
      hother entry (List.mem_append_left _ hmem)
    refine ⟨hnone', fun flotsam hmem => ?_⟩
    rcases mem_append.1 hmem with hmem | hmem
    · rw [hown flotsam hmem]
      exact hother _ (List.mem_append_right _ mem_cons_self)
    · exact hqueue' flotsam hmem

/-- The first inscription of the queue is placed, and its operation recorded. -/
theorem place {flotsam : Flotsam} (recorded : Recorded log (flotsam :: queue) operations)
    {op : InscriptionOp} (hmove : op.move = flotsam.move) :
    Recorded log queue
      (operations.insert flotsam.txid ((operations.lookup flotsam.txid).getD [] ++ [op])) := by
  constructor
  · intro entry hmem
    have hbefore := recorded.moves entry hmem
    unfold queuedFor at hbefore ⊢
    rw [lookup_insert_ite]
    by_cases htxid : entry.1.txid = flotsam.txid
    · rw [List.filter_cons_of_pos (by simp [htxid])] at hbefore
      rw [if_pos htxid, Option.getD_some, ← htxid, List.map_append, List.append_assoc, ← hbefore,
        List.map_singleton, hmove]
      rfl
    · rw [List.filter_cons_of_neg (by simpa using Ne.symm htxid)] at hbefore
      rw [if_neg htxid, hbefore]
  · exact recorded.walks
  · intro txid hother
    obtain ⟨hnone, hqueue⟩ := recorded.others txid hother
    have hne := hqueue flotsam mem_cons_self
    refine ⟨?_, fun other hmem => hqueue other (mem_cons_of_mem _ hmem)⟩
    rw [lookup_insert_ite, if_neg (Ne.symm hne), hnone]

/-- The queue may be in another order that keeps the order of each transaction. -/
theorem reorder (recorded : Recorded log queue operations) {queue' : List Flotsam}
    (hsame : ∀ txid, (queuedFor txid queue').map Flotsam.move =
      (queuedFor txid queue).map Flotsam.move) : Recorded log queue' operations where
  moves entry hmem := by
    rw [hsame]
    exact recorded.moves entry hmem
  walks := recorded.walks
  others txid hother := by
    obtain ⟨hnone, hqueue⟩ := recorded.others txid hother
    refine ⟨hnone, fun flotsam hmem heq => ?_⟩
    have hnil := hsame txid
    rw [queuedFor_other hqueue, List.map_nil, List.map_eq_nil_iff] at hnil
    have hqueued : flotsam ∈ queuedFor txid queue' :=
      mem_filter.2 ⟨hmem, decide_eq_true heq⟩
    rw [hnil] at hqueued
    exact not_mem_nil hqueued

end Recorded

/-! ### Placing the queue -/

/-- Values with the output of a transaction in the cache. -/
theorem ValuesRight.cacheOutput {valueCache : KeyTable OutPoint (ℕ × Bool)}
    {outpointToValue : KeyTable OutPoint ℕ} {utxo : UtxoSet} {seen : List Txid}
    (right : ValuesRight env valueCache outpointToValue utxo seen) (hseen : tx.txid ∈ seen) {number : ℕ}
    {output : TxOut} (hutxo : utxo.lookup (tx.outpoint number) = some output.value) {flag : Bool} :
    ValuesRight env (valueCache.insert (tx.outpoint number) (output.value, flag)) outpointToValue utxo
      seen where
  cached outpoint value row hvalue hrow := by
    rcases lookup_insert_cases hrow with ⟨rfl, rfl⟩ | ⟨-, hrow⟩
    · rw [hutxo] at hvalue
      exact Option.some.inj hvalue
    · exact right.cached outpoint value row hvalue hrow
  stored := right.stored
  node := right.node
  cacheSeen outpoint row hrow := by
    rcases lookup_insert_cases hrow with ⟨rfl, -⟩ | ⟨-, hrow⟩
    · exact hseen
    · exact right.cacheSeen outpoint row hrow
  tableSeen := right.tableSeen

/-- The invariant while the inscriptions of a transaction are assigned. -/
structure Placing (env : IndexEnv K P) (tx : Transaction) (chain : ChainState) (moves : List Move)
    (log : MoveLog) (carried : List Flotsam) (reward : ℕ) (queue : List Flotsam)
    (updater : Updater K P) : Prop where
  tracked : Tracked updater.satpointToId updater.partialTxidToTxids queue chain moves
  recorded : Recorded log queue updater.operations
  values : ValuesRight env updater.valueCache updater.outpointToValue chain.utxo chain.seen
  /-- What is named after the transaction has not moved. -/
  homing : ∀ flotsam ∈ queue, tx.txid = flotsam.inscriptionId.txid →
    ∀ move ∈ moves, move.inscriptionId = flotsam.inscriptionId → move.isNew = true
  flotsam : updater.flotsam = carried
  reward : updater.reward = reward

namespace Placing

variable {chain : ChainState} {moves : List Move} {log : MoveLog} {carried : List Flotsam}
  {reward : ℕ}

/-- Placing the first inscription at a satpoint. -/
theorem update {flotsam : Flotsam} {queue : List Flotsam} {updater : Updater K P} {satpoint : SatPoint}
    (placing : Placing env tx chain moves log carried reward (flotsam :: queue) updater)
    (known : chain.Known)
    (hplace : (∃ value, chain.utxo.lookup satpoint.outpoint = some value ∧ satpoint.offset < value) ∨
      satpoint.outpoint = OutPoint.null)
    (hhome : satpoint.outpoint.txid = flotsam.inscriptionId.txid →
      ∀ move ∈ moves, move.inscriptionId = flotsam.inscriptionId → move.isNew = true) :
    Placing env tx chain moves log carried reward queue
      (updateInscriptionLocation env context tx flotsam satpoint updater) := by
  have same := sameBesidesLocations_update env context tx flotsam satpoint updater
  obtain ⟨number, hoperations⟩ := operations_update env context tx flotsam satpoint updater
  constructor
  · rw [satpointToId_update, same.partialTxidToTxids]
    exact placing.tracked.place known hplace hhome
  · rw [hoperations]
    exact placing.recorded.place (move_operation flotsam satpoint number)
  · rw [same.valueCache, same.outpointToValue]
    exact placing.values
  · exact fun other hmem => placing.homing other (mem_cons_of_mem _ hmem)
  · exact same.flotsam.trans placing.flotsam
  · exact same.reward.trans placing.reward

theorem placesQueue (context : BlockContext K P) (known : chain.Known) (hseen : tx.txid ∈ chain.seen)
    (hutxo : ∀ number output, tx.output[number]? = some output →
      chain.utxo.lookup (tx.outpoint number) = some output.value) :
    PlacesQueue env context tx (Placing env tx chain moves log carried reward) where
  place {flotsam queue updater number output offset} houtput hlt placing := by
    apply placing.update known (.inl ⟨output.value, hutxo number output houtput, hlt⟩)
    exact placing.homing flotsam mem_cons_self
  lose {flotsam queue updater} offset placing := by
    apply placing.update known (.inr rfl)
    intro hzero
    have hmade := placing.tracked.made_seen (placing.tracked.onTheWay flotsam mem_cons_self)
    rw [← hzero] at hmade
    exact absurd hmade known.1
  cache {queue updater number output} flag houtput placing :=
    { tracked := placing.tracked
      recorded := placing.recorded
      values := placing.values.cacheOutput hseen (hutxo number output houtput)
      homing := placing.homing
      flotsam := placing.flotsam
      reward := placing.reward }

/-- The inscriptions of a transaction go to its outputs; what is left lies behind them. -/
theorem assignOutputs {own queue : List Flotsam} {updater : Updater K P}
    (placing : Placing env tx chain moves log carried reward (own ++ queue) updater)
    (context : BlockContext K P) (known : chain.Known) (hseen : tx.txid ∈ chain.seen)
    (hutxo : ∀ number output, tx.output[number]? = some output →
      chain.utxo.lookup (tx.outpoint number) = some output.value)
    (hsorted : own.Pairwise fun a b => a.offset ≤ b.offset) :
    ∃ rest after,
      assignOutputs env context tx tx.output 0 0 own updater = (rest, tx.outputValue, after) ∧
      Placing env tx chain moves log carried reward (rest ++ queue) after ∧ rest.Sublist own ∧
      ∀ flotsam ∈ rest, tx.outputValue ≤ flotsam.offset := by
  have hassign := (placesQueue context known hseen hutxo).assignOutputs tx.output 0 0 List.drop_zero
    hsorted (fun _ _ => Nat.zero_le _) placing
  rwa [Nat.zero_add] at hassign

end Placing

/-! ### The moves of a transaction -/

/-- The inscriptions that a transaction moves, in order, once its envelope is read. -/
structure OwnMoves (tx : Transaction) (updater : Updater K P) (carried : List Flotsam)
    (chain : ChainState) (moves : List Move) (found own : List Flotsam) (after : Updater K P) :
    Prop where
  tracked : Tracked updater.satpointToId after.partialTxidToTxids (own ++ carried) chain
    (moves ++ own.map Flotsam.move)
  homing : ∀ flotsam ∈ own ++ carried, tx.txid = flotsam.inscriptionId.txid →
    ∀ move ∈ moves ++ own.map Flotsam.move, move.inscriptionId = flotsam.inscriptionId →
      move.isNew = true
  moved : ∀ flotsam ∈ own, flotsam.txid = tx.txid
  walk : Walk (tx.input.map TxIn.previousOutput)
    (own.map fun flotsam => flotsam.oldSatpoint.outpoint)
  sorted : own.Pairwise fun a b => a.offset ≤ b.offset
  offsets : ∀ flotsam ∈ own, flotsam ∈ found ∨
    (flotsam.offset = 0 ∧ completesInscription updater.toTables tx = true)
  same : ∃ partialTxidToTxids txidToTx idToTxids,
    after = updater.withChains partialTxidToTxids txidToTx idToTxids

/-- A list in order with an item in front of it, sorted. -/
theorem insertionSort_append_first {found : List Flotsam} {new : Flotsam}
    (hsorted : found.Pairwise fun a b => a.offset < b.offset) (hnew : new.offset = 0)
    (hpos : ∀ flotsam ∈ found, flotsam.offset ≠ 0) :
    ((found ++ [new]).insertionSort fun a b => a.offset ≤ b.offset) = new :: found := by
  have hstrict : (new :: found).Pairwise fun a b => a.offset < b.offset := by
    refine List.pairwise_cons.2 ⟨fun flotsam hmem => ?_, hsorted⟩
    rw [hnew]
    exact Nat.pos_of_ne_zero (hpos flotsam hmem)
  have hperm : (found ++ [new]).Perm (new :: found) := List.perm_append_singleton new found
  have hkeys : ((found ++ [new]).map Flotsam.offset).Nodup := by
    rw [(hperm.map Flotsam.offset).nodup_iff]
    exact List.pairwise_map.2 (hstrict.imp Nat.ne_of_lt)
  refine List.Perm.eq_of_pairwise (fun a b _ _ hlt hgt => absurd hlt (Nat.lt_asymm hgt))
    (SortByKey.pairwise_insertionSort Flotsam.offset hkeys) hstrict ?_
  exact (List.perm_insertionSort _ _).trans hperm

section Own

variable {updater after : Updater K P} {carried found inscriptions : List Flotsam}
  {chain chain' : ChainState} {moves : List Move} {first : TxIn} {inputs : List TxIn} {total : ℕ}

/-- Inscriptions that are found on the inputs are not named after the transaction. -/
theorem txid_ne_of_made (tracked : Tracked updater.satpointToId updater.partialTxidToTxids carried chain moves)
    (hfresh : tx.txid ∉ chain.seen) (hold : ∀ flotsam ∈ found, Made moves flotsam.inscriptionId)
    {id : InscriptionId} (hid : Made (moves ++ found.map Flotsam.move) id) : tx.txid ≠ id.txid := by
  have hmade : Made moves id := by
    obtain ⟨move, hmem, rfl⟩ := hid
    rcases mem_append.1 hmem with hmem | hmem
    · exact ⟨move, hmem, rfl⟩
    · obtain ⟨flotsam, hflotsam, rfl⟩ := mem_map.1 hmem
      exact hold flotsam hflotsam
  exact fun heq => hfresh (heq ▸ tracked.made_seen hmade)

/-- No new inscription: those found on the inputs move on. -/
theorem OwnMoves.of_found
    (spent : Tracked updater.satpointToId after.partialTxidToTxids (found ++ carried) chain'
      (moves ++ found.map Flotsam.move))
    (hforeign : ∀ {id}, Made (moves ++ found.map Flotsam.move) id → tx.txid ≠ id.txid)
    (hmoved : ∀ flotsam ∈ found, flotsam.txid = tx.txid)
    (hsorted : found.Pairwise fun a b => a.offset < b.offset)
    (walk : Walk (tx.input.map TxIn.previousOutput)
      (found.map fun flotsam => flotsam.oldSatpoint.outpoint))
    (same : ∃ partialTxidToTxids txidToTx idToTxids,
      after = updater.withChains partialTxidToTxids txidToTx idToTxids) :
    OwnMoves tx updater carried chain' moves found
      (found.insertionSort fun a b => a.offset ≤ b.offset) after := by
  rw [(hsorted.imp Nat.le_of_lt).insertionSort_eq]
  exact ⟨spent, fun flotsam hmem heq => absurd heq (hforeign (spent.onTheWay flotsam hmem)), hmoved, walk,
    hsorted.imp Nat.le_of_lt, fun flotsam hmem => .inl hmem, same⟩

/-- A new inscription goes in front of those found on the inputs. -/
theorem OwnMoves.of_revealed {fee : ℕ} {inscription : Inscription} {keep : Bool}
    (spent : Tracked updater.satpointToId updater.partialTxidToTxids (found ++ carried) chain'
      (moves ++ found.map Flotsam.move))
    (hforeign : ∀ {id}, Made (moves ++ found.map Flotsam.move) id → tx.txid ≠ id.txid)
    (hmoved : ∀ flotsam ∈ found, flotsam.txid = tx.txid)
    (hsorted : found.Pairwise fun a b => a.offset < b.offset)
    (walk : Walk (tx.input.map TxIn.previousOutput)
      (found.map fun flotsam => flotsam.oldSatpoint.outpoint))
    (hinput : tx.input = first :: inputs) (hseen : tx.txid ∈ chain'.seen)
    (hnewHead : ∀ key rest, updater.partialTxidToTxids.lookup key ≠ some (tx.txid :: rest))
    (hpos : ∀ flotsam ∈ found, flotsam.offset ≠ 0)
    (hcompletes : completesInscription updater.toTables tx = true) :
    OwnMoves tx updater carried chain' moves found
      ((found ++ [revealed updater.toTables tx first fee inscription]).insertionSort
        fun a b => a.offset ≤ b.offset)
      (completeChain first.previousOutput.txid tx keep updater) := by
  rw [insertionSort_append_first hsorted rfl hpos]
  obtain ⟨head, rest, hhead, hkind, -⟩ :=
    spent.opened.exists_chain first.previousOutput.txid tx.txid
  have hid : chainId updater.toTables tx = { txid := head, index := 0 } := by
    rw [chainId, partialChain, hinput]
    dsimp only
    rw [hhead]
    rfl
  have hfree : (chainId updater.toTables tx).txid ∈ chain'.seen ∧
      ¬ Made (moves ++ found.map Flotsam.move) (chainId updater.toTables tx) := by
    rw [hid]
    rcases hkind with hkind | rfl
    · exact hkind
    · exact ⟨hseen, fun hmade => hforeign hmade rfl⟩
  have horigin : (revealed updater.toTables tx first fee inscription).origin =
      .new fee inscription := rfl
  have harrive := spent.arrive horigin hfree.2 hseen hfree.1
    (by
      change OpenChains _ fun other => _ ∧ other ≠ (chainId updater.toTables tx).txid
      rw [hid]
      exact spent.opened.completed hhead hnewHead)
  constructor
  · exact harrive
  · intro flotsam hmem heq move hmove hsame
    rcases mem_cons.1 hmem with rfl | hmem
    · rcases mem_append.1 hmove with hmove | hmove
      · exact absurd ⟨move, List.mem_append_left _ hmove, hsame⟩ hfree.2
      · rcases mem_cons.1 hmove with rfl | hmove
        · rfl
        · exact absurd ⟨move, List.mem_append_right _ hmove, hsame⟩ hfree.2
    · exact absurd heq (hforeign (spent.onTheWay flotsam hmem))
  · intro flotsam hmem
    rcases mem_cons.1 hmem with rfl | hmem
    · rfl
    · exact hmoved flotsam hmem
  · rw [hinput] at walk ⊢
    exact .serve walk
  · exact List.pairwise_cons.2 ⟨fun flotsam hmem => Nat.zero_le _, hsorted.imp Nat.le_of_lt⟩
  · intro flotsam hmem
    rcases mem_cons.1 hmem with rfl | hmem
    · exact .inr ⟨rfl, hcompletes⟩
    · exact .inl hmem
  · exact ⟨_, _, _, rfl⟩

/-- Reading the envelope adds a new inscription in front, or none. -/
theorem ownMoves_of_readEnvelope
    (tracked : Tracked updater.satpointToId updater.partialTxidToTxids carried chain moves)
    (hfresh : tx.txid ∉ chain.seen) (hseen : chain'.seen = tx.txid :: chain.seen)
    (spent : Tracked updater.satpointToId updater.partialTxidToTxids (found ++ carried) chain'
      (moves ++ found.map Flotsam.move))
    (hold : ∀ flotsam ∈ found, flotsam.txid = tx.txid ∧ Made moves flotsam.inscriptionId)
    (hsorted : found.Pairwise fun a b => a.offset < b.offset)
    (walk : Walk (tx.input.map TxIn.previousOutput)
      (found.map fun flotsam => flotsam.oldSatpoint.outpoint))
    (hinput : tx.input = first :: inputs)
    (hread : readEnvelope env tx total found updater = some (inscriptions, after)) :
    OwnMoves tx updater carried chain' moves found
      (inscriptions.insertionSort fun a b => a.offset ≤ b.offset) after := by
  have hforeign : ∀ {id}, Made (moves ++ found.map Flotsam.move) id → tx.txid ≠ id.txid :=
    txid_ne_of_made tracked hfresh fun flotsam hmem => (hold flotsam hmem).2
  have hmoved : ∀ flotsam ∈ found, flotsam.txid = tx.txid := fun flotsam hmem => (hold flotsam hmem).1
  have hnewHead : ∀ key rest, updater.partialTxidToTxids.lookup key ≠ some (tx.txid :: rest) := by
    intro key rest hrow
    obtain ⟨head, rest', heq, hhead, -⟩ := tracked.opened.heads key _ hrow
    cases heq
    exact hfresh hhead
  have hseen' : tx.txid ∈ chain'.seen := hseen ▸ mem_cons_self
  rcases readEnvelope_cases hinput hread with ⟨rfl, rfl⟩ | ⟨-, rfl, rfl⟩ |
    ⟨fee, inscription, hpos, hparsed, rfl, rfl⟩
  · exact .of_found spent hforeign hmoved hsorted walk ⟨_, _, _, rfl⟩
  · refine .of_found ?_ hforeign hmoved hsorted walk ⟨_, _, _, rfl⟩
    unfold continueChain
    dsimp only
    rw [partialChain, hinput]
    exact spent.withChains
      (spent.opened.continued ⟨hseen', fun hid => hforeign hid rfl⟩ hnewHead)
  · exact .of_revealed spent hforeign hmoved hsorted walk hinput hseen' hnewHead hpos
      (by rw [completesInscription, hparsed])

end Own

/-! ### Between two transactions -/

/-- The invariant between two transactions of a block, with the moves before the block. -/
structure Logged (env : IndexEnv K P) (updater : Updater K P) (chain : ChainState) (moves : List Move)
    (log : MoveLog) : Prop where
  tracked : Tracked updater.satpointToId updater.partialTxidToTxids updater.flotsam chain
    (moves ++ log.flatMap Prod.snd)
  recorded : Recorded log updater.flotsam updater.operations
  ordered : ∀ txid, (queuedFor txid updater.flotsam).Pairwise fun a b => a.offset ≤ b.offset
  values : ValuesRight env updater.valueCache updater.outpointToValue chain.utxo chain.seen
  known : chain.Known
  logSeen : ∀ entry ∈ log, entry.1.txid ∈ chain.seen

/-- The offsets, within the inputs, of the inscriptions that a transaction moves. -/
def ownOffsets (updater : Updater K P) (utxo : UtxoSet) (tx : Transaction) : List ℕ :=
  (if completesInscription updater.toTables tx then [0] else []) ++
    (spentFlotsam updater.satpointToId tx.txid tx.input utxo 0).map Flotsam.offset

/-- The inscriptions that the fees of a transaction carry are in the same order behind the reward, which
may wrap around in lean replay. -/
def carriesInOrder (env : IndexEnv K P) (updater : Updater K P) (utxo : UtxoSet) (tx : Transaction) :
    Bool :=
  (ownOffsets updater utxo tx).all fun a => (ownOffsets updater utxo tx).all fun b =>
    decide (tx.outputValue ≤ a → a ≤ b →
      env.behind updater.reward a tx.outputValue ≤ env.behind updater.reward b tx.outputValue)

/-- Values with the outputs of a new transaction, which are not cached yet. -/
theorem ValuesRight.create {valueCache : KeyTable OutPoint (ℕ × Bool)}
    {outpointToValue : KeyTable OutPoint ℕ} {chain : ChainState} {utxo : UtxoSet}
    (right : ValuesRight env valueCache outpointToValue utxo chain.seen)
    (hfresh : tx.txid ∉ chain.seen)
    (hnode : ∀ number output, tx.output[number]? = some output →
      env.nodeValue (tx.outpoint number) = some output.value) :
    ValuesRight env valueCache outpointToValue (chain.after tx utxo).utxo (chain.after tx utxo).seen where
  cached outpoint value row hvalue hrow := by
    rcases lookup_after_cases hvalue with ⟨number, output, rfl, -⟩ | hvalue
    · exact absurd (right.cacheSeen _ row hrow) hfresh
    · exact right.cached outpoint value row hvalue hrow
  stored outpoint value found hvalue hrow := by
    rcases lookup_after_cases hvalue with ⟨number, output, rfl, -⟩ | hvalue
    · exact absurd (right.tableSeen _ found hrow) hfresh
    · exact right.stored outpoint value found hvalue hrow
  node outpoint value hvalue := by
    rcases lookup_after_cases hvalue with ⟨number, output, rfl, houtput, rfl⟩ | hvalue
    · exact hnode number output houtput
    · exact right.node outpoint value hvalue
  cacheSeen outpoint row hrow := mem_cons_of_mem _ (right.cacheSeen outpoint row hrow)
  tableSeen outpoint value hrow := mem_cons_of_mem _ (right.tableSeen outpoint value hrow)

section Transaction

variable {updater after : Updater K P} {chain : ChainState} {moves : List Move} {log : MoveLog}
  {lost lost' sum : ℕ} {utxo : UtxoSet}

/-- The moves of a transaction enter the log. -/
theorem Logged.enter (logged : Logged env updater chain moves log) (hfresh : tx.txid ∉ chain.seen)
    {found own queue : List Flotsam} {base read start : Updater K P}
    (ownMoves : OwnMoves tx base updater.flotsam (chain.after tx utxo)
      (moves ++ log.flatMap Prod.snd) found own read)
    (right : ValuesRight env start.valueCache start.outpointToValue (chain.after tx utxo).utxo
      (chain.after tx utxo).seen)
    (hrows : start.satpointToId = base.satpointToId)
    (hchains : start.partialTxidToTxids = read.partialTxidToTxids)
    (hoperations : start.operations = updater.operations)
    (hperm : (own ++ updater.flotsam).Perm queue)
    (hqueue : ∀ txid, queuedFor txid queue = queuedFor txid (own ++ updater.flotsam)) :
    Placing env tx (chain.after tx utxo)
      (moves ++ (log ++ [(tx, own.map Flotsam.move)]).flatMap Prod.snd)
      (log ++ [(tx, own.map Flotsam.move)]) start.flotsam start.reward queue start := by
  have hmoves : moves ++ (log ++ [(tx, own.map Flotsam.move)]).flatMap Prod.snd =
      moves ++ log.flatMap Prod.snd ++ own.map Flotsam.move := by
    simp [List.flatMap_append]
  constructor
  · rw [hmoves, hrows, hchains]
    exact ownMoves.tracked.of_perm (hperm.map _)
  · rw [hoperations]
    refine (logged.recorded.enter (fun entry hentry heq => ?_) ownMoves.moved ownMoves.walk).reorder
      fun txid => congrArg _ (hqueue txid)
    exact hfresh (heq ▸ logged.logSeen entry hentry)
  · exact right
  · rw [hmoves]
    exact fun flotsam hmem => ownMoves.homing flotsam (hperm.mem_iff.2 hmem)
  · rfl
  · rfl

/-- The moves of a transaction that is no coinbase. -/
theorem Logged.spend (logged : Logged env updater chain moves log) (hzero : tx.txid ≠ 0)
    (hfresh : tx.txid ∉ chain.seen) (hinput : tx.input ≠ [])
    (hspend : spendInputs tx.input chain.utxo = some (sum, utxo))
    (cache : KeyTable OutPoint (ℕ × Bool)) (table : KeyTable OutPoint ℕ)
    (prefetched : List OutPoint) {total : ℕ} {inscriptions : List Flotsam} {read : Updater K P}
    (hread : readEnvelope env tx total
      (spentFlotsam updater.satpointToId tx.txid tx.input chain.utxo 0)
      (updater.withValues cache table prefetched) = some (inscriptions, read)) :
    OwnMoves tx (updater.withValues cache table prefetched) updater.flotsam (chain.after tx utxo)
      (moves ++ log.flatMap Prod.snd)
      (spentFlotsam updater.satpointToId tx.txid tx.input chain.utxo 0)
      (inscriptions.insertionSort fun a b => a.offset ≤ b.offset) read := by
  obtain ⟨first, inputs, hinputs⟩ := List.exists_cons_of_ne_nil hinput
  have taken := taken_spentFlotsam updater tx.txid 0 hspend logged.tracked.inside
  have spent := logged.tracked.spend logged.known hzero hfresh hspend taken
    old_of_mem_spentFlotsam
  refine ownMoves_of_readEnvelope logged.tracked hfresh rfl spent (fun flotsam hmem => ?_)
    taken.sorted walk_spentFlotsam hinputs hread
  obtain ⟨satpoint, -, -, hrow⟩ := taken.rows flotsam hmem
  exact ⟨(old_of_mem_spentFlotsam flotsam hmem).1, logged.tracked.made satpoint _ hrow⟩

/-- The order of what the fees carry. -/
theorem pairwise_carried (horder : carriesInOrder env updater chain.utxo tx = true)
    {found own rest : List Flotsam}
    (hfound : found = spentFlotsam updater.satpointToId tx.txid tx.input chain.utxo 0)
    (hoffsets : ∀ flotsam ∈ own, flotsam ∈ found ∨
      (flotsam.offset = 0 ∧ completesInscription updater.toTables tx = true))
    (hsorted : own.Pairwise fun a b => a.offset ≤ b.offset) (hsublist : rest.Sublist own)
    (hbase : ∀ flotsam ∈ rest, tx.outputValue ≤ flotsam.offset) :
    (rest.map fun flotsam =>
      { flotsam with offset := env.behind updater.reward flotsam.offset tx.outputValue }).Pairwise
        fun a b => a.offset ≤ b.offset := by
  have hmem : ∀ flotsam ∈ rest, flotsam.offset ∈ ownOffsets updater chain.utxo tx := by
    intro flotsam hmem
    rw [ownOffsets, mem_append]
    rcases hoffsets flotsam (hsublist.subset hmem) with hflotsam | ⟨hzero, hcompletes⟩
    · exact .inr (List.mem_map_of_mem (hfound ▸ hflotsam))
    · left
      rw [if_pos hcompletes, hzero]
      exact mem_cons_self
  rw [List.pairwise_map]
  refine (hsorted.sublist hsublist).imp_of_mem fun {a b} ha hb hle => ?_
  have hall := List.all_eq_true.1 (List.all_eq_true.1 horder _ (hmem a ha)) _ (hmem b hb)
  exact of_decide_eq_true hall (hbase a ha) hle

/-- The queue between two transactions keeps the order of each transaction. -/
theorem Recorded.carry {carried rest : List Flotsam} {operations : KeyTable Txid (List InscriptionOp)}
    (recorded : Recorded log (rest ++ carried) operations) (offset : Flotsam → ℕ)
    (hrest : ∀ flotsam ∈ rest, flotsam.txid = tx.txid)
    (hcarried : ∀ flotsam ∈ carried, flotsam.txid ≠ tx.txid) :
    Recorded log (carried ++ rest.map fun flotsam => { flotsam with offset := offset flotsam })
      operations := by
  refine recorded.reorder fun txid => ?_
  rw [queuedFor_append, queuedFor_append]
  have hmoved : ∀ flotsam ∈ rest.map fun flotsam =>
      ({ flotsam with offset := offset flotsam } : Flotsam), flotsam.txid = tx.txid := by
    intro flotsam hmem
    obtain ⟨other, hother, rfl⟩ := mem_map.1 hmem
    exact hrest other hother
  by_cases htxid : txid = tx.txid
  · subst htxid
    rw [queuedFor_other hcarried, queuedFor_self hrest, queuedFor_self hmoved, List.nil_append,
      append_nil, map_map]
    rfl
  · rw [queuedFor_other fun flotsam hmem heq => htxid (heq.symm.trans (hmoved flotsam hmem)),
      queuedFor_other fun flotsam hmem heq => htxid (heq.symm.trans (hrest flotsam hmem)),
      List.nil_append, append_nil]

theorem Logged.transaction (logged : Logged env updater chain moves log) (hzero : tx.txid ≠ 0)
    (hfresh : tx.txid ∉ chain.seen) (hcoinbase : tx.isCoinbase = false) (hinput : tx.input ≠ [])
    (hspend : spendInputs tx.input chain.utxo = some (sum, utxo))
    (hnode : ∀ number output, tx.output[number]? = some output →
      env.nodeValue (tx.outpoint number) = some output.value)
    (horder : carriesInOrder env updater chain.utxo tx = true)
    (hindex : indexTransaction env context (lost, updater) tx = some (lost', after)) :
    ∃ own, Logged env after (chain.after tx utxo) moves (log ++ [(tx, own)]) := by
  obtain ⟨⟨loss, last⟩, hpass, hindex⟩ := Option.map_eq_some_iff.1 hindex
  cases hindex
  unfold indexTransactionInscriptions at hpass
  obtain ⟨⟨total, found, taken⟩, htake, hpass⟩ := Option.bind_eq_some_iff.1 hpass
  obtain ⟨⟨inscriptions, read⟩, hread, hpass⟩ := Option.bind_eq_some_iff.1 hpass
  obtain ⟨rfl, cache, table, prefetched, rfl, right⟩ :=
    takeInputs_found htake hspend (lookup_null logged.known) logged.values
  have ownMoves := logged.spend hzero hfresh hinput hspend cache table prefetched hread
  obtain ⟨chains, txs, contents, rfl⟩ := ownMoves.same
  simp only [sortedInscriptions, hcoinbase, Bool.false_eq_true, if_false] at hpass
  generalize (inscriptions.insertionSort fun a b => a.offset ≤ b.offset) = own at ownMoves hpass
  have hknown : (chain.after tx utxo).Known :=
    known_after logged.known hzero (subset_of_spendInputs hspend)
  have hcarried : ∀ flotsam ∈ updater.flotsam, flotsam.txid ≠ tx.txid :=
    (logged.recorded.others tx.txid fun entry hmem heq =>
      hfresh (heq ▸ logged.logSeen entry hmem)).2
  have placing : Placing env tx (chain.after tx utxo) _ _ _ _ (own ++ updater.flotsam)
      ((updater.withValues cache table prefetched).withChains chains txs contents) :=
    logged.enter hfresh ownMoves (right.create hfresh hnode) rfl rfl rfl (List.Perm.refl _)
      fun _ => rfl
  obtain ⟨rest, assigned, hassign, placed, hsublist, hbase⟩ := placing.assignOutputs context
    hknown mem_cons_self (fun number output houtput => lookup_after_output houtput)
    ownMoves.sorted
  rw [hassign] at hpass
  simp only [settleRest, hcoinbase, Bool.false_eq_true, if_false] at hpass
  obtain ⟨reward, -, hpass⟩ := Option.bind_eq_some_iff.1 hpass
  cases hpass
  have hflotsam : assigned.flotsam = updater.flotsam := placed.flotsam
  have hreward : assigned.reward = updater.reward := placed.reward
  have hrest : ∀ flotsam ∈ rest, flotsam.txid = tx.txid :=
    fun flotsam hmem => ownMoves.moved flotsam (hsublist.subset hmem)
  refine ⟨own.map Flotsam.move, ?_, ?_, ?_, placed.values, hknown, ?_⟩
  · refine placed.tracked.of_perm ?_
    dsimp only
    rw [hflotsam, List.map_append, List.map_append, map_map]
    exact List.perm_append_comm
  · dsimp only
    rw [hflotsam]
    exact placed.recorded.carry _ hrest hcarried
  · intro txid
    have hpairwise := pairwise_carried horder rfl ownMoves.offsets ownMoves.sorted hsublist hbase
    dsimp only
    rw [hflotsam, hreward, queuedFor_append, List.pairwise_append]
    refine ⟨logged.ordered txid, hpairwise.sublist List.filter_sublist, ?_⟩
    intro first hfirst second hsecond
    obtain ⟨hfirst, htxid⟩ := mem_filter.1 hfirst
    obtain ⟨hsecond, htxid'⟩ := mem_filter.1 hsecond
    obtain ⟨flotsam, hmem, rfl⟩ := mem_map.1 hsecond
    have hsame : flotsam.txid = txid := of_decide_eq_true htxid'
    exact absurd ((of_decide_eq_true htxid).trans (hsame.symm.trans (hrest flotsam hmem)))
      (hcarried first hfirst)
  · intro entry hmem
    rcases mem_append.1 hmem with hmem | hmem
    · exact mem_cons_of_mem _ (logged.logSeen entry hmem)
    · obtain rfl := List.mem_singleton.1 hmem
      exact mem_cons_self

/-! ### The coinbase -/

/-- After the coinbase: nothing is on its way. -/
structure BlockLogged (env : IndexEnv K P) (updater : Updater K P) (chain : ChainState)
    (moves : List Move) (log : MoveLog) : Prop where
  tracked : Tracked updater.satpointToId updater.partialTxidToTxids [] chain
    (moves ++ log.flatMap Prod.snd)
  recorded : Recorded log [] updater.operations
  values : ValuesRight env updater.valueCache updater.outpointToValue chain.utxo chain.seen
  known : chain.Known

/-- The queue of the coinbase: its own inscription and all that the fees carried, sorted, which keeps
the order of each transaction. -/
theorem queuedFor_insertionSort {own carried : List Flotsam}
    (hown : ∀ flotsam ∈ own, flotsam.txid = tx.txid)
    (hsorted : own.Pairwise fun a b => a.offset ≤ b.offset)
    (hcarried : ∀ flotsam ∈ carried, flotsam.txid ≠ tx.txid)
    (hordered : ∀ txid, (queuedFor txid carried).Pairwise fun a b => a.offset ≤ b.offset)
    (txid : Txid) :
    queuedFor txid ((own ++ carried).insertionSort fun a b => a.offset ≤ b.offset) =
      queuedFor txid (own ++ carried) := by
  apply SortByKey.filter_insertionSort Flotsam.offset
  rw [List.filter_append, List.pairwise_append]
  refine ⟨hsorted.sublist List.filter_sublist, hordered txid, ?_⟩
  intro first hfirst second hsecond
  obtain ⟨hfirst, htxid⟩ := mem_filter.1 hfirst
  obtain ⟨hsecond, htxid'⟩ := mem_filter.1 hsecond
  exact absurd ((of_decide_eq_true htxid').trans
    ((of_decide_eq_true htxid).symm.trans (hown first hfirst))) (hcarried second hsecond)

theorem Logged.coinbase (logged : Logged env updater chain moves log) (hzero : tx.txid ≠ 0)
    (hfresh : tx.txid ∉ chain.seen) (hcoinbase : tx.isCoinbase = true) (hlength : tx.input.length = 1)
    (hnode : ∀ number output, tx.output[number]? = some output →
      env.nodeValue (tx.outpoint number) = some output.value)
    (hindex : indexTransaction env context (lost, updater) tx = some (lost', after)) :
    ∃ own, BlockLogged env after (chain.after tx chain.utxo) moves (log ++ [(tx, own)]) := by
  obtain ⟨input, hinput⟩ := List.length_eq_one_iff.1 hlength
  have hnull : input.previousOutput = OutPoint.null := by
    unfold Transaction.isCoinbase at hcoinbase
    rw [hinput] at hcoinbase
    exact of_decide_eq_true hcoinbase
  obtain ⟨⟨loss, last⟩, hpass, hindex⟩ := Option.map_eq_some_iff.1 hindex
  cases hindex
  unfold indexTransactionInscriptions at hpass
  obtain ⟨⟨total, found, taken⟩, htake, hpass⟩ := Option.bind_eq_some_iff.1 hpass
  obtain ⟨⟨inscriptions, read⟩, hread, hpass⟩ := Option.bind_eq_some_iff.1 hpass
  rw [hinput, takeInputs, if_pos hnull, takeInputs] at htake
  cases htake
  have hone : (inscriptions.insertionSort fun a b => a.offset ≤ b.offset) = inscriptions := by
    rcases readEnvelope_cases hinput hread with ⟨rfl, -⟩ | ⟨-, rfl, -⟩ | ⟨_, _, -, -, rfl, -⟩
    · rfl
    · rfl
    · rfl
  have hspend : spendInputs [] chain.utxo = some (0, chain.utxo) := rfl
  have spent := logged.tracked.spend logged.known hzero hfresh hspend
    (Taken.nil updater.satpointToId 0) fun _ hmem => absurd hmem not_mem_nil
  have ownMoves := ownMoves_of_readEnvelope logged.tracked hfresh rfl spent
    (fun _ hmem => absurd hmem not_mem_nil) List.Pairwise.nil (.done _) hinput hread
  rw [hone] at ownMoves
  obtain ⟨chains, txs, contents, rfl⟩ := ownMoves.same
  simp only [sortedInscriptions, hcoinbase, if_true] at hpass
  have hknown : (chain.after tx chain.utxo).Known :=
    known_after logged.known hzero fun _ _ hvalue => hvalue
  have hcarried : ∀ flotsam ∈ updater.flotsam, flotsam.txid ≠ tx.txid :=
    (logged.recorded.others tx.txid fun entry hmem heq =>
      hfresh (heq ▸ logged.logSeen entry hmem)).2
  have hutxo : ∀ number output, tx.output[number]? = some output →
      (chain.after tx chain.utxo).utxo.lookup (tx.outpoint number) = some output.value :=
    fun number output houtput => lookup_after_output houtput
  have placing : Placing env tx (chain.after tx chain.utxo) _ _ _ _
      ((inscriptions ++ (updater.withChains chains txs contents).flotsam).insertionSort
        fun a b => a.offset ≤ b.offset)
      { updater.withChains chains txs contents with flotsam := [] } :=
    logged.enter hfresh ownMoves (logged.values.create hfresh hnode) rfl rfl rfl
      (List.perm_insertionSort _ _).symm
      (queuedFor_insertionSort ownMoves.moved ownMoves.sorted hcarried logged.ordered)
  rw [← append_nil (List.insertionSort _ _)] at placing
  have : Std.Total fun a b : Flotsam => a.offset ≤ b.offset := ⟨fun a b => le_total _ _⟩
  have : IsTrans Flotsam fun a b => a.offset ≤ b.offset := ⟨fun a b c => le_trans⟩
  obtain ⟨rest, assigned, hassign, placed, -⟩ := placing.assignOutputs context hknown
    mem_cons_self hutxo (List.pairwise_insertionSort _ _)
  rw [hassign] at hpass
  simp only [settleRest, hcoinbase, if_true] at hpass
  obtain ⟨lostValue, -, hpass⟩ := Option.bind_eq_some_iff.1 hpass
  cases hpass
  have settled := (Placing.placesQueue context hknown mem_cons_self hutxo).placeLost
    (fun flotsam => env.behind assigned.lostSats flotsam.offset tx.outputValue) rest placed
  exact ⟨_, settled.tracked, settled.recorded, settled.values, hknown⟩

end Transaction

end OrdDogecoin.Inscriptions
