/-
Module: OrdDogecoin.Inscriptions.MoveHistory
Purpose: Blocks and commits against the history of all moves: after every valid block whose carried
  inscriptions keep their order, the operations of each transaction are its moves, in the order of its
  inputs, and the history goes on by them.
Trusted boundary: the node knows the transactions of the blocks it gave
Main exports: BlockInOrder, Traced.block, Traced.commit
-/
import OrdDogecoin.Inscriptions.MoveLog
import OrdDogecoin.Chain.Blocks

namespace OrdDogecoin.Inscriptions

open Chain KeyTable

variable {K P : Type} {env : IndexEnv K P} {context : BlockContext K P} {moves : List Move}
  {index : Index K P}

/-! ### The pass over a block -/

/-- The fees of a transaction carry its inscriptions in order. -/
def CarriesInOrder (env : IndexEnv K P) (state : (ℕ × Updater K P) × (ChainState × ℕ))
    (tx : Transaction) : Prop :=
  tx.isCoinbase = true ∨ carriesInOrder env state.1.2 state.2.1.utxo tx = true

instance (env : IndexEnv K P) (state : (ℕ × Updater K P) × (ChainState × ℕ)) (tx : Transaction) :
    Decidable (CarriesInOrder env state tx) :=
  inferInstanceAs (Decidable (_ ∨ _))

/-- The fees of every transaction of a block carry its inscriptions in order. -/
def BlockInOrder (env : IndexEnv K P) (state : Index K P × ChainState) (block : BlockData) : Prop :=
  Run.Along (pairStep env (state.1.context block)) (CarriesInOrder env) block.processingOrder
    ((state.1.tables.lostSats, state.1.updater env block),
      (state.2, env.subsidy state.1.tables.height))

instance (env : IndexEnv K P) (state : Index K P × ChainState) (block : BlockData) :
    Decidable (BlockInOrder env state block) :=
  inferInstanceAs (Decidable (Run.Along _ _ _ _))

theorem pairStep_eq_some {state : ℕ × Updater K P} {chainState chainState' : ChainState × ℕ}
    {state' : ℕ × Updater K P} {tx : Transaction}
    (hindex : indexTransaction env context state tx = some state')
    (hvalid : ChainState.applyTransaction chainState tx = some chainState') :
    pairStep env context (state, chainState) tx = some (state', chainState') := by
  simp [pairStep, hindex, hvalid]

/-- One valid transaction before the coinbase. -/
theorem Logged.step {state state' : ℕ × Updater K P} {chainState chainState' : ChainState × ℕ}
    {log : MoveLog} {tx : Transaction}
    (logged : Logged env state.2 chainState.1 moves log) (hcoinbase : tx.isCoinbase = false)
    (hnode : ∀ number output, tx.output[number]? = some output →
      env.nodeValue (tx.outpoint number) = some output.value)
    (horder : CarriesInOrder env (state, chainState) tx)
    (hvalid : ChainState.applyTransaction chainState tx = some chainState')
    (hindex : indexTransaction env context state tx = some state') :
    ∃ own, Logged env state'.2 chainState'.1 moves (log ++ [(tx, own)]) := by
  obtain ⟨chain, reward⟩ := chainState
  obtain ⟨chain', reward'⟩ := chainState'
  obtain ⟨hzero, hfresh, hcases⟩ := applyTransaction_cases hvalid
  rcases hcases with ⟨hother, -⟩ | ⟨total, utxo, -, hinput, hspend, -, -, rfl⟩
  · rw [hcoinbase] at hother
    cases hother
  · have horder : carriesInOrder env state.2 chain.utxo tx = true := by
      rcases horder with hother | horder
      · rw [hcoinbase] at hother
        cases hother
      · exact horder
    exact logged.transaction hzero hfresh hcoinbase hinput hspend hnode horder hindex

/-- The transactions before the coinbase, by induction on them. -/
theorem Logged.foldlM {coinbase : Transaction} {txs : List Transaction} :
    ∀ {state state' : ℕ × Updater K P} {chainState chainState' : ChainState × ℕ} {log : MoveLog},
      Logged env state.2 chainState.1 moves log → (∀ tx ∈ txs, tx.isCoinbase = false) →
      (∀ tx ∈ txs, ∀ number output, tx.output[number]? = some output →
        env.nodeValue (tx.outpoint number) = some output.value) →
      Run.Along (pairStep env context) (CarriesInOrder env) (txs ++ [coinbase]) (state, chainState) →
      txs.foldlM ChainState.applyTransaction chainState = some chainState' →
      txs.foldlM (indexTransaction env context) state = some state' →
      ∃ log', log'.map Prod.fst = txs ∧ Logged env state'.2 chainState'.1 moves (log ++ log') := by
  induction txs with
  | nil =>
      intro state state' chainState chainState' log logged _ _ _ hvalid hindex
      cases hvalid
      cases hindex
      exact ⟨[], rfl, by rwa [List.append_nil]⟩
  | cons tx txs ih =>
      intro state state' chainState chainState' log logged hcoinbase hnode horder hvalid hindex
      rw [List.foldlM_cons] at hvalid hindex
      obtain ⟨chainMiddle, hchain, hvalid⟩ := Option.bind_eq_some_iff.1 hvalid
      obtain ⟨middle, hmiddle, hindex⟩ := Option.bind_eq_some_iff.1 hindex
      obtain ⟨hfirst, hrest⟩ := horder
      obtain ⟨own, hlogged⟩ := logged.step (hcoinbase tx List.mem_cons_self)
        (hnode tx List.mem_cons_self) hfirst hchain hmiddle
      obtain ⟨log', hlog, hlogged'⟩ := ih hlogged
        (fun other hmem => hcoinbase other (List.mem_cons_of_mem _ hmem))
        (fun other hmem => hnode other (List.mem_cons_of_mem _ hmem))
        (hrest _ (pairStep_eq_some hmiddle hchain)) hvalid hindex
      refine ⟨(tx, own) :: log', by rw [List.map_cons, hlog], ?_⟩
      rwa [List.append_assoc, List.singleton_append] at hlogged'

/-! ### Blocks and commits -/

/-- The index between two blocks, with all moves so far. -/
structure Traced (env : IndexEnv K P) (state : Index K P × ChainState) (moves : List Move) : Prop where
  tracked : Tracked state.1.tables.satpointToId state.1.tables.partialTxidToTxids [] state.2 moves
  values : ValuesRight env state.1.valueCache state.1.tables.outpointToValue state.2.utxo state.2.seen
  known : state.2.Known

theorem Traced.empty {start : ChainState} (known : start.Known)
    (hnode : ∀ outpoint value, start.utxo.lookup outpoint = some value →
      env.nodeValue outpoint = some value) (height : ℕ) (tapKv : K) (protocols : P) :
    Traced env (Index.empty height tapKv protocols, start) [] where
  tracked := .empty start
  values :=
    { cached := fun _ _ _ _ hrow => by cases hrow
      stored := fun _ _ _ _ hrow => by cases hrow
      node := hnode
      cacheSeen := fun _ _ hrow => by cases hrow
      tableSeen := fun _ _ hrow => by cases hrow }
  known := known

/-- The pass over a valid block gives each transaction its moves. -/
theorem Traced.pass {chain chain' : ChainState}
    {block : BlockData} {lostSats : ℕ} {updater : Updater K P}
    (traced : Traced env (index, chain) moves) (hserves : env.serves block = true)
    (horder : BlockInOrder env (index, chain) block)
    (hvalid : chain.applyBlock (env.subsidy index.tables.height) block = some chain')
    (hfold : block.processingOrder.foldlM (indexTransaction env (index.context block))
      (index.tables.lostSats, index.updater env block) = some (lostSats, updater)) :
    ∃ log, log.map Prod.fst = block.processingOrder ∧ BlockLogged env updater chain' moves log := by
  obtain ⟨coinbase, txs, chainState, htxdata, hcoinbase, hothers, hchain, rfl⟩ :=
    applyBlock_cases hvalid
  have hprocessing : block.processingOrder = txs ++ [coinbase] := by
    simp [BlockData.processingOrder, htxdata]
  have hnode : ∀ tx ∈ block.txdata, ∀ number output, tx.output[number]? = some output →
      env.nodeValue (tx.outpoint number) = some output.value :=
    fun tx htx number output houtput => nodeValue_of_serves hserves htx houtput
  unfold BlockInOrder at horder
  rw [hprocessing] at horder hchain hfold ⊢
  rw [List.foldlM_append] at hchain hfold
  obtain ⟨chainMiddle, hchainTxs, hchain⟩ := Option.bind_eq_some_iff.1 hchain
  obtain ⟨middle, htxs, hfold⟩ := Option.bind_eq_some_iff.1 hfold
  rw [List.foldlM_cons] at hchain hfold
  obtain ⟨chainLast, hchainLast, hchain⟩ := Option.bind_eq_some_iff.1 hchain
  obtain ⟨last, hlast, hfold⟩ := Option.bind_eq_some_iff.1 hfold
  cases hchain
  cases hfold
  have hstart : Logged env (index.updater env block) chain moves [] :=
    { tracked := by
        rw [List.flatMap_nil, List.append_nil]
        exact traced.tracked
      recorded := .empty
      ordered := fun _ => List.Pairwise.nil
      values := traced.values
      known := traced.known
      logSeen := fun _ hmem => absurd hmem List.not_mem_nil }
  obtain ⟨log, hlog, logged⟩ := Logged.foldlM hstart hothers
    (fun tx hmem => hnode tx (by rw [htxdata]; exact List.mem_cons_of_mem _ hmem)) horder hchainTxs htxs
  rw [List.nil_append] at logged
  obtain ⟨chain, reward⟩ := chainMiddle
  obtain ⟨chain', reward'⟩ := chainState
  obtain ⟨hzero, hfresh, hcases⟩ := applyTransaction_cases hchainLast
  rcases hcases with ⟨-, hlength, -, -, rfl⟩ | ⟨_, _, hother, -⟩
  · obtain ⟨own, settled⟩ := logged.coinbase hzero hfresh hcoinbase hlength
      (hnode coinbase (by rw [htxdata]; exact List.mem_cons_self)) hlast
    exact ⟨log ++ [(coinbase, own)], by rw [List.map_append, hlog]; rfl, settled⟩
  · rw [hcoinbase] at hother
    cases hother

/-- A valid block goes on with the history. -/
theorem BlockLogged.finish {block : BlockData} {lostSats : ℕ} {updater : Updater K P}
    {chain : ChainState} {log : MoveLog} (settled : BlockLogged env updater chain moves log)
    (context : BlockContext K P) :
    Traced env
      ({ index with
          tables := finishBlock env context block lostSats updater
          valueCache := updater.valueCache }, chain) (moves ++ log.flatMap Prod.snd) :=
  ⟨settled.tracked, settled.values, settled.known⟩

/-- A commit writes cached values down, in lean replay some of them. -/
theorem ValuesRight.commit {utxo : UtxoSet} {seen : List Txid}
    (right : ValuesRight env index.valueCache index.tables.outpointToValue utxo seen) :
    ValuesRight env (index.commit env).valueCache (index.commit env).tables.outpointToValue utxo seen := by
  have hempty : ∀ outpoint, (index.commit env).valueCache.lookup outpoint = none :=
    fun outpoint => AList.lookup_empty _
  have hwritten : ∀ {outpoint value},
      (index.commit env).tables.outpointToValue.lookup outpoint = some value →
      (∃ row, index.valueCache.lookup outpoint = some row ∧ row.1 = value) ∨
        index.tables.outpointToValue.lookup outpoint = some value := by
    intro outpoint value hrow
    have hsublist := List.filter_sublist (p := fun row : Sigma fun _ : OutPoint => ℕ × Bool =>
      !env.tapLean || row.2.2) (l := index.valueCache.entries)
    have hlookup := lookup_foldl_insert Prod.fst outpoint _ index.tables.outpointToValue
      (index.valueCache.nodupKeys.sublist hsublist)
    change (index.commit env).tables.outpointToValue.lookup outpoint = _ at hlookup
    rw [hlookup, Option.or_eq_some_iff] at hrow
    rcases hrow with hrow | ⟨-, hrow⟩
    · obtain ⟨row, hrow, hvalue⟩ := Option.map_eq_some_iff.1 hrow
      have hmem := hsublist.subset (List.of_mem_dlookup hrow)
      exact .inl ⟨row, AList.mem_lookup_iff.2 hmem, hvalue⟩
    · exact .inr hrow
  constructor
  · intro outpoint value row _ hrow
    rw [hempty] at hrow
    cases hrow
  · intro outpoint value found hvalue hrow
    rcases hwritten hrow with ⟨row, hcached, rfl⟩ | hrow
    · exact right.cached outpoint value row hvalue hcached
    · exact right.stored outpoint value found hvalue hrow
  · exact right.node
  · intro outpoint row hrow
    rw [hempty] at hrow
    cases hrow
  · intro outpoint value hrow
    rcases hwritten hrow with ⟨row, hrow, -⟩ | hrow
    · exact right.cacheSeen outpoint row hrow
    · exact right.tableSeen outpoint value hrow

theorem Traced.commit {chain : ChainState} (traced : Traced env (index, chain) moves) :
    Traced env (index.commit env, chain) moves where
  tracked := traced.tracked
  values := traced.values.commit
  known := traced.known

end OrdDogecoin.Inscriptions
