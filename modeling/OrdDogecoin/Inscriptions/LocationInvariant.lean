/-
Module: OrdDogecoin.Inscriptions.LocationInvariant
Purpose: Over every run of valid blocks and commits in which every transaction that completes an
  inscription spends something, the location tables stay inverse and every inscription is inside an
  unspent output or in the lost range.
Trusted boundary: none
Main exports: LocationBijection, InscriptionsFunded, locations_bijective_of_funded
-/
import OrdDogecoin.Inscriptions.Operations
import OrdDogecoin.Inscriptions.Transactions
import OrdDogecoin.Lib.Run

namespace OrdDogecoin.Inscriptions

open Chain KeyTable

variable {K P : Type} {env : IndexEnv K P} {context : BlockContext K P} {tx : Transaction}
  {index : Index K P}

/-! ### Numbers stay -/

/-- Numbers that were given are kept. -/
structure NumbersKept (before after : Updater K P) : Prop where
  grows : before.nextNumber ≤ after.nextNumber
  rows : ∀ number, number < before.nextNumber →
    after.numberToId.lookup number = before.numberToId.lookup number

namespace NumbersKept

theorem of_eq {before after : Updater K P} (hnext : after.nextNumber = before.nextNumber)
    (htable : after.numberToId = before.numberToId) : NumbersKept before after :=
  ⟨hnext.ge, fun number _ => by rw [htable]⟩

theorem trans {first second third : Updater K P} (left : NumbersKept first second)
    (right : NumbersKept second third) : NumbersKept first third :=
  ⟨left.grows.trans right.grows, fun number hlt => by
    rw [right.rows number (hlt.trans_le left.grows), left.rows number hlt]⟩

theorem update (flotsam : Flotsam) (satpoint : SatPoint) (updater : Updater K P) :
    NumbersKept updater (updateInscriptionLocation env context tx flotsam satpoint updater) := by
  unfold updateInscriptionLocation enterNewLocation tapHook recordOperation leaveOldLocation
  cases flotsam.origin with
  | old old => exact of_eq rfl rfl
  | new fee inscription =>
      constructor
      · dsimp only
        split <;> exact Nat.le_succ _
      · intro number hlt
        dsimp only
        split
        · exact AList.lookup_insert_ne (Nat.ne_of_lt hlt)
        · rfl

/-- The pass over a block keeps the numbers, in both modes. -/
theorem kept (env : IndexEnv K P) (context : BlockContext K P) (txdata : List Transaction)
    (before : Updater K P) : KeptByPass env context txdata (NumbersKept before) where
  values _ _ _ kept := kept.trans (of_eq rfl rfl)
  chains _ _ _ kept := kept.trans (of_eq rfl rfl)
  carried _ _ kept := kept.trans (of_eq rfl rfl)
  move flotsam satpoint _ _ kept := kept.trans (update flotsam satpoint _)

end NumbersKept

/-- Every number in the table is below the number behind it. -/
theorem lt_numberAfter {numberToId : KeyTable ℕ InscriptionId} {number : ℕ} {id : InscriptionId}
    (hrow : numberToId.lookup number = some id) : number < numberAfter numberToId := by
  have hmem : number ∈ numberToId.keys :=
    AList.mem_keys.1 (AList.lookup_isSome.1 (by rw [hrow]; rfl))
  unfold numberAfter
  revert hmem
  induction numberToId.keys with
  | nil => exact fun hmem => absurd hmem List.not_mem_nil
  | cons first rest ih =>
      intro hmem
      rw [List.foldr_cons]
      rcases List.mem_cons.1 hmem with rfl | hmem
      · exact Nat.lt_of_lt_of_le (Nat.lt_succ_self _) (le_max_left _ _)
      · exact Nat.lt_of_lt_of_le (ih hmem) (le_max_right _ _)

/-- Numbers stay from block to block, in both modes. -/
theorem numberToId_step {index index' : Index K P} {action : IndexAction}
    (hstep : index.step env action = some index') {number : ℕ} {id : InscriptionId}
    (hrow : index.tables.numberToId.lookup number = some id) :
    index'.tables.numberToId.lookup number = some id := by
  cases action with
  | commit =>
      cases hstep
      exact hrow
  | block block =>
      obtain ⟨⟨lost, updater⟩, hfold, hindex⟩ := Option.bind_eq_some_iff.1 hstep
      cases hindex
      have kept := (NumbersKept.kept env _ block.txdata _).foldlM
        (fun _ => mem_processingOrder.1) hfold (.of_eq rfl rfl)
      have hlt : number < (index.updater env block).nextNumber :=
        Nat.lt_of_lt_of_le (lt_numberAfter hrow) (le_max_left _ _)
      exact (kept.rows number hlt).trans hrow

/-! ### Blocks -/

/-- The pass over the transactions next to the chain. -/
def pairStep (env : IndexEnv K P) (context : BlockContext K P)
    (state : (ℕ × Updater K P) × (ChainState × ℕ)) (tx : Transaction) :
    Option ((ℕ × Updater K P) × (ChainState × ℕ)) := do
  let indexed ← indexTransaction env context state.1 tx
  let chain ← ChainState.applyTransaction state.2 tx
  some (indexed, chain)

/-- A transaction that completes an inscription spends something. -/
def Funded (subsidy : ℕ) (state : (ℕ × Updater K P) × (ChainState × ℕ)) (tx : Transaction) : Prop :=
  completesInscription state.1.2.toTables tx = true → 0 < inputTotal subsidy state.2.1 tx

instance (subsidy : ℕ) (state : (ℕ × Updater K P) × (ChainState × ℕ)) (tx : Transaction) :
    Decidable (Funded subsidy state tx) :=
  inferInstanceAs (Decidable (_ → _))

/-- Every transaction of a block that completes an inscription spends something. -/
def BlockFunded (env : IndexEnv K P) (state : Index K P × ChainState) (block : BlockData) : Prop :=
  let subsidy := env.subsidy state.1.tables.height
  Run.Along (pairStep env (state.1.context block)) (Funded subsidy) block.processingOrder
    ((state.1.tables.lostSats, state.1.updater env block), (state.2, subsidy))

instance (env : IndexEnv K P) (state : Index K P × ChainState) (block : BlockData) :
    Decidable (BlockFunded env state block) :=
  inferInstanceAs (Decidable (Run.Along _ _ _ _))

/-- One valid transaction before the coinbase. -/
theorem InBlock.step {subsidy : ℕ} {state : ℕ × Updater K P} {chainState chainState' : ChainState × ℕ}
    (full : env.tapLean = false) (context : BlockContext K P)
    (inBlock : InBlock env subsidy state chainState) (hcoinbase : tx.isCoinbase = false)
    (hvalid : ChainState.applyTransaction chainState tx = some chainState')
    (hfunded : Funded subsidy (state, chainState) tx) :
    Yields env (indexTransaction env context state tx) fun state' =>
      InBlock env subsidy state' chainState' := by
  obtain ⟨lost, updater⟩ := state
  obtain ⟨chain, reward⟩ := chainState
  obtain ⟨chain', reward'⟩ := chainState'
  obtain ⟨hzero, hfresh, hcases⟩ := applyTransaction_cases hvalid
  rcases hcases with ⟨hother, -⟩ | ⟨total, utxo, -, hinput, hspend, hpays, rfl, rfl⟩
  · rw [hcoinbase] at hother
    cases hother
  · apply inBlock.transaction full context hzero hfresh hcoinbase hinput hspend hpays
    intro hcompletes
    have hpositive := hfunded hcompletes
    rw [inputTotal, hcoinbase, hspend] at hpositive
    exact hpositive

/-- The coinbase of a valid block. -/
theorem InBlock.last {subsidy : ℕ} {state : ℕ × Updater K P} {chainState chainState' : ChainState × ℕ}
    (full : env.tapLean = false) (context : BlockContext K P)
    (hsubsidy : env.subsidy context.height = subsidy)
    (inBlock : InBlock env subsidy state chainState) (hcoinbase : tx.isCoinbase = true)
    (hvalid : ChainState.applyTransaction chainState tx = some chainState')
    (hfunded : Funded subsidy (state, chainState) tx) :
    Yields env (indexTransaction env context state tx) fun state' =>
      Settles env state' chainState'.1 := by
  obtain ⟨lost, updater⟩ := state
  obtain ⟨chain, reward⟩ := chainState
  obtain ⟨chain', reward'⟩ := chainState'
  obtain ⟨hzero, hfresh, hcases⟩ := applyTransaction_cases hvalid
  rcases hcases with ⟨-, hlength, hpays, rfl, rfl⟩ | ⟨total, utxo, hother, -⟩
  · apply inBlock.coinbase full context hsubsidy hzero hfresh hcoinbase hlength hpays
    intro hcompletes
    have hpositive := hfunded hcompletes
    rw [inputTotal, if_pos hcoinbase] at hpositive
    exact hpositive
  · rw [hcoinbase] at hother
    cases hother

/-- The transactions of a block, the coinbase last, by induction on those before it. -/
theorem InBlock.pass {subsidy : ℕ} {coinbase : Transaction} {txs : List Transaction}
    {chainState' : ChainState × ℕ} (full : env.tapLean = false) (context : BlockContext K P)
    (hsubsidy : env.subsidy context.height = subsidy) (hcoinbase : coinbase.isCoinbase = true) :
    ∀ {state : ℕ × Updater K P} {chainState : ChainState × ℕ}, InBlock env subsidy state chainState →
      (∀ tx ∈ txs, tx.isCoinbase = false) →
      (txs ++ [coinbase]).foldlM ChainState.applyTransaction chainState = some chainState' →
      Run.Along (pairStep env context) (Funded subsidy) (txs ++ [coinbase]) (state, chainState) →
      Yields env ((txs ++ [coinbase]).foldlM (indexTransaction env context) state) fun state' =>
        Settles env state' chainState'.1 := by
  induction txs with
  | nil =>
      intro state chainState inBlock _ hvalid halong
      rw [List.nil_append, List.foldlM_cons] at hvalid ⊢
      obtain ⟨last, hlast, hvalid⟩ := Option.bind_eq_some_iff.1 hvalid
      cases hvalid
      exact (inBlock.last full context hsubsidy hcoinbase hlast halong.1).bind fun state' hsettles =>
        Yields.some hsettles
  | cons tx txs ih =>
      intro state chainState inBlock hother hvalid halong
      rw [List.cons_append, List.foldlM_cons] at hvalid ⊢
      obtain ⟨middle, hmiddle, hvalid⟩ := Option.bind_eq_some_iff.1 hvalid
      have hstep := inBlock.step full context (hother tx List.mem_cons_self) hmiddle halong.1
      refine hstep.result.bind fun state' ⟨hindexed, inBlock'⟩ => ?_
      apply ih inBlock' (fun other hmem => hother other (List.mem_cons_of_mem _ hmem)) hvalid
      exact halong.2 (state', middle) (by simp [pairStep, hindexed, hmiddle])

/-! ### Between blocks -/

/-- The updater that a block would start with, less what the invariants do not read. -/
def Index.resting (index : Index K P) : Updater K P :=
  { index.tables with
    valueCache := index.valueCache
    flotsam := []
    operations := ∅
    nextNumber := max (numberAfter index.tables.numberToId) index.tables.leanNextNumber
    reward := 0
    blockAvailabilityCache := ∅
    tapPrefetched := [] }

/-- The invariant between two blocks. -/
def Resting (env : IndexEnv K P) (state : Index K P × ChainState) : Prop :=
  Settles env (state.1.tables.lostSats, state.1.resting) state.2

theorem Resting.inBlock {chain : ChainState} (resting : Resting env (index, chain))
    (block : BlockData) :
    InBlock env (env.subsidy index.tables.height)
      (index.tables.lostSats, index.updater env block)
      (chain, env.subsidy index.tables.height) where
  located :=
    ⟨resting.located.inverse, resting.located.placed, resting.located.leaving,
      resting.located.arriving, resting.located.distinct, resting.located.numbered⟩
  chains :=
    ⟨resting.chains.located, resting.chains.onTheWay, resting.chains.opened, resting.chains.heads,
      resting.chains.stored⟩
  known := resting.known
  values := resting.values
  reward := rfl
  lostSats := rfl
  sorted := List.Pairwise.nil
  floor := le_rfl
  range _ hmem := absurd hmem List.not_mem_nil

/-- The end of a block. -/
theorem Settles.finish {block : BlockData} {lostSats : ℕ} {updater : Updater K P}
    {chain : ChainState} (settles : Settles env (lostSats, updater) chain)
    (context : BlockContext K P) :
    Resting env
      ({ index with
          tables := finishBlock env context block lostSats updater
          valueCache := updater.valueCache }, chain) where
  located :=
    { inverse := settles.located.inverse
      placed := settles.located.placed
      leaving := settles.located.leaving
      arriving := settles.located.arriving
      distinct := settles.located.distinct
      numbered :=
        { iff_located := settles.located.numbered.iff_located
          below := fun _ _ hrow => Nat.lt_of_lt_of_le (lt_numberAfter hrow) (le_max_left _ _)
          once := settles.located.numbered.once } }
  chains :=
    ⟨settles.chains.located, settles.chains.onTheWay, settles.chains.opened, settles.chains.heads,
      settles.chains.stored⟩
  known := settles.known
  values := settles.values

/-- A valid and funded block is indexed, and the invariant holds after it. -/
theorem Resting.block {chain chain' : ChainState} {block : BlockData} (full : env.tapLean = false)
    (resting : Resting env (index, chain))
    (hvalid : chain.applyBlock (env.subsidy index.tables.height) block = some chain')
    (hfunded : BlockFunded env (index, chain) block) :
    Yields env (indexBlock env index block) fun index' => Resting env (index', chain') := by
  unfold ChainState.applyBlock at hvalid
  split at hvalid
  next hfirst =>
    obtain ⟨chainState', hfold, rfl⟩ := Option.map_eq_some_iff.1 hvalid
    obtain ⟨coinbase, txs, htxdata, hcoinbase, hothers⟩ :
        ∃ coinbase txs, block.txdata = coinbase :: txs ∧ coinbase.isCoinbase = true ∧
          ∀ tx ∈ txs, tx.isCoinbase = false := by
      unfold BlockData.coinbaseFirst at hfirst
      cases htxdata : block.txdata with
      | nil => simp [htxdata] at hfirst
      | cons coinbase txs => exact ⟨coinbase, txs, rfl, by simpa [htxdata] using hfirst⟩
    have horder : block.processingOrder = txs ++ [coinbase] := by
      simp [BlockData.processingOrder, htxdata]
    unfold BlockFunded at hfunded
    rw [horder] at hfold hfunded
    have hpass := (resting.inBlock block).pass full (index.context block) rfl hcoinbase hothers hfold
      hfunded
    unfold indexBlock
    rw [horder]
    exact hpass.bind fun state hsettles => Yields.some (hsettles.finish _)
  next => cases hvalid

/-- A commit writes the cached values down. -/
theorem knownValue_commit (full : env.tapLean = false) (index : Index K P) (outpoint : OutPoint) :
    knownValue env (index.commit env).valueCache (index.commit env).tables.outpointToValue outpoint =
      knownValue env index.valueCache index.tables.outpointToValue outpoint := by
  have hfilter : index.valueCache.entries.filter (fun row => !env.tapLean || row.2.2) =
      index.valueCache.entries := by simp [full]
  have hwritten : (index.commit env).tables.outpointToValue.lookup outpoint =
      ((index.valueCache.lookup outpoint).map Prod.fst).or
        (index.tables.outpointToValue.lookup outpoint) := by
    unfold Index.commit
    dsimp only
    rw [hfilter]
    exact lookup_foldl_insert Prod.fst outpoint _ _ index.valueCache.nodupKeys
  have hempty : (index.commit env).valueCache.lookup outpoint = none := AList.lookup_empty _
  unfold knownValue
  rw [hempty, hwritten, Option.map_none, Option.none_or, Option.or_assoc]

theorem Resting.commit {chain : ChainState} (full : env.tapLean = false)
    (resting : Resting env (index, chain)) : Resting env (index.commit env, chain) where
  located :=
    ⟨resting.located.inverse, resting.located.placed, resting.located.leaving,
      resting.located.arriving, resting.located.distinct, resting.located.numbered⟩
  chains :=
    ⟨resting.chains.located, resting.chains.onTheWay, resting.chains.opened, resting.chains.heads,
      resting.chains.stored⟩
  known := resting.known
  values outpoint value hvalue :=
    (knownValue_commit full index outpoint).trans (resting.values outpoint value hvalue)

/-- A new index, over a chain whose outputs the node knows. -/
theorem Resting.empty {start : ChainState} (known : start.Known)
    (hnode : ∀ outpoint value, start.utxo.lookup outpoint = some value →
      env.nodeValue outpoint = some value) (height : ℕ) (tapKv : K) (protocols : P) :
    Resting env (Index.empty height tapKv protocols, start) where
  located :=
    { inverse := Inverse.empty
      placed := fun satpoint id hrow => by cases hrow
      leaving := fun flotsam hmem => absurd hmem List.not_mem_nil
      arriving := fun flotsam hmem => absurd hmem List.not_mem_nil
      distinct := List.nodup_nil
      numbered :=
        { iff_located := fun id => by
            constructor
            · rintro ⟨number, hrow⟩
              cases hrow
            · intro hrow
              cases hrow
          below := fun number id hrow => by cases hrow
          once := fun number number' id hrow => by cases hrow } }
  chains :=
    { located := fun id satpoint hrow => by cases hrow
      onTheWay := fun flotsam hmem => absurd hmem List.not_mem_nil
      opened := fun key txids hrow => by cases hrow
      heads := fun key key' head rest rest' hrow => by cases hrow
      stored := fun key txids hrow => by cases hrow }
  known := known
  values outpoint value hvalue := hnode outpoint value hvalue

/-! ### Runs -/

/-- What the location tables promise about the chain. -/
structure LocationBijection (tables : Tables K P) (chain : ChainState) : Prop where
  inverse : Inverse tables.satpointToId tables.idToSatpoint
  /-- Exactly the numbered inscriptions are located, ... -/
  numbered : ∀ id, (∃ number, tables.numberToId.lookup number = some id) ↔
    ∃ satpoint, tables.idToSatpoint.lookup id = some satpoint
  /-- ... each of them numbered once. -/
  once : ∀ number number' id, tables.numberToId.lookup number = some id →
    tables.numberToId.lookup number' = some id → number = number'
  settled : ∀ satpoint id, tables.satpointToId.lookup satpoint = some id →
    Settled chain tables.lostSats satpoint

/-- The chain knows nothing of commits. -/
def chainStep (subsidy : ℕ) (chain : ChainState) : IndexAction → Option ChainState
  | .block block => chain.applyBlock subsidy block
  | .commit => some chain

/-- Blocks go to the index and to the chain, and only valid ones; commits fall anywhere. -/
def locationStep (env : IndexEnv K P) (state : Index K P × ChainState) (action : IndexAction) :
    Option (Index K P × ChainState) := do
  let chain ← chainStep (env.subsidy state.1.tables.height) state.2 action
  let index ← state.1.step env action
  some (index, chain)

/-- Every transaction of a block that completes an inscription spends something. -/
def InscriptionsFunded (env : IndexEnv K P) (state : Index K P × ChainState) : IndexAction → Prop
  | .block block => BlockFunded env state block
  | .commit => True

instance (env : IndexEnv K P) (state : Index K P × ChainState) (action : IndexAction) :
    Decidable (InscriptionsFunded env state action) :=
  match action with
  | .block block => inferInstanceAs (Decidable (BlockFunded env state block))
  | .commit => isTrue trivial

theorem Resting.step {state state' : Index K P × ChainState} {action : IndexAction}
    (full : env.tapLean = false) (resting : Resting env state)
    (hfunded : InscriptionsFunded env state action)
    (hstep : locationStep env state action = some state') : Resting env state' := by
  obtain ⟨index, chain⟩ := state
  obtain ⟨chain', hchain, hstep⟩ := Option.bind_eq_some_iff.1 hstep
  obtain ⟨index', hindex, hstep⟩ := Option.bind_eq_some_iff.1 hstep
  cases hstep
  cases action with
  | block block => exact (resting.block full hchain hfunded).1 index' hindex
  | commit =>
      cases hchain
      cases hindex
      exact resting.commit full

theorem Resting.locationBijection {state : Index K P × ChainState} (resting : Resting env state) :
    LocationBijection state.1.tables state.2 where
  inverse := resting.located.inverse
  numbered id := by
    rw [← Option.isSome_iff_exists]
    exact resting.located.numbered.iff_located id
  once := resting.located.numbered.once
  settled satpoint id hrow := by
    rcases resting.located.placed satpoint id hrow with hsettled | ⟨flotsam, hmem, -⟩
    · exact hsettled
    · exact absurd hmem List.not_mem_nil

/-- Along every run from an empty index in which every transaction that completes an inscription
spends something, the two location tables are inverse, the inscriptions numbered at any time are
exactly those located, and each is inside an unspent output or in the lost range.  Without overflow
checks every such block is indexed. -/
theorem locations_bijective_of_funded (full : env.tapLean = false) {start : ChainState}
    (known : start.Known)
    (hnode : ∀ outpoint value, start.utxo.lookup outpoint = some value →
      env.nodeValue outpoint = some value)
    {height : ℕ} {tapKv : K} {protocols : P} {middle last : Index K P × ChainState}
    (reached : Run.Reaches (locationStep env) (InscriptionsFunded env)
      (Index.empty height tapKv protocols, start) middle)
    (later : Run.Reaches (locationStep env) (InscriptionsFunded env) middle last) :
    LocationBijection last.1.tables last.2 ∧
      (∀ number id, middle.1.tables.numberToId.lookup number = some id →
        last.1.tables.numberToId.lookup number = some id) ∧
      (env.overflowChecks = false → ∀ block chain,
        last.2.applyBlock (env.subsidy last.1.tables.height) block = some chain →
        BlockFunded env last block → (indexBlock env last.1 block).isSome) := by
  have hmiddle : Resting env middle := reached.invariant (Resting env)
    (fun resting hfunded hstep => resting.step full hfunded hstep)
    (Resting.empty known hnode height tapKv protocols)
  have hlast : Resting env last := later.invariant (Resting env)
    (fun resting hfunded hstep => resting.step full hfunded hstep) hmiddle
  refine ⟨hlast.locationBijection, ?_, fun hchecks block chain hvalid hfunded =>
    (hlast.block full hvalid hfunded).2 hchecks⟩
  intro number id
  refine later.invariant
    (fun state => middle.1.tables.numberToId.lookup number = some id →
      state.1.tables.numberToId.lookup number = some id) ?_ (fun hrow => hrow)
  intro state state' action hkept _ hstep hrow
  obtain ⟨chain', -, hstep⟩ := Option.bind_eq_some_iff.1 hstep
  obtain ⟨index', hindex, hstep⟩ := Option.bind_eq_some_iff.1 hstep
  cases hstep
  exact numberToId_step hindex (hkept hrow)

/-! ### Sample runs -/

/-- An index without TAP and other protocols, at a subsidy of 100. -/
def plainEnv : IndexEnv Unit Unit where
  tapLean := false
  overflowChecks := false
  subsidy _ := 100
  node _ := none
  nodeBlockContains _ _ := false
  addressFromScript _ := none
  dogemapStartHeight := 0
  engine :=
    { header := fun _ _ _ kv => kv
      created := fun _ _ _ kv => .done kv
      transferred := fun _ _ _ kv => .done kv }
  protocols _ _ _ _ protocols := protocols

/-- A complete inscription without content. -/
def plainScript : Script := [3, 111, 114, 100, 81, 0, 0, 0]

/-- A transaction that spends one output, with a scriptSig. -/
def spendOf (txid : Txid) (outpoint : OutPoint) (script : Script) (values : List ℕ) : Transaction where
  txid := txid
  input := [{ previousOutput := outpoint, scriptSig := script }]
  output := values.map fun value => { value := value }

/-- A block of a coinbase and the transactions behind it. -/
def blockOf (coinbase : Txid) (values : List ℕ) (txs : List Transaction) : IndexAction :=
  .block
    { header := { blockHash := coinbase, prevBlockhash := 0 }
      txdata := spendOf coinbase OutPoint.null [] values :: txs }

def plainStart : Index Unit Unit × ChainState := (Index.empty 0 () (), { utxo := ∅, seen := [] })

/-- The location of an inscription, the inscription at that location, and the lost sats. -/
def locationView (id : InscriptionId) (state : Index Unit Unit × ChainState) :
    Option SatPoint × Option InscriptionId × ℕ :=
  let satpoint := state.1.tables.idToSatpoint.lookup id
  (satpoint, satpoint.bind fun satpoint => state.1.tables.satpointToId.lookup satpoint,
    state.1.tables.lostSats)

/-- An inscription is made, committed, paid away as a fee and lost with an underpaying coinbase. -/
theorem lostInscription_bijective :
    ∃ last, Run.Reaches (locationStep plainEnv) (InscriptionsFunded plainEnv) plainStart last ∧
      locationView ⟨2, 0⟩ last = (some ⟨OutPoint.null, 0⟩, some ⟨2, 0⟩, 60) ∧
      LocationBijection last.1.tables last.2 := by
  have hexec : (Run.exec (locationStep plainEnv)
      (fun state action => decide (InscriptionsFunded plainEnv state action))
      [blockOf 1 [100] [], blockOf 3 [140] [spendOf 2 ⟨1, 0⟩ plainScript [60]], .commit,
        blockOf 5 [100] [spendOf 4 ⟨2, 0⟩ [] [0]]] plainStart).map (locationView ⟨2, 0⟩) =
          some (some ⟨OutPoint.null, 0⟩, some ⟨2, 0⟩, 60) := by decide
  have hrun : ∃ last, Run.Reaches (locationStep plainEnv) (InscriptionsFunded plainEnv) plainStart
      last ∧ locationView ⟨2, 0⟩ last = (some ⟨OutPoint.null, 0⟩, some ⟨2, 0⟩, 60) :=
    Run.exists_reaches_of_exec of_decide_eq_true hexec
  obtain ⟨last, reaches, hview⟩ := hrun
  have hknown : ChainState.Known { utxo := ∅, seen := [] } :=
    ⟨List.not_mem_nil, fun outpoint value hvalue => by cases hvalue⟩
  exact ⟨last, reaches, hview, (locations_bijective_of_funded rfl hknown
    (fun outpoint value hvalue => by cases hvalue) reaches .refl).1⟩

/-- Two inscriptions revealed by transactions that spend outputs of value zero collide: both are
carried to the end of the reward, where no sat is. -/
theorem zeroValueReveals_not_bijective :
    ∃ last, Run.Reaches (locationStep plainEnv) (fun _ _ => True) plainStart last ∧
      locationView ⟨2, 0⟩ last = (some ⟨OutPoint.null, 0⟩, some ⟨3, 0⟩, 0) ∧
      ¬ LocationBijection last.1.tables last.2 := by
  have hexec : (Run.exec (locationStep plainEnv) (fun _ _ => true)
      [blockOf 1 [100, 0, 0] [],
        blockOf 4 [100] [spendOf 2 ⟨1, 1⟩ plainScript [0], spendOf 3 ⟨1, 2⟩ plainScript [0]]]
      plainStart).map (locationView ⟨2, 0⟩) =
        some (some ⟨OutPoint.null, 0⟩, some ⟨3, 0⟩, 0) := by decide
  have hrun : ∃ last, Run.Reaches (locationStep plainEnv) (fun _ _ => True) plainStart last ∧
      locationView ⟨2, 0⟩ last = (some ⟨OutPoint.null, 0⟩, some ⟨3, 0⟩, 0) :=
    Run.exists_reaches_of_exec (fun _ => trivial) hexec
  obtain ⟨last, reaches, hview⟩ := hrun
  refine ⟨last, reaches, hview, fun bijection => ?_⟩
  simp only [locationView, Prod.mk.injEq] at hview
  obtain ⟨hlocation, hother, -⟩ := hview
  have hback := (bijection.inverse _ _).2 hlocation
  rw [hlocation, Option.bind_some, hback] at hother
  cases hother

end OrdDogecoin.Inscriptions
