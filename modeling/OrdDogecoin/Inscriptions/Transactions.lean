/-
Module: OrdDogecoin.Inscriptions.Transactions
Purpose: The location invariant between two transactions of a block: a transaction that pays fees
  keeps it, and the coinbase settles everything that is on its way.
Trusted boundary: none
Main exports: InBlock, InBlock.transaction, InBlock.coinbase
-/
import OrdDogecoin.Inscriptions.Assignment

namespace OrdDogecoin.Inscriptions

open Chain KeyTable

variable {K P : Type} {env : IndexEnv K P} {context : BlockContext K P} {tx : Transaction}
  {chain : ChainState} {updater : Updater K P} {utxo : UtxoSet}

/-! ### Chain states -/

/-- What a transaction spends: the subsidy for a coinbase. -/
def inputTotal (subsidy : ℕ) (chain : ChainState) (tx : Transaction) : ℕ :=
  if tx.isCoinbase then subsidy else ((spendInputs tx.input chain.utxo).map Prod.fst).getD 0

/-! ### Inside a block -/

/-- The invariant between two transactions of a block. -/
structure InBlock (env : IndexEnv K P) (subsidy : ℕ) (state : ℕ × Updater K P)
    (chainState : ChainState × ℕ) : Prop where
  located : Located state.2 state.2.flotsam chainState.1 state.2.lostSats
  chains : Chains state.2 state.2.flotsam chainState.1.seen
  known : chainState.1.Known
  values : Values env state.2.valueCache state.2.outpointToValue chainState.1.utxo
  reward : state.2.reward = chainState.2
  lostSats : state.1 = state.2.lostSats
  sorted : state.2.flotsam.Pairwise fun a b => a.offset < b.offset
  floor : subsidy ≤ state.2.reward
  range : ∀ flotsam ∈ state.2.flotsam, subsidy ≤ flotsam.offset ∧ flotsam.offset < state.2.reward

/-- Rows at an unspent output are inside it. -/
theorem Located.inside {pending : List Flotsam} {lostSats : ℕ}
    (located : Located updater pending chain lostSats) (known : chain.Known) {satpoint : SatPoint}
    {id : InscriptionId} {value : ℕ} (hrow : updater.satpointToId.lookup satpoint = some id)
    (hvalue : chain.utxo.lookup satpoint.outpoint = some value) : satpoint.offset < value := by
  rcases located.placed satpoint id hrow with hsettled | ⟨flotsam, hmem, horigin⟩
  · rcases hsettled with ⟨found, hfound, hlt⟩ | ⟨hnull, -⟩
    · rw [hvalue] at hfound
      cases hfound
      exact hlt
    · rw [hnull] at hvalue
      exact absurd (known.2 _ value hvalue) known.1
  · have hgone := (located.leaving flotsam hmem satpoint horigin).2.1
    rw [hvalue] at hgone
    cases hgone

theorem OutputsAssigned.values {before after : Updater K P} {carried rest inscriptions : List Flotsam}
    {lostSats outputValue : ℕ} {seen : List Txid}
    (assigned : OutputsAssigned tx before carried (ChainState.after chain tx utxo) lostSats seen
      inscriptions 0 tx.output.length outputValue rest after)
    (values : Values env before.valueCache before.outpointToValue utxo)
    (hfresh : ∀ outpoint value, utxo.lookup outpoint = some value → outpoint.txid ≠ tx.txid) :
    Values env after.valueCache after.outpointToValue (ChainState.after chain tx utxo).utxo := by
  intro outpoint value hvalue
  rcases lookup_after_cases hvalue with ⟨number, output, rfl, houtput, rfl⟩ | hold
  · have hlt := (List.getElem?_eq_some_iff.1 houtput).1
    obtain ⟨flag, hrow⟩ := assigned.cached number output (Nat.zero_le _) hlt houtput
    rw [knownValue, hrow]
    rfl
  · rw [knownValue, assigned.uncached outpoint (.inl (hfresh outpoint value hold)),
      assigned.outpointToValue]
    exact values outpoint value hold

/-- Assigning inscriptions with distinct offsets, in the order of their offsets. -/
theorem assignSorted_spec (full : env.tapLean = false) (context : BlockContext K P)
    {inscriptions carried : List Flotsam} {lostSats : ℕ} {seen : List Txid}
    (located : Located updater (inscriptions ++ carried) (ChainState.after chain tx utxo) lostSats)
    (chains : Chains updater (inscriptions ++ carried) seen)
    (hoffsets : (inscriptions.map Flotsam.offset).Nodup)
    (hfree : ∀ satpoint : SatPoint, satpoint.outpoint.txid = tx.txid →
      updater.satpointToId.lookup satpoint = none) :
    ∃ rest after,
      assignOutputs env context tx tx.output 0 0
          (inscriptions.insertionSort fun a b => a.offset ≤ b.offset) updater =
        (rest, tx.outputValue, after) ∧
      OutputsAssigned tx updater carried (ChainState.after chain tx utxo) lostSats seen
        (inscriptions.insertionSort fun a b => a.offset ≤ b.offset) 0 tx.output.length
        tx.outputValue rest after := by
  have hperm := (List.perm_insertionSort (fun a b : Flotsam => a.offset ≤ b.offset)
    inscriptions).symm.append_right carried
  obtain ⟨rest, after, hassign, hassigned⟩ := assignOutputs_spec full context
    (fun number output houtput => lookup_after_output houtput) tx.output 0 0 rfl (located.of_perm (hperm.map _))
    (chains.of_perm (hperm.map _)) (SortByKey.pairwise_insertionSort Flotsam.offset hoffsets)
    (fun flotsam _ => Nat.zero_le _) fun satpoint htxid _ => hfree satpoint htxid
  rw [Nat.zero_add] at hassign
  rw [Nat.zero_add, Nat.zero_add] at hassigned
  exact ⟨rest, after, hassign, hassigned⟩

/-! ### Transactions that pay fees -/

section Fees

variable {before after : Updater K P} {inscriptions rest : List Flotsam} {chain : ChainState}
  {subsidy lostSats total outputValue : ℕ} {seen : List Txid} {stop : ℕ}

/-- What the fees of a transaction carry, behind the reward so far. -/
def carriedBy (reward outputValue : ℕ) (rest : List Flotsam) : List Flotsam :=
  rest.map fun flotsam => { flotsam with offset := reward + flotsam.offset - outputValue }

theorem perm_carriedBy (carried : List Flotsam) (reward outputValue : ℕ) (rest : List Flotsam) :
    ((rest ++ carried).map Flotsam.key).Perm
      ((carried ++ carriedBy reward outputValue rest).map Flotsam.key) := by
  have hkeys : (carriedBy reward outputValue rest).map Flotsam.key = rest.map Flotsam.key := by
    rw [carriedBy, List.map_map]
    rfl
  rw [List.map_append, List.map_append, hkeys]
  exact List.perm_append_comm

/-- The carried inscriptions lie behind those of the transactions before, in the same order. -/
theorem pairwise_carriedBy {carried : List Flotsam} {reward : ℕ}
    (hcarried : carried.Pairwise fun a b => a.offset < b.offset)
    (hbelow : ∀ flotsam ∈ carried, flotsam.offset < reward)
    (hrest : rest.Pairwise fun a b => a.offset < b.offset)
    (hbase : ∀ flotsam ∈ rest, outputValue ≤ flotsam.offset) :
    (carried ++ carriedBy reward outputValue rest).Pairwise fun a b => a.offset < b.offset := by
  rw [List.pairwise_append]
  refine ⟨hcarried, ?_, ?_⟩
  · rw [carriedBy, List.pairwise_map]
    refine hrest.imp_of_mem fun {first second} hfirst hsecond hlt => ?_
    have hfirst := hbase first hfirst
    dsimp only
    omega
  · intro first hfirst second hsecond
    obtain ⟨flotsam, hmem, rfl⟩ := List.mem_map.1 hsecond
    have hlt := hbelow first hfirst
    have hle := hbase flotsam hmem
    dsimp only
    omega

/-- The invariants do not read the reward, and the list of those on their way only as `pending`. -/
theorem Located.withFlotsam {pending : List Flotsam} (located : Located after pending chain lostSats)
    (flotsam : List Flotsam) (reward : ℕ) :
    Located { after with flotsam := flotsam, reward := reward } pending chain lostSats :=
  ⟨located.inverse, located.placed, located.leaving, located.arriving, located.distinct,
    located.numbered⟩

theorem Chains.withFlotsam {pending : List Flotsam} (chains : Chains after pending seen)
    (flotsam : List Flotsam) (reward : ℕ) :
    Chains { after with flotsam := flotsam, reward := reward } pending seen :=
  ⟨chains.located, chains.onTheWay, chains.opened, chains.heads, chains.stored⟩

theorem settleRest_fees (full : env.tapLean = false) (context : BlockContext K P)
    (hcoinbase : tx.isCoinbase = false)
    (hpays : outputValue ≤ total) (rest : List Flotsam) (after : Updater K P) :
    settleRest env context tx total outputValue rest after =
      some (0, { after with
        flotsam := after.flotsam ++ carriedBy after.reward outputValue rest
        reward := after.reward + (total - outputValue) }) := by
  simp [settleRest, hcoinbase, IndexEnv.addSub, hpays, carriedBy, IndexEnv.behind, full]

end Fees

/-- The loop over the inputs of a valid transaction that is no coinbase. -/
theorem InBlock.inputs {subsidy lost : ℕ} {reward total : ℕ}
    (inBlock : InBlock env subsidy (lost, updater) (chain, reward)) (context : BlockContext K P)
    (hspend : spendInputs tx.input chain.utxo = some (total, utxo)) :
    ∃ found cache table prefetched,
      takeInputs env context true tx.txid tx.input 0 updater =
        some (total, found, updater.withValues cache table prefetched) ∧
      Taken updater.satpointToId (tx.input.map TxIn.previousOutput) 0 total found ∧
      Values env cache table utxo := by
  obtain ⟨found, cache, table, prefetched, htake, taken, values⟩ :=
    takeInputs_spec context tx.txid 0 updater hspend
      (lookup_null inBlock.known) inBlock.values
      fun satpoint id value hrow hvalue => inBlock.located.inside inBlock.known hrow hvalue
  rw [Nat.zero_add] at htake taken
  exact ⟨found, cache, table, prefetched, htake, taken, values⟩

/-- The part of the pass behind the envelope. -/
def settleOutputs (env : IndexEnv K P) (context : BlockContext K P) (tx : Transaction)
    (inputValue : ℕ) (sorted : List Flotsam) (updater : Updater K P) : Option (ℕ × Updater K P) :=
  let assigned := assignOutputs env context tx tx.output 0 0 sorted updater
  settleRest env context tx inputValue assigned.2.1 assigned.1 assigned.2.2

/-- Behind the envelope: the inscriptions go to the outputs or are carried by the fees. -/
theorem InBlock.afterEnvelope {subsidy lost : ℕ}
    {reward total : ℕ} {cache : KeyTable OutPoint (ℕ × Bool)}
    {table : KeyTable OutPoint ℕ} {prefetched : List OutPoint} {read : List Flotsam × Updater K P}
    (full : env.tapLean = false) (context : BlockContext K P)
    (inBlock : InBlock env subsidy (lost, updater) (chain, reward)) (hzero : tx.txid ≠ 0)
    (hfresh : tx.txid ∉ chain.seen) (hcoinbase : tx.isCoinbase = false)
    (hsubset : ∀ outpoint value, utxo.lookup outpoint = some value →
      chain.utxo.lookup outpoint = some value)
    (hpays : tx.outputValue ≤ total) (values : Values env cache table utxo)
    (hread : EnvelopeRead (updater.withValues cache table prefetched) updater.flotsam
      (ChainState.after chain tx utxo) updater.lostSats total (tx.txid :: chain.seen) read) :
    ∃ after, settleOutputs env context tx total
        (read.1.insertionSort fun a b => a.offset ≤ b.offset) read.2 = some (0, after) ∧
      InBlock env subsidy (lost, after)
        (ChainState.after chain tx utxo, reward + (total - tx.outputValue)) := by
  obtain ⟨inscriptions, updater'⟩ := read
  obtain ⟨chainTable, txTable, contentTable, hsame⟩ := hread.same
  dsimp only at hsame
  subst hsame
  obtain ⟨rest, after, hassign, hassigned⟩ := assignSorted_spec full context hread.located
    hread.chains hread.offsets fun satpoint htxid =>
      inBlock.located.lookup_fresh inBlock.known hzero hfresh htxid
  have hflotsam : after.flotsam = updater.flotsam := hassigned.flotsam
  have hreward : after.reward = reward := hassigned.reward.trans inBlock.reward
  have hrange : ∀ flotsam ∈ rest, tx.outputValue ≤ flotsam.offset ∧ flotsam.offset < total :=
    fun flotsam hmem => ⟨hassigned.base flotsam hmem,
      hread.range flotsam ((List.mem_insertionSort _).1 (hassigned.subset flotsam hmem))⟩
  refine ⟨_, by
    rw [settleOutputs, hassign, settleRest_fees full context hcoinbase hpays], ?_⟩
  constructor
  · have hlost : after.lostSats = updater.lostSats := hassigned.lostSats
    dsimp only
    rw [hflotsam, hlost]
    exact (hassigned.located.of_perm (perm_carriedBy _ _ _ _)).withFlotsam _ _
  · dsimp only
    rw [hflotsam]
    exact (hassigned.chains.of_perm (perm_carriedBy _ _ _ _)).withFlotsam _ _
  · exact known_after inBlock.known hzero hsubset
  · exact hassigned.values values fun outpoint value hvalue heq =>
      hfresh (heq ▸ inBlock.known.2 outpoint value (hsubset outpoint value hvalue))
  · dsimp only
    rw [hreward]
  · exact inBlock.lostSats.trans hassigned.lostSats.symm
  · dsimp only
    rw [hflotsam]
    refine pairwise_carriedBy inBlock.sorted (fun flotsam hmem => ?_) hassigned.sorted
      hassigned.base
    rw [hassigned.reward]
    exact (inBlock.range flotsam hmem).2
  · have hfloor := inBlock.floor
    rw [inBlock.reward] at hfloor
    dsimp only
    rw [hreward]
    exact Nat.le_add_right_of_le hfloor
  · have hfloor := inBlock.floor
    rw [inBlock.reward] at hfloor
    intro flotsam hmem
    dsimp only at hmem hfloor ⊢
    rw [hflotsam, hreward] at hmem
    rw [hreward]
    rcases List.mem_append.1 hmem with hold | hnew
    · have hlt := inBlock.range flotsam hold
      have heq : updater.reward = reward := inBlock.reward
      dsimp only at hlt
      omega
    · obtain ⟨carried, hcarried, rfl⟩ := List.mem_map.1 hnew
      have hlt := hrange carried hcarried
      dsimp only
      omega

theorem InBlock.transaction {subsidy lost : ℕ} {reward total : ℕ} (full : env.tapLean = false)
    (context : BlockContext K P) (inBlock : InBlock env subsidy (lost, updater) (chain, reward))
    (hzero : tx.txid ≠ 0) (hfresh : tx.txid ∉ chain.seen) (hcoinbase : tx.isCoinbase = false)
    (hinput : tx.input ≠ []) (hspend : spendInputs tx.input chain.utxo = some (total, utxo))
    (hpays : tx.outputValue ≤ total)
    (hfunded : completesInscription updater.toTables tx = true → 0 < total) :
    Yields env (indexTransaction env context (lost, updater) tx) fun state =>
      InBlock env subsidy state (ChainState.after chain tx utxo, reward + (total - tx.outputValue)) := by
  obtain ⟨first, inputs, hinputs⟩ := List.exists_cons_of_ne_nil hinput
  obtain ⟨found, cache, table, prefetched, htake, taken, values⟩ := inBlock.inputs context hspend
  have located := inBlock.located.spend inBlock.known hfresh hspend taken cache table prefetched
  have chains := inBlock.chains.spend inBlock.located.inverse taken cache table prefetched
  have hoffsets : (found.map Flotsam.offset).Nodup :=
    List.pairwise_map.2 (taken.sorted.imp Nat.ne_of_lt)
  have hread := readEnvelope_spec full located chains hfresh hinputs hoffsets
    (fun flotsam hmem => (taken.range flotsam hmem).2) hfunded
  have hpass : indexTransaction env context (lost, updater) tx =
      ((readEnvelope env tx total found (updater.withValues cache table prefetched)).bind
        fun read => settleOutputs env context tx total
          (read.1.insertionSort fun a b => a.offset ≤ b.offset) read.2).map
            fun result => (lost + result.1, result.2) := by
    unfold indexTransaction indexTransactionInscriptions settleOutputs
    simp [full, htake, hcoinbase, sortedInscriptions, IndexEnv.add]
  rw [hpass, Option.map_bind]
  refine hread.bind fun read hread => ?_
  obtain ⟨after, hafter, hinBlock⟩ := inBlock.afterEnvelope full context hzero hfresh hcoinbase
    (subset_of_spendInputs hspend) hpays values hread
  rw [Function.comp_apply, hafter]
  exact Yields.some hinBlock

/-! ### The coinbase -/

section Coinbase

variable {updater : Updater K P} {pending : List Flotsam} {chain : ChainState} {lostSats : ℕ}

/-- New outputs do not disturb what is settled. -/
theorem Located.create (located : Located updater pending chain lostSats) (known : chain.Known)
    (hfresh : tx.txid ∉ chain.seen) :
    Located updater pending (ChainState.after chain tx chain.utxo) lostSats where
  inverse := located.inverse
  placed satpoint id hrow := by
    rcases located.placed satpoint id hrow with hsettled | hpending
    · rcases hsettled with ⟨value, hvalue, hlt⟩ | hlost
      · refine .inl (.inl ⟨value, ?_, hlt⟩)
        rw [lookup_after_of_ne fun heq => hfresh (heq ▸ known.2 _ value hvalue), hvalue]
      · exact .inl (.inr hlost)
    · exact .inr hpending
  leaving flotsam hmem satpoint horigin := by
    obtain ⟨hrow, hgone, hseen⟩ := located.leaving flotsam hmem satpoint horigin
    refine ⟨hrow, ?_, List.mem_cons_of_mem _ hseen⟩
    rw [lookup_after_of_ne fun heq => hfresh (heq ▸ hseen), hgone]
  arriving := located.arriving
  distinct := located.distinct
  numbered := located.numbered

/-- The lost range may grow. -/
theorem Located.mono (located : Located updater pending chain lostSats) {lostSats' : ℕ}
    (hle : lostSats ≤ lostSats') : Located updater pending chain lostSats' where
  inverse := located.inverse
  placed satpoint id hrow := by
    rcases located.placed satpoint id hrow with hsettled | hpending
    · rcases hsettled with hutxo | ⟨hnull, hlt⟩
      · exact .inl (.inl hutxo)
      · exact .inl (.inr ⟨hnull, Nat.lt_of_lt_of_le hlt hle⟩)
    · exact .inr hpending
  leaving := located.leaving
  arriving := located.arriving
  distinct := located.distinct
  numbered := located.numbered

/-- Nothing is at the null outpoint behind the lost range. -/
theorem Located.lookup_lost (located : Located updater pending chain lostSats) (known : chain.Known)
    {offset : ℕ} (hle : lostSats ≤ offset) :
    updater.satpointToId.lookup { outpoint := OutPoint.null, offset := offset } = none := by
  by_contra hsome
  obtain ⟨id, hrow⟩ := Option.ne_none_iff_exists'.1 hsome
  rcases located.placed _ id hrow with hsettled | ⟨flotsam, hmem, horigin⟩
  · rcases hsettled with ⟨value, hvalue, -⟩ | ⟨-, hlt⟩
    · rw [lookup_null known] at hvalue
      cases hvalue
    · exact Nat.not_lt.2 hle hlt
  · exact known.1 (located.leaving flotsam hmem _ horigin).2.2

/-- The inscriptions of the coinbase and those that the fees carry have distinct offsets. -/
theorem nodup_coinbase {own carried : List Flotsam} {subsidy : ℕ}
    (hown : (own.map Flotsam.offset).Nodup) (hbelow : ∀ flotsam ∈ own, flotsam.offset < subsidy)
    (hcarried : carried.Pairwise fun a b => a.offset < b.offset)
    (habove : ∀ flotsam ∈ carried, subsidy ≤ flotsam.offset) :
    ((own ++ carried).map Flotsam.offset).Nodup := by
  rw [List.map_append, List.nodup_append]
  refine ⟨hown, List.pairwise_map.2 (hcarried.imp Nat.ne_of_lt), ?_⟩
  rintro offset hmem other hother rfl
  obtain ⟨first, hfirst, rfl⟩ := List.mem_map.1 hmem
  obtain ⟨second, hsecond, heq⟩ := List.mem_map.1 hother
  have hlt := hbelow first hfirst
  have hle := habove second hsecond
  omega

/-- The rest of the coinbase goes to the lost range, behind what is there. -/
theorem placeLost_spec (full : env.tapLean = false) (context : BlockContext K P) (tx : Transaction)
    {rest : List Flotsam} {seen : List Txid} {outputValue reward : ℕ} (known : chain.Known)
    (located : Located updater (rest ++ []) chain lostSats) (chains : Chains updater (rest ++ []) seen)
    (hsorted : rest.Pairwise fun a b => a.offset < b.offset)
    (hbase : ∀ flotsam ∈ rest, outputValue ≤ flotsam.offset)
    (hbelow : ∀ flotsam ∈ rest, flotsam.offset < reward) (hpays : outputValue ≤ reward) :
    let after := placeAll env context tx (fun flotsam =>
      { outpoint := OutPoint.null, offset := lostSats + flotsam.offset - outputValue }) rest updater
    Located after [] chain (lostSats + (reward - outputValue)) ∧ Chains after [] seen ∧
      SameBesidesLocations updater after := by
  have hplaces := placeAll_spec full context tx (fun flotsam =>
      { outpoint := OutPoint.null, offset := lostSats + flotsam.offset - outputValue }) rest
    (located.mono (Nat.le_add_right lostSats (reward - outputValue))) chains
    (fun flotsam hmem => located.lookup_lost known (by have := hbase flotsam hmem; omega))
    (nodup_places hsorted hbase) fun flotsam hmem => .inr ⟨rfl, by
      have hle := hbase flotsam hmem
      have hlt := hbelow flotsam hmem
      dsimp only
      omega⟩
  exact ⟨hplaces.1, hplaces.2.1, hplaces.2.2.1⟩

theorem settleOutputs_lost (full : env.tapLean = false) {sorted rest : List Flotsam}
    {start after : Updater K P} {inputValue outputValue reward : ℕ} (hcoinbase : tx.isCoinbase = true)
    (hassign : assignOutputs env context tx tx.output 0 0 sorted start = (rest, outputValue, after))
    (hreward : (placeAll env context tx (fun flotsam =>
      { outpoint := OutPoint.null, offset := after.lostSats + flotsam.offset - outputValue }) rest
      after).reward = reward) (hpays : outputValue ≤ reward) :
    settleOutputs env context tx inputValue sorted start =
      some (reward - outputValue, placeAll env context tx (fun flotsam =>
        { outpoint := OutPoint.null, offset := after.lostSats + flotsam.offset - outputValue }) rest
        after) := by
  unfold settleOutputs settleRest
  rw [hassign, if_pos hcoinbase]
  simp only [IndexEnv.behind, full, Bool.false_eq_true, if_false]
  rw [hreward, IndexEnv.sub, if_pos hpays]
  rfl

/-- What is left of the invariant after the coinbase. -/
structure Settles (env : IndexEnv K P) (state : ℕ × Updater K P) (chain : ChainState) : Prop where
  located : Located state.2 [] chain state.1
  chains : Chains state.2 [] chain.seen
  known : chain.Known
  values : Values env state.2.valueCache state.2.outpointToValue chain.utxo

/-- Behind the envelope of the coinbase. -/
theorem InBlock.afterCoinbase {subsidy lost reward : ℕ} {read : List Flotsam × Updater K P}
    (full : env.tapLean = false) (context : BlockContext K P)
    (inBlock : InBlock env subsidy (lost, updater) (chain, reward)) (hzero : tx.txid ≠ 0)
    (hfresh : tx.txid ∉ chain.seen) (hcoinbase : tx.isCoinbase = true)
    (hpays : tx.outputValue ≤ reward)
    (hread : EnvelopeRead updater updater.flotsam (ChainState.after chain tx chain.utxo)
      updater.lostSats subsidy (tx.txid :: chain.seen) read) :
    ∃ after, settleOutputs env context tx subsidy
        ((read.1 ++ read.2.flotsam).insertionSort fun a b => a.offset ≤ b.offset)
        { read.2 with flotsam := [] } = some (reward - tx.outputValue, after) ∧
      Settles env (lost + (reward - tx.outputValue), after)
        (ChainState.after chain tx chain.utxo) := by
  obtain ⟨inscriptions, updater'⟩ := read
  obtain ⟨chainTable, txTable, contentTable, hsame⟩ := hread.same
  dsimp only at hsame
  subst hsame
  have hnodup : ((inscriptions ++ updater.flotsam).map Flotsam.offset).Nodup :=
    nodup_coinbase hread.offsets hread.range inBlock.sorted fun flotsam hmem =>
      (inBlock.range flotsam hmem).1
  have hknown : (ChainState.after chain tx chain.utxo).Known :=
    known_after inBlock.known hzero fun _ _ hvalue => hvalue
  have hlocated := hread.located.withFlotsam [] updater.reward
  have hchains := hread.chains.withFlotsam [] updater.reward
  rw [← List.append_nil (inscriptions ++ updater.flotsam)] at hlocated hchains
  obtain ⟨rest, after, hassign, hassigned⟩ := assignSorted_spec full context hlocated hchains hnodup
    fun satpoint htxid => inBlock.located.lookup_fresh inBlock.known hzero hfresh htxid
  have hreward : after.reward = reward := hassigned.reward.trans inBlock.reward
  have hlost : after.lostSats = updater.lostSats := hassigned.lostSats
  have hbelow : ∀ flotsam ∈ rest, flotsam.offset < reward := by
    intro flotsam hmem
    have hfloor := inBlock.floor
    rw [inBlock.reward] at hfloor
    rcases List.mem_append.1 ((List.mem_insertionSort _).1 (hassigned.subset flotsam hmem))
      with hown | hcarried
    · exact Nat.lt_of_lt_of_le (hread.range flotsam hown) hfloor
    · exact (inBlock.range flotsam hcarried).2.trans_eq inBlock.reward
  obtain ⟨hlocated, hchains, hsame⟩ := placeLost_spec full context tx hknown hassigned.located
    hassigned.chains hassigned.sorted hassigned.base hbelow hpays
  rw [← hlost] at hlocated hchains hsame
  refine ⟨_, settleOutputs_lost full hcoinbase hassign (hsame.reward.trans hreward) hpays, ?_⟩
  constructor
  · have hstart : lost = after.lostSats := inBlock.lostSats.trans hlost.symm
    rw [hstart]
    exact hlocated
  · exact hchains
  · exact hknown
  · dsimp only
    rw [hsame.valueCache, hsame.outpointToValue]
    exact hassigned.values inBlock.values fun outpoint value hvalue heq =>
      hfresh (heq ▸ inBlock.known.2 outpoint value hvalue)

/-- The coinbase takes the subsidy and what the fees carried; nothing is on its way after it. -/
theorem InBlock.coinbase {subsidy lost reward : ℕ} (full : env.tapLean = false)
    (context : BlockContext K P) (hsubsidy : env.subsidy context.height = subsidy)
    (inBlock : InBlock env subsidy (lost, updater) (chain, reward)) (hzero : tx.txid ≠ 0)
    (hfresh : tx.txid ∉ chain.seen) (hcoinbase : tx.isCoinbase = true) (hlength : tx.input.length = 1)
    (hpays : tx.outputValue ≤ reward)
    (hfunded : completesInscription updater.toTables tx = true → 0 < subsidy) :
    Yields env (indexTransaction env context (lost, updater) tx) fun state =>
      Settles env state (ChainState.after chain tx chain.utxo) := by
  obtain ⟨input, hinput⟩ := List.length_eq_one_iff.1 hlength
  have hnull : input.previousOutput = OutPoint.null := by
    unfold Transaction.isCoinbase at hcoinbase
    rw [hinput] at hcoinbase
    exact of_decide_eq_true hcoinbase
  have htake : takeInputs env context true tx.txid tx.input 0 updater =
      some (subsidy, [], updater) := by
    simp [hinput, takeInputs, hnull, hsubsidy]
  have hlocated : Located updater ([] ++ updater.flotsam) (ChainState.after chain tx chain.utxo)
      updater.lostSats := inBlock.located.create inBlock.known hfresh
  have hread := readEnvelope_spec full hlocated inBlock.chains hfresh hinput List.nodup_nil
    (fun flotsam hmem => absurd hmem List.not_mem_nil) hfunded
  have hpass : indexTransaction env context (lost, updater) tx =
      ((readEnvelope env tx subsidy [] updater).bind fun read =>
        settleOutputs env context tx subsidy
          ((read.1 ++ read.2.flotsam).insertionSort fun a b => a.offset ≤ b.offset)
          { read.2 with flotsam := [] }).map fun result => (lost + result.1, result.2) := by
    unfold indexTransaction indexTransactionInscriptions settleOutputs
    simp [full, htake, hcoinbase, sortedInscriptions, IndexEnv.add]
  rw [hpass, Option.map_bind]
  refine hread.bind fun read hread => ?_
  obtain ⟨after, hafter, hsettles⟩ := inBlock.afterCoinbase full context hzero hfresh hcoinbase hpays
    hread
  rw [Function.comp_apply, hafter]
  exact Yields.some hsettles

end Coinbase

end OrdDogecoin.Inscriptions
