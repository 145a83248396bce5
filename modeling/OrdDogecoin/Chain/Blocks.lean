/-
Module: OrdDogecoin.Chain.Blocks
Purpose: What a valid block says about its transactions: their ids are new and differ, and every output
  they spend, or leave unspent, was unspent before the block or is an output of the block.
Trusted boundary: as in OrdDogecoin.Chain.Utxo
Main exports: Available, BlockApplied, blockApplied_of_applyBlock
-/
import OrdDogecoin.Chain.Utxo

namespace OrdDogecoin.Chain

/-- An output that was unspent before some transactions, or is one of theirs. -/
def Available (start : ChainState) (txs : List Transaction) (outpoint : OutPoint) (value : ℕ) : Prop :=
  start.utxo.lookup outpoint = some value ∨
    ∃ tx ∈ txs, ∃ number output, outpoint = tx.outpoint number ∧ tx.output[number]? = some output ∧
      value = output.value

theorem Available.mono {start : ChainState} {txs others : List Transaction} {outpoint : OutPoint}
    {value : ℕ} (available : Available start txs outpoint value) (hsubset : ∀ tx ∈ txs, tx ∈ others) :
    Available start others outpoint value :=
  available.imp_right fun ⟨tx, hmem, houtput⟩ => ⟨tx, hsubset tx hmem, houtput⟩

/-- What holds after the transactions of a list. -/
structure BlockApplied (start : ChainState) (txs : List Transaction) (chain : ChainState) : Prop where
  fresh : ∀ tx ∈ txs, tx.txid ≠ 0 ∧ tx.txid ∉ start.seen
  distinct : (txs.map Transaction.txid).Nodup
  spent : ∀ tx ∈ txs, tx.isCoinbase = false → ∀ input ∈ tx.input,
    ∃ value, Available start txs input.previousOutput value
  unspent : ∀ outpoint value, chain.utxo.lookup outpoint = some value →
    Available start txs outpoint value
  seen : ∀ txid, txid ∈ chain.seen ↔ txid ∈ txs.map Transaction.txid ∨ txid ∈ start.seen

theorem BlockApplied.nil (start : ChainState) : BlockApplied start [] start where
  fresh _ hmem := absurd hmem List.not_mem_nil
  distinct := List.nodup_nil
  spent _ hmem := absurd hmem List.not_mem_nil
  unspent _ _ hvalue := .inl hvalue
  seen txid := by simp

theorem spent_of_spendInputs {inputs : List TxIn} :
    ∀ {utxo utxo' : UtxoSet} {total : ℕ}, spendInputs inputs utxo = some (total, utxo') →
      ∀ input ∈ inputs, ∃ value, utxo.lookup input.previousOutput = some value := by
  induction inputs with
  | nil => exact fun _ input hmem => absurd hmem List.not_mem_nil
  | cons first inputs ih =>
      intro utxo utxo' total hspend input hmem
      obtain ⟨value, hvalue, hspend⟩ := Option.bind_eq_some_iff.1 hspend
      obtain ⟨⟨rest, left⟩, hrest, -⟩ := Option.bind_eq_some_iff.1 hspend
      rcases List.mem_cons.1 hmem with rfl | hmem
      · exact ⟨value, hvalue⟩
      · obtain ⟨found, hfound⟩ := ih hrest input hmem
        exact ⟨found, (KeyTable.lookup_erase_cases hfound).2⟩

/-- One more transaction. -/
theorem BlockApplied.snoc {start chain chain' : ChainState} {txs : List Transaction} {tx : Transaction}
    {reward reward' : ℕ} (applied : BlockApplied start txs chain)
    (hvalid : ChainState.applyTransaction (chain, reward) tx = some (chain', reward')) :
    BlockApplied start (txs ++ [tx]) chain' := by
  obtain ⟨hzero, hnew, hcases⟩ := applyTransaction_cases hvalid
  have hnew' := (not_congr (applied.seen tx.txid)).1 hnew
  rw [not_or] at hnew'
  have hold : ∀ other ∈ txs, other ∈ txs ++ [tx] := fun other hmem => List.mem_append_left _ hmem
  have hlast : tx ∈ txs ++ [tx] := List.mem_append_right _ List.mem_cons_self
  obtain ⟨utxo, hafter, hsubset, hinputs⟩ : ∃ utxo, chain' = chain.after tx utxo ∧
      (∀ outpoint value, utxo.lookup outpoint = some value →
        chain.utxo.lookup outpoint = some value) ∧
      (tx.isCoinbase = false → ∀ input ∈ tx.input,
        ∃ value, chain.utxo.lookup input.previousOutput = some value) := by
    rcases hcases with ⟨hcoinbase, -, -, -, hafter⟩ | ⟨total, utxo, -, -, hspend, -, -, hafter⟩
    · refine ⟨chain.utxo, hafter, fun _ _ hvalue => hvalue, fun hother => ?_⟩
      rw [hcoinbase] at hother
      cases hother
    · exact ⟨utxo, hafter, subset_of_spendInputs hspend, fun _ => spent_of_spendInputs hspend⟩
  subst hafter
  constructor
  · intro other hmem
    rcases List.mem_append.1 hmem with hmem | hmem
    · exact applied.fresh other hmem
    · obtain rfl := List.mem_singleton.1 hmem
      exact ⟨hzero, hnew'.2⟩
  · rw [List.map_append, List.nodup_append]
    refine ⟨applied.distinct, List.nodup_singleton _, ?_⟩
    rintro txid hmem other hother rfl
    obtain rfl := List.mem_singleton.1 hother
    exact hnew'.1 hmem
  · intro other hmem hcoinbase input hinput
    rcases List.mem_append.1 hmem with hmem | hmem
    · obtain ⟨value, hvalue⟩ := applied.spent other hmem hcoinbase input hinput
      exact ⟨value, hvalue.mono hold⟩
    · obtain rfl := List.mem_singleton.1 hmem
      obtain ⟨value, hvalue⟩ := hinputs hcoinbase input hinput
      exact ⟨value, (applied.unspent _ value hvalue).mono hold⟩
  · intro outpoint value hvalue
    rcases lookup_after_cases hvalue with ⟨number, output, houtpoint, houtput, rfl⟩ | hvalue
    · exact .inr ⟨tx, hlast, number, output, houtpoint, houtput, rfl⟩
    · exact (applied.unspent outpoint value (hsubset outpoint value hvalue)).mono hold
  · intro txid
    have hseen : txid ∈ (chain.after tx utxo).seen ↔ txid = tx.txid ∨ txid ∈ chain.seen :=
      List.mem_cons
    rw [hseen, applied.seen, List.map_append, List.mem_append, List.map_singleton, List.mem_singleton]
    tauto

theorem BlockApplied.foldlM {start : ChainState} {rest : List Transaction} :
    ∀ {txs : List Transaction} {state state' : ChainState × ℕ},
      BlockApplied start txs state.1 →
      rest.foldlM ChainState.applyTransaction state = some state' →
      BlockApplied start (txs ++ rest) state'.1 := by
  induction rest with
  | nil =>
      intro txs state state' applied hfold
      cases hfold
      rw [List.append_nil]
      exact applied
  | cons tx rest ih =>
      intro txs state state' applied hfold
      rw [List.foldlM_cons] at hfold
      obtain ⟨middle, hvalid, hfold⟩ := Option.bind_eq_some_iff.1 hfold
      have hnext := ih (applied.snoc hvalid) hfold
      rwa [List.append_assoc, List.singleton_append] at hnext

/-- The parts of a valid block: its coinbase, its other transactions, and the state after all. -/
theorem applyBlock_cases {subsidy : ℕ} {chain chain' : ChainState} {block : BlockData}
    (hvalid : chain.applyBlock subsidy block = some chain') :
    ∃ coinbase txs state, block.txdata = coinbase :: txs ∧ coinbase.isCoinbase = true ∧
      (∀ tx ∈ txs, tx.isCoinbase = false) ∧
      block.processingOrder.foldlM ChainState.applyTransaction (chain, subsidy) = some state ∧
      state.1 = chain' := by
  unfold ChainState.applyBlock at hvalid
  split at hvalid
  next hfirst =>
    obtain ⟨state, hfold, hchain⟩ := Option.map_eq_some_iff.1 hvalid
    unfold BlockData.coinbaseFirst at hfirst
    cases htxdata : block.txdata with
    | nil => simp [htxdata] at hfirst
    | cons coinbase txs =>
        rw [htxdata] at hfirst
        obtain ⟨hcoinbase, hothers⟩ := Bool.and_eq_true_iff.1 hfirst
        refine ⟨coinbase, txs, state, rfl, hcoinbase, fun tx hmem => ?_, hfold, hchain⟩
        simpa using List.all_eq_true.1 hothers tx hmem
  next => cases hvalid

/-- A block that is valid on a chain. -/
theorem blockApplied_of_applyBlock {subsidy : ℕ} {chain chain' : ChainState} {block : BlockData}
    (hvalid : chain.applyBlock subsidy block = some chain') :
    BlockApplied chain block.txdata chain' := by
  obtain ⟨-, -, state, -, -, -, hfold, rfl⟩ := applyBlock_cases hvalid
  have applied := (BlockApplied.nil chain).foldlM hfold
  rw [List.nil_append] at applied
  -- the coinbase comes first in the block and last in the pass
  have hperm : block.processingOrder.Perm block.txdata := by
    unfold BlockData.processingOrder
    refine List.perm_append_comm.trans ?_
    rw [List.take_append_drop]
  have hmem : ∀ tx, tx ∈ block.processingOrder ↔ tx ∈ block.txdata := fun tx => hperm.mem_iff
  constructor
  · exact fun tx htx => applied.fresh tx ((hmem tx).2 htx)
  · exact (hperm.map Transaction.txid).nodup_iff.1 applied.distinct
  · intro tx htx hcoinbase input hinput
    obtain ⟨value, hvalue⟩ := applied.spent tx ((hmem tx).2 htx) hcoinbase input hinput
    exact ⟨value, hvalue.mono fun other hother => (hmem other).1 hother⟩
  · intro outpoint value hvalue
    exact (applied.unspent outpoint value hvalue).mono fun other hother => (hmem other).1 hother
  · intro txid
    rw [applied.seen, (hperm.map Transaction.txid).mem_iff]

/-- Outputs still belong to known transactions. -/
theorem BlockApplied.known {start chain : ChainState} {txs : List Transaction}
    (applied : BlockApplied start txs chain) (known : start.Known) : chain.Known := by
  constructor
  · intro hzero
    rcases (applied.seen 0).1 hzero with hmem | hmem
    · obtain ⟨tx, htx, heq⟩ := List.mem_map.1 hmem
      exact (applied.fresh tx htx).1 heq
    · exact known.1 hmem
  · intro outpoint value hvalue
    rw [applied.seen]
    rcases applied.unspent outpoint value hvalue with hold | ⟨tx, htx, number, output, rfl, -⟩
    · exact .inr (known.2 outpoint value hold)
    · exact .inl (List.mem_map_of_mem htx)

end OrdDogecoin.Chain
