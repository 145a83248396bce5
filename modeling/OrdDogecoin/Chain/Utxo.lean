/-
Module: OrdDogecoin.Chain.Utxo
Purpose: The unspent outputs of the chain and what makes a block valid: every transaction is new,
  spends existing outputs and pays out no more than it spends, and the coinbase, processed last,
  pays out no more than the subsidy and the fees.
Trusted boundary: transaction ids do not collide, and no transaction has the null id
Main exports: ChainState, insertOutputs, applyTransaction_cases
-/
import OrdDogecoin.Chain.Transaction
import OrdDogecoin.Lib.KeyTable

namespace OrdDogecoin.Chain

abbrev UtxoSet := KeyTable OutPoint ℕ

/-- The unspent outputs with their values, and the ids of all transactions so far. -/
structure ChainState where
  utxo : UtxoSet
  seen : List Txid

/-- The total that the inputs spend, and the set without them. -/
def spendInputs : List TxIn → UtxoSet → Option (ℕ × UtxoSet)
  | [], utxo => some (0, utxo)
  | input :: inputs, utxo => do
      let value ← utxo.lookup input.previousOutput
      let (total, utxo) ← spendInputs inputs (utxo.erase input.previousOutput)
      some (value + total, utxo)

/-- Add the outputs of a transaction from number `vout` on. -/
def createOutputs (txid : Txid) : List TxOut → ℕ → UtxoSet → UtxoSet
  | [], _, utxo => utxo
  | output :: outputs, vout, utxo =>
      createOutputs txid outputs (vout + 1) (utxo.insert { txid := txid, vout := vout } output.value)

/-- The inputs of a transaction that is not a coinbase, which may not pay out more than they are
worth. -/
def spendTransaction (tx : Transaction) (utxo : UtxoSet) : Option (ℕ × UtxoSet) := do
  let (total, utxo) ← spendInputs tx.input utxo
  if tx.input.isEmpty ∨ total < tx.outputValue then none else some (total, utxo)

/-- The chain after the outputs of a transaction are added. -/
def ChainState.after (chain : ChainState) (tx : Transaction) (utxo : UtxoSet) : ChainState where
  utxo := createOutputs tx.txid tx.output 0 utxo
  seen := tx.txid :: chain.seen

/-- Apply one transaction; `reward` is the subsidy and the fees so far. -/
def ChainState.applyTransaction (state : ChainState × ℕ) (tx : Transaction) :
    Option (ChainState × ℕ) :=
  let (chain, reward) := state
  if tx.txid = 0 ∨ tx.txid ∈ chain.seen then none
  else if tx.isCoinbase then
    if tx.input.length ≠ 1 ∨ reward < tx.outputValue then none
    else some (chain.after tx chain.utxo, reward)
  else
    (spendTransaction tx chain.utxo).map fun (total, utxo) =>
      (chain.after tx utxo, reward + (total - tx.outputValue))

/-- The transactions of a block in the order they are indexed: the coinbase last. -/
def BlockData.processingOrder (block : BlockData) : List Transaction :=
  block.txdata.drop 1 ++ block.txdata.take 1

/-- The first transaction of a block, and no other, is a coinbase. -/
def BlockData.coinbaseFirst (block : BlockData) : Bool :=
  match block.txdata with
  | [] => false
  | coinbase :: txs => coinbase.isCoinbase && txs.all fun tx => !tx.isCoinbase

/-- Apply a block; `none` when it is not valid. -/
def ChainState.applyBlock (subsidy : ℕ) (chain : ChainState) (block : BlockData) :
    Option ChainState :=
  if block.coinbaseFirst then
    (block.processingOrder.foldlM ChainState.applyTransaction (chain, subsidy)).map Prod.fst
  else none

/-- Outputs belong to known transactions. -/
def ChainState.Known (chain : ChainState) : Prop :=
  0 ∉ chain.seen ∧ ∀ outpoint value, chain.utxo.lookup outpoint = some value → outpoint.txid ∈ chain.seen

/-! ### Inputs and outputs -/

open KeyTable

theorem lookup_spendInputs {inputs : List TxIn} :
    ∀ {utxo utxo' : UtxoSet} {total : ℕ}, spendInputs inputs utxo = some (total, utxo') →
      ∀ outpoint, utxo'.lookup outpoint =
        if outpoint ∈ inputs.map TxIn.previousOutput then none else utxo.lookup outpoint := by
  induction inputs with
  | nil =>
      intro utxo utxo' total hspend outpoint
      cases hspend
      simp
  | cons input inputs ih =>
      intro utxo utxo' total hspend outpoint
      obtain ⟨value, -, hspend⟩ := Option.bind_eq_some_iff.1 hspend
      obtain ⟨⟨rest, found⟩, hrest, hspend⟩ := Option.bind_eq_some_iff.1 hspend
      cases hspend
      rw [ih hrest outpoint, lookup_erase_ite, List.map_cons]
      by_cases hmem : outpoint ∈ inputs.map TxIn.previousOutput
      · rw [if_pos hmem, if_pos (List.mem_cons_of_mem _ hmem)]
      · simp only [hmem, if_false, List.mem_cons, or_false]

/-- Write a row for each output of a transaction from number `vout` on. -/
def insertOutputs {V : Type} (row : TxOut → V) (txid : Txid) :
    List TxOut → ℕ → KeyTable OutPoint V → KeyTable OutPoint V
  | [], _, table => table
  | output :: outputs, vout, table =>
      insertOutputs row txid outputs (vout + 1)
        (table.insert { txid := txid, vout := vout } (row output))

/-- The new outputs have their rows; every other row is as before. -/
theorem lookup_insertOutputs {V : Type} (row : TxOut → V) (txid : Txid) (outputs : List TxOut) :
    ∀ (start : ℕ) (table : KeyTable OutPoint V) (outpoint : OutPoint),
      (insertOutputs row txid outputs start table).lookup outpoint =
        if outpoint.txid = txid ∧ start ≤ outpoint.vout ∧ outpoint.vout < start + outputs.length then
          (outputs[outpoint.vout - start]?).map row
        else table.lookup outpoint := by
  induction outputs with
  | nil =>
      intro start table outpoint
      rw [insertOutputs, if_neg (by simp only [List.length_nil]; omega)]
  | cons output outputs ih =>
      intro start table outpoint
      obtain ⟨id, vout⟩ := outpoint
      rw [insertOutputs, ih, lookup_insert_ite]
      simp only [List.length_cons, OutPoint.mk.injEq]
      by_cases hid : id = txid
      · by_cases hfirst : vout = start
        · subst hid hfirst
          simp
        · by_cases hrange : start + 1 ≤ vout ∧ vout < start + 1 + outputs.length
          · rw [if_pos ⟨hid, hrange⟩, if_pos ⟨hid, by omega, by omega⟩]
            obtain ⟨i, rfl⟩ := Nat.exists_eq_add_of_le hrange.1
            rw [show start + 1 + i - (start + 1) = i by omega,
              show start + 1 + i - start = i + 1 by omega, List.getElem?_cons_succ]
          · rw [if_neg fun h => hrange h.2, if_neg fun h => hfirst h.2, if_neg]
            rintro ⟨-, hle, hlt⟩
            exact hrange ⟨by omega, by omega⟩
      · rw [if_neg fun h => hid h.1, if_neg fun h => hid h.1, if_neg fun h => hid h.1]

theorem createOutputs_eq (txid : Txid) (outputs : List TxOut) :
    ∀ (start : ℕ) (utxo : UtxoSet),
      createOutputs txid outputs start utxo = insertOutputs TxOut.value txid outputs start utxo := by
  induction outputs with
  | nil => exact fun start utxo => rfl
  | cons output outputs ih => exact fun start utxo => ih (start + 1) _

/-- The new outputs have their values; every other output is as before. -/
theorem lookup_createOutputs (txid : Txid) (outputs : List TxOut) (start : ℕ) (utxo : UtxoSet)
    (outpoint : OutPoint) :
    (createOutputs txid outputs start utxo).lookup outpoint =
      if outpoint.txid = txid ∧ start ≤ outpoint.vout ∧ outpoint.vout < start + outputs.length then
        (outputs[outpoint.vout - start]?).map TxOut.value
      else utxo.lookup outpoint := by
  rw [createOutputs_eq, lookup_insertOutputs]

/-! ### Transactions -/

section After

variable {tx : Transaction} {chain : ChainState} {utxo : UtxoSet}

/-- Every output but those of the new transaction is as before. -/
theorem lookup_after_of_ne {outpoint : OutPoint} (hne : outpoint.txid ≠ tx.txid) :
    (chain.after tx utxo).utxo.lookup outpoint = utxo.lookup outpoint := by
  rw [ChainState.after, lookup_createOutputs, if_neg fun h => hne h.1]

theorem lookup_after_output {number : ℕ} {output : TxOut}
    (houtput : tx.output[number]? = some output) :
    (chain.after tx utxo).utxo.lookup (tx.outpoint number) = some output.value := by
  have hlt := (List.getElem?_eq_some_iff.1 houtput).1
  rw [ChainState.after, lookup_createOutputs, if_pos ⟨rfl, Nat.zero_le _, by
    change number < 0 + tx.output.length
    omega⟩]
  change (tx.output[number - 0]?).map TxOut.value = _
  rw [Nat.sub_zero, houtput]
  rfl

/-- An output after a transaction is one of its own or an old one. -/
theorem lookup_after_cases {outpoint : OutPoint} {value : ℕ}
    (hvalue : (chain.after tx utxo).utxo.lookup outpoint = some value) :
    (∃ number output, outpoint = tx.outpoint number ∧ tx.output[number]? = some output ∧
        value = output.value) ∨ utxo.lookup outpoint = some value := by
  rw [ChainState.after, lookup_createOutputs] at hvalue
  split at hvalue
  next hnew =>
    obtain ⟨output, houtput, rfl⟩ := Option.map_eq_some_iff.1 hvalue
    rw [Nat.sub_zero] at houtput
    obtain ⟨txid, vout⟩ := outpoint
    obtain ⟨rfl, -⟩ := hnew
    exact .inl ⟨vout, output, rfl, houtput, rfl⟩
  next => exact .inr hvalue

/-- Outputs still belong to known transactions. -/
theorem known_after (known : chain.Known) (hzero : tx.txid ≠ 0)
    (hsubset : ∀ outpoint value, utxo.lookup outpoint = some value →
      chain.utxo.lookup outpoint = some value) : (chain.after tx utxo).Known := by
  constructor
  · intro hmem
    rcases List.mem_cons.1 hmem with heq | hmem
    · exact hzero heq.symm
    · exact known.1 hmem
  · intro outpoint value hvalue
    rcases lookup_after_cases hvalue with ⟨number, output, rfl, -⟩ | hold
    · exact List.mem_cons_self
    · exact List.mem_cons_of_mem _ (known.2 outpoint value (hsubset outpoint value hold))

theorem lookup_null (known : chain.Known) : chain.utxo.lookup OutPoint.null = none := by
  by_contra hsome
  obtain ⟨value, hvalue⟩ := Option.ne_none_iff_exists'.1 hsome
  exact known.1 (known.2 _ value hvalue)

/-- Spending leaves a part of the outputs. -/
theorem subset_of_spendInputs {inputs : List TxIn} {total : ℕ}
    (hspend : spendInputs inputs chain.utxo = some (total, utxo)) (outpoint : OutPoint) (value : ℕ)
    (hvalue : utxo.lookup outpoint = some value) : chain.utxo.lookup outpoint = some value := by
  rw [lookup_spendInputs hspend] at hvalue
  split at hvalue
  · cases hvalue
  · exact hvalue

end After

/-- What a valid transaction is, and the state after it. -/
theorem applyTransaction_cases {chain chain' : ChainState} {reward reward' : ℕ} {tx : Transaction}
    (hvalid : ChainState.applyTransaction (chain, reward) tx = some (chain', reward')) :
    tx.txid ≠ 0 ∧ tx.txid ∉ chain.seen ∧
      ((tx.isCoinbase = true ∧ tx.input.length = 1 ∧ tx.outputValue ≤ reward ∧ reward' = reward ∧
          chain' = chain.after tx chain.utxo) ∨
        ∃ total utxo, tx.isCoinbase = false ∧ tx.input ≠ [] ∧
          spendInputs tx.input chain.utxo = some (total, utxo) ∧ tx.outputValue ≤ total ∧
          reward' = reward + (total - tx.outputValue) ∧
          chain' = chain.after tx utxo) := by
  unfold ChainState.applyTransaction at hvalid
  dsimp only at hvalid
  split at hvalid
  · cases hvalid
  next hnew =>
    rw [not_or] at hnew
    refine ⟨hnew.1, hnew.2, ?_⟩
    split at hvalid
    next hcoinbase =>
      split at hvalid
      · cases hvalid
      next hpays =>
        rw [not_or, not_not, Nat.not_lt] at hpays
        cases hvalid
        exact .inl ⟨hcoinbase, hpays.1, hpays.2, rfl, rfl⟩
    next hcoinbase =>
      obtain ⟨⟨total, utxo⟩, hspend, hafter⟩ := Option.map_eq_some_iff.1 hvalid
      unfold spendTransaction at hspend
      obtain ⟨⟨found, left⟩, hinputs, hspend⟩ := Option.bind_eq_some_iff.1 hspend
      dsimp only at hspend
      split at hspend
      · cases hspend
      next hpays =>
        rw [not_or, Nat.not_lt, List.isEmpty_iff] at hpays
        cases hspend
        cases hafter
        exact .inr ⟨total, utxo, by simpa using hcoinbase, hpays.1, hinputs, hpays.2, rfl, rfl⟩

end OrdDogecoin.Chain
