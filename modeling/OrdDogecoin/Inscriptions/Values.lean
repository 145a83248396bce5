/-
Module: OrdDogecoin.Inscriptions.Values
Purpose: Input values in both modes: when no stored value is wrong and lean replay counts no input as
  zero that is worth something, the loop over the inputs finds the values of the chain, and the
  inscriptions it finds depend on the chain and the location table only.
Trusted boundary: the node knows the transactions of the blocks it gave
Main exports: ValuesRight, spentFlotsam, takeInputs_eq
-/
import OrdDogecoin.Inscriptions.Inputs

namespace OrdDogecoin.Inscriptions

open Chain KeyTable

variable {K P : Type} {env : IndexEnv K P} {context : BlockContext K P} {tx : Transaction}

/-- The node knows the transactions of a block. -/
def IndexEnv.serves (env : IndexEnv K P) (block : BlockData) : Bool :=
  block.txdata.all fun tx => (env.node tx.txid).map Prod.snd = some tx

/-- The node knows the outputs of a block that it serves. -/
theorem nodeValue_of_serves {block : BlockData} (hserves : env.serves block = true)
    (htx : tx ∈ block.txdata) {number : ℕ} {output : TxOut}
    (houtput : tx.output[number]? = some output) :
    env.nodeValue (tx.outpoint number) = some output.value := by
  have hnode := List.all_eq_true.1 hserves tx htx
  obtain ⟨⟨height, known⟩, hfound, hknown⟩ := Option.map_eq_some_iff.1 (of_decide_eq_true hnode)
  obtain rfl : known = tx := hknown
  have hfound : env.node (known.outpoint number).txid = some (height, known) := hfound
  have houtput : known.output[(known.outpoint number).vout]? = some output := houtput
  simp [IndexEnv.nodeValue, hfound, houtput]

/-- No value at hand is wrong, nor the node's, and values belong to known transactions. -/
structure ValuesRight (env : IndexEnv K P) (valueCache : KeyTable OutPoint (ℕ × Bool))
    (outpointToValue : KeyTable OutPoint ℕ) (utxo : UtxoSet) (seen : List Txid) : Prop where
  cached : ∀ outpoint value row, utxo.lookup outpoint = some value →
    valueCache.lookup outpoint = some row → row.1 = value
  stored : ∀ outpoint value found, utxo.lookup outpoint = some value →
    outpointToValue.lookup outpoint = some found → found = value
  node : ∀ outpoint value, utxo.lookup outpoint = some value → env.nodeValue outpoint = some value
  cacheSeen : ∀ outpoint row, valueCache.lookup outpoint = some row → outpoint.txid ∈ seen
  tableSeen : ∀ outpoint value, outpointToValue.lookup outpoint = some value → outpoint.txid ∈ seen

/-- A value is at hand, or is zero, which lean replay counts for the inputs of a transaction that it
finds irrelevant. -/
def valueAtHand (updater : Updater K P) (utxo : UtxoSet) (outpoint : OutPoint) : Bool :=
  (updater.valueCache.lookup outpoint).isSome || (updater.outpointToValue.lookup outpoint).isSome ||
    outpoint ∈ updater.tapPrefetched || utxo.lookup outpoint = some 0

/-- The inscriptions on the inputs, by the values of the chain. -/
def spentFlotsam (satpointToId : KeyTable SatPoint InscriptionId) (txid : Txid) :
    List TxIn → UtxoSet → ℕ → List Flotsam
  | [], _, _ => []
  | input :: inputs, utxo, start =>
      ((inscriptionsOnOutput satpointToId input.previousOutput).map fun (satpoint, id) =>
        { txid := txid
          inscriptionId := id
          offset := start + satpoint.offset
          oldSatpoint := satpoint
          origin := .old satpoint : Flotsam }) ++
        spentFlotsam satpointToId txid inputs (utxo.erase input.previousOutput)
          (start + (utxo.lookup input.previousOutput).getD 0)

/-! ### The loop over the inputs -/

/-- Values after one was taken: those of other outputs are as before. -/
structure ValueTaken (before : Updater K P) (outpoint : OutPoint) (after : Updater K P) : Prop where
  same : ∃ cache table prefetched, after = before.withValues cache table prefetched
  cacheSubset : ∀ other row, after.valueCache.lookup other = some row →
    before.valueCache.lookup other = some row
  tableSubset : ∀ other value, after.outpointToValue.lookup other = some value →
    before.outpointToValue.lookup other = some value
  atHand : ∀ other, other ≠ outpoint → ∀ utxo : UtxoSet, valueAtHand before utxo other = true →
    valueAtHand after (utxo.erase outpoint) other = true

section Inputs

variable {utxo : UtxoSet} {seen : List Txid} {outpoint : OutPoint} {value : ℕ}

theorem ValuesRight.taken {before after : Updater K P}
    (right : ValuesRight env before.valueCache before.outpointToValue utxo seen)
    (taken : ValueTaken before outpoint after) :
    ValuesRight env after.valueCache after.outpointToValue (utxo.erase outpoint) seen where
  cached other value row hvalue hrow :=
    right.cached other value row (lookup_erase_cases hvalue).2 (taken.cacheSubset other row hrow)
  stored other value found hvalue hrow :=
    right.stored other value found (lookup_erase_cases hvalue).2 (taken.tableSubset other found hrow)
  node other value hvalue := right.node other value (lookup_erase_cases hvalue).2
  cacheSeen other row hrow := right.cacheSeen other row (taken.cacheSubset other row hrow)
  tableSeen other value hrow := right.tableSeen other value (taken.tableSubset other value hrow)

theorem ValueTaken.cache (updater : Updater K P) (outpoint : OutPoint) :
    ValueTaken updater outpoint
      { updater with valueCache := updater.valueCache.erase outpoint } where
  same := ⟨_, _, _, rfl⟩
  cacheSubset other row hrow := (lookup_erase_cases hrow).2
  tableSubset other value hrow := hrow
  atHand other hne utxo hhand := by
    simpa only [valueAtHand, AList.lookup_erase_ne hne] using hhand

theorem ValueTaken.table (updater : Updater K P) (outpoint : OutPoint) :
    ValueTaken updater outpoint
      { updater with outpointToValue := updater.outpointToValue.erase outpoint } where
  same := ⟨_, _, _, rfl⟩
  cacheSubset other row hrow := hrow
  tableSubset other value hrow := (lookup_erase_cases hrow).2
  atHand other hne utxo hhand := by
    simpa only [valueAtHand, AList.lookup_erase_ne hne] using hhand

theorem ValueTaken.prefetched (updater : Updater K P) (outpoint : OutPoint) :
    ValueTaken updater outpoint
      { updater with tapPrefetched := updater.tapPrefetched.erase outpoint } where
  same := ⟨_, _, _, rfl⟩
  cacheSubset other row hrow := hrow
  tableSubset other value hrow := hrow
  atHand other hne utxo hhand := by
    simpa only [valueAtHand, AList.lookup_erase_ne hne, List.mem_erase_of_ne hne] using hhand

theorem ValueTaken.nothing (updater : Updater K P) (outpoint : OutPoint) :
    ValueTaken updater outpoint updater where
  same := ⟨_, _, _, rfl⟩
  cacheSubset other row hrow := hrow
  tableSubset other value hrow := hrow
  atHand other hne utxo hhand := by
    simpa only [valueAtHand, AList.lookup_erase_ne hne] using hhand

/-- One input: the value of the chain is found. -/
theorem inputValueOf_eq {relevant : Bool} {updater : Updater K P}
    (right : ValuesRight env updater.valueCache updater.outpointToValue utxo seen)
    (hvalue : utxo.lookup outpoint = some value)
    (hhand : (!env.tapLean || relevant || valueAtHand updater utxo outpoint) = true) :
    ∃ after, inputValueOf env relevant outpoint updater = some (value, after) ∧
      ValueTaken updater outpoint after := by
  unfold inputValueOf
  cases hcache : updater.valueCache.lookup outpoint with
  | some row =>
      obtain rfl := right.cached outpoint value row hvalue hcache
      exact ⟨_, rfl, .cache updater outpoint⟩
  | none =>
      cases htable : updater.outpointToValue.lookup outpoint with
      | some found =>
          obtain rfl := right.stored outpoint value found hvalue htable
          exact ⟨_, rfl, .table updater outpoint⟩
      | none =>
          dsimp only
          rw [right.node outpoint value hvalue]
          split
          · exact ⟨_, rfl, .prefetched updater outpoint⟩
          next hmissing =>
            split
            · exact ⟨_, rfl, .nothing updater outpoint⟩
            next hirrelevant =>
              -- nothing is at hand, so the value is zero
              have hzero : utxo.lookup outpoint = some 0 := by
                simp [valueAtHand, hcache, htable] at hhand hmissing hirrelevant
                simpa [hmissing, hirrelevant] using hhand
              rw [hvalue] at hzero
              cases hzero
              exact ⟨_, rfl, .nothing updater outpoint⟩

/-- The loop over the inputs, by induction on them. -/
theorem takeInputs_eq {relevant : Bool} (context : BlockContext K P) (txid : Txid)
    {inputs : List TxIn} :
    ∀ {utxo utxo' : UtxoSet} {sum : ℕ} (start : ℕ) (updater : Updater K P),
      spendInputs inputs utxo = some (sum, utxo') → utxo.lookup OutPoint.null = none →
      ValuesRight env updater.valueCache updater.outpointToValue utxo seen →
      (∀ input ∈ inputs,
        (!env.tapLean || relevant || valueAtHand updater utxo input.previousOutput) = true) →
      ∃ cache table prefetched,
        takeInputs env context relevant txid inputs start updater =
          some (start + sum, spentFlotsam updater.satpointToId txid inputs utxo start,
            updater.withValues cache table prefetched) ∧
        ValuesRight env cache table utxo' seen := by
  induction inputs with
  | nil =>
      intro utxo utxo' sum start updater hspend _ right _
      cases hspend
      exact ⟨_, _, _, rfl, right⟩
  | cons input inputs ih =>
      intro utxo utxo' sum start updater hspend hnull right hhand
      obtain ⟨value, hvalue, hspend⟩ := Option.bind_eq_some_iff.1 hspend
      obtain ⟨⟨rest, left⟩, hrest, hspend⟩ := Option.bind_eq_some_iff.1 hspend
      cases hspend
      have hne : input.previousOutput ≠ OutPoint.null := by
        intro heq
        rw [heq, hnull] at hvalue
        cases hvalue
      obtain ⟨after, hinput, taken⟩ :=
        inputValueOf_eq right hvalue (hhand input List.mem_cons_self)
      have hnull' : (utxo.erase input.previousOutput).lookup OutPoint.null = none := by
        rw [AList.lookup_erase_ne (Ne.symm hne), hnull]
      have hhand' : ∀ other ∈ inputs, (!env.tapLean || relevant ||
          valueAtHand after (utxo.erase input.previousOutput) other.previousOutput) = true := by
        intro other hmem
        have hother : other.previousOutput ≠ input.previousOutput := by
          intro heq
          have hagain := isSome_of_spendInputs hrest _ (List.mem_map_of_mem hmem)
          rw [heq, AList.lookup_erase] at hagain
          cases hagain
        have hbefore := hhand other (List.mem_cons_of_mem _ hmem)
        rw [Bool.or_eq_true] at hbefore ⊢
        exact hbefore.imp_right (taken.atHand _ hother utxo)
      obtain ⟨cache, table, prefetched, htake, right'⟩ :=
        ih (start + value) after hrest hnull' (right.taken taken) hhand'
      obtain ⟨cache', table', prefetched', rfl⟩ := taken.same
      refine ⟨cache, table, prefetched, ?_, right'⟩
      rw [takeInputs, if_neg hne, hinput]
      simp only [Option.bind_eq_bind, Option.bind_some, htake]
      rw [spentFlotsam, hvalue, Option.getD_some, Nat.add_assoc]
      rfl

end Inputs

end OrdDogecoin.Inscriptions
