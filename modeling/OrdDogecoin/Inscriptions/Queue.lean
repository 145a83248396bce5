/-
Module: OrdDogecoin.Inscriptions.Queue
Purpose: The inscriptions on their way as a queue.  Assigning them to outputs takes them from the front,
  one by one, and puts each inside an output of the transaction; so a property of queue and updater
  that survives one placement survives the loop over the outputs, in both modes.
Trusted boundary: none
Main exports: Move, readEnvelope_cases, takeInputs_found
-/
import OrdDogecoin.Inscriptions.Operations
import OrdDogecoin.Inscriptions.Values
import OrdDogecoin.Lib.Walk
import Mathlib.Data.List.TakeWhile

namespace OrdDogecoin.Inscriptions

open Chain KeyTable

variable {K P : Type} {env : IndexEnv K P} {context : BlockContext K P} {tx : Transaction}

/-! ### Moves -/

/-- What the DRC-20 updater needs to know of a move, besides where it ends. -/
structure Move where
  txid : Txid
  inscriptionId : InscriptionId
  isNew : Bool
  oldSatpoint : SatPoint
deriving DecidableEq, Repr

/-- The move that an inscription on its way makes. -/
def Flotsam.move (flotsam : Flotsam) : Move where
  txid := flotsam.txid
  inscriptionId := flotsam.inscriptionId
  isNew :=
    match flotsam.origin with
    | .old _ => false
    | .new _ _ => true
  oldSatpoint := flotsam.oldSatpoint

/-- The move behind a recorded operation. -/
def InscriptionOp.move (op : InscriptionOp) : Move where
  txid := op.txid
  inscriptionId := op.inscriptionId
  isNew :=
    match op.action with
    | .transfer => false
    | .new _ => true
  oldSatpoint := op.oldSatpoint

theorem move_operation (flotsam : Flotsam) (satpoint : SatPoint) (number : Option ℕ) :
    (flotsam.operation satpoint number).move = flotsam.move := by
  unfold Flotsam.operation InscriptionOp.move Flotsam.move
  cases flotsam.origin <;> rfl

/-! ### The queue -/

/-- A property of the queue and the updater that placing the first inscription keeps. -/
structure PlacesQueue (env : IndexEnv K P) (context : BlockContext K P) (tx : Transaction)
    (Inv : List Flotsam → Updater K P → Prop) : Prop where
  place : ∀ {flotsam queue updater number output offset}, tx.output[number]? = some output →
    offset < output.value → Inv (flotsam :: queue) updater →
    Inv queue (updateInscriptionLocation env context tx flotsam
      { outpoint := tx.outpoint number, offset := offset } updater)
  lose : ∀ {flotsam queue updater} offset, Inv (flotsam :: queue) updater →
    Inv queue (updateInscriptionLocation env context tx flotsam
      { outpoint := OutPoint.null, offset := offset } updater)
  cache : ∀ {queue updater number output} flag, tx.output[number]? = some output →
    Inv queue updater →
    Inv queue { updater with
      valueCache := updater.valueCache.insert (tx.outpoint number) (output.value, flag) }

namespace PlacesQueue

variable {Inv : List Flotsam → Updater K P → Prop} {carried : List Flotsam}

/-- The inscriptions of one output. -/
theorem placeHere (places : PlacesQueue env context tx Inv) {number base : ℕ} {output : TxOut}
    (houtput : tx.output[number]? = some output) (here : List Flotsam) :
    ∀ {queue : List Flotsam} {updater : Updater K P},
      (∀ flotsam ∈ here, base ≤ flotsam.offset ∧ flotsam.offset < base + output.value) →
      Inv (here ++ queue) updater →
      Inv queue (placeAll env context tx
        (fun flotsam => { outpoint := tx.outpoint number, offset := flotsam.offset - base }) here
        updater) := by
  induction here with
  | nil => exact fun _ inv => inv
  | cons flotsam here ih =>
      intro queue updater hinside inv
      have hfirst := hinside flotsam List.mem_cons_self
      apply ih (fun other hmem => hinside other (List.mem_cons_of_mem _ hmem))
      exact places.place houtput (by omega) inv

/-- What is left of the coinbase goes to the lost range. -/
theorem placeLost (places : PlacesQueue env context tx Inv) (offset : Flotsam → ℕ)
    (rest : List Flotsam) :
    ∀ {queue : List Flotsam} {updater : Updater K P}, Inv (rest ++ queue) updater →
      Inv queue (placeAll env context tx
        (fun flotsam => { outpoint := OutPoint.null, offset := offset flotsam }) rest updater) := by
  induction rest with
  | nil => exact fun inv => inv
  | cons flotsam rest ih => exact fun inv => ih (places.lose _ inv)

/-- The loop over the outputs, by induction on them: what is left is the end of the queue, behind all
outputs. -/
theorem assignOutputs (places : PlacesQueue env context tx Inv) (outputs : List TxOut) :
    ∀ (vout base : ℕ) {inscriptions : List Flotsam} {updater : Updater K P},
      tx.output.drop vout = outputs →
      (inscriptions.Pairwise fun a b => a.offset ≤ b.offset) →
      (∀ flotsam ∈ inscriptions, base ≤ flotsam.offset) →
      Inv (inscriptions ++ carried) updater →
      ∃ rest after,
        assignOutputs env context tx outputs vout base inscriptions updater =
          (rest, base + (outputs.map TxOut.value).sum, after) ∧
        Inv (rest ++ carried) after ∧ rest.Sublist inscriptions ∧
        ∀ flotsam ∈ rest, base + (outputs.map TxOut.value).sum ≤ flotsam.offset := by
  induction outputs with
  | nil =>
      intro vout base inscriptions updater _ _ hbase inv
      exact ⟨inscriptions, updater, rfl, inv, List.Sublist.refl _, hbase⟩
  | cons output outputs ih =>
      intro vout base inscriptions updater hdrop hsorted hbase inv
      have houtput : tx.output[vout]? = some output := by
        have hhead := congrArg List.head? hdrop
        rwa [List.head?_drop, List.head?_cons] at hhead
      have hdrop' : tx.output.drop (vout + 1) = outputs := by
        rw [← List.drop_drop, hdrop, List.drop_succ_cons, List.drop_zero]
      have hinside : ∀ flotsam ∈ inscriptions.takeWhile fun flotsam =>
          decide (flotsam.offset < base + output.value),
          base ≤ flotsam.offset ∧ flotsam.offset < base + output.value := by
        intro flotsam hmem
        have hbelow := List.mem_takeWhile_imp hmem
        exact ⟨hbase flotsam (List.takeWhile_subset _ hmem), of_decide_eq_true hbelow⟩
      rw [← List.takeWhile_append_dropWhile
        (p := fun flotsam : Flotsam => decide (flotsam.offset < base + output.value))
        (l := inscriptions), List.append_assoc] at inv
      have hplaced := places.placeHere houtput _ hinside inv
      obtain ⟨rest, after, hassign, hinv, hsublist, hrest⟩ := ih (vout + 1) (base + output.value) hdrop'
        (hsorted.sublist (List.dropWhile_sublist _))
        (SortByKey.le_of_mem_dropWhile Flotsam.offset _ hsorted)
        (places.cache (persistFlag tx !(inscriptions.takeWhile fun flotsam =>
          decide (flotsam.offset < base + output.value)).isEmpty) houtput hplaced)
      rw [List.map_cons, List.sum_cons, ← Nat.add_assoc]
      exact ⟨rest, after, hassign, hinv, hsublist.trans (List.dropWhile_sublist _), hrest⟩

end PlacesQueue

/-! ### Inputs -/

section Inputs

variable {seen : List Txid} {inputs : List TxIn} {satpointToId : KeyTable SatPoint InscriptionId}

/-- Taking a value, found or not, only removes it. -/
theorem valueTaken_of_inputValueOf {relevant : Bool} {outpoint : OutPoint} {value : ℕ}
    {updater after : Updater K P}
    (hvalue : inputValueOf env relevant outpoint updater = some (value, after)) :
    ValueTaken updater outpoint after := by
  unfold inputValueOf at hvalue
  split at hvalue
  · cases hvalue
    exact .cache updater outpoint
  · split at hvalue
    · cases hvalue
      exact .table updater outpoint
    · split at hvalue
      · obtain ⟨found, -, heq⟩ := Option.map_eq_some_iff.1 hvalue
        cases heq
        exact .prefetched updater outpoint
      · split at hvalue
        · obtain ⟨found, -, heq⟩ := Option.map_eq_some_iff.1 hvalue
          cases heq
          exact .nothing updater outpoint
        · cases hvalue
          exact .nothing updater outpoint

/-- The loop over inputs without inscriptions: whatever values it counts, it finds nothing and spoils no
value. -/
theorem takeInputs_nothing {relevant : Bool} {txid : Txid} :
    ∀ {utxo utxo' : UtxoSet} {sum start total : ℕ} {found : List Flotsam}
      {updater after : Updater K P},
      takeInputs env context relevant txid inputs start updater = some (total, found, after) →
      spendInputs inputs utxo = some (sum, utxo') → utxo.lookup OutPoint.null = none →
      ValuesRight env updater.valueCache updater.outpointToValue utxo seen →
      (∀ input ∈ inputs, inscriptionsOnOutput updater.satpointToId input.previousOutput = []) →
      found = [] ∧ ∃ cache table prefetched, after = updater.withValues cache table prefetched ∧
        ValuesRight env cache table utxo' seen := by
  induction inputs with
  | nil =>
      intro utxo utxo' sum start total found updater after htake hspend _ right _
      cases htake
      cases hspend
      exact ⟨rfl, _, _, _, rfl, right⟩
  | cons input inputs ih =>
      intro utxo utxo' sum start total found updater after htake hspend hnull right hempty
      obtain ⟨value, hvalue, hspend⟩ := Option.bind_eq_some_iff.1 hspend
      obtain ⟨⟨rest, left⟩, hrest, hspend⟩ := Option.bind_eq_some_iff.1 hspend
      cases hspend
      have hne : input.previousOutput ≠ OutPoint.null := by
        intro heq
        rw [heq, hnull] at hvalue
        cases hvalue
      rw [takeInputs, if_neg hne] at htake
      obtain ⟨⟨counted, middle⟩, hcounted, htake⟩ := Option.bind_eq_some_iff.1 htake
      obtain ⟨⟨total', found', last⟩, htake', htake⟩ := Option.bind_eq_some_iff.1 htake
      cases htake
      have taken := valueTaken_of_inputValueOf hcounted
      obtain ⟨cache, table, prefetched, rfl⟩ := taken.same
      have hnull' : (utxo.erase input.previousOutput).lookup OutPoint.null = none := by
        rw [AList.lookup_erase_ne (Ne.symm hne), hnull]
      obtain ⟨rfl, cache', table', prefetched', rfl, right'⟩ := ih htake' hrest hnull'
        (right.taken taken) fun other hmem => hempty other (List.mem_cons_of_mem _ hmem)
      refine ⟨?_, cache', table', prefetched', rfl, right'⟩
      rw [inputFlotsam, hempty input List.mem_cons_self]
      rfl

/-- Without inscriptions on the inputs there is nothing on its way. -/
theorem spentFlotsam_nothing {txid : Txid} :
    ∀ {utxo : UtxoSet} {start : ℕ},
      (∀ input ∈ inputs, inscriptionsOnOutput satpointToId input.previousOutput = []) →
      spentFlotsam satpointToId txid inputs utxo start = [] := by
  induction inputs with
  | nil => exact fun _ => rfl
  | cons input inputs ih =>
      intro utxo start hempty
      rw [spentFlotsam, hempty input List.mem_cons_self, List.map_nil, List.nil_append]
      exact ih fun other hmem => hempty other (List.mem_cons_of_mem _ hmem)

/-- They are moves of the transaction, away from their rows. -/
theorem old_of_mem_spentFlotsam {txid : Txid} :
    ∀ {utxo : UtxoSet} {start : ℕ}, ∀ flotsam ∈ spentFlotsam satpointToId txid inputs utxo start,
      flotsam.txid = txid ∧ flotsam.origin = .old flotsam.oldSatpoint := by
  induction inputs with
  | nil => exact fun flotsam hmem => absurd hmem List.not_mem_nil
  | cons input inputs ih =>
      intro utxo start flotsam hmem
      rcases List.mem_append.1 hmem with hmem | hmem
      · obtain ⟨row, -, rfl⟩ := List.mem_map.1 hmem
        exact ⟨rfl, rfl⟩
      · exact ih flotsam hmem

/-- They come in the order of the inputs. -/
theorem walk_spentFlotsam {txid : Txid} :
    ∀ {utxo : UtxoSet} {start : ℕ}, Walk (inputs.map TxIn.previousOutput)
      ((spentFlotsam satpointToId txid inputs utxo start).map fun flotsam =>
        flotsam.oldSatpoint.outpoint) := by
  induction inputs with
  | nil => exact .done []
  | cons input inputs ih =>
      intro utxo start
      rw [spentFlotsam, List.map_append, List.map_cons]
      refine .segment (fun outpoint hmem => ?_) ih
      obtain ⟨flotsam, hflotsam, rfl⟩ := List.mem_map.1 hmem
      obtain ⟨row, hrow, rfl⟩ := List.mem_map.1 hflotsam
      exact (mem_inscriptionsOnOutput.1 hrow).2

/-- They are the inscriptions on the inputs, in the order of their offsets. -/
theorem taken_spentFlotsam (updater : Updater K P) (txid : Txid) :
    ∀ {utxo utxo' : UtxoSet} {sum : ℕ} (start : ℕ), spendInputs inputs utxo = some (sum, utxo') →
      (∀ satpoint id value, updater.satpointToId.lookup satpoint = some id →
        utxo.lookup satpoint.outpoint = some value → satpoint.offset < value) →
      Taken updater.satpointToId (inputs.map TxIn.previousOutput) start (start + sum)
        (spentFlotsam updater.satpointToId txid inputs utxo start) := by
  induction inputs with
  | nil =>
      intro utxo utxo' sum start hspend _
      cases hspend
      exact Taken.nil updater.satpointToId start
  | cons input inputs ih =>
      intro utxo utxo' sum start hspend hinside
      obtain ⟨value, hvalue, hspend⟩ := Option.bind_eq_some_iff.1 hspend
      obtain ⟨⟨rest, left⟩, hrest, hspend⟩ := Option.bind_eq_some_iff.1 hspend
      cases hspend
      rw [List.map_cons, spentFlotsam, hvalue, Option.getD_some, ← Nat.add_assoc]
      refine Taken.cons (fun satpoint id hrow houtpoint => ?_) ?_ (by omega) (ih _ hrest ?_)
      · exact hinside satpoint id value hrow (houtpoint ▸ hvalue)
      · intro hmem
        have hagain := isSome_of_spendInputs hrest _ hmem
        rw [AList.lookup_erase] at hagain
        cases hagain
      · exact fun satpoint id found hrow hfound =>
          hinside satpoint id found hrow (lookup_erase_cases hfound).2

/-- The loop over the inputs of a transaction finds the inscriptions that the chain and the location
table give, in both modes. -/
theorem takeInputs_found {utxo utxo' : UtxoSet} {sum total : ℕ} {found : List Flotsam}
    {updater after : Updater K P}
    (htake : takeInputs env context (!env.tapLean || tapLeanTxRelevant updater.toTables tx) tx.txid
      tx.input 0 updater = some (total, found, after))
    (hspend : spendInputs tx.input utxo = some (sum, utxo')) (hnull : utxo.lookup OutPoint.null = none)
    (right : ValuesRight env updater.valueCache updater.outpointToValue utxo seen) :
    found = spentFlotsam updater.satpointToId tx.txid tx.input utxo 0 ∧
      ∃ cache table prefetched, after = updater.withValues cache table prefetched ∧
        ValuesRight env cache table utxo' seen := by
  by_cases hrelevant : (!env.tapLean || tapLeanTxRelevant updater.toTables tx) = true
  · have hhand : ∀ input ∈ tx.input, (!env.tapLean ||
        (!env.tapLean || tapLeanTxRelevant updater.toTables tx) ||
        valueAtHand updater utxo input.previousOutput) = true := by
      intro input _
      rw [hrelevant, Bool.or_true, Bool.true_or]
    obtain ⟨cache, table, prefetched, htake', right'⟩ :=
      takeInputs_eq context tx.txid 0 updater hspend hnull right hhand
    rw [htake] at htake'
    cases htake'
    exact ⟨rfl, cache, table, prefetched, rfl, right'⟩
  · -- lean replay finds the transaction irrelevant: no input carries an inscription
    have hempty : ∀ input ∈ tx.input,
        inscriptionsOnOutput updater.satpointToId input.previousOutput = [] := by
      intro input hmem
      have hne : input.previousOutput ≠ OutPoint.null := by
        intro heq
        have hsome := isSome_of_spendInputs hspend _ (List.mem_map_of_mem hmem)
        rw [heq, hnull] at hsome
        cases hsome
      have hnone : ∀ input ∈ tx.input, carriesInscription updater.satpointToId input = false := by
        simp [tapLeanTxRelevant] at hrelevant
        exact fun input hmem => hrelevant.2.1 input hmem
      have hcarries := hnone input hmem
      simpa [carriesInscription, hne] using hcarries
    obtain ⟨rfl, hafter⟩ := takeInputs_nothing htake hspend hnull right hempty
    exact ⟨(spentFlotsam_nothing hempty).symm, hafter⟩

end Inputs

/-! ### Envelopes -/

def revealed (tables : Tables K P) (tx : Transaction) (first : TxIn) (fee : ℕ)
    (inscription : Inscription) : Flotsam where
  txid := tx.txid
  inscriptionId := chainId tables tx
  offset := 0
  oldSatpoint := { outpoint := first.previousOutput, offset := 0 }
  origin := .new fee inscription

/-- What reading the envelope can do. -/
theorem readEnvelope_cases {first : TxIn} {inputs : List TxIn} {inputValue : ℕ}
    {found inscriptions : List Flotsam} {updater after : Updater K P}
    (hinput : tx.input = first :: inputs)
    (hread : readEnvelope env tx inputValue found updater = some (inscriptions, after)) :
    (inscriptions = found ∧ after = updater) ∨
      (parsedEnvelope updater.toTables tx = some .part ∧ inscriptions = found ∧
        after = continueChain first.previousOutput.txid tx updater) ∨
      ∃ fee inscription, (∀ flotsam ∈ found, flotsam.offset ≠ 0) ∧
        parsedEnvelope updater.toTables tx = some (.complete inscription) ∧
        inscriptions = found ++ [revealed updater.toTables tx first fee inscription] ∧
        after = completeChain first.previousOutput.txid tx (env.keeps inscription) updater := by
  unfold readEnvelope at hread
  split at hread
  · cases hread
    exact .inl ⟨rfl, rfl⟩
  next hzero =>
    have hzero : ∀ flotsam ∈ found, flotsam.offset ≠ 0 := by simpa using hzero
    rw [hinput] at hread
    cases hparsed : parsedEnvelope updater.toTables tx with
    | none => simp [hparsed] at hread
    | some parsed =>
        rw [hparsed] at hread
        cases parsed with
        | none =>
            cases hread
            exact .inl ⟨rfl, rfl⟩
        | part =>
            cases hread
            exact .inr (.inl ⟨rfl, rfl, rfl⟩)
        | complete inscription =>
            obtain ⟨fee, -, hread⟩ := Option.bind_eq_some_iff.1 hread
            cases hread
            exact .inr (.inr ⟨fee, inscription, hzero, rfl, rfl, rfl⟩)

end OrdDogecoin.Inscriptions
