/-
Module: OrdDogecoin.Inscriptions.Operations
Purpose: What the pass over a block keeps, in both modes.  A property of the updater that survives
  taking values, reading envelopes and every single move survives the block; with this rule, the
  operations recorded for the DRC-20 updater lead to outputs of the block, and a new inscription that
  the index keeps has an entry.
Trusted boundary: none
Main exports: PlaceOf, KeptByPass.indexTransaction, OperationsSound
-/
import OrdDogecoin.Inscriptions.Reveals

namespace OrdDogecoin.Inscriptions

open Chain KeyTable

variable {K P : Type} {env : IndexEnv K P} {context : BlockContext K P} {tx : Transaction}

/-! ### The rule of the pass -/

/-- Where a transaction can put an inscription: into one of its outputs, or into the lost range. -/
def PlaceOf (tx : Transaction) (outpoint : OutPoint) : Prop :=
  outpoint = OutPoint.null ∨ ∃ vout < tx.output.length, outpoint = tx.outpoint vout

/-- A property of the updater that the transactions of a block keep. -/
structure KeptByPass (env : IndexEnv K P) (context : BlockContext K P) (txdata : List Transaction)
    (Inv : Updater K P → Prop) : Prop where
  values : ∀ {updater : Updater K P} cache table prefetched, Inv updater →
    Inv (updater.withValues cache table prefetched)
  chains : ∀ {updater : Updater K P} partialTxidToTxids txidToTx idToTxids, Inv updater →
    Inv (updater.withChains partialTxidToTxids txidToTx idToTxids)
  carried : ∀ {updater : Updater K P} flotsam reward, Inv updater →
    Inv { updater with flotsam := flotsam, reward := reward }
  move : ∀ {tx : Transaction} {updater : Updater K P} flotsam satpoint, tx ∈ txdata →
    PlaceOf tx satpoint.outpoint → Inv updater →
    Inv (updateInscriptionLocation env context tx flotsam satpoint updater)

namespace KeptByPass

variable {txdata : List Transaction} {Inv : Updater K P → Prop}

theorem placeAll (kept : KeptByPass env context txdata Inv) (htx : tx ∈ txdata)
    {place : Flotsam → SatPoint} (hplace : ∀ flotsam, PlaceOf tx (place flotsam).outpoint)
    (inscriptions : List Flotsam) :
    ∀ {updater : Updater K P}, Inv updater →
      Inv (placeAll env context tx place inscriptions updater) := by
  induction inscriptions with
  | nil => exact fun inv => inv
  | cons flotsam inscriptions ih =>
      exact fun inv => ih (kept.move flotsam _ htx (hplace flotsam) inv)

theorem assignOutputs (kept : KeptByPass env context txdata Inv) (htx : tx ∈ txdata)
    (outputs : List TxOut) :
    ∀ {vout : ℕ} (outputValue : ℕ) (inscriptions : List Flotsam) {updater : Updater K P},
      vout + outputs.length ≤ tx.output.length → Inv updater →
      Inv (assignOutputs env context tx outputs vout outputValue inscriptions updater).2.2 := by
  induction outputs with
  | nil => exact fun _ _ _ _ inv => inv
  | cons output outputs ih =>
      intro vout outputValue inscriptions updater hlength inv
      rw [List.length_cons] at hlength
      apply ih _ _ (by omega)
      refine kept.values _ _ _ (kept.placeAll htx (fun flotsam => ?_) _ inv)
      exact .inr ⟨vout, by omega, rfl⟩

theorem settleRest (kept : KeptByPass env context txdata Inv) (htx : tx ∈ txdata)
    {inputValue outputValue lost : ℕ} {rest : List Flotsam} {updater after : Updater K P}
    (hsettle : settleRest env context tx inputValue outputValue rest updater = some (lost, after))
    (inv : Inv updater) : Inv after := by
  unfold Inscriptions.settleRest at hsettle
  split at hsettle
  · obtain ⟨_, -, hsettle⟩ := Option.bind_eq_some_iff.1 hsettle
    cases hsettle
    exact kept.placeAll htx (fun flotsam => .inl rfl) rest inv
  · obtain ⟨_, -, hsettle⟩ := Option.bind_eq_some_iff.1 hsettle
    cases hsettle
    exact kept.carried _ _ inv

/-- One transaction keeps the property. -/
theorem indexTransaction (kept : KeptByPass env context txdata Inv) (htx : tx ∈ txdata)
    {state state' : ℕ × Updater K P}
    (hindex : indexTransaction env context state tx = some state') (inv : Inv state.2) :
    Inv state'.2 := by
  obtain ⟨⟨lost, after⟩, hpass, rfl⟩ := Option.map_eq_some_iff.1 hindex
  unfold indexTransactionInscriptions at hpass
  obtain ⟨⟨total, found, taken⟩, htake, hpass⟩ := Option.bind_eq_some_iff.1 hpass
  obtain ⟨⟨inscriptions, read⟩, hread, hpass⟩ := Option.bind_eq_some_iff.1 hpass
  obtain ⟨cache, table, prefetched, rfl⟩ := exists_withValues_of_takeInputs htake
  obtain ⟨chains, txs, contents, rfl⟩ := exists_withChains_of_readEnvelope hread
  have hread := kept.chains chains txs contents (kept.values cache table prefetched inv)
  refine kept.settleRest htx hpass (kept.assignOutputs htx tx.output _ _ (by omega) ?_)
  split
  · exact kept.carried [] _ hread
  · exact hread

/-- The transactions of a block keep the property. -/
theorem foldlM (kept : KeptByPass env context txdata Inv) {txs : List Transaction}
    (htxs : ∀ tx ∈ txs, tx ∈ txdata) :
    ∀ {state state' : ℕ × Updater K P},
      txs.foldlM (Inscriptions.indexTransaction env context) state = some state' →
      Inv state.2 → Inv state'.2 := by
  induction txs with
  | nil =>
      intro state state' hfold inv
      cases hfold
      exact inv
  | cons tx txs ih =>
      intro state state' hfold inv
      rw [List.foldlM_cons] at hfold
      obtain ⟨middle, hindex, hfold⟩ := Option.bind_eq_some_iff.1 hfold
      apply ih (fun other hmem => htxs other (List.mem_cons_of_mem _ hmem)) hfold
      exact kept.indexTransaction (htxs tx List.mem_cons_self) hindex inv

end KeptByPass

theorem mem_processingOrder {block : BlockData} {tx : Transaction} :
    tx ∈ block.processingOrder ↔ tx ∈ block.txdata := by
  unfold BlockData.processingOrder
  rw [List.mem_append, or_comm, ← List.mem_append, List.take_append_drop]

/-! ### Entries and operations of one move -/

section Update

variable (env context tx) (flotsam : Flotsam) (satpoint : SatPoint) (updater : Updater K P)

/-- The operation that a move records. -/
def Flotsam.operation (number : Option ℕ) : InscriptionOp where
  txid := flotsam.txid
  inscriptionNumber := number
  inscriptionId := flotsam.inscriptionId
  action :=
    match flotsam.origin with
    | .old _ => .transfer
    | .new _ inscription => .new inscription
  oldSatpoint := flotsam.oldSatpoint
  newSatpoint := satpoint

theorem operations_update :
    ∃ number,
      (updateInscriptionLocation env context tx flotsam satpoint updater).operations =
        updater.operations.insert flotsam.txid
          ((updater.operations.lookup flotsam.txid).getD [] ++
            [flotsam.operation satpoint number]) := by
  refine ⟨((leaveOldLocation env context flotsam updater).idToEntry.lookup
    flotsam.inscriptionId).map InscriptionEntry.inscriptionNumber, ?_⟩
  unfold updateInscriptionLocation enterNewLocation tapHook recordOperation leaveOldLocation
    Flotsam.operation
  cases flotsam.origin with
  | old old => rfl
  | new fee inscription =>
      dsimp only
      split <;> rfl

theorem idToEntry_update :
    (updateInscriptionLocation env context tx flotsam satpoint updater).idToEntry =
      match flotsam.origin with
      | .old _ => updater.idToEntry
      | .new fee inscription =>
          if env.keeps inscription then
            updater.idToEntry.insert flotsam.inscriptionId
              { fee := fee
                height := context.height
                inscriptionNumber := updater.nextNumber
                timestamp := context.timestamp }
          else updater.idToEntry := by
  unfold updateInscriptionLocation enterNewLocation tapHook recordOperation leaveOldLocation
  cases flotsam.origin with
  | old old => rfl
  | new fee inscription =>
      dsimp only
      split <;> rfl

end Update

/-- Entries stay, and a new inscription that is kept gets one. -/
theorem isSome_idToEntry_update {flotsam : Flotsam} {updater : Updater K P} {id : InscriptionId}
    (satpoint : SatPoint) (hentry : (updater.idToEntry.lookup id).isSome) :
    ((updateInscriptionLocation env context tx flotsam satpoint updater).idToEntry.lookup
      id).isSome := by
  rw [idToEntry_update]
  cases flotsam.origin with
  | old old => exact hentry
  | new fee inscription =>
      dsimp only
      split
      · rw [lookup_insert_ite]
        split
        · rfl
        · exact hentry
      · exact hentry

theorem KeptByPass.entry (env : IndexEnv K P) (context : BlockContext K P)
    (txdata : List Transaction) (id : InscriptionId) :
    KeptByPass env context txdata fun updater => (updater.idToEntry.lookup id).isSome where
  values _ _ _ hentry := hentry
  chains _ _ _ hentry := hentry
  carried _ _ hentry := hentry
  move _ satpoint _ _ hentry := isSome_idToEntry_update satpoint hentry

/-- The other protocols wait for the end of the block. -/
theorem KeptByPass.protocols (env : IndexEnv K P) (context : BlockContext K P)
    (txdata : List Transaction) (protocols : P) :
    KeptByPass env context txdata fun updater => updater.protocols = protocols where
  values _ _ _ hsame := hsame
  chains _ _ _ hsame := hsame
  carried _ _ hsame := hsame
  move {tx updater} flotsam satpoint _ _ hsame := by
    rw [← hsame]
    unfold updateInscriptionLocation enterNewLocation tapHook recordOperation leaveOldLocation
    cases flotsam.origin with
    | old old => rfl
    | new fee inscription =>
        dsimp only
        split <;> rfl

/-! ### The operations of a block -/

/-- The recorded operations: each under its transaction, to a place of the block, and with an entry
for a new inscription that is kept. -/
structure OperationSound (env : IndexEnv K P) (txdata : List Transaction)
    (idToEntry : KeyTable InscriptionId InscriptionEntry) (txid : Txid) (op : InscriptionOp) :
    Prop where
  keyed : op.txid = txid
  placed : ∃ tx ∈ txdata, PlaceOf tx op.newSatpoint.outpoint
  entered : ∀ inscription, op.action = .new inscription → env.keeps inscription = true →
    (idToEntry.lookup op.inscriptionId).isSome

def OperationsSound (env : IndexEnv K P) (txdata : List Transaction) (updater : Updater K P) : Prop :=
  ∀ txid operations, updater.operations.lookup txid = some operations → ∀ op ∈ operations,
    OperationSound env txdata updater.idToEntry txid op

theorem OperationSound.ofFlotsam {txdata : List Transaction} (htx : tx ∈ txdata) (flotsam : Flotsam)
    {satpoint : SatPoint} (hplace : PlaceOf tx satpoint.outpoint) (updater : Updater K P)
    (number : Option ℕ) :
    OperationSound env txdata
      (updateInscriptionLocation env context tx flotsam satpoint updater).idToEntry flotsam.txid
      (flotsam.operation satpoint number) where
  keyed := rfl
  placed := ⟨tx, htx, hplace⟩
  entered inscription haction hkeeps := by
    rw [idToEntry_update]
    unfold Flotsam.operation at haction ⊢
    cases horigin : flotsam.origin with
    | old old => simp [horigin] at haction
    | new fee found =>
        simp only [horigin, Action.new.injEq] at haction
        subst haction
        simp only [if_pos hkeeps, AList.lookup_insert, Option.isSome_some]

theorem OperationsSound.kept (env : IndexEnv K P) (context : BlockContext K P)
    (txdata : List Transaction) : KeptByPass env context txdata (OperationsSound env txdata) where
  values _ _ _ sound := sound
  chains _ _ _ sound := sound
  carried _ _ sound := sound
  move {tx updater} flotsam satpoint htx hplace sound := by
    intro txid operations hrow op hop
    obtain ⟨number, hoperations⟩ := operations_update env context tx flotsam satpoint updater
    rw [hoperations] at hrow
    have hgrown : ∀ {txid operations op}, updater.operations.lookup txid = some operations →
        op ∈ operations → OperationSound env txdata
          (updateInscriptionLocation env context tx flotsam satpoint updater).idToEntry txid op := by
      intro txid operations op hrow hop
      obtain ⟨hkeyed, hplaced, hentered⟩ := sound txid operations hrow op hop
      exact ⟨hkeyed, hplaced, fun inscription haction hkeeps =>
        isSome_idToEntry_update satpoint (hentered inscription haction hkeeps)⟩
    rcases lookup_insert_cases hrow with ⟨rfl, rfl⟩ | ⟨-, hold⟩
    · rcases List.mem_append.1 hop with hop | hop
      · cases hrow : updater.operations.lookup flotsam.txid with
        | none => simp [hrow] at hop
        | some operations =>
            rw [hrow] at hop
            exact hgrown hrow hop
      · obtain rfl := List.mem_singleton.1 hop
        exact .ofFlotsam htx flotsam hplace updater number
    · exact hgrown hold hop

end OrdDogecoin.Inscriptions
