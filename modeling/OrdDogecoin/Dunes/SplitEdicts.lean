/-
Module: OrdDogecoin.Dunes.SplitEdicts
Purpose: The edicts whose output is the number of outputs, which are meant to split an amount over the
  outputs that are no OP_RETURN.  They are accepted with the others, but the loop over the edicts skips
  them before it reaches the split, so such an edict does what it should exactly when there is nothing to
  split.
Trusted boundary: none
Main exports: destinations, edictTurns, splitDone_iff
-/
import OrdDogecoin.Dunes.MintTerms
import OrdDogecoin.Lib.Apportion

namespace OrdDogecoin.Dunes

open Chain Apportion

/-! ### What a split edict is for -/

/-- The outputs that are no OP_RETURN, in order. -/
def destinations (outputs : List TxOut) : List ℕ :=
  (List.range outputs.length).filter fun vout =>
    (outputs[vout]?).any fun output => !isOpReturn output.scriptPubkey

/-- What each of `count` outputs gets of a balance: an equal part for an amount of zero, else the amount in
turn while it lasts. -/
def splitShares (count balance amount : ℕ) : List ℕ :=
  if amount = 0 then evenShares count balance else sharesInTurn amount count balance

/-- What one output gets. -/
def shareOf (vouts shares : List ℕ) (vout : ℕ) : ℕ :=
  (((vouts.zip shares).filter (·.1 = vout)).map Prod.snd).sum

/-- The dune an edict moves, and what there is of it. -/
def edictSource (newId : Option ℕ) (edict : Edict) (pools : Pools) : Option (ℕ × ℕ) :=
  if edict.id = 0 then newId.map fun id => (id, pools.issuance)
  else
    match claim edict.id with
    | some id => (pools.mintable.lookup id).map fun balance => (id, balance)
    | none => (pools.unallocated.lookup edict.id).map fun balance => (edict.id, balance)

/-- An edict whose turn has come: the dune the transaction etches, and the pools before the edict. -/
structure EdictTurn where
  newId : Option ℕ
  edict : Edict
  pools : Pools

/-- The edict does not fail, and each output that is no OP_RETURN gets its share of what there is. -/
def SplitDone (overflow : Overflow) (outputs : List TxOut) (turn : EdictTurn) : Prop :=
  ∃ after, applyEdict turn.newId turn.edict turn.pools overflow.add overflow.sub = some after ∧
    ∀ vout id, amountAt (after.allocated.getD vout ∅) id =
      amountAt (turn.pools.allocated.getD vout ∅) id +
        match edictSource turn.newId turn.edict turn.pools with
        | none => 0
        | some (source, balance) =>
            if id = source then
              shareOf (destinations outputs)
                (splitShares (destinations outputs).length balance turn.edict.amount) vout
            else 0

/-- There is no output to split over, or nothing of the dune to split. -/
def NothingToSplit (outputs : List TxOut) (turn : EdictTurn) : Prop :=
  destinations outputs = [] ∨
    ∀ source ∈ edictSource turn.newId turn.edict turn.pools, source.2 = 0

/-! ### The turns of a transaction -/

def turnsFrom (overflow : Overflow) (newId : Option ℕ) : List Edict → Pools → List EdictTurn
  | [], _ => []
  | edict :: edicts, pools =>
      ⟨newId, edict, pools⟩ ::
        match applyEdict newId edict pools overflow.add overflow.sub with
        | none => []
        | some after => turnsFrom overflow newId edicts after

/-- The turns of the edicts of a transaction, none for a cenotaph. -/
def edictTurns (overflow : Overflow) (block : BlockInfo) (index : ℕ) (tx : Transaction)
    (dunes : DuneTables) : List EdictTurn :=
  match Dunestone.fromTransaction tx, takeInputs tx.input dunes.outpointToBalances ∅ overflow.add with
  | some dunestone, some (balances, unallocated) =>
      if dunestone.cenotaph then []
      else
        let (found, dunes) :=
          allocation { dunes with outpointToBalances := balances } block index dunestone.etching
        turnsFrom overflow (found.map Allocation.id) dunestone.edicts
          (initialPools dunes block.height tx.output.length dunestone.edicts unallocated)
  | _, _ => []

variable {overflow : Overflow}

/-- The outputs of the pools are those of the transaction at every turn. -/
theorem length_of_mem_turnsFrom {newId : Option ℕ} {turn : EdictTurn} {edicts : List Edict} :
    ∀ {pools : Pools}, turn ∈ turnsFrom overflow newId edicts pools →
      turn.pools.allocated.length = pools.allocated.length := by
  induction edicts with
  | nil => exact fun h => absurd h List.not_mem_nil
  | cons edict edicts ih =>
      intro pools hturn
      rcases List.mem_cons.mp hturn with rfl | hturn
      · rfl
      · cases happly : applyEdict newId edict pools overflow.add overflow.sub with
        | none =>
            rw [happly] at hturn
            exact absurd hturn List.not_mem_nil
        | some after =>
            rw [happly] at hturn
            exact (ih hturn).trans (applyEdict_length happly)

theorem length_of_mem_edictTurns {block : BlockInfo} {index : ℕ} {tx : Transaction}
    {dunes : DuneTables} {turn : EdictTurn}
    (hturn : turn ∈ edictTurns overflow block index tx dunes) :
    turn.pools.allocated.length = tx.output.length := by
  unfold edictTurns at hturn
  split at hturn
  next dunestone balances unallocated _ _ =>
    split at hturn
    next => exact absurd hturn List.not_mem_nil
    next =>
      rw [length_of_mem_turnsFrom hturn]
      exact List.length_replicate
  next => exact absurd hturn List.not_mem_nil

/-! ### The skipped edict -/

theorem applyEdict_split {newId : Option ℕ} {edict : Edict} {pools : Pools}
    (houtput : edict.output = pools.allocated.length) :
    applyEdict newId edict pools overflow.add overflow.sub = some pools := by
  rw [applyEdict.eq_def, if_pos (Nat.le_of_eq houtput.symm)]

theorem length_splitShares (count balance amount : ℕ) :
    (splitShares count balance amount).length = count := by
  unfold splitShares
  split
  · exact length_evenShares count balance
  · exact length_sharesInTurn amount

/-- Shares that are all zero come from a balance of zero, or from no output. -/
theorem sum_splitShares_eq_zero_iff {count balance amount : ℕ} :
    (splitShares count balance amount).sum = 0 ↔ count = 0 ∨ balance = 0 := by
  unfold splitShares
  split
  next =>
    rcases Nat.eq_zero_or_pos count with rfl | hpos
    · simp [evenShares]
    · rw [sum_evenShares hpos]
      exact (or_iff_right (Nat.ne_of_gt hpos)).symm
  next hamount => rw [sum_sharesInTurn, Nat.min_eq_zero_iff, Nat.mul_eq_zero, or_iff_left hamount]

/-- No output gets anything exactly when the shares are zero. -/
theorem shareOf_eq_zero_iff {vouts shares : List ℕ} (hlength : shares.length = vouts.length) :
    (∀ vout, shareOf vouts shares vout = 0) ↔ shares.sum = 0 := by
  have hshares : (vouts.zip shares).map Prod.snd = shares :=
    List.map_snd_zip (Nat.le_of_eq hlength)
  rw [List.sum_eq_zero_iff]
  constructor
  · intro hzero share hshare
    rw [← hshares] at hshare
    obtain ⟨⟨vout, given⟩, hpair, rfl⟩ := List.mem_map.mp hshare
    refine List.sum_eq_zero_iff.mp (hzero vout) given ?_
    exact List.mem_map_of_mem (List.mem_filter.mpr ⟨hpair, decide_eq_true rfl⟩)
  · intro hzero vout
    refine List.sum_eq_zero_iff.mpr fun share hshare => ?_
    obtain ⟨pair, hpair, rfl⟩ := List.mem_map.mp hshare
    refine hzero pair.2 ?_
    rw [← hshares]
    exact List.mem_map_of_mem (List.mem_of_mem_filter hpair)

/-- The skipped edict has done its split exactly when there was nothing to split. -/
theorem splitDone_iff_of_length {outputs : List TxOut} {turn : EdictTurn}
    (houtput : turn.edict.output = turn.pools.allocated.length) :
    SplitDone overflow outputs turn ↔ NothingToSplit outputs turn := by
  have hskip := @applyEdict_split overflow turn.newId turn.edict turn.pools houtput
  unfold SplitDone NothingToSplit
  rw [hskip]
  cases hsource : edictSource turn.newId turn.edict turn.pools with
  | none => simp
  | some source =>
      obtain ⟨id, balance⟩ := source
      have hshares := shareOf_eq_zero_iff
        (length_splitShares (destinations outputs).length balance turn.edict.amount)
      rw [sum_splitShares_eq_zero_iff, List.length_eq_zero_iff] at hshares
      have hnothing : (∀ source ∈ some (id, balance), source.2 = 0) ↔ balance = 0 := by simp
      rw [hnothing, ← hshares]
      constructor
      · rintro ⟨after, hafter, hgiven⟩ vout
        cases hafter
        have hgiven := hgiven vout id
        dsimp only at hgiven
        rw [if_pos rfl] at hgiven
        exact Nat.left_eq_add.mp hgiven
      · intro hzero
        refine ⟨turn.pools, rfl, fun vout other => ?_⟩
        dsimp only
        rw [hzero, ite_self, Nat.add_zero]

/-- For every transaction and every edict of its dunestone whose output is the number of outputs: the
edict, at its turn, does not fail and gives the outputs that are no OP_RETURN their shares exactly when
there is no such output, or nothing of its dune to split. -/
theorem splitDone_iff (overflow : Overflow) (block : BlockInfo) (index : ℕ) (tx : Transaction)
    (dunes : DuneTables) :
    ∀ turn ∈ edictTurns overflow block index tx dunes, turn.edict.output = tx.output.length →
      (SplitDone overflow tx.output turn ↔ NothingToSplit tx.output turn) := by
  intro turn hturn houtput
  exact splitDone_iff_of_length (houtput.trans (length_of_mem_edictTurns hturn).symm)

/-- An etching whose edict gives 100 of the new dune to every output in turn; the number of outputs is
all that differs. -/
def splitEtching (outputs : List TxOut) : Transaction where
  txid := 1
  input := []
  output := outputs ++ [dunestoneOutput [2, 1, 0, 0, 100, UInt8.ofNat (outputs.length + 1)]]

/-- What decides a split: the edict, what there is to split, and the outputs to split it over. -/
def turnView (outputs : List TxOut) (turn : EdictTurn) : Edict × Option (ℕ × ℕ) × List ℕ :=
  (turn.edict, edictSource turn.newId turn.edict turn.pools, destinations outputs)

theorem exists_turn_of_view {tx : Transaction} {view : Edict × Option (ℕ × ℕ) × List ℕ}
    (hview : (edictTurns overflow sampleBlock 0 tx DuneTables.empty).map (turnView tx.output) = [view]) :
    
    ∃ turn ∈ edictTurns overflow sampleBlock 0 tx DuneTables.empty, turnView tx.output turn = view := by
  have hmem : view ∈ (edictTurns overflow sampleBlock 0 tx DuneTables.empty).map (turnView tx.output) := by
    rw [hview]
    exact List.mem_singleton_self view
  exact List.mem_map.mp hmem

/-- Without an output that could hold the dune, the edict does what it should. -/
theorem splitEtching_done :
    ∃ turn ∈ edictTurns .panics sampleBlock 0 (splitEtching []) DuneTables.empty,
      turn.edict.output = (splitEtching []).output.length ∧
        SplitDone .panics (splitEtching []).output turn := by
  have hview : (edictTurns .panics sampleBlock 0 (splitEtching []) DuneTables.empty).map
      (turnView (splitEtching []).output) = [(⟨0, 100, 1⟩, some (2 <<< 16, maxU128), [])] := by
    decide
  obtain ⟨turn, hturn, hthis⟩ := exists_turn_of_view hview
  have houtput : turn.edict.output = (splitEtching []).output.length :=
    congrArg (fun view => view.1.output) hthis
  have hnone : destinations (splitEtching []).output = [] := congrArg (fun view => view.2.2) hthis
  exact ⟨turn, hturn, houtput,
    (splitDone_iff .panics sampleBlock 0 (splitEtching []) DuneTables.empty turn hturn houtput).mpr
      (.inl hnone)⟩

/-- With one such output, which should get 100, the edict is skipped. -/
theorem splitEtching_skipped :
    ¬∀ overflow block index tx dunes, ∀ turn ∈ edictTurns overflow block index tx dunes,
      turn.edict.output = tx.output.length → SplitDone overflow tx.output turn := by
  intro hclaim
  have hview : (edictTurns .panics sampleBlock 0 (splitEtching [⟨1, []⟩]) DuneTables.empty).map
      (turnView (splitEtching [⟨1, []⟩]).output) = [(⟨0, 100, 2⟩, some (2 <<< 16, maxU128), [0])] := by
    decide
  obtain ⟨turn, hturn, hthis⟩ := exists_turn_of_view hview
  have houtput : turn.edict.output = (splitEtching [⟨1, []⟩]).output.length :=
    congrArg (fun view => view.1.output) hthis
  have hdone := hclaim .panics sampleBlock 0 (splitEtching [⟨1, []⟩]) DuneTables.empty turn hturn houtput
  have hsource : edictSource turn.newId turn.edict turn.pools = some (2 <<< 16, maxU128) :=
    congrArg (fun view => view.2.1) hthis
  have hsome : destinations (splitEtching [⟨1, []⟩]).output = [0] := congrArg (fun view => view.2.2) hthis
  have hnothing :=
    (splitDone_iff_of_length (houtput.trans (length_of_mem_edictTurns hturn).symm)).mp hdone
  rcases hnothing with hnone | hzero
  · rw [hsome] at hnone
    cases hnone
  · exact absurd (hzero _ hsource) (by decide)

end OrdDogecoin.Dunes
