/-
Module: OrdDogecoin.Sats.Fifo
Purpose: What the sat index is for: sats go from inputs to outputs first in, first out, what a block's
  transactions leave over goes to its coinbase, and what the coinbase leaves over is lost at the null
  outpoint.  No range is encoded here.  Over every valid block the sats of all rows stay a permutation of
  the sats mined so far.
Trusted boundary: none
Main exports: Fifo, Fifo.Backs, Fifo.exists_block
-/
import OrdDogecoin.Chain.Blocks
import OrdDogecoin.Lib.RangeQueue
import OrdDogecoin.Sats.SatIndex
import Mathlib.Data.Multiset.Range
import Mathlib.Algebra.Order.Group.Multiset

namespace OrdDogecoin.Sats

open Chain
open KeyTable
open RangeQueue
open Option (bind_eq_some_iff bind_some bind_eq_bind)

/-- The ranges of each output and of the null outpoint, and every range dealt so far. -/
structure Fifo where
  rows : KeyTable OutPoint Row
  dealt : List SatRange

namespace Fifo

/-- Before the first block. -/
def start : Fifo where
  rows := initialRanges
  dealt := []

/-- The ranges of the inputs, in order, and the rows without them. -/
def takeInputs : List TxIn → KeyTable OutPoint Row → Option (List SatRange × KeyTable OutPoint Row)
  | [], rows => some ([], rows)
  | input :: inputs, rows => do
      let row ← rows.lookup input.previousOutput
      let (ranges, rows) ← takeInputs inputs (rows.erase input.previousOutput)
      some (row ++ ranges, rows)

def deal (fifo : Fifo) (outpoint : OutPoint) (row : Row) : Fifo where
  rows := fifo.rows.insert outpoint row
  dealt := fifo.dealt ++ row

/-- The outputs from number `vout` on take their sats off the queue. -/
def dealOutputs (tx : Transaction) :
    ℕ → List TxOut → List SatRange → Fifo → Option (List SatRange × Fifo)
  | _, [], ranges, fifo => some (ranges, fifo)
  | vout, output :: outputs, ranges, fifo => do
      let (row, ranges) ← cut output.value ranges
      dealOutputs tx (vout + 1) outputs ranges (fifo.deal (tx.outpoint vout) row)

/-- The transactions after the coinbase. -/
def spends : List Transaction → List SatRange → Fifo → Option (List SatRange × Fifo)
  | [], fees, fifo => some (fees, fifo)
  | tx :: txs, fees, fifo => do
      let (ranges, rows) ← takeInputs tx.input fifo.rows
      let (rest, fifo) ← dealOutputs tx 0 tx.output ranges { fifo with rows := rows }
      spends txs (fees ++ rest) fifo

/-- What nobody claims is lost. -/
def lose (fifo : Fifo) (ranges : List SatRange) : Fifo :=
  if ranges.isEmpty then fifo
  else
    { rows := fifo.rows.insert OutPoint.null ((fifo.rows.lookup OutPoint.null).getD [] ++ ranges)
      dealt := fifo.dealt ++ ranges }

/-- A block whose reward is the `reward` sats from `first` on. -/
def block (first reward : ℕ) (block : BlockData) (fifo : Fifo) : Option Fifo := do
  let (fees, fifo) ← spends block.txdata.tail (if 0 < reward then [(first, first + reward)] else []) fifo
  let (rest, fifo) ←
    match block.txdata with
    | [] => some (fees, fifo)
    | coinbase :: _ => dealOutputs coinbase 0 coinbase.output fees fifo
  some (fifo.lose rest)

/-! ### Sats are conserved -/

def sats (rows : KeyTable OutPoint Row) : Multiset ℕ :=
  total (fun _ row => (points row : Multiset ℕ)) rows

/-- Every unspent output has a row of as many sats as it is worth, and no other outpoint but the null one
has a row. -/
structure Backs (rows : KeyTable OutPoint Row) (utxo : UtxoSet) : Prop where
  value : ∀ outpoint value, utxo.lookup outpoint = some value →
    ∃ row, rows.lookup outpoint = some row ∧ (points row).length = value
  known : ∀ outpoint row, rows.lookup outpoint = some row →
    outpoint = OutPoint.null ∨ ∃ value, utxo.lookup outpoint = some value

variable {rows : KeyTable OutPoint Row}

theorem sats_erase {outpoint : OutPoint} {row : Row} (hrow : rows.lookup outpoint = some row) :
    sats rows = points row + sats (rows.erase outpoint) := by
  have htotal := total_erase (fun _ row => (points row : Multiset ℕ)) rows outpoint
  rw [weightAt, hrow] at htotal
  rw [sats, ← htotal, add_comm]
  rfl

theorem sats_insert {outpoint : OutPoint} (hfree : rows.lookup outpoint = none) (row : Row) :
    sats (rows.insert outpoint row) = points row + sats rows := by
  have htotal := total_insert (fun _ row => (points row : Multiset ℕ)) rows outpoint row
  rw [weightAt, hfree, Option.map_none, Option.getD_none, add_zero] at htotal
  rw [sats, htotal, add_comm]
  rfl

section Spend

variable {utxo : UtxoSet} {rows : KeyTable OutPoint Row}

theorem Backs.erase (backs : Backs rows utxo) (outpoint : OutPoint) :
    Backs (rows.erase outpoint) (utxo.erase outpoint) := by
  constructor
  · intro other value hvalue
    obtain ⟨hne, hvalue⟩ := lookup_erase_cases hvalue
    obtain ⟨row, hrow, hlength⟩ := backs.value other value hvalue
    exact ⟨row, by rw [AList.lookup_erase_ne hne, hrow], hlength⟩
  · intro other row hrow
    obtain ⟨hne, hrow⟩ := lookup_erase_cases hrow
    refine (backs.known other row hrow).imp_right fun ⟨value, hvalue⟩ => ?_
    exact ⟨value, by rw [AList.lookup_erase_ne hne, hvalue]⟩

/-- The inputs of a valid transaction have as many sats as they are worth. -/
theorem exists_takeInputs {inputs : List TxIn} :
    ∀ {utxo utxo' : UtxoSet} {rows : KeyTable OutPoint Row} {total : ℕ}, Backs rows utxo →
      spendInputs inputs utxo = some (total, utxo') →
      ∃ ranges rows', takeInputs inputs rows = some (ranges, rows') ∧ Backs rows' utxo' ∧
        (points ranges).length = total ∧ sats rows = points ranges + sats rows' := by
  induction inputs with
  | nil =>
      intro utxo utxo' rows total backs hspend
      cases hspend
      exact ⟨[], rows, rfl, backs, rfl, by simp⟩
  | cons input inputs ih =>
      intro utxo utxo' rows total backs hspend
      obtain ⟨value, hvalue, hspend⟩ := bind_eq_some_iff.1 hspend
      obtain ⟨⟨rest, left⟩, hrest, hspend⟩ := bind_eq_some_iff.1 hspend
      cases hspend
      obtain ⟨row, hrow, hlength⟩ := backs.value input.previousOutput value hvalue
      obtain ⟨ranges, rows', htake, backs', hranges, hsats⟩ := ih (backs.erase _) hrest
      refine ⟨row ++ ranges, rows', ?_, backs', ?_, ?_⟩
      · simp only [takeInputs, hrow, htake, bind_eq_bind, bind_some]
      · rw [points_append, List.length_append, hlength, hranges]
      · rw [sats_erase hrow, hsats, points_append, ← Multiset.coe_add, add_assoc]

end Spend

section Deal

variable {tx : Transaction} {utxo : UtxoSet} {fifo : Fifo} {ranges : List SatRange}

/-- No output of a transaction from number `vout` on has a row. -/
def Free (rows : KeyTable OutPoint Row) (txid : Txid) (vout : ℕ) : Prop :=
  ∀ number, vout ≤ number → rows.lookup { txid := txid, vout := number } = none

theorem Free.next {rows : KeyTable OutPoint Row} {vout : ℕ} (free : Free rows tx.txid vout) (row : Row) :
    Free (rows.insert (tx.outpoint vout) row) tx.txid (vout + 1) := by
  intro number hnumber
  rw [lookup_insert_ite, if_neg, free number (by omega)]
  intro heq
  have hsame : number = vout := congrArg OutPoint.vout heq
  omega

theorem Backs.insert {rows : KeyTable OutPoint Row} (backs : Backs rows utxo) (outpoint : OutPoint)
    (row : Row) : Backs (rows.insert outpoint row) (utxo.insert outpoint (points row).length) := by
  constructor
  · intro other value hvalue
    rcases lookup_insert_cases hvalue with ⟨rfl, rfl⟩ | ⟨hne, hold⟩
    · exact ⟨row, by simp, rfl⟩
    · obtain ⟨old, hrow, hlength⟩ := backs.value other value hold
      exact ⟨old, by rw [AList.lookup_insert_ne hne, hrow], hlength⟩
  · intro other found hfound
    rcases lookup_insert_cases hfound with ⟨rfl, rfl⟩ | ⟨hne, hold⟩
    · exact .inr ⟨_, AList.lookup_insert _⟩
    · refine (backs.known other found hold).imp_right fun ⟨value, hvalue⟩ => ?_
      exact ⟨value, by rw [AList.lookup_insert_ne hne, hvalue]⟩

/-- Outputs that pay out no more sats than the queue has. -/
theorem exists_dealOutputs {outputs : List TxOut} :
    ∀ {vout : ℕ} {utxo : UtxoSet} {fifo : Fifo} {ranges : List SatRange}, Backs fifo.rows utxo →
      Free fifo.rows tx.txid vout → (outputs.map TxOut.value).sum ≤ (points ranges).length →
      ∃ rest fifo', dealOutputs tx vout outputs ranges fifo = some (rest, fifo') ∧
        Backs fifo'.rows (createOutputs tx.txid outputs vout utxo) ∧
        (points rest).length + (outputs.map TxOut.value).sum = (points ranges).length ∧
        points ranges + sats fifo.rows = points rest + sats fifo'.rows := by
  induction outputs with
  | nil =>
      intro vout utxo fifo ranges backs free hpays
      exact ⟨ranges, fifo, rfl, backs, rfl, rfl⟩
  | cons output outputs ih =>
      intro vout utxo fifo ranges backs free hpays
      rw [List.map_cons, List.sum_cons] at hpays
      obtain ⟨row, left, hcut⟩ := exists_cut (show output.value ≤ (points ranges).length by omega)
      obtain ⟨hpoints, hlength⟩ := points_cut hcut
      have hsplit := congrArg List.length hpoints
      rw [List.length_append, hlength] at hsplit
      have backs' := backs.insert (tx.outpoint vout) row
      rw [hlength] at backs'
      obtain ⟨rest, fifo', hdeal, hbacks, hleft, hsats⟩ :=
        @ih (vout + 1) _ (fifo.deal (tx.outpoint vout) row) left backs' (free.next row) (by omega)
      refine ⟨rest, fifo', ?_, hbacks, ?_, ?_⟩
      · simp only [dealOutputs, hcut, bind_eq_bind, bind_some, hdeal]
      · rw [List.map_cons, List.sum_cons]
        omega
      · have hnew : sats (fifo.deal (tx.outpoint vout) row).rows = points row + sats fifo.rows :=
          sats_insert (free vout (le_refl vout)) row
        rw [← hsats, hnew, ← hpoints, ← Multiset.coe_add, add_comm (points row : Multiset ℕ),
          add_assoc]

end Deal

/-! ### Blocks -/

variable {tx : Transaction}

theorem Backs.free {chain : ChainState} (backs : Backs rows chain.utxo) (known : chain.Known)
    (hzero : tx.txid ≠ 0) (hfresh : tx.txid ∉ chain.seen) :
    Free rows tx.txid 0 := by
  intro number _
  by_contra hsome
  obtain ⟨row, hrow⟩ := Option.ne_none_iff_exists'.1 hsome
  rcases backs.known _ row hrow with hnull | ⟨value, hvalue⟩
  · exact hzero (congrArg OutPoint.txid hnull)
  · exact hfresh (known.2 _ value hvalue)

theorem Free.of_takeInputs {inputs : List TxIn} :
    ∀ {rows rows' : KeyTable OutPoint Row} {ranges : List SatRange} {txid vout : ℕ},
      takeInputs inputs rows = some (ranges, rows') → Free rows txid vout → Free rows' txid vout := by
  induction inputs with
  | nil =>
      intro rows rows' ranges txid vout htake free
      cases htake
      exact free
  | cons input inputs ih =>
      intro rows rows' ranges txid vout htake free
      obtain ⟨row, -, htake⟩ := bind_eq_some_iff.1 htake
      obtain ⟨⟨more, left⟩, hrest, htake⟩ := bind_eq_some_iff.1 htake
      cases htake
      refine ih hrest fun number hnumber => ?_
      rw [lookup_erase_ite, free number hnumber, ite_self]

/-- One transaction after the coinbase: its inputs, its outputs, and what is left over. -/
structure Spent (fifo : Fifo) (tx : Transaction) (ranges : List SatRange)
    (taken : KeyTable OutPoint Row) (rest : List SatRange) (after : Fifo) : Prop where
  take : takeInputs tx.input fifo.rows = some (ranges, taken)
  free : Free taken tx.txid 0
  deal : dealOutputs tx 0 tx.output ranges { fifo with rows := taken } = some (rest, after)

/-- A valid transaction after the coinbase is dealt; its fee is what is left over. -/
theorem exists_spent {fifo : Fifo} {chain : ChainState} {total : ℕ} {utxo : UtxoSet}
    (backs : Backs fifo.rows chain.utxo) (known : chain.Known) (hzero : tx.txid ≠ 0)
    (hfresh : tx.txid ∉ chain.seen) (hspend : spendInputs tx.input chain.utxo = some (total, utxo))
    (hpays : tx.outputValue ≤ total) :
    ∃ ranges taken rest after, Spent fifo tx ranges taken rest after ∧
      Backs after.rows (chain.after tx utxo).utxo ∧ (points rest).length = total - tx.outputValue ∧
      sats fifo.rows = points rest + sats after.rows := by
  obtain ⟨ranges, taken, htake, htaken, hlength, hsats⟩ := exists_takeInputs backs hspend
  have free := (backs.free known hzero hfresh).of_takeInputs htake
  obtain ⟨rest, after, hdeal, hbacks, hleft, hsats'⟩ :=
    @exists_dealOutputs tx tx.output 0 utxo { fifo with rows := taken } ranges htaken free
      (by rw [hlength]; exact hpays)
  refine ⟨ranges, taken, rest, after, ⟨htake, free, hdeal⟩, hbacks, ?_, ?_⟩
  · change _ = total - (tx.output.map TxOut.value).sum
    omega
  · rw [hsats]
    exact hsats'

/-- The transactions after the coinbase, one by one. -/
inductive Spends : List Transaction → List SatRange → Fifo → List SatRange → Fifo → Prop where
  | nil (fees : List SatRange) (fifo : Fifo) : Spends [] fees fifo fees fifo
  | cons {tx : Transaction} {txs : List Transaction} {fees ranges rest fees' : List SatRange}
      {fifo after fifo' : Fifo} {taken : KeyTable OutPoint Row} (nonzero : tx.txid ≠ 0)
      (sources : ∀ input ∈ tx.input, input.previousOutput ≠ OutPoint.null)
      (spent : Spent fifo tx ranges taken rest after)
      (more : Spends txs (fees ++ rest) after fees' fifo') : Spends (tx :: txs) fees fifo fees' fifo'

theorem Spends.spends_eq {txs : List Transaction} {fees fees' : List SatRange} {fifo fifo' : Fifo}
    (run : Spends txs fees fifo fees' fifo') : spends txs fees fifo = some (fees', fifo') := by
  induction run with
  | nil fees fifo => rfl
  | cons nonzero sources spent more ih =>
      simp only [spends, spent.take, spent.deal, bind_eq_bind, bind_some, ih]

/-- The transactions of a valid block after its coinbase leave their fees over. -/
theorem exists_spends {txs : List Transaction} :
    ∀ {fifo : Fifo} {fees : List SatRange} {chain chain' : ChainState} {reward reward' : ℕ},
      (∀ tx ∈ txs, tx.isCoinbase = false) → Backs fifo.rows chain.utxo → chain.Known →
      (points fees).length = reward →
      txs.foldlM ChainState.applyTransaction (chain, reward) = some (chain', reward') →
      ∃ fees' fifo', Spends txs fees fifo fees' fifo' ∧ Backs fifo'.rows chain'.utxo ∧ chain'.Known ∧
        (points fees').length = reward' ∧
        points fees + sats fifo.rows = points fees' + sats fifo'.rows := by
  induction txs with
  | nil =>
      intro fifo fees chain chain' reward reward' _ backs known hlength hfold
      cases hfold
      exact ⟨fees, fifo, .nil fees fifo, backs, known, hlength, rfl⟩
  | cons tx txs ih =>
      intro fifo fees chain chain' reward reward' hothers backs known hlength hfold
      rw [List.foldlM_cons] at hfold
      obtain ⟨⟨middle, gained⟩, hvalid, hfold⟩ := bind_eq_some_iff.1 hfold
      obtain ⟨hother, hothers⟩ := List.forall_mem_cons.1 hothers
      obtain ⟨hzero, hfresh, ⟨hcoinbase, -⟩ | ⟨total, utxo, -, -, hspend, hpays, rfl, rfl⟩⟩ :=
        applyTransaction_cases hvalid
      · rw [hother] at hcoinbase
        cases hcoinbase
      obtain ⟨ranges, taken, rest, after, spent, hbacks, hrest, hsats⟩ :=
        exists_spent backs known hzero hfresh hspend hpays
      have hfees : (points (fees ++ rest)).length = reward + (total - tx.outputValue) := by
        rw [points_append, List.length_append, hlength, hrest]
      obtain ⟨fees', fifo', run, hbacks', known', hlength', hsats'⟩ :=
        ih hothers hbacks (known_after known hzero (subset_of_spendInputs hspend)) hfees hfold
      have hsources : ∀ input ∈ tx.input, input.previousOutput ≠ OutPoint.null := by
        intro input hinput hnull
        obtain ⟨value, hvalue⟩ := spent_of_spendInputs hspend input hinput
        rw [hnull, lookup_null known] at hvalue
        cases hvalue
      refine ⟨fees', fifo', .cons hzero hsources spent run, hbacks', known', hlength', ?_⟩
      rw [← hsats', hsats, points_append, ← Multiset.coe_add, add_assoc]

theorem sats_lose (fifo : Fifo) (ranges : List SatRange) :
    sats (fifo.lose ranges).rows = points ranges + sats fifo.rows := by
  unfold lose
  split
  next hempty =>
    rw [List.isEmpty_iff.1 hempty]
    simp
  next =>
    have htotal := total_insert (fun _ row => (points row : Multiset ℕ)) fifo.rows OutPoint.null
      ((fifo.rows.lookup OutPoint.null).getD [] ++ ranges)
    rw [points_append, ← Multiset.coe_add, weightAt] at htotal
    have hold : ((fifo.rows.lookup OutPoint.null).map fun row => (points row : Multiset ℕ)).getD 0 =
        points ((fifo.rows.lookup OutPoint.null).getD []) := by
      cases fifo.rows.lookup OutPoint.null with
      | none => rfl
      | some row => rfl
    rw [hold, add_comm (points ((fifo.rows.lookup OutPoint.null).getD []) : Multiset ℕ),
      ← add_assoc] at htotal
    exact (add_right_cancel htotal).trans (add_comm _ _)

theorem Backs.lose {fifo : Fifo} {utxo : UtxoSet} (backs : Backs fifo.rows utxo)
    (hnull : utxo.lookup OutPoint.null = none) (ranges : List SatRange) :
    Backs (fifo.lose ranges).rows utxo := by
  unfold Fifo.lose
  split
  next => exact backs
  next =>
    constructor
    · intro outpoint value hvalue
      obtain ⟨row, hrow, hlength⟩ := backs.value outpoint value hvalue
      refine ⟨row, ?_, hlength⟩
      have hne : outpoint ≠ OutPoint.null := by
        rintro rfl
        rw [hnull] at hvalue
        cases hvalue
      rw [AList.lookup_insert_ne hne, hrow]
    · intro outpoint row hrow
      rcases lookup_insert_cases hrow with ⟨rfl, -⟩ | ⟨-, hold⟩
      · exact .inl rfl
      · exact backs.known outpoint row hold

def mined (first reward : ℕ) : List SatRange := if 0 < reward then [(first, first + reward)] else []

theorem points_mined (first reward : ℕ) : points (mined first reward) = List.range' first reward := by
  unfold mined
  split
  next => rw [points_cons, points_nil, List.append_nil, Nat.add_sub_cancel_left]
  next hzero =>
    rw [Nat.eq_zero_of_not_pos hzero]
    rfl

/-- A block of a coinbase and other transactions, from its reward to what is lost. -/
structure Dealt (first reward : ℕ) (block : BlockData) (fifo : Fifo) (coinbase : Transaction)
    (fees : List SatRange) (middle : Fifo) (rest : List SatRange) (after : Fifo) : Prop where
  leads : block.txdata = coinbase :: block.txdata.tail
  spends : Spends block.txdata.tail (mined first reward) fifo fees middle
  nonzero : coinbase.txid ≠ 0
  free : Free middle.rows coinbase.txid 0
  deal : dealOutputs coinbase 0 coinbase.output fees middle = some (rest, after)

theorem Dealt.block_eq {first reward : ℕ} {block : BlockData} {fifo middle after : Fifo}
    {coinbase : Transaction} {fees rest : List SatRange}
    (dealt : Dealt first reward block fifo coinbase fees middle rest after) :
    Fifo.block first reward block fifo = some (after.lose rest) := by
  have hspends := dealt.spends.spends_eq
  unfold mined at hspends
  unfold Fifo.block
  rw [hspends, dealt.leads]
  simp only [bind_eq_bind, bind_some, dealt.deal]

/-- Every valid block is dealt, and the sats it mines are added to those there are. -/
theorem exists_block {fifo : Fifo} {chain chain' : ChainState} {first reward : ℕ} {block : BlockData}
    (backs : Backs fifo.rows chain.utxo) (known : chain.Known)
    (hvalid : chain.applyBlock reward block = some chain') :
    ∃ coinbase fees middle rest after, Dealt first reward block fifo coinbase fees middle rest after ∧
      Backs (after.lose rest).rows chain'.utxo ∧ chain'.Known ∧
      sats (after.lose rest).rows = (List.range' first reward : Multiset ℕ) + sats fifo.rows := by
  obtain ⟨coinbase, txs, ⟨last, gained⟩, htxdata, hcoinbase, hothers, hfold, rfl⟩ :=
    applyBlock_cases hvalid
  unfold BlockData.processingOrder at hfold
  rw [htxdata, List.drop_one, List.tail_cons, List.foldlM_append] at hfold
  obtain ⟨⟨spent, fee⟩, hspends, hlast⟩ := bind_eq_some_iff.1 hfold
  obtain ⟨⟨ended, paid⟩, happly, hlast⟩ := bind_eq_some_iff.1 hlast
  cases hlast
  have hmined : (points (mined first reward)).length = reward := by
    rw [points_mined, List.length_range']
  obtain ⟨fees, middle, run, hbacks, known', hfees, hsats⟩ :=
    exists_spends hothers backs known hmined hspends
  obtain ⟨hzero, hfresh, ⟨-, -, hpays, -, rfl⟩ | ⟨_, _, hother, -⟩⟩ := applyTransaction_cases happly
  swap
  · rw [hcoinbase] at hother
    cases hother
  have free := hbacks.free known' hzero hfresh
  obtain ⟨rest, after, hdeal, hbacks', -, hsats'⟩ :=
    @exists_dealOutputs coinbase coinbase.output 0 spent.utxo middle fees hbacks free
      (by rw [hfees]; exact hpays)
  have known'' := @known_after coinbase spent spent.utxo known' hzero fun _ _ hvalue => hvalue
  have htail : block.txdata.tail = txs := by rw [htxdata, List.tail_cons]
  refine ⟨coinbase, fees, middle, rest, after, ⟨?_, ?_, hzero, free, hdeal⟩,
    hbacks'.lose (lookup_null known'') rest, known'', ?_⟩
  · rw [htail, htxdata]
  · rw [htail]
    exact run
  · rw [sats_lose, ← hsats', ← hsats, points_mined]

/-! ### Every range was dealt -/

theorem dealt_dealOutputs {outputs : List TxOut} :
    ∀ {vout : ℕ} {ranges rest : List SatRange} {fifo fifo' : Fifo},
      dealOutputs tx vout outputs ranges fifo = some (rest, fifo') → fifo.dealt ⊆ fifo'.dealt := by
  induction outputs with
  | nil =>
      intro vout ranges rest fifo fifo' hdeal
      cases hdeal
      exact List.Subset.refl _
  | cons output outputs ih =>
      intro vout ranges rest fifo fifo' hdeal
      obtain ⟨⟨row, left⟩, -, hdeal⟩ := bind_eq_some_iff.1 hdeal
      exact List.Subset.trans (List.subset_append_left _ row) (ih hdeal)

theorem Spends.dealt {txs : List Transaction} {fees fees' : List SatRange} {fifo fifo' : Fifo}
    (run : Spends txs fees fifo fees' fifo') : fifo.dealt ⊆ fifo'.dealt := by
  induction run with
  | nil fees fifo => exact List.Subset.refl _
  | cons nonzero sources spent more ih =>
      have hdealt := dealt_dealOutputs spent.deal
      exact List.Subset.trans hdealt ih

theorem dealt_lose (fifo : Fifo) (ranges : List SatRange) : fifo.dealt ⊆ (fifo.lose ranges).dealt := by
  unfold lose
  split
  next => exact List.Subset.refl _
  next => exact List.subset_append_left _ ranges

/-! ### Sats stay in order -/

def rangesAt (rows : KeyTable OutPoint Row) (outpoint : OutPoint) : List SatRange :=
  (rows.lookup outpoint).getD []

/-- The inputs are spent once each, and give up their rows in order. -/
theorem takeInputs_eq {inputs : List TxIn} :
    ∀ {rows rows' : KeyTable OutPoint Row} {ranges : List SatRange},
      takeInputs inputs rows = some (ranges, rows') →
      (∀ input ∈ inputs, rows.lookup input.previousOutput ≠ none) ∧
        ranges = inputs.flatMap fun input => rangesAt rows input.previousOutput := by
  induction inputs with
  | nil =>
      intro rows rows' ranges htake
      cases htake
      exact ⟨fun input hmem => absurd hmem List.not_mem_nil, rfl⟩
  | cons first inputs ih =>
      intro rows rows' ranges htake
      obtain ⟨row, hrow, htake⟩ := bind_eq_some_iff.1 htake
      obtain ⟨⟨more, left⟩, hmore, htake⟩ := bind_eq_some_iff.1 htake
      cases htake
      obtain ⟨hfound, hranges⟩ := ih hmore
      -- an input that is found after the first is taken out is another one
      have hkept : ∀ input ∈ inputs, (rows.erase first.previousOutput).lookup input.previousOutput =
          rows.lookup input.previousOutput := by
        intro input hmem
        have hsome := hfound input hmem
        rw [lookup_erase_ite] at hsome ⊢
        split
        next hsame =>
          rw [if_pos hsame] at hsome
          exact absurd rfl hsome
        next => rfl
      constructor
      · refine List.forall_mem_cons.2 ⟨by simp [hrow], fun input hmem => ?_⟩
        rw [← hkept input hmem]
        exact hfound input hmem
      · rw [List.flatMap_cons, hranges]
        congr 1
        · rw [rangesAt, hrow, Option.getD_some]
        · refine List.flatMap_congr fun input hmem => ?_
          rw [rangesAt, rangesAt, hkept input hmem]

theorem lookup_dealOutputs {outputs : List TxOut} :
    ∀ {vout : ℕ} {ranges rest : List SatRange} {fifo fifo' : Fifo},
      dealOutputs tx vout outputs ranges fifo = some (rest, fifo') →
      ∀ number, number < vout →
        fifo'.rows.lookup (tx.outpoint number) = fifo.rows.lookup (tx.outpoint number) := by
  induction outputs with
  | nil =>
      intro vout ranges rest fifo fifo' hdeal number hlt
      cases hdeal
      rfl
  | cons output outputs ih =>
      intro vout ranges rest fifo fifo' hdeal number hlt
      obtain ⟨⟨row, left⟩, -, hdeal⟩ := bind_eq_some_iff.1 hdeal
      rw [ih hdeal number (by omega)]
      refine AList.lookup_insert_ne fun heq => ?_
      have hsame : number = vout := congrArg OutPoint.vout heq
      omega

/-- The rows of the outputs, in order, and what is left over are the queue. -/
theorem points_dealOutputs {outputs : List TxOut} :
    ∀ {vout : ℕ} {ranges rest : List SatRange} {fifo fifo' : Fifo},
      dealOutputs tx vout outputs ranges fifo = some (rest, fifo') →
      points ((List.range' vout outputs.length).flatMap fun number =>
        rangesAt fifo'.rows (tx.outpoint number)) ++ points rest = points ranges := by
  induction outputs with
  | nil =>
      intro vout ranges rest fifo fifo' hdeal
      cases hdeal
      rfl
  | cons output outputs ih =>
      intro vout ranges rest fifo fifo' hdeal
      obtain ⟨⟨row, left⟩, hcut, hdeal⟩ := bind_eq_some_iff.1 hdeal
      have hrow : rangesAt fifo'.rows (tx.outpoint vout) = row := by
        rw [rangesAt, lookup_dealOutputs hdeal vout (Nat.lt_succ_self vout)]
        change ((fifo.rows.insert (tx.outpoint vout) row).lookup (tx.outpoint vout)).getD [] = row
        rw [AList.lookup_insert, Option.getD_some]
      rw [List.length_cons, List.range'_succ, List.flatMap_cons, points_append, hrow,
        List.append_assoc, ih hdeal, (points_cut hcut).1]

/-! ### Where a sat is -/

theorem mem_sats {sat : ℕ} :
    sat ∈ sats rows ↔ ∃ outpoint, sat ∈ points (rangesAt rows outpoint) := by
  constructor
  · intro hmem
    have hentry : ∀ entries : List (Sigma fun _ : OutPoint => Row),
        sat ∈ (entries.map fun entry => (points entry.2 : Multiset ℕ)).sum →
        ∃ entry ∈ entries, sat ∈ points entry.2 := by
      intro entries
      induction entries with
      | nil => simp
      | cons entry entries ih =>
          rw [List.map_cons, List.sum_cons, Multiset.mem_add, Multiset.mem_coe]
          rintro (hhere | hthere)
          · exact ⟨entry, List.mem_cons_self, hhere⟩
          · obtain ⟨other, hother, hsat⟩ := ih hthere
            exact ⟨other, List.mem_cons_of_mem _ hother, hsat⟩
    obtain ⟨⟨outpoint, row⟩, hin, hsat⟩ := hentry rows.entries hmem
    have hrow : rows.lookup outpoint = some row := Option.mem_def.1 (AList.mem_lookup_iff.2 hin)
    exact ⟨outpoint, by rwa [rangesAt, hrow, Option.getD_some]⟩
  · rintro ⟨outpoint, hmem⟩
    unfold rangesAt at hmem
    cases hrow : rows.lookup outpoint with
    | none => simp [hrow] at hmem
    | some row =>
        rw [hrow, Option.getD_some] at hmem
        rw [sats_erase hrow]
        exact Multiset.mem_add.2 (.inl hmem)

/-- When no sat is there twice, no row has a sat twice and no two rows share one. -/
theorem nodup_rangesAt (hnodup : (sats rows).Nodup) (outpoint : OutPoint) :
    (points (rangesAt rows outpoint)).Nodup ∧ ∀ other, other ≠ outpoint →
      (points (rangesAt rows outpoint)).Disjoint (points (rangesAt rows other)) := by
  unfold rangesAt
  cases hrow : rows.lookup outpoint with
  | none => exact ⟨List.nodup_nil, fun other hne => List.disjoint_nil_left _⟩
  | some row =>
      rw [sats_erase hrow, Multiset.nodup_add] at hnodup
      obtain ⟨hhere, -, hapart⟩ := hnodup
      refine ⟨hhere, fun other hne sat hsat hother => ?_⟩
      refine Multiset.disjoint_left.1 hapart hsat (mem_sats.2 ⟨other, ?_⟩)
      rwa [rangesAt, AList.lookup_erase_ne hne]

end Fifo

end OrdDogecoin.Sats
