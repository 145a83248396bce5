/-
Module: OrdDogecoin.Dunes.WalletCommands
Purpose: What the index makes of a funded `etch`, and of both dune commands of the wallet over every
  reachable index.
Trusted boundary: as in OrdDogecoin.Dunes.Wallet
Main exports: etchedInFull_iff, wallet_commands_iff
-/
import OrdDogecoin.Dunes.WalletSend

namespace OrdDogecoin.Dunes

open Chain
open KeyTable
open Option (bind_eq_some_iff bind_some map_some bind_eq_bind)

/-! ### Rows of a new dune -/

theorem pairsAmount_eq_zero {row : BalanceRow} {id : ℕ} (hnone : ∀ pair ∈ row, pair.1 ≠ id) :
    pairsAmount id row = 0 := by
  refine List.sum_eq_zero fun amount hmem => ?_
  obtain ⟨pair, hpair, rfl⟩ := List.mem_map.1 hmem
  rw [if_neg (hnone pair hpair)]

variable {balances : KeyTable OutPoint BalanceRow}

theorem RowsWithin.row_eq_zero {ids : ℕ → Prop} (rows : RowsWithin ids balances) {id : ℕ}
    (hid : ¬ ids id) {outpoint : OutPoint} {row : BalanceRow}
    (hrow : balances.lookup outpoint = some row) : pairsAmount id row = 0 :=
  pairsAmount_eq_zero fun pair hmem hsame => hid (hsame ▸ rows outpoint row hrow pair hmem)

theorem RowsWithin.held_eq_zero {ids : ℕ → Prop} (rows : RowsWithin ids balances) {id : ℕ}
    (hid : ¬ ids id) : held balances id = 0 := by
  have hcongr : held balances id = total (fun _ _ => 0) balances :=
    total_congr fun outpoint row hrow => rows.row_eq_zero hid hrow
  rw [hcongr, total]
  simp

theorem RowsWithin.amountOn_eq_zero {ids : ℕ → Prop} (rows : RowsWithin ids balances) {id : ℕ}
    (hid : ¬ ids id) (outpoint : OutPoint) :
    pairsAmount id ((balances.lookup outpoint).getD []) = 0 := by
  cases hrow : balances.lookup outpoint with
  | none => rfl
  | some row => exact rows.row_eq_zero hid hrow

/-! ### The funded etching -/

theorem etchDune_parts {tables : DuneTables} {minimum : ℕ} {arguments : EtchArguments}
    {unfunded : Unfunded} (hetch : etchDune tables minimum arguments = some unfunded) :
    ∃ amount, tables.dune arguments.dune = none ∧ minimum ≤ arguments.dune ∧ arguments.dune < reserved ∧
      arguments.divisibility ≤ maxDivisibility ∧
      arguments.supply.toAmount arguments.divisibility = some amount ∧ unfunded.input = [] ∧
      unfunded.output =
        [⟨0, (arguments.dunestone amount).encipher⟩, arguments.destination.postage] := by
  unfold etchDune at hetch
  split at hetch
  next => cases hetch
  next hfree =>
    split at hetch
    next => cases hetch
    next hminimum =>
      split at hetch
      next => cases hetch
      next hreserved =>
        split at hetch
        next => cases hetch
        next hdivisibility =>
          obtain ⟨amount, hamount, hetch⟩ := bind_eq_some_iff.1 hetch
          dsimp only at hetch
          split at hetch
          next => cases hetch
          next =>
            cases hetch
            exact ⟨amount, by simpa using hfree, Nat.le_of_not_lt hminimum, Nat.lt_of_not_le hreserved,
              Nat.le_of_not_lt hdivisibility, hamount, rfl, rfl⟩

section Etch

variable {overflow : Overflow} {tables : DuneTables} {change : Option ChangeOutput} {tx : Transaction}
  {unfunded : Unfunded} {arguments : EtchArguments} {amount : ℕ}

theorem EtchArguments.dunestone_inRange (hdivisibility : arguments.divisibility ≤ maxDivisibility)
    (hfits : amount ≤ maxU128) : (arguments.dunestone amount).InRange where
  etching := by
    rintro etching ⟨⟩
    refine ⟨?_, by simp, by simp, ?_, ?_, ?_⟩
    · rintro n ⟨⟩
      exact hdivisibility
    · rintro n ⟨⟩
      exact arguments.dune_le
    · rintro n ⟨⟩
      exact arguments.spacers_le
    · rintro n ⟨⟩
      exact arguments.symbol_scalar
  pointer := by simp [EtchArguments.dunestone]
  edicts := by
    intro edict hmem
    rw [List.mem_singleton.1 hmem]
    exact ⟨hfits, show 1 ≤ maxU128 by decide⟩

theorem EtchArguments.dunestone_valid {outputs : ℕ} (houtputs : 1 < outputs) :
    ∀ edict ∈ (arguments.dunestone amount).edicts, edict.ValidFor outputs := by
  intro edict hmem
  rw [List.mem_singleton.1 hmem]
  have hid : isDuneId 0 = true := by decide
  have hnew : ¬ ((0 : ℕ) >>> 16 = 0 ∧ 0 < (0 : ℕ) % 2 ^ 16) := by decide
  rw [Edict.ValidFor, Edict.fromIntegers, hid, Bool.not_true, if_neg Bool.false_ne_true, if_neg hnew,
    if_neg (Nat.not_lt.2 houtputs.le)]

/-- The change stands before the dunestone. -/
def ChangeFirst (change : Option ChangeOutput) : Prop := ∃ inserted ∈ change, inserted.position = 0

instance (change : Option ChangeOutput) : Decidable (ChangeFirst change) :=
  inferInstanceAs (Decidable (∃ inserted ∈ change, inserted.position = 0))

/-- What a transaction with the outputs of an etching looks like: output 1 is spendable unless the change
stands first. -/
structure EtchLayout (change : Option ChangeOutput) (outputs : List TxOut) : Prop where
  default : ∃ vout, defaultOutput outputs none = some vout
  target : ∃ output, outputs[1]? = some output ∧
    isOpReturn output.scriptPubkey = decide (ChangeFirst change)
  wallet : ¬ ChangeFirst change → 1 ∈ walletOutputs change 1

theorem etchLayout (dunestone : Dunestone) (destination : AddressScript)
    {change : Option ChangeOutput} (hposition : ∀ inserted ∈ change, inserted.position ≤ 2) :
    EtchLayout change (withChange change [⟨0, dunestone.encipher⟩, destination.postage]) := by
  have hreturn := isOpReturn_encipher dunestone
  have hdestination := destination.postage_spendable
  cases change with
  | none =>
      refine ⟨⟨1, ?_⟩, ⟨destination.postage, rfl, ?_⟩, fun _ => List.mem_cons_self⟩
      · simp [defaultOutput, withChange, List.findIdx?_cons, hreturn, hdestination]
      · rw [hdestination]
        simp [ChangeFirst]
  | some inserted =>
      have hinserted := inserted.spendable
      have hcases : inserted.position = 0 ∨ inserted.position = 1 ∨ inserted.position = 2 := by
        have hle := hposition inserted rfl
        omega
      rcases hcases with hplace | hplace | hplace
      · refine ⟨⟨0, ?_⟩, ⟨⟨0, dunestone.encipher⟩, ?_, ?_⟩, fun hnot => absurd ⟨_, rfl, hplace⟩ hnot⟩
        · simp [defaultOutput, withChange, hplace, List.findIdx?_cons, hinserted]
        · simp [withChange, hplace]
        · simp [hreturn, ChangeFirst, hplace]
      · refine ⟨⟨1, ?_⟩, ⟨inserted.output, ?_, ?_⟩, fun _ => by simp [walletOutputs, hplace]⟩
        · simp [defaultOutput, withChange, hplace, List.findIdx?_cons, hreturn, hinserted]
        · simp [withChange, hplace]
        · simp [hinserted, ChangeFirst, hplace]
      · refine ⟨⟨1, ?_⟩, ⟨destination.postage, ?_, ?_⟩, fun _ => by
          simp [walletOutputs, movedTo, hplace]⟩
        · simp [defaultOutput, withChange, hplace, List.findIdx?_cons, hreturn, hdestination]
        · simp [withChange, hplace]
        · simp [hdestination, ChangeFirst, hplace]

/-- The id of the dune etched by the transaction at a place of the chain. -/
def placeId (block : BlockInfo) (index : ℕ) : ℕ := block.height <<< 16 ||| index

/-- A free name above the least one of the block becomes an entry, if the transaction number fits. -/
theorem allocation_etch {block : BlockInfo} (index : ℕ)
    (hfree : tables.duneToId.lookup arguments.dune = none) (hminimum : block.minimum ≤ arguments.dune)
    (hreserved : arguments.dune < reserved) :
    allocation tables block index (arguments.dunestone amount).etching =
      (if index < 2 ^ 16 then
        some
          { divisibility := arguments.divisibility
            id := placeId block index
            mint := none
            dune := arguments.dune
            spacers := arguments.spacers
            symbol := some arguments.symbol
            turbo := false }
      else none, tables) := by
  have hname : nameRejected tables block.minimum (some arguments.dune) = false := by
    simp [nameRejected, hfree, hminimum, hreserved]
  dsimp only [allocation, EtchArguments.dunestone]
  rw [hname, if_neg Bool.false_ne_true]
  split <;> rfl

/-- The edict gives output 1 what it takes of the whole issuance. -/
theorem applyDunestone_etch {block : BlockInfo} {index : ℕ} {unallocated : Amounts}
    (houtputs : 1 < tx.output.length) (hfits : amount ≤ maxU128) (hindex : index < 2 ^ 16)
    (hfree : tables.duneToId.lookup arguments.dune = none) (hminimum : block.minimum ≤ arguments.dune)
    (hreserved : arguments.dune < reserved) :
    ∃ pools etched entry, applyDunestone block index tx (arguments.dunestone amount) unallocated tables
        overflow.add overflow.sub = some (pools, etched) ∧ pools.unallocated = unallocated ∧
      pools.allocated = (List.replicate tx.output.length ∅).set 1
        (amountsOf (placeId block index) (taken maxU128 amount)) ∧
      etched.outpointToBalances = tables.outpointToBalances ∧
      etched.duneToId = tables.duneToId.insert arguments.dune (placeId block index) ∧
      etched.idToEntry.lookup (placeId block index) = some entry ∧ entry.burned = 0 := by
  have hclaims : claims [{ id := 0, amount := amount, output := 1 }] = [] := by
    simp [claims, claim_of_lt (show 0 < 2 ^ 48 by decide)]
  have htaken := taken_le maxU128 amount
  have hasked : amount ≤ taken maxU128 amount := by
    unfold taken
    split <;> omega
  have hedict : applyEdict (some (placeId block index)) { id := 0, amount := amount, output := 1 }
      (initialPools tables block.height tx.output.length [{ id := 0, amount := amount, output := 1 }]
        unallocated) overflow.add overflow.sub = some
        { unallocated := unallocated
          mintable := ∅
          issuance := maxU128 - taken maxU128 amount
          premine := amount
          allocated := (List.replicate tx.output.length ∅).set 1
            (amountsOf (placeId block index) (taken maxU128 amount)) } := by
    rw [applyEdict, initialPools, hclaims, if_neg (by simpa using houtputs), if_pos rfl]
    dsimp only
    rw [overflow.add_of_le (by omega), Nat.zero_add,
      moveAmount_empty overflow houtputs _ (Nat.le_refl maxU128) amount]
    rfl
  rw [applyDunestone, allocation_etch index hfree hminimum hreserved, if_pos hindex]
  dsimp only
  rw [applyEdictsAndMints, if_neg (show ¬ (arguments.dunestone amount).cenotaph = true from
    Bool.false_ne_true)]
  dsimp only [map_some]
  have hedicts : (arguments.dunestone amount).edicts = [{ id := 0, amount := amount, output := 1 }] := rfl
  rw [hedicts]
  dsimp only [applyEdicts]
  rw [hedict]
  have hmints : ∀ limits, recordMints limits (pairs ∅) tables.idToEntry overflow.add overflow.sub =
      some tables.idToEntry := fun _ => rfl
  have hissued : overflow.sub maxU128 (maxU128 - taken maxU128 amount) = some (taken maxU128 amount) := by
    rw [overflow.sub_of_le (Nat.sub_le _ _) (Nat.le_refl _), Nat.sub_sub_self htaken]
  simp only [bind_eq_bind, bind_some, hmints, etch, hissued,
    overflow.sub_of_le hasked htaken]
  exact ⟨_, _, _, rfl, rfl, rfl, rfl, rfl, AList.lookup_insert _, rfl⟩

/-- One output with amounts and nothing left over. -/
theorem settle_single {dunestone : Dunestone} {pools : Pools} {vout k : ℕ} {amounts : Amounts}
    {output : TxOut} (hplain : dunestone.cenotaph = false)
    (hdefault : defaultOutput tx.output dunestone.pointer = some vout)
    (hzero : ∀ id, amountAt pools.unallocated id = 0)
    (hallocated : pools.allocated = (List.replicate tx.output.length ∅).set k amounts)
    (houtput : tx.output[k]? = some output) (hfull : amounts.entries.isEmpty = false) :
    settle tx (some dunestone) pools tables overflow.add =
      if isOpReturn output.scriptPubkey then
        (creditAll ∅ (pairs amounts) overflow.add).bind fun burned =>
          (recordBurns (pairs burned) tables.idToEntry overflow.add).map fun entries =>
            { tables with idToEntry := entries }
      else
        some { tables with
          outpointToBalances :=
            tables.outpointToBalances.insert (tx.outpoint k) (balanceRow amounts) } := by
  have hk : k < tx.output.length := (List.getElem?_eq_some_iff.1 houtput).1
  have hlength : pools.allocated.length = tx.output.length := by
    rw [hallocated, List.length_set, List.length_replicate]
  have hvout : vout < pools.allocated.length := hlength ▸ defaultOutput_lt hdefault
  have hsettled : settleUnallocated tx.output dunestone.pointer dunestone.cenotaph pools.unallocated
      pools.allocated overflow.add = some (pools.allocated, ∅) := by
    rw [settleUnallocated, hplain, if_neg Bool.false_ne_true, hdefault, positive_eq_nil hzero]
    dsimp only [creditAll]
    rw [List.getElem?_eq_getElem hvout, bind_eq_bind, bind_some, bind_some,
      List.set_getElem_self]
  have hwritten := @writeOutputs_single (tx.output.zip pools.allocated) overflow tx.txid 0 k
    tables.outpointToBalances ∅ amounts output
    (List.getElem?_zip_eq_some.2 ⟨houtput, by
      rw [hallocated, List.getElem?_set_self (by rwa [List.length_replicate])]⟩) hfull
    (fun j pair hpair hne => by
      have hamounts := (List.getElem?_zip_eq_some.1 hpair).2
      rw [hallocated, List.getElem?_set_ne (Ne.symm hne)] at hamounts
      exact List.eq_of_mem_replicate (List.mem_of_getElem? hamounts))
  rw [settle]
  dsimp only [map_some, Option.getD_some, bind_some]
  rw [hsettled, bind_eq_bind, bind_some]
  dsimp only
  rw [hwritten, Nat.zero_add]
  split
  · cases creditAll ∅ (pairs amounts) overflow.add with
    | none => rfl
    | some burned =>
        dsimp only [map_some, bind_eq_bind, bind_some]
        cases recordBurns (pairs burned) tables.idToEntry overflow.add <;> rfl
  · rfl


theorem burn_amountsOf {id amount : ℕ} {entry : DuneEntry} (hpos : 0 < amount) (hfits : amount ≤ maxU128)
    (hentry : tables.idToEntry.lookup id = some entry) (hburned : entry.burned = 0) :
    ((creditAll ∅ (pairs (amountsOf id amount)) overflow.add).bind fun burned =>
      (recordBurns (pairs burned) tables.idToEntry overflow.add).map fun entries =>
        { tables with idToEntry := entries }) =
      some { tables with idToEntry := tables.idToEntry.insert id { entry with burned := amount } } := by
  have hpairs : pairs (amountsOf id amount) = [(id, amount)] := by
    rw [amountsOf, if_pos hpos]
    rfl
  have hcredit : creditAll ∅ [(id, amount)] overflow.add = some (amountsOf id amount) := by
    rw [creditAll, credit, AList.lookup_empty, Option.getD_none, overflow.add_of_le (by omega),
      Nat.zero_add, amountsOf, if_pos hpos]
    rfl
  have hrecord : recordBurns [(id, amount)] tables.idToEntry overflow.add =
      some (tables.idToEntry.insert id { entry with burned := amount }) := by
    rw [recordBurns, hentry]
    dsimp only [bind_eq_bind, bind_some]
    rw [hburned, overflow.add_of_le (by omega), Nat.zero_add]
    rfl
  rw [hpairs, hcredit, bind_some, hpairs, hrecord]
  rfl

end Etch

/-! ### When an etching does what it says -/

/-- The transaction number fits, and the supply is zero exactly when the change stands first: then the
edict falls on the dunestone's own output, and a zero would have given it everything. -/
def EtchesInFull (arguments : EtchArguments) (change : Option ChangeOutput) (index : ℕ) : Prop :=
  index < 2 ^ 16 ∧ (arguments.supply.value = 0 ↔ ChangeFirst change)

section EtchedInFull

variable {overflow : Overflow} {s : DuneIndex} {change : Option ChangeOutput} {tx : Transaction}
  {unfunded : Unfunded} {arguments : EtchArguments} {amount : ℕ}

/-- What an etching leaves in the tables: the amount on output 1, or nothing when that output is burned. -/
theorem etch_processed (rows : RowsWithin (HasEntry s.tables.idToEntry) s.tables.outpointToBalances)
    (hnew : ¬ HasEntry s.tables.idToEntry (placeId s.block s.index))
    (hindex : s.index < 2 ^ 16) (hfree : s.tables.duneToId.lookup arguments.dune = none)
    (hminimum : s.block.minimum ≤ arguments.dune) (hreserved : arguments.dune < reserved)
    (hfits : amount ≤ maxU128) (layout : EtchLayout change tx.output)
    (hread : Dunestone.fromTransaction tx = some (arguments.dunestone amount))
    (hnothing : ∀ id, s.tables.inputTotal tx id = 0)
    (hdistinct : (tx.input.map TxIn.previousOutput).Nodup) (hunused : Unused s.tables tx.txid) :
    ∃ after, indexDunes s.block s.index tx s.tables overflow.add overflow.sub = some after ∧
      after.duneToId.lookup arguments.dune = some (placeId s.block s.index) ∧
      held after.outpointToBalances (placeId s.block s.index) =
        (if ChangeFirst change then 0 else taken maxU128 amount) ∧
      ∀ outpoint, after.amountOn outpoint (placeId s.block s.index) ≠ 0 →
        ¬ ChangeFirst change ∧ outpoint = tx.outpoint 1 := by
  obtain ⟨balances, unallocated, htake, hbrought⟩ :=
    @takeInputs_total overflow tx.input s.tables.outpointToBalances ∅ hdistinct
      (fun other => by
        rw [amountAt_empty, Nat.zero_add]
        exact (hnothing other).le.trans (Nat.zero_le _))
  have hzero : ∀ id, amountAt unallocated id = 0 := by
    intro id
    rw [hbrought, amountAt_empty, Nat.zero_add]
    exact hnothing id
  have hrows := (takeInputs_le (fun other => by rw [amountAt_empty]; exact Nat.zero_le _) htake).2
  have hkept : RowsWithin (HasEntry s.tables.idToEntry) balances :=
    fun outpoint row hrow => rows outpoint row (hrows outpoint row hrow)
  have hfresh : balances.lookup (tx.outpoint 1) = none := by
    by_contra hsome
    obtain ⟨row, hrow⟩ := Option.ne_none_iff_exists'.1 hsome
    have hold := hrows _ row hrow
    rw [show tx.outpoint 1 = ⟨tx.txid, 1⟩ from rfl, hunused] at hold
    cases hold
  obtain ⟨vout, hdefault⟩ := layout.default
  obtain ⟨output, houtput, hreturn⟩ := layout.target
  have hlength : 1 < tx.output.length := (List.getElem?_eq_some_iff.1 houtput).1
  obtain ⟨pools, etched, entry, happly, hunallocated, hallocated, hbalances, hnames, hentry, hburned⟩ :=
    @applyDunestone_etch overflow { s.tables with outpointToBalances := balances } tx arguments amount
      s.block s.index unallocated hlength hfits hindex hfree hminimum hreserved
  have hpos : 0 < taken maxU128 amount := by
    unfold taken
    split
    · decide
    · exact Nat.lt_min.2 ⟨by omega, by decide⟩
  have hsettle := @settle_single overflow etched tx (arguments.dunestone amount) pools vout 1
    (amountsOf (placeId s.block s.index) (taken maxU128 amount)) output rfl hdefault
    (by rw [hunallocated]; exact hzero) hallocated houtput (by rw [amountsOf, if_pos hpos]; rfl)
  have hrun : indexDunes s.block s.index tx s.tables overflow.add overflow.sub =
      settle tx (some (arguments.dunestone amount)) pools etched overflow.add := by
    rw [indexDunes, htake, hread]
    dsimp only [bind_eq_bind, bind_some]
    rw [applyIfPresent, happly]
    rfl
  rw [hrun, hsettle, hreturn]
  by_cases hfirst : ChangeFirst change
  · rw [if_pos (decide_eq_true hfirst), burn_amountsOf hpos (taken_le _ _) hentry hburned]
    refine ⟨_, rfl, ?_, ?_, fun outpoint hamount => absurd ?_ hamount⟩
    · exact hnames ▸ AList.lookup_insert _
    · rw [if_pos hfirst]
      exact hbalances ▸ hkept.held_eq_zero hnew
    · exact hbalances ▸ hkept.amountOn_eq_zero hnew outpoint
  · rw [if_neg (by simpa using hfirst)]
    refine ⟨_, rfl, ?_, ?_, fun outpoint hamount => ⟨hfirst, ?_⟩⟩
    · exact hnames ▸ AList.lookup_insert _
    · dsimp only
      rw [hbalances, held_insert hfresh, hkept.held_eq_zero hnew, if_neg hfirst,
        pairsAmount_balanceRow, amountAt_amountsOf, if_pos rfl, Nat.zero_add]
    · by_contra hother
      apply hamount
      rw [DuneTables.amountOn]
      dsimp only
      rw [hbalances, AList.lookup_insert_ne hother]
      exact hkept.amountOn_eq_zero hnew outpoint

/-- An etching does what it says exactly under the condition. -/
theorem etchedInFull_iff {minimum : ℕ}
    (rows : RowsWithin (HasEntry s.tables.idToEntry) s.tables.outpointToBalances)
    (hnew : s.index < 2 ^ 16 → ¬ HasEntry s.tables.idToEntry (placeId s.block s.index))
    (hnames : ∀ name, s.tables.dune name = none → s.tables.duneToId.lookup name = none)
    (hminimum : s.block.minimum ≤ minimum)
    (hetch : etchDune s.tables minimum arguments = some unfunded)
    (funded : Funded s.tables unfunded change tx) (hunused : Unused s.tables tx.txid) :
    (∃ after amount, arguments.supply.toAmount arguments.divisibility = some amount ∧
        indexDunes s.block s.index tx s.tables overflow.add overflow.sub = some after ∧
        EtchedInFull after tx change arguments.dune amount) ↔
      EtchesInFull arguments change s.index := by
  obtain ⟨amount, hdune, hleast, hreserved, hdivisibility, hamount, hinput, houtputs⟩ :=
    etchDune_parts hetch
  obtain ⟨hfits, hvalue⟩ := toAmount_spec hamount
  have hfree := hnames arguments.dune hdune
  have hposition : ∀ inserted ∈ change, inserted.position ≤ 2 := by
    intro inserted hmem
    have hbound := funded.position inserted hmem
    rw [houtputs] at hbound
    exact hbound
  have layout : EtchLayout change tx.output := by
    rw [funded.outputs, houtputs]
    exact etchLayout _ _ hposition
  obtain ⟨target, htarget, -⟩ := layout.target
  have hread : Dunestone.fromTransaction tx = some (arguments.dunestone amount) :=
    funded.dunestone houtputs (EtchArguments.dunestone_inRange hdivisibility hfits)
      (EtchArguments.dunestone_valid (List.getElem?_eq_some_iff.1 htarget).1)
      (by rintro etching ⟨⟩; exact ⟨rfl, rfl⟩)
  by_cases hindex : s.index < 2 ^ 16
  · have hnothing : ∀ id, s.tables.inputTotal tx id = 0 := by
      intro id
      rw [funded.inputTotal id, hinput]
      rfl
    obtain ⟨after, hafter, hname, hheld, hplaces⟩ :=
      @etch_processed overflow s change tx arguments amount rows (hnew hindex) hindex hfree
        (hminimum.trans hleast) hreserved hfits layout hread hnothing funded.distinct hunused
    have hfull : EtchedInFull after tx change arguments.dune amount ↔
        (if ChangeFirst change then 0 else taken maxU128 amount) = amount := by
      constructor
      · rintro ⟨id, hid, hsum, -⟩
        rw [hname] at hid
        cases hid
        rw [← hheld, hsum]
      · intro hsum
        refine ⟨_, hname, hheld.trans hsum, fun outpoint hne => ?_⟩
        obtain ⟨hnot, rfl⟩ := hplaces outpoint hne
        exact ⟨1, layout.wallet hnot, rfl⟩
    have hcondition : (if ChangeFirst change then 0 else taken maxU128 amount) = amount ↔
        EtchesInFull arguments change s.index := by
      rw [EtchesInFull, and_iff_right hindex, ← hvalue]
      have hmax : maxU128 ≠ 0 := by decide
      by_cases hfirst : ChangeFirst change
      · rw [if_pos hfirst, iff_true_right hfirst, eq_comm]
      · rw [if_neg hfirst, iff_false_right hfirst, taken]
        by_cases hzero : amount = 0
        · rw [if_pos hzero, hzero]
          simp [hmax]
        · rw [if_neg hzero, Nat.min_eq_left hfits]
          simp [hzero]
    rw [← hcondition, ← hfull]
    constructor
    · rintro ⟨other, same, hsame, hother, hdone⟩
      rw [hamount] at hsame
      cases hsame
      rw [hafter] at hother
      cases hother
      exact hdone
    · exact fun hdone => ⟨after, amount, hamount, hafter, hdone⟩
  · -- no entry is made, so the name stays free
    constructor
    · rintro ⟨after, -, -, hafter, id, hid, -⟩
      obtain ⟨minted, etched, done⟩ := transaction_done hafter
      have hnone : etchingOf s tx = none := by
        rw [etchingOf, hread, bind_some,
          allocation_etch s.index hfree (hminimum.trans hleast) hreserved, if_neg hindex]
      rw [(done.unchanged hnone).2.1, hfree] at hid
      cases hid
    · exact fun hcond => absurd hcond.1 hindex

end EtchedInFull

/-! ### Every reachable index -/

/-- The facts about a reachable index that the commands rest on. -/
structure DuneRun.Sound (run : DuneRun) : Prop extends Registered run where
  young : ∀ id, HasEntry run.index.tables.idToEntry id → 2 ^ 16 ≤ id
  started : 0 < run.index.block.height

theorem DuneRun.Sound.initial {block : BlockInfo} (hheight : 0 < block.height) :
    (DuneRun.initial block).Sound where
  toRegistered := Registered.initial block
  young := by simp [DuneRun.initial, DuneIndex.initial, DuneTables.empty, HasEntry]
  started := hheight

theorem DuneRun.Sound.step {run next : DuneRun} (sound : run.Sound) {overflow : Overflow}
    {action : DuneAction} (hstep : run.step overflow action = some next) : next.Sound := by
  have registered := sound.toRegistered.step hstep
  obtain ⟨index, hindex, hnext⟩ := bind_eq_some_iff.1 hstep
  cases hnext
  cases action with
  | nextBlock block =>
      cases hindex
      exact ⟨registered, sound.young, Nat.succ_pos _⟩
  | transaction tx =>
      obtain ⟨after, hafter, hindex⟩ := bind_eq_some_iff.1 hindex
      cases hindex
      obtain ⟨minted, etched, done⟩ := transaction_done hafter
      refine ⟨registered, fun id hentry => ?_, sound.started⟩
      rcases (TermsHeld.hasEntry_done done id).1 hentry with hold | ⟨found, hfound, hplace⟩
      · exact sound.young id hold
      · obtain ⟨-, hid, -⟩ := etchingOf_some hfound
        have hheight := sound.started
        omega

theorem sound_of_reaches {overflow : Overflow} {block : BlockInfo} (hgenesis : 0 < block.height)
    {run : DuneRun}
    (reaches : Run.Reaches (DuneRun.step overflow) (fun _ _ => True) (DuneRun.initial block) run) :
    run.Sound :=
  reaches.invariant DuneRun.Sound (fun sound _ hstep => sound.step hstep) (.initial hgenesis)

theorem DuneRun.Sound.id_range {run : DuneRun} (sound : run.Sound)
    (hheight : run.index.block.height < 2 ^ 32) (id : ℕ)
    (hentry : HasEntry run.index.tables.idToEntry id) : 2 ^ 16 ≤ id ∧ id < 2 ^ 48 := by
  have hposition := (sound.position id hentry).2
  exact ⟨sound.young id hentry, by omega⟩

theorem DuneRun.Sound.place_free {run : DuneRun} (sound : run.Sound)
    (hindex : run.index.index < 2 ^ 16) :
    ¬ HasEntry run.index.tables.idToEntry (placeId run.index.block run.index.index) := by
  intro hentry
  have hposition := (sound.position _ hentry).1
  rw [placeId, ← Nat.shiftLeft_add_eq_or_of_lt hindex, Nat.shiftLeft_eq] at hposition
  omega

theorem DuneRun.Sound.name_free {run : DuneRun} (sound : run.Sound) (name : ℕ)
    (hdune : run.index.tables.dune name = none) : run.index.tables.duneToId.lookup name = none := by
  by_contra htaken
  obtain ⟨id, hid⟩ := Option.ne_none_iff_exists'.1 htaken
  obtain ⟨number, hlabel⟩ := (sound.inverse name id).1 hid
  obtain ⟨entry, hentry, -⟩ := label_eq_some.1 hlabel
  rw [DuneTables.dune, hid, bind_eq_bind, bind_some, hentry] at hdune
  cases hdune

/-- In every index reached from the empty tables above the genesis block, whatever the node makes of the
commands' transactions: a send does what it says exactly when `SendsExactly`, an etching exactly when
`EtchesInFull`. -/
theorem wallet_commands_iff (overflow : Overflow) {block : BlockInfo} (hgenesis : 0 < block.height)
    {run : DuneRun}
    (reaches : Run.Reaches (DuneRun.step overflow) (fun _ _ => True) (DuneRun.initial block) run)
    (hheight : run.index.block.height < 2 ^ 32) (change : Option ChangeOutput) (tx : Transaction)
    (unfunded : Unfunded) (funded : Funded run.index.tables unfunded change tx)
    (hunused : Unused run.index.tables tx.txid) :
    (∀ arguments, sendDunes overflow run.index.tables arguments = some unfunded →
      ((∃ after id amount, arguments.request run.index.tables = some (id, amount) ∧
          indexDunes run.index.block run.index.index tx run.index.tables overflow.add overflow.sub =
            some after ∧ Sent run.index.tables after tx change id amount) ↔
        SendsExactly run.index.tables arguments change tx)) ∧
    ∀ minimum arguments, run.index.block.minimum ≤ minimum →
      etchDune run.index.tables minimum arguments = some unfunded →
      ((∃ after amount, arguments.supply.toAmount arguments.divisibility = some amount ∧
          indexDunes run.index.block run.index.index tx run.index.tables overflow.add overflow.sub =
            some after ∧ EtchedInFull after tx change arguments.dune amount) ↔
        EtchesInFull arguments change run.index.index) := by
  have sound := sound_of_reaches hgenesis reaches
  constructor
  · intro arguments hsend
    exact sent_iff _ _ (sound.id_range hheight) hsend funded hunused
  · intro minimum arguments hminimum hetch
    exact etchedInFull_iff sound.rows sound.place_free sound.name_free hminimum hetch funded hunused

/-! ### A wallet with one output -/

/-- The script `OP_TRUE`. -/
def openAddress : AddressScript where
  script := [0x51]
  whole := by decide
  spendable := rfl

/-- An etching of the name 5 that gives 100 to output 0. -/
def openRun : List DuneAction :=
  [.transaction
    { txid := 1, input := [],
      output := [⟨1, [0x51]⟩, dunestoneOutput [2, 1, 4, 5, 0, 0, 100, 0]] }]

def openBalances : KeyTable OutPoint BalanceRow :=
  (∅ : KeyTable OutPoint BalanceRow).insert ⟨1, 0⟩ [(2 <<< 16, 100)]

def openSend : SendArguments where
  dune := 5
  decimal := ⟨40, 0⟩
  dunicOutputs := [⟨1, 0⟩]
  inscribed _ := false
  change := openAddress
  recipient := openAddress

def openSendUnfunded : Unfunded where
  input := [⟨1, 0⟩]
  output := [⟨0, (sendDunestone (2 <<< 16) 40).encipher⟩, openAddress.postage, openAddress.postage]

def openEtch (supply : ℕ) : EtchArguments where
  divisibility := 0
  dune := 6
  spacers := 0
  supply := ⟨supply, 0⟩
  symbol := 0x44
  destination := openAddress
  dune_le := by decide
  spacers_le := by decide
  symbol_scalar := by decide

def openEtchUnfunded (supply : ℕ) : Unfunded where
  input := []
  output := [⟨0, ((openEtch supply).dunestone supply).encipher⟩, openAddress.postage]

/-- The output the node funds a transaction with. -/
def spareOutput : OutPoint := ⟨9, 0⟩

def fundedBy (unfunded : Unfunded) (change : Option ChangeOutput) : Transaction where
  txid := 2
  input := (unfunded.input ++ [spareOutput]).map fun outpoint => { previousOutput := outpoint, scriptSig := [] }
  output := withChange change unfunded.output

/-- The wallet's output is the only one with dunes, and the commands build their transactions. -/
theorem openRun_reaches :
    ∃ run, Run.Reaches (DuneRun.step .wraps) (fun _ _ => True) (DuneRun.initial sampleBlock) run ∧
      run.index.block.height = 2 ∧ run.index.block.minimum = 0 ∧ run.index.index = 1 ∧
      run.index.tables.outpointToBalances = openBalances ∧
      sendDunes .wraps run.index.tables openSend = some openSendUnfunded ∧
      etchDune run.index.tables 0 (openEtch 7) = some (openEtchUnfunded 7) ∧
      etchDune run.index.tables 0 (openEtch 0) = some (openEtchUnfunded 0) := by
  have hexec : (Run.exec (DuneRun.step .wraps) (fun _ _ => true) openRun
      (DuneRun.initial sampleBlock)).map (fun run =>
        decide (run.index.block.height = 2 ∧ run.index.block.minimum = 0 ∧ run.index.index = 1 ∧
          run.index.tables.outpointToBalances.entries = openBalances.entries ∧
          sendDunes .wraps run.index.tables openSend = some openSendUnfunded ∧
          etchDune run.index.tables 0 (openEtch 7) = some (openEtchUnfunded 7) ∧
          etchDune run.index.tables 0 (openEtch 0) = some (openEtchUnfunded 0))) = some true := by
    decide
  obtain ⟨run, reaches, hview⟩ := Run.exists_reaches_of_exec (fun _ => trivial) hexec
  obtain ⟨hheight, hminimum, hindex, hentries, hcommands⟩ := of_decide_eq_true hview
  exact ⟨run, reaches, hheight, hminimum, hindex, AList.ext hentries, hcommands⟩

section Open

variable {tables : DuneTables}
  (hbalances : tables.outpointToBalances = openBalances)

include hbalances

theorem open_lookup {outpoint : OutPoint} (hne : outpoint ≠ ⟨1, 0⟩) :
    tables.outpointToBalances.lookup outpoint = none := by
  rw [hbalances, openBalances, AList.lookup_insert_ne hne, AList.lookup_empty]

theorem open_unused (unfunded : Unfunded) (change : Option ChangeOutput) :
    Unused tables (fundedBy unfunded change).txid :=
  fun vout => open_lookup hbalances (by simp [fundedBy])

theorem open_funded {unfunded : Unfunded} {change : Option ChangeOutput}
    (hnodup : (unfunded.input ++ [spareOutput]).Nodup)
    (hposition : ∀ inserted ∈ change, inserted.position ≤ unfunded.output.length) :
    Funded tables unfunded change (fundedBy unfunded change) where
  inputs := by
    refine ⟨[spareOutput], ?_, fun outpoint hmem => ?_⟩
    · rw [fundedBy, List.map_map]
      simp [Function.comp_def]
    · rw [List.mem_singleton.1 hmem]
      exact open_lookup hbalances (by decide)
  distinct := by
    rw [fundedBy, List.map_map]
    simpa [Function.comp_def] using hnodup
  position := hposition
  outputs := rfl

theorem open_total (change : Option ChangeOutput) (other : ℕ) :
    tables.inputTotal (fundedBy openSendUnfunded change) other ≤ maxU128 := by
  have hrow : tables.inputTotal (fundedBy openSendUnfunded change) other =
      pairsAmount other [(2 <<< 16, 100)] := by
    rw [DuneTables.inputTotal]
    simp only [fundedBy, openSendUnfunded, List.map_append, List.map_cons, List.map_nil, List.sum_append,
      List.sum_singleton, DuneTables.amountOn]
    rw [open_lookup hbalances (show spareOutput ≠ ⟨1, 0⟩ by decide), hbalances, openBalances,
      AList.lookup_insert]
    rfl
  have hle : pairsAmount other [(2 <<< 16, 100)] ≤ 100 := by
    rw [pairsAmount_cons, pairsAmount_nil]
    split <;> decide
  rw [hrow]
  exact hle.trans (by decide)

end Open

theorem openSend_sent :
    ∃ run, Run.Reaches (DuneRun.step .wraps) (fun _ _ => True) (DuneRun.initial sampleBlock) run ∧
      (∃ after id amount, openSend.request run.index.tables = some (id, amount) ∧
        indexDunes run.index.block run.index.index (fundedBy openSendUnfunded none) run.index.tables
          Overflow.wraps.add Overflow.wraps.sub = some after ∧
        Sent run.index.tables after (fundedBy openSendUnfunded none) none id amount) ∧
      ∃ after amount, (openEtch 7).supply.toAmount 0 = some amount ∧
        indexDunes run.index.block run.index.index (fundedBy (openEtchUnfunded 7) none) run.index.tables
          Overflow.wraps.add Overflow.wraps.sub = some after ∧
        EtchedInFull after (fundedBy (openEtchUnfunded 7) none) none 6 amount := by
  obtain ⟨run, reaches, hheight, hminimum, hindex, hbalances, hsend, hetch, -⟩ := openRun_reaches
  have hsmall : run.index.block.height < 2 ^ 32 := by
    rw [hheight]
    decide
  refine ⟨run, reaches, ?_, ?_⟩
  · refine ((wallet_commands_iff .wraps (by decide) reaches hsmall none _ _
      (open_funded hbalances (by decide) (by simp)) (open_unused hbalances _ _)).1 _ hsend).2
      ⟨open_total hbalances none, ?_⟩
    rw [if_neg (by decide)]
    simp [ChangeLast]
  · refine ((wallet_commands_iff .wraps (by decide) reaches hsmall none _ _
      (open_funded hbalances (by decide) (by simp)) (open_unused hbalances _ _)).2 0 _
      (by rw [hminimum]) hetch).2 ⟨by rw [hindex]; decide, ?_⟩
    simp [ChangeFirst, openEtch]

/-- A change output between the dunestone and the others. -/
def frontChange : ChangeOutput where
  position := 1
  value := 1
  address := openAddress

/-- A send of 40 whose change comes before the recipient, and an etching of nothing. -/
theorem openSend_misplaced :
    ∃ run, Run.Reaches (DuneRun.step .wraps) (fun _ _ => True) (DuneRun.initial sampleBlock) run ∧
      (sendDunes .wraps run.index.tables openSend = some openSendUnfunded ∧
        Funded run.index.tables openSendUnfunded (some frontChange)
          (fundedBy openSendUnfunded (some frontChange)) ∧
        Unused run.index.tables (fundedBy openSendUnfunded (some frontChange)).txid ∧
        ¬ ∃ after id amount, openSend.request run.index.tables = some (id, amount) ∧
          indexDunes run.index.block run.index.index (fundedBy openSendUnfunded (some frontChange))
            run.index.tables Overflow.wraps.add Overflow.wraps.sub = some after ∧
          Sent run.index.tables after (fundedBy openSendUnfunded (some frontChange)) (some frontChange) id
            amount) ∧
      etchDune run.index.tables 0 (openEtch 0) = some (openEtchUnfunded 0) ∧
      Funded run.index.tables (openEtchUnfunded 0) none (fundedBy (openEtchUnfunded 0) none) ∧
      Unused run.index.tables (fundedBy (openEtchUnfunded 0) none).txid ∧
      ¬ ∃ after amount, (openEtch 0).supply.toAmount 0 = some amount ∧
        indexDunes run.index.block run.index.index (fundedBy (openEtchUnfunded 0) none) run.index.tables
          Overflow.wraps.add Overflow.wraps.sub = some after ∧
        EtchedInFull after (fundedBy (openEtchUnfunded 0) none) none 6 amount := by
  obtain ⟨run, reaches, hheight, hminimum, -, hbalances, hsend, -, hetch⟩ := openRun_reaches
  have sound := sound_of_reaches (by decide) reaches
  have hsmall : run.index.block.height < 2 ^ 32 := by
    rw [hheight]
    decide
  have hsendFunded : Funded run.index.tables openSendUnfunded (some frontChange)
      (fundedBy openSendUnfunded (some frontChange)) :=
    open_funded hbalances (by decide) (by simp [frontChange, openSendUnfunded])
  have hetchFunded : Funded run.index.tables (openEtchUnfunded 0) none
      (fundedBy (openEtchUnfunded 0) none) := open_funded hbalances (by decide) (by simp)
  refine ⟨run, reaches, ⟨hsend, hsendFunded, open_unused hbalances _ _, ?_⟩, hetch, hetchFunded,
    open_unused hbalances _ _, ?_⟩
  · intro hsent
    have hexact := (sent_iff _ _ (sound.id_range hsmall) hsend hsendFunded (open_unused hbalances _ _)).1
      hsent
    have hlast := hexact.2
    rw [if_neg (by decide)] at hlast
    simp [ChangeLast, frontChange] at hlast
  · intro hfull
    have hexact := (etchedInFull_iff sound.rows sound.place_free sound.name_free (Nat.le_of_eq hminimum)
      hetch hetchFunded (open_unused hbalances _ _)).1 hfull
    simp [EtchesInFull, ChangeFirst, openEtch] at hexact

end OrdDogecoin.Dunes
