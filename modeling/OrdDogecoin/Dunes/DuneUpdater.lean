/-
Module: OrdDogecoin.Dunes.DuneUpdater
Purpose: `DuneUpdater::index_dunes`: the balances of the inputs, the etching, the edicts over the
  unallocated, minted and newly etched amounts, and the balances and burns written back.  The `u128`
  addition and subtraction are arguments: by default an overflow fails, and `Overflow` has both what
  a debug build and what a release build does with one.
Trusted boundary: the rows of `OUTPOINT_TO_DUNE_BALANCES` are the pairs whose varints they
  concatenate; tables are keyed by the `u128` form of a dune id
Main exports: DuneEntry, BlockInfo, indexDunes
-/
import OrdDogecoin.Dunes.Dunestone
import Mathlib.Data.List.Sort

namespace OrdDogecoin.Dunes

open Chain

structure DuneEntry where
  block : ℕ
  burned : ℕ
  divisibility : ℕ
  etching : Txid
  terms : Option Terms
  mints : ℕ
  number : ℕ
  premine : ℕ
  dune : ℕ
  spacers : ℕ
  supply : ℕ
  symbol : Option ℕ
  timestamp : ℕ
  turbo : Bool
deriving DecidableEq, Repr

/-- `u64::saturating_add`. -/
def saturatingAddU64 (a b : ℕ) : ℕ := min (a + b) (2 ^ 64 - 1)

/-- Two bounds of which either may be missing. -/
def combine (choose : ℕ → ℕ → ℕ) : Option ℕ → Option ℕ → Option ℕ
  | some relative, some absolute => some (choose relative absolute)
  | some relative, none => some relative
  | none, absolute => absolute

def DuneEntry.start (entry : DuneEntry) : Option ℕ := do
  let terms ← entry.terms
  combine max (terms.offset.1.map (saturatingAddU64 entry.block)) terms.height.1

def DuneEntry.end (entry : DuneEntry) : Option ℕ := do
  let terms ← entry.terms
  combine min (terms.offset.2.map (saturatingAddU64 entry.block)) terms.height.2

/-- `DuneEntry::mintable`, with `none` for a mint error. -/
def DuneEntry.mintable (entry : DuneEntry) (height : ℕ) : Option ℕ := do
  let terms ← entry.terms
  if entry.start.any (height < ·) then none
  else if entry.end.any (· ≤ height) then none
  else if terms.cap.getD maxU128 ≤ entry.mints then none
  else some (terms.limit.getD 0)

/-- The balances of an outpoint, as pairs of dune id and amount. -/
abbrev BalanceRow := List (ℕ × ℕ)

/-- A map from dune ids to amounts. -/
abbrev Amounts := KeyTable ℕ ℕ

/-- The dune tables and statistics. -/
structure DuneTables where
  idToEntry : KeyTable ℕ DuneEntry
  duneToId : KeyTable ℕ ℕ
  outpointToBalances : KeyTable OutPoint BalanceRow
  inscriptionIdToDune : KeyTable InscriptionId ℕ
  dunes : ℕ
  reservedDunes : ℕ

def DuneTables.empty : DuneTables where
  idToEntry := ∅
  duneToId := ∅
  outpointToBalances := ∅
  inscriptionIdToDune := ∅
  dunes := 0
  reservedDunes := 0

/-- What a block gives its updater. -/
structure BlockInfo where
  height : ℕ
  timestamp : ℕ
  minimum : ℕ
  hasInscription : InscriptionId → Bool

/-! ### Checked arithmetic -/

def checkedAdd (a b : ℕ) : Option ℕ := if a + b ≤ maxU128 then some (a + b) else none

def checkedSub (a b : ℕ) : Option ℕ := if b ≤ a then some (a - b) else none

/-- How the build treats an overflow: a debug build panics, a release build wraps. -/
inductive Overflow where
  | panics
  | wraps
deriving DecidableEq, Repr

/-- `u128` addition. -/
def Overflow.add : Overflow → ℕ → ℕ → Option ℕ
  | .panics => checkedAdd
  | .wraps => fun a b => some ((a + b) % 2 ^ 128)

/-- `u128` subtraction. -/
def Overflow.sub : Overflow → ℕ → ℕ → Option ℕ
  | .panics => checkedSub
  | .wraps => fun a b => some ((a + 2 ^ 128 - b) % 2 ^ 128)

/-- `*amounts.entry(id).or_default() += amount`. -/
def credit (amounts : Amounts) (id amount : ℕ) (add : ℕ → ℕ → Option ℕ := checkedAdd) :
    Option Amounts := do
  let sum ← add ((amounts.lookup id).getD 0) amount
  some (amounts.insert id sum)

def creditAll (amounts : Amounts) (list : List (ℕ × ℕ)) (add : ℕ → ℕ → Option ℕ := checkedAdd) :
    Option Amounts :=
  match list with
  | [] => some amounts
  | (id, amount) :: list => do creditAll (← credit amounts id amount add) list add

def pairs (amounts : Amounts) : List (ℕ × ℕ) := amounts.entries.map fun row => (row.1, row.2)

/-! ### Inputs -/

def takeInputs (inputs : List TxIn) (balances : KeyTable OutPoint BalanceRow) (unallocated : Amounts)
    (add : ℕ → ℕ → Option ℕ := checkedAdd) : Option (KeyTable OutPoint BalanceRow × Amounts) :=
  match inputs with
  | [] => some (balances, unallocated)
  | input :: inputs => do
      let row := (balances.lookup input.previousOutput).getD []
      let unallocated ← creditAll unallocated row add
      takeInputs inputs (balances.erase input.previousOutput) unallocated add

/-! ### Etchings -/

def reserved : ℕ := 6402364363415443603228541259936211926

/-- An etching that will become an entry, less the amounts. -/
structure Allocation where
  divisibility : ℕ
  id : ℕ
  mint : Option Terms
  dune : ℕ
  spacers : ℕ
  symbol : Option ℕ
  turbo : Bool
deriving DecidableEq, Repr

/-- Whether an etched name is too short, reserved or taken. -/
def nameRejected (dunes : DuneTables) (minimum : ℕ) (dune : Option ℕ) : Bool :=
  dune.any fun name =>
    name < minimum || reserved ≤ name || (dunes.duneToId.lookup name).isSome

/-- The allocation of an etching, and the tables with the counter of reserved names moved on. -/
def allocation (dunes : DuneTables) (block : BlockInfo) (index : ℕ) (etching : Option Etching) :
    Option Allocation × DuneTables :=
  match etching with
  | none => (none, dunes)
  | some etching =>
      if nameRejected dunes block.minimum etching.dune then (none, dunes)
      else
        let (dune, dunes) := match etching.dune with
          | some dune => (dune, dunes)
          | none =>
              (reserved + dunes.reservedDunes,
                { dunes with reservedDunes := dunes.reservedDunes + 1 })
        if index < 2 ^ 16 then
          (some
            { divisibility := etching.divisibility.getD 0
              id := block.height <<< 16 ||| index
              mint := etching.terms.map fun terms =>
                { terms with limit := terms.limit.map (min · maxLimit) }
              dune := dune
              spacers := etching.spacers.getD 0
              symbol := etching.symbol
              turbo := etching.turbo }, dunes)
        else (none, dunes)

/-! ### Mints -/

/-- `claim`: the dune id behind a mint edict. -/
def claim (id : ℕ) : Option ℕ := if id &&& claimBit ≠ 0 then some (id ^^^ claimBit) else none

/-- The claimed ids, each with what one mint may take. -/
def mintableAmounts (entries : KeyTable ℕ DuneEntry) (height : ℕ) : List ℕ → Amounts
  | [] => ∅
  | id :: ids =>
      let rest := mintableAmounts entries height ids
      if !isDuneId id then rest
      else
        match entries.lookup id with
        | none => rest
        | some entry =>
            match entry.mintable height with
            | none => rest
            | some limit => rest.insert id limit

/-! ### Edicts -/

/-- The amounts an edict moves: what is unallocated, mintable and left of the new issuance, and what
the outputs have been given. -/
structure Pools where
  unallocated : Amounts
  mintable : Amounts
  issuance : ℕ
  premine : ℕ
  allocated : List Amounts

/-- Give an amount of a dune to an output. -/
def allocate (allocated : List Amounts) (output id amount : ℕ)
    (add : ℕ → ℕ → Option ℕ := checkedAdd) : Option (List Amounts) := do
  let amounts ← allocated[output]?
  let amounts ← credit amounts id amount add
  some (allocated.set output amounts)

/-- The amount an edict takes from a balance: all of it, or at most what is asked. -/
def taken (balance amount : ℕ) : ℕ := if amount = 0 then balance else min amount balance

/-- Move an amount out of a balance, unless it is zero. -/
def moveAmount (allocated : List Amounts) (output id balance amount : ℕ)
    (add : ℕ → ℕ → Option ℕ := checkedAdd) (sub : ℕ → ℕ → Option ℕ := checkedSub) :
    Option (ℕ × List Amounts) :=
  let amount := taken balance amount
  if 0 < amount then do
    let rest ← sub balance amount
    let allocated ← allocate allocated output id amount add
    some (rest, allocated)
  else some (balance, allocated)

/-- One edict.  The branch of the source that splits an amount over all outputs is never reached,
since an output number equal to the number of outputs has been skipped. -/
def applyEdict (newId : Option ℕ) (edict : Edict) (pools : Pools)
    (add : ℕ → ℕ → Option ℕ := checkedAdd) (sub : ℕ → ℕ → Option ℕ := checkedSub) :
    Option Pools :=
  if pools.allocated.length ≤ edict.output then some pools
  else if edict.id = 0 then
    match newId with
    | none => some pools
    | some id => do
        let premine ← add pools.premine edict.amount
        let (issuance, allocated) ←
          moveAmount pools.allocated edict.output id pools.issuance edict.amount add sub
        some { pools with premine := premine, issuance := issuance, allocated := allocated }
  else
    match claim edict.id with
    | some id =>
        match pools.mintable.lookup id with
        | none => some pools
        | some balance => do
            let (rest, allocated) ←
              moveAmount pools.allocated edict.output id balance edict.amount add sub
            some { pools with mintable := pools.mintable.insert id rest, allocated := allocated }
    | none =>
        match pools.unallocated.lookup edict.id with
        | none => some pools
        | some balance => do
            let (rest, allocated) ←
              moveAmount pools.allocated edict.output edict.id balance edict.amount add sub
            some { pools with
              unallocated := pools.unallocated.insert edict.id rest
              allocated := allocated }

def applyEdicts (newId : Option ℕ) (edicts : List Edict) (pools : Pools)
    (add : ℕ → ℕ → Option ℕ := checkedAdd) (sub : ℕ → ℕ → Option ℕ := checkedSub) :
    Option Pools :=
  match edicts with
  | [] => some pools
  | edict :: edicts => do applyEdicts newId edicts (← applyEdict newId edict pools add sub) add sub

/-! ### Entries -/

def recordMints (limits : Amounts) (remaining : List (ℕ × ℕ)) (entries : KeyTable ℕ DuneEntry)
    (add : ℕ → ℕ → Option ℕ := checkedAdd) (sub : ℕ → ℕ → Option ℕ := checkedSub) :
    Option (KeyTable ℕ DuneEntry) :=
  match remaining with
  | [] => some entries
  | (id, rest) :: remaining => do
      let minted ← sub ((limits.lookup id).getD 0) rest
      if 0 < minted then
        let entry ← entries.lookup id
        let supply ← add entry.supply minted
        let mints ← add entry.mints 1
        recordMints limits remaining
          (entries.insert id { entry with supply := supply, mints := mints }) add sub
      else recordMints limits remaining entries add sub

/-- Write the entry of a new dune. -/
def etch (block : BlockInfo) (txid : Txid) (cenotaph : Bool) (allocation : Allocation)
    (issuance premine : ℕ) (dunes : DuneTables) (sub : ℕ → ℕ → Option ℕ := checkedSub) :
    Option DuneTables := do
  let issued ← sub maxU128 issuance
  let supply ← sub issued premine
  let entry : DuneEntry :=
    { block := block.height
      burned := 0
      divisibility := allocation.divisibility
      etching := txid
      terms := if cenotaph then none else allocation.mint
      mints := 0
      number := dunes.dunes
      premine := premine
      dune := allocation.dune
      spacers := allocation.spacers
      supply := supply
      symbol := allocation.symbol
      timestamp := block.timestamp
      turbo := allocation.turbo }
  some { dunes with
    duneToId := dunes.duneToId.insert allocation.dune allocation.id
    dunes := dunes.dunes + 1
    idToEntry := dunes.idToEntry.insert allocation.id entry
    inscriptionIdToDune :=
      if block.hasInscription ⟨txid, 0⟩ then
        dunes.inscriptionIdToDune.insert ⟨txid, 0⟩ allocation.dune
      else dunes.inscriptionIdToDune }

def recordBurns (burned : List (ℕ × ℕ)) (entries : KeyTable ℕ DuneEntry)
    (add : ℕ → ℕ → Option ℕ := checkedAdd) : Option (KeyTable ℕ DuneEntry) :=
  match burned with
  | [] => some entries
  | (id, amount) :: burned => do
      let entry ← entries.lookup id
      let total ← add entry.burned amount
      recordBurns burned (entries.insert id { entry with burned := total }) add

/-! ### Outputs -/

/-- The output that receives what no edict has allocated. -/
def defaultOutput (outputs : List TxOut) (pointer : Option ℕ) : Option ℕ :=
  (pointer.filter (· < outputs.length)).or
    (outputs.findIdx? fun output => !isOpReturn output.scriptPubkey)

def positive (amounts : Amounts) : List (ℕ × ℕ) := (pairs amounts).filter (0 < ·.2)

/-- Assign or burn what no edict has allocated. -/
def settleUnallocated (outputs : List TxOut) (pointer : Option ℕ) (cenotaph : Bool)
    (unallocated : Amounts) (allocated : List Amounts) (add : ℕ → ℕ → Option ℕ := checkedAdd) :
    Option (List Amounts × Amounts) :=
  if cenotaph then do some (allocated, ← creditAll ∅ (pairs unallocated) add)
  else
    match defaultOutput outputs pointer with
    | none => do some (allocated, ← creditAll ∅ (positive unallocated) add)
    | some vout => do
        let amounts ← allocated[vout]?
        let amounts ← creditAll amounts (positive unallocated) add
        some (allocated.set vout amounts, ∅)

/-- The row written for an output: its pairs, sorted by id. -/
def balanceRow (amounts : Amounts) : BalanceRow :=
  (pairs amounts).insertionSort fun a b => a.1 ≤ b.1

/-- Write the rows of the outputs; what sits on an `OP_RETURN` output is burned. -/
def writeOutputs (txid : Txid) (vout : ℕ) (outputs : List (TxOut × Amounts))
    (balances : KeyTable OutPoint BalanceRow) (burned : Amounts)
    (add : ℕ → ℕ → Option ℕ := checkedAdd) : Option (KeyTable OutPoint BalanceRow × Amounts) :=
  match outputs with
  | [] => some (balances, burned)
  | (output, amounts) :: rest =>
      if amounts.entries.isEmpty then writeOutputs txid (vout + 1) rest balances burned add
      else if isOpReturn output.scriptPubkey then do
        let burned ← creditAll burned (pairs amounts) add
        writeOutputs txid (vout + 1) rest balances burned add
      else
        writeOutputs txid (vout + 1) rest
          (balances.insert ⟨txid, vout⟩ (balanceRow amounts)) burned add

/-! ### A transaction -/

/-- The claimed ids of a dunestone, once each. -/
def claims (edicts : List Edict) : List ℕ := (edicts.filterMap fun edict => claim edict.id).dedup

/-- The pools before the first edict. -/
def initialPools (dunes : DuneTables) (height outputs : ℕ) (edicts : List Edict)
    (unallocated : Amounts) : Pools where
  unallocated := unallocated
  mintable := mintableAmounts dunes.idToEntry height (claims edicts)
  issuance := maxU128
  premine := 0
  allocated := List.replicate outputs ∅

/-- The edicts of a dunestone and the mints they make, none for a cenotaph. -/
def applyEdictsAndMints (newId : Option ℕ) (dunestone : Dunestone) (pools : Pools)
    (dunes : DuneTables) (add : ℕ → ℕ → Option ℕ := checkedAdd)
    (sub : ℕ → ℕ → Option ℕ := checkedSub) : Option (Pools × DuneTables) :=
  if dunestone.cenotaph then some (pools, dunes)
  else do
    let after ← applyEdicts newId dunestone.edicts pools add sub
    let entries ← recordMints pools.mintable (pairs after.mintable) dunes.idToEntry add sub
    some (after, { dunes with idToEntry := entries })

/-- The part of `index_dunes` that follows a dunestone: edicts, mints and the etching. -/
def applyDunestone (block : BlockInfo) (index : ℕ) (tx : Transaction) (dunestone : Dunestone)
    (unallocated : Amounts) (dunes : DuneTables) (add : ℕ → ℕ → Option ℕ := checkedAdd)
    (sub : ℕ → ℕ → Option ℕ := checkedSub) : Option (Pools × DuneTables) := do
  let (allocation, dunes) := allocation dunes block index dunestone.etching
  let pools := initialPools dunes block.height tx.output.length dunestone.edicts unallocated
  let (pools, dunes) ←
    applyEdictsAndMints (allocation.map Allocation.id) dunestone pools dunes add sub
  match allocation with
  | none => some (pools, dunes)
  | some allocation => do
      let dunes ← etch block tx.txid dunestone.cenotaph allocation pools.issuance pools.premine dunes
        sub
      some (pools, dunes)

/-- The pools and tables after the dunestone of a transaction, if it has one. -/
def applyIfPresent (block : BlockInfo) (index : ℕ) (tx : Transaction)
    (dunestone : Option Dunestone) (unallocated : Amounts) (dunes : DuneTables)
    (add : ℕ → ℕ → Option ℕ := checkedAdd) (sub : ℕ → ℕ → Option ℕ := checkedSub) :
    Option (Pools × DuneTables) :=
  match dunestone with
  | none => some (initialPools dunes block.height tx.output.length [] unallocated, dunes)
  | some dunestone => applyDunestone block index tx dunestone unallocated dunes add sub

/-- The end of `index_dunes`: leftovers, rows and burns. -/
def settle (tx : Transaction) (dunestone : Option Dunestone) (pools : Pools) (dunes : DuneTables)
    (add : ℕ → ℕ → Option ℕ := checkedAdd) : Option DuneTables := do
  let cenotaph := (dunestone.map Dunestone.cenotaph).getD false
  let pointer := dunestone.bind Dunestone.pointer
  let (allocated, burned) ←
    settleUnallocated tx.output pointer cenotaph pools.unallocated pools.allocated add
  let (balances, burned) ←
    writeOutputs tx.txid 0 (tx.output.zip allocated) dunes.outpointToBalances burned add
  let entries ← recordBurns (pairs burned) dunes.idToEntry add
  some { dunes with outpointToBalances := balances, idToEntry := entries }

/-- `DuneUpdater::index_dunes` for the transaction at position `index` of a block. -/
def indexDunes (block : BlockInfo) (index : ℕ) (tx : Transaction) (dunes : DuneTables)
    (add : ℕ → ℕ → Option ℕ := checkedAdd) (sub : ℕ → ℕ → Option ℕ := checkedSub) :
    Option DuneTables := do
  let dunestone := Dunestone.fromTransaction tx
  let (balances, unallocated) ← takeInputs tx.input dunes.outpointToBalances ∅ add
  let (pools, dunes) ← applyIfPresent block index tx dunestone unallocated
    { dunes with outpointToBalances := balances } add sub
  settle tx dunestone pools dunes add

end OrdDogecoin.Dunes
