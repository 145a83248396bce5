/-
Module: OrdDogecoin.Server.Snapshots
Purpose: When an inventory is a snapshot.  An answer is stamped with a block count and a block hash; it is
  what that one state answers as long as every read transaction of the request finds what it would find
  there, and then every funding input is unspent and plain in it.  A block committed between two look-ups
  can make an inscribed output look plain.
Trusted boundary: as in OrdDogecoin.Server.Inventories
Main exports: Moves, PlainFunds, snapshot_of_steady
-/
import OrdDogecoin.Server.Inventories

namespace OrdDogecoin.Server

open Chain
open Drc20
open Inscriptions
open ReadProgram

section Statement

variable {config : ServerConfig}

/-- Blocks are committed, or a savepoint is restored. -/
def Moves (db db' : Committed config) : Prop :=
  db.blockHashes <+: db'.blockHashes ∨ db'.blockHashes <+: db.blockHashes

def Committed.Named (db : Committed config) (checkpoint : ℕ × BlockHash) : Prop :=
  db.blockHashes.length = checkpoint.1 ∧ db.blockHashes.getLast? = some checkpoint.2

/-- An output that can fund a transaction of an address. -/
structure Committed.Funds (db : Committed config) (address : Text) (input : FundingInventoryItem) :
    Prop where
  listed : ∃ outpoints, db.addressToOutpoint.lookup address = some outpoints ∧ input.outpoint ∈ outpoints
  unspent : ∃ value, db.outpointToValue.lookup input.outpoint = some value
  uninscribed : ∀ satpoint id, db.satpointToId.lookup satpoint = some id →
    satpoint.outpoint ≠ input.outpoint
  undunic : (db.outpointToDuneBalances.lookup input.outpoint).getD [] = []
  pays : ∃ output, input.rawPreviousTransaction.output[input.outpoint.vout]? = some output ∧
    config.addressFromScript output.scriptPubkey = some address

/-- Every funding input of an answer can fund a transaction of its address. -/
def Inventory.PlainFunds (db : Committed config) : Inventory → Prop
  | .funding inventory => ∀ input ∈ inventory.inputs, db.Funds inventory.address input
  | _ => True

/-- The answer is that of the one state its checkpoint names. -/
structure Snapshot (node : Node) (request : Request) (db : Committed config) (inventory : Inventory) :
    Prop where
  named : db.Named inventory.checkpoint
  served : serve (Lookup.reply db) (handle config node request) = .ok inventory
  plain : inventory.PlainFunds db

end Statement

/-! ### One state -/

section Served

variable {config : ServerConfig} {node : Node} {db : Committed config}

theorem orNotFound_ok {α : Type} {subject : Subject} {found : Option α} {value : α}
    (hserve : serve (Lookup.reply db) (orNotFound subject found) = .ok value) : found = some value := by
  cases found with
  | none => cases hserve
  | some other =>
      cases hserve
      rfl

/-- The count and the hash are those of the state. -/
theorem named_of_chainTip {tip : ℕ × BlockHash} (hserve : serve (Lookup.reply db) chainTip = .ok tip) :
    db.Named tip := by
  obtain ⟨count, hcount, hserve⟩ := serve_bind_ok _ hserve
  cases hcount
  obtain ⟨found, hfound, hserve⟩ := serve_bind_ok _ hserve
  cases hfound
  obtain ⟨hash, hhash, hserve⟩ := serve_bind_ok _ hserve
  cases hserve
  have hlast := orNotFound_ok hhash
  refine ⟨rfl, ?_⟩
  change db.blockHash _ = some hash at hlast
  change db.blockHashes.getLast? = some hash
  by_cases hzero : db.blockHashes.length = 0
  · have hnone : db.blockHash none = some hash := by
      simpa only [Lookup.reply, hzero, if_true] using hlast
    exact hnone
  · have hsome : db.blockHash (some (db.blockHashes.length - 1)) = some hash := by
      simpa only [Lookup.reply, hzero, if_false] using hlast
    rw [List.getLast?_eq_getElem?]
    exact hsome

/-- What the look-ups of an output show. -/
theorem plain_of_plainOutput {outpoint : OutPoint}
    (hserve : serve (Lookup.reply db) (plainOutput config outpoint) = .ok true) :
    (∀ satpoint id, db.satpointToId.lookup satpoint = some id → satpoint.outpoint ≠ outpoint) ∧
      (db.outpointToDuneBalances.lookup outpoint).getD [] = [] := by
  obtain ⟨ids, hids, hserve⟩ := serve_bind_ok _ hserve
  cases hids
  split at hserve
  next hnone =>
    obtain ⟨balances, hbalances, hserve⟩ := serve_bind_ok _ hserve
    have hempty : balances.isEmpty = true := Except.ok.inj hserve
    obtain ⟨count, hcount, hbalances⟩ := serve_bind_ok _ hbalances
    cases hcount
    constructor
    · intro satpoint id hrow hsame
      have hentry := AList.mem_lookup_iff.1 (Option.mem_def.2 hrow)
      have hlisted : id ∈ db.inscriptionsOnOutput outpoint := by
        refine List.mem_map.2 ⟨⟨satpoint, id⟩, List.mem_filter.2 ⟨hentry, ?_⟩, rfl⟩
        simpa using hsame
      have hempty : db.inscriptionsOnOutput outpoint = [] := List.isEmpty_iff.1 hnone
      rw [hempty] at hlisted
      exact absurd hlisted List.not_mem_nil
    · split at hbalances
      next hfrom =>
        cases hbalances
        exact List.isEmpty_iff.1 hempty
      next hoff =>
        rw [db.dunesFrom hoff]
        rfl
  next => cases hserve

/-- A candidate is an output of the account that carries nothing. -/
theorem funds_of_fundingCandidate {address : Text} {outpoint : OutPoint} {item : FundingInventoryItem}
    (hserve : serve (Lookup.reply db) (fundingCandidate config node address outpoint) = .ok (some item))
    (hlisted : outpoint ∈ db.accountOutputs address) : db.Funds address item := by
  obtain ⟨plain, hplain, hserve⟩ := serve_bind_ok _ hserve
  cases plain with
  | false => cases hserve
  | true =>
      obtain ⟨found, -, hserve⟩ := serve_bind_ok _ hserve
      obtain ⟨tx, -, hserve⟩ := serve_bind_ok _ hserve
      obtain ⟨output, houtput, hserve⟩ := serve_bind_ok _ hserve
      have hat := orNotFound_ok houtput
      dsimp only at hserve
      split at hserve
      next => cases hserve
      next hpays =>
        obtain rfl := Option.some.inj (Except.ok.inj hserve)
        rw [not_or, not_not] at hpays
        obtain ⟨huninscribed, hundunic⟩ := plain_of_plainOutput hplain
        obtain ⟨hmem, hvalue⟩ := List.mem_filter.1 hlisted
        refine ⟨?_, Option.isSome_iff_exists.1 hvalue, huninscribed, hundunic, output, hat, hpays.1⟩
        cases hrow : db.addressToOutpoint.lookup address with
        | none => simp [hrow] at hmem
        | some outpoints =>
            rw [hrow, Option.getD_some] at hmem
            exact ⟨outpoints, rfl, hmem⟩

theorem funds_of_fundingCandidates {address : Text} {outpoints : List OutPoint} :
    ∀ {items : List FundingInventoryItem},
      serve (Lookup.reply db) (fundingCandidates config node address outpoints) = .ok items →
      (∀ outpoint ∈ outpoints, outpoint ∈ db.accountOutputs address) →
      ∀ item ∈ items, db.Funds address item := by
  induction outpoints with
  | nil =>
      intro items hserve _ item hmem
      cases hserve
      exact absurd hmem List.not_mem_nil
  | cons outpoint outpoints ih =>
      intro items hserve hlisted item hmem
      obtain ⟨candidate, hcandidate, hserve⟩ := serve_bind_ok _ hserve
      obtain ⟨more, hmore, hserve⟩ := serve_bind_ok _ hserve
      cases hserve
      obtain ⟨hhere, hothers⟩ := List.forall_mem_cons.1 hlisted
      rcases List.mem_append.1 hmem with hmem | hmem
      · cases candidate with
        | none => exact absurd hmem List.not_mem_nil
        | some found =>
            obtain rfl := List.mem_singleton.1 hmem
            exact funds_of_fundingCandidate hcandidate hhere
      · exact ih hmore hothers item hmem

/-- A funding answer of one state names it, and its inputs are plain in it. -/
theorem funding_served {address : Text} {limit : Option ℕ} {inventory : FundingInventory}
    (hserve : serve (Lookup.reply db) (fundingInventory config node address limit) = .ok inventory) :
    db.Named (inventory.blockCount, inventory.blockHash) ∧
      ∀ input ∈ inventory.inputs, db.Funds inventory.address input := by
  unfold fundingInventory at hserve
  split at hserve
  next => cases hserve
  next canonical hcanonical =>
    obtain ⟨_, -, hserve⟩ := serve_bind_ok _ hserve
    obtain ⟨_, -, hserve⟩ := serve_bind_ok _ hserve
    obtain ⟨_, -, hserve⟩ := serve_bind_ok _ hserve
    obtain ⟨tip, htip, hserve⟩ := serve_bind_ok _ hserve
    obtain ⟨outpoints, houtpoints, hserve⟩ := serve_bind_ok _ hserve
    cases houtpoints
    obtain ⟨candidates, hcandidates, hserve⟩ := serve_bind_ok _ hserve
    cases hserve
    refine ⟨named_of_chainTip htip, fun input hinput => ?_⟩
    have hmem := (List.perm_insertionSort _ candidates).mem_iff.1 (List.mem_of_mem_take hinput)
    exact funds_of_fundingCandidates hcandidates (fun outpoint hmem => hmem) input hmem

end Served

/-! ### Every inventory -/

section Inventories

variable {config : ServerConfig} {node : Node} {db : Committed config}

theorem tokens_served {cursor : Option Text} {limit : Option ℕ} {inventory : Drc20TokenInventory}
    (hserve : serve (Lookup.reply db) (drc20TokenInventory config cursor limit) = .ok inventory) :
    db.Named (inventory.blockCount, inventory.blockHash) := by
  obtain ⟨_, -, hserve⟩ := serve_bind_ok _ hserve
  obtain ⟨_, -, hserve⟩ := serve_bind_ok _ hserve
  obtain ⟨_, -, hserve⟩ := serve_bind_ok _ hserve
  obtain ⟨tip, htip, hserve⟩ := serve_bind_ok _ hserve
  obtain ⟨_, -, hserve⟩ := serve_bind_ok _ hserve
  obtain ⟨_, -, hserve⟩ := serve_bind_ok _ hserve
  cases hserve
  exact named_of_chainTip htip

theorem holders_served {tick : Text} {cursor : Option Text} {limit : Option ℕ}
    {inventory : Drc20HolderInventory}
    (hserve : serve (Lookup.reply db) (drc20HolderInventory config tick cursor limit) = .ok inventory) :
    db.Named (inventory.blockCount, inventory.blockHash) := by
  obtain ⟨_, -, hserve⟩ := serve_bind_ok _ hserve
  obtain ⟨_, -, hserve⟩ := serve_bind_ok _ hserve
  obtain ⟨_, -, hserve⟩ := serve_bind_ok _ hserve
  split at hserve
  next => cases hserve
  next =>
    obtain ⟨_, -, hserve⟩ := serve_bind_ok _ hserve
    obtain ⟨_, -, hserve⟩ := serve_bind_ok _ hserve
    obtain ⟨tip, htip, hserve⟩ := serve_bind_ok _ hserve
    obtain ⟨_, -, hserve⟩ := serve_bind_ok _ hserve
    obtain ⟨_, -, hserve⟩ := serve_bind_ok _ hserve
    cases hserve
    exact named_of_chainTip htip

theorem inscriptions_served {cursor limit : Option ℕ} {inventory : InscriptionInventory}
    (hserve : serve (Lookup.reply db) (inscriptionInventory config node cursor limit) = .ok inventory) :
    db.Named (inventory.blockCount, inventory.blockHash) := by
  obtain ⟨_, -, hserve⟩ := serve_bind_ok _ hserve
  obtain ⟨tip, htip, hserve⟩ := serve_bind_ok _ hserve
  dsimp only at hserve
  split at hserve
  next => cases hserve
  next =>
    obtain ⟨_, -, hserve⟩ := serve_bind_ok _ hserve
    obtain ⟨_, -, hserve⟩ := serve_bind_ok _ hserve
    cases hserve
    exact named_of_chainTip htip

/-- What one state answers is a snapshot of it. -/
theorem snapshot_of_served {request : Request} {inventory : Inventory}
    (hserve : serve (Lookup.reply db) (handle config node request) = .ok inventory) :
    Snapshot node request db inventory := by
  have hserved := hserve
  cases request with
  | funding address limit =>
      obtain ⟨found, hfound, hserve⟩ := serve_bind_ok _ hserve
      cases hserve
      obtain ⟨hnamed, hfunds⟩ := funding_served hfound
      exact ⟨hnamed, hserved, hfunds⟩
  | drc20Tokens cursor limit =>
      obtain ⟨found, hfound, hserve⟩ := serve_bind_ok _ hserve
      cases hserve
      exact ⟨tokens_served hfound, hserved, trivial⟩
  | drc20Holders tick cursor limit =>
      obtain ⟨found, hfound, hserve⟩ := serve_bind_ok _ hserve
      cases hserve
      exact ⟨holders_served hfound, hserved, trivial⟩
  | inscriptions cursor limit =>
      obtain ⟨found, hfound, hserve⟩ := serve_bind_ok _ hserve
      cases hserve
      exact ⟨inscriptions_served hfound, hserved, trivial⟩

end Inventories

/-! ### Interleavings -/

/-- The states of a request: the committed state and what is left of its handler, when commits and
rollbacks come between its read transactions, each of which finds what it would find in the state the
request's first one opened. -/
def Steady {config : ServerConfig} (node : Node) (request : Request) (origin db : Committed config)
    (rest : ReadProgram Lookup Lookup.Reply (Except ServerError Inventory)) : Prop :=
  Reaches Lookup.reply Moves (fun db lookup => Lookup.reply db lookup = Lookup.reply origin lookup) origin
    (handle config node request).run db rest

/-- Such a request, once answered, is answered with a snapshot. -/
theorem snapshot_of_steady {config : ServerConfig} {node : Node} {request : Request}
    {origin db : Committed config} {inventory : Inventory}
    (steady : Steady node request origin db (.done (.ok inventory))) :
    Snapshot node request origin inventory := by
  refine snapshot_of_served ?_
  exact (Reaches.answer_eq steady fun _ _ hreply => hreply).symm

/-! ### A block between two look-ups -/

/-- A server with the dune and the transaction index; one script pays one address. -/
def sampleConfig : ServerConfig where
  firstInscriptionHeight := 0
  firstDuneHeight := 0
  indexDunes := true
  indexTransactions := true
  indexDrc20 := true
  genesisBlockCoinbaseTransaction := { txid := 1, input := [], output := [] }
  lowerHex tick := tick.chars
  canonicalAddress := some
  addressFromScript script := if script = [1] then some ['D'] else none
  scriptKeyFromStr := fun _ => none
  subsidy _ := 1000000000000
  subsidyScheduleHash := some 0

def sampleNode : Node where
  rawTransaction _ := none
  confirmations _ := some 6
  tip := some 2

/-- A transaction that pays the address. -/
def payment (txid source : Txid) : Transaction where
  txid := txid
  input := [{ previousOutput := { txid := source, vout := 0 } }]
  output := [{ value := 100000, scriptPubkey := [1] }]

/-- The index when the address has one output, which carries an inscription. -/
def indexedWith (blockHashes : List BlockHash) (outpoint : OutPoint)
    (transactions : KeyTable Txid Transaction) : Committed sampleConfig where
  blockHashes := blockHashes
  outpointToValue := AList.singleton outpoint 100000
  addressToOutpoint := AList.singleton (['D'] : Text) [outpoint]
  satpointToId := AList.singleton (⟨outpoint, 0⟩ : SatPoint) { txid := 7, index := 0 }
  outpointToDuneBalances := ∅
  transactions := transactions
  ledger := Ledger.empty
  numberToId := AList.singleton 0 { txid := 7, index := 0 }
  idToEntry := ∅
  idToSatpoint := AList.singleton ({ txid := 7, index := 0 } : InscriptionId) ⟨outpoint, 0⟩
  idToTxids := ∅
  txidToTx := ∅
  dunesFrom _ := rfl

/-- The inscription is revealed in the second block. -/
def revealed : Committed sampleConfig :=
  indexedWith [10, 11] ⟨7, 0⟩ (AList.singleton 7 (payment 7 6))

/-- The third block spends its output. -/
def moved : Committed sampleConfig :=
  indexedWith [10, 11, 12] ⟨8, 0⟩ (AList.insert 8 (payment 8 7) (AList.singleton 7 (payment 7 6)))

/-- The funding answer that offers the revealed output. -/
def mixedInventory : FundingInventory where
  blockCount := 2
  blockHash := 11
  address := ['D']
  inventoryComplete := true
  totalCount := 1
  truncated := false
  inputs :=
    [{ outpoint := ⟨7, 0⟩, valueSats := 100000, scriptPubkey := [1],
       rawPreviousTransaction := payment 7 6, confirmations := 6 }]

/-- Between blocks the one output of the address is not offered. -/
theorem revealed_snapshot :
    ∃ inventory, Steady sampleNode (.funding ['D'] none) revealed revealed (.done (.ok inventory)) ∧
      Snapshot sampleNode (.funding ['D'] none) revealed inventory := by
  have steady : Steady sampleNode (.funding ['D'] none) revealed revealed
      (.done (.ok (.funding { mixedInventory with totalCount := 0, inputs := [] }))) :=
    Reaches.start.stay fun _ => rfl
  exact ⟨_, steady, snapshot_of_steady steady⟩

/-- The third block is committed after the outputs of the address are read and before their inscriptions
are: the inscribed output is offered, stamped with the second block. -/
theorem mixedInventory_not_snapshot :
    (∃ db, Reaches Lookup.reply Moves (fun _ _ => True) revealed
        (handle sampleConfig sampleNode (.funding ['D'] none)).run db
        (.done (.ok (.funding mixedInventory)))) ∧
      Moves revealed moved ∧
      ¬ (∃ db ∈ [revealed, moved], Snapshot sampleNode (.funding ['D'] none) db (.funding mixedInventory)) ∧
      ¬ Inventory.PlainFunds revealed (.funding mixedInventory) := by
  have hmoves : Moves revealed moved := .inl ⟨[12], rfl⟩
  have hinscribed : ¬ Inventory.PlainFunds revealed (.funding mixedInventory) := by
    intro plain
    exact (plain _ List.mem_cons_self).uninscribed ⟨⟨7, 0⟩, 0⟩ { txid := 7, index := 0 } rfl rfl
  refine ⟨?_, hmoves, ?_, hinscribed⟩
  · refine Reaches.start.follow (?_ : ([revealed, revealed, revealed, revealed, moved, moved, moved,
      moved] : List (Committed sampleConfig)).IsChain Moves) rfl
    have hstay : ∀ db : Committed sampleConfig, Moves db db := fun db => .inl (List.prefix_refl _)
    simp only [List.isChain_cons_cons, List.isChain_singleton, hstay, hmoves, and_self]
  · rintro ⟨db, hdb, snapshot⟩
    rcases List.mem_cons.1 hdb with rfl | hdb
    · exact hinscribed snapshot.plain
    · obtain rfl := List.mem_singleton.1 hdb
      exact absurd snapshot.named.1 (by decide)

end OrdDogecoin.Server
