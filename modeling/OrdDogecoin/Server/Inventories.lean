/-
Module: OrdDogecoin.Server.Inventories
Purpose: The inventories the server answers from the index: funding outputs of an address, DRC-20 tokens
  and holders, and inscriptions.  Every look-up of the index opens a read transaction of its own, so a
  handler is a program of look-ups, each answered by whatever state is committed when it is made.
Trusted boundary: the node's answers, address texts, the subsidy schedule and its file are parameters
  (`Node`, `ServerConfig`); redb read transactions see one committed state; numbers and ids stand for
  their texts in the answers
Main exports: Committed, Request, handle
-/
import OrdDogecoin.Drc20.Holders
import OrdDogecoin.Inscriptions.Updater
import OrdDogecoin.Lib.ReadProgram
import Mathlib.Data.List.Sort

namespace OrdDogecoin.Server

open Chain
open Drc20
open Inscriptions

/-! ### The index and the node -/

/-- What the server reads of its options, its chain and its environment. -/
structure ServerConfig where
  firstInscriptionHeight : ℕ
  firstDuneHeight : ℕ
  indexDunes : Bool
  indexTransactions : Bool
  indexDrc20 : Bool
  genesisBlockCoinbaseTransaction : Transaction
  /-- `tick.to_lowercase().hex()`. -/
  lowerHex : Tick → TickKey
  /-- `Address::from_str`, displayed. -/
  canonicalAddress : Text → Option Text
  /-- `Chain::address_from_script`, displayed. -/
  addressFromScript : Script → Option Text
  /-- `ScriptKey::from_str` on the network of the chain. -/
  scriptKeyFromStr : Text → Option ScriptKey
  /-- `Height::subsidy`. -/
  subsidy : ℕ → ℕ
  /-- The hash of the file at `SUBSIDIES_PATH`, when it can be read. -/
  subsidyScheduleHash : Option ℕ

/-- The answers of the node. -/
structure Node where
  rawTransaction : Txid → Option Transaction
  confirmations : Txid → Option ℕ
  tip : Option ℕ

/-- One committed state of the index, as far as the inventories read it.  `HEIGHT_TO_BLOCK_HASH` has a row
for every height below the block count. -/
structure Committed (config : ServerConfig) where
  blockHashes : List BlockHash
  outpointToValue : KeyTable OutPoint ℕ
  addressToOutpoint : KeyTable Text (List OutPoint)
  satpointToId : KeyTable SatPoint InscriptionId
  outpointToDuneBalances : KeyTable OutPoint (List (ℕ × ℕ))
  transactions : KeyTable Txid Transaction
  ledger : Ledger
  numberToId : KeyTable ℕ InscriptionId
  idToEntry : KeyTable InscriptionId InscriptionEntry
  idToSatpoint : KeyTable InscriptionId SatPoint
  idToTxids : KeyTable InscriptionId (List Txid)
  txidToTx : KeyTable Txid Transaction
  /-- The dune updater writes only with `index_dunes`, from `first_dune_height` on. -/
  dunesFrom : ¬ (config.firstDuneHeight ≤ blockHashes.length ∧ config.indexDunes = true) →
    outpointToDuneBalances = ∅

/-! ### Read transactions -/

/-- The look-ups that open a read transaction. -/
inductive Lookup where
  | blockCount
  | blockHash (height : Option ℕ)
  | accountOutputs (address : Text)
  | inscriptionsOnOutput (outpoint : OutPoint)
  | duneBalances (outpoint : OutPoint)
  | transaction (txid : Txid)
  | tokensInfo
  | tokenInfo (tick : Tick)
  | tokenHolder (tick : Tick)
  | balance (script : ScriptKey) (tick : Tick)
  | latestInscriptions (n : ℕ) (start : Option ℕ)
  | inscriptionSatpoint (id : InscriptionId)
  | inscriptionBody (id : InscriptionId)
  | inscriptionEntry (id : InscriptionId)

abbrev Lookup.Reply : Lookup → Type
  | .blockCount => ℕ
  | .blockHash _ => Option BlockHash
  | .accountOutputs _ => List OutPoint
  | .inscriptionsOnOutput _ => List InscriptionId
  | .duneBalances _ => List (ℕ × ℕ)
  | .transaction _ => Option Transaction
  | .tokensInfo => List TokenInfo
  | .tokenInfo _ => Option TokenInfo
  | .tokenHolder _ => List ScriptKey
  | .balance _ _ => Option Balance
  | .latestInscriptions _ _ => List InscriptionId × Option ℕ × Option ℕ
  | .inscriptionSatpoint _ => Option SatPoint
  | .inscriptionBody _ => Option Inscription
  | .inscriptionEntry _ => Option InscriptionEntry

section Replies

variable {config : ServerConfig} (db : Committed config)

def Committed.blockHash : Option ℕ → Option BlockHash
  | some height => db.blockHashes[height]?
  | none => db.blockHashes.getLast?

/-- `Index::get_account_outputs`: rows of spent outputs are left out. -/
def Committed.accountOutputs (address : Text) : List OutPoint :=
  ((db.addressToOutpoint.lookup address).getD []).filter fun outpoint =>
    (db.outpointToValue.lookup outpoint).isSome

/-- `Index::get_inscriptions_on_output`. -/
def Committed.inscriptionsOnOutput (outpoint : OutPoint) : List InscriptionId :=
  (db.satpointToId.entries.filter fun row => decide (row.1.outpoint = outpoint)).map Sigma.snd

/-- The rows of `DRC20_TOKEN`, in the order of their keys. -/
def Committed.tokensInfo : List TokenInfo :=
  (db.ledger.tokenInfo.entries.insertionSort fun left right => left.1 ≤ right.1).map Sigma.snd

def Committed.tokenHolder (tick : Tick) : List ScriptKey :=
  (db.ledger.holderTexts (config.lowerHex tick)).filterMap config.scriptKeyFromStr

/-- `Index::get_latest_inscriptions_with_prev_and_next`. -/
def Committed.latestInscriptions (n : ℕ) (start : Option ℕ) :
    List InscriptionId × Option ℕ × Option ℕ :=
  match db.numberToId.keys.max? with
  | none => ([], none, none)
  | some latest =>
      let start := start.getD latest
      let prev :=
        if n ≤ start then if (db.numberToId.lookup (start - n)).isSome then some (start - n) else none
        else none
      let next :=
        if start < latest then some (min (if start + n < 2 ^ 64 then start + n else latest) latest)
        else none
      let numbers := ((db.numberToId.keys.filter fun number => decide (number ≤ start)).insertionSort
        fun left right => right ≤ left).take n
      (numbers.filterMap fun number => db.numberToId.lookup number, prev, next)

/-- The second read transaction of `Index::get_inscription_by_id`. -/
def Committed.inscriptionBody (id : InscriptionId) : Option Inscription := do
  let txids ← db.idToTxids.lookup id
  let txs ← txids.mapM fun txid => db.txidToTx.lookup txid
  match fromTransactions txs with
  | .complete inscription => some inscription
  | _ => none

/-- What a read transaction finds. -/
def Lookup.reply : (lookup : Lookup) → lookup.Reply
  | .blockCount => db.blockHashes.length
  | .blockHash height => db.blockHash height
  | .accountOutputs address => db.accountOutputs address
  | .inscriptionsOnOutput outpoint => db.inscriptionsOnOutput outpoint
  | .duneBalances outpoint => (db.outpointToDuneBalances.lookup outpoint).getD []
  | .transaction txid => db.transactions.lookup txid
  | .tokensInfo => db.tokensInfo
  | .tokenInfo tick => db.ledger.tokenInfo.lookup (config.lowerHex tick)
  | .tokenHolder tick => db.tokenHolder tick
  | .balance script tick => db.ledger.tokenBalance.lookup (script.render, config.lowerHex tick)
  | .latestInscriptions n start => db.latestInscriptions n start
  | .inscriptionSatpoint id => db.idToSatpoint.lookup id
  | .inscriptionBody id => db.inscriptionBody id
  | .inscriptionEntry id => db.idToEntry.lookup id

end Replies

/-! ### Handlers -/

/-- What is not found. -/
inductive Subject where
  | indexedChainTip
  | fundingTransaction (txid : Txid)
  | fundingOutput (outpoint : OutPoint)
  | token (tick : Tick)
  | inscription (id : InscriptionId)
  | delegate (id : InscriptionId)
deriving DecidableEq

inductive ServerError where
  | badRequest (message : String)
  /-- `Address::from_str`. -/
  | invalidAddress
  /-- `Tick::from_str`. -/
  | invalidTick (error : DRC20Error)
  /-- `SUBSIDIES_PATH` is not set or cannot be read. -/
  | subsidySchedule
  /-- `u32::try_from`. -/
  | outOfRange
  | notFound (subject : Subject)
deriving DecidableEq

abbrev Handler (α : Type) := ExceptT ServerError (ReadProgram Lookup Lookup.Reply) α

def look (lookup : Lookup) : Handler lookup.Reply := ReadProgram.query lookup

def orNotFound {α : Type} (subject : Subject) : Option α → Handler α
  | some value => pure value
  | none => throw (.notFound subject)

def refuseIf (condition : Bool) (error : ServerError) : Handler Unit :=
  if condition then throw error else pure ()

/-- A check made before the index is read. -/
def checked {α : Type} : Except String α → Handler α
  | .ok value => pure value
  | .error message => throw (.badRequest message)

def checkedInventoryLimit (limit : Option ℕ) : Except String ℕ :=
  let limit := limit.getD 250
  if 1 ≤ limit ∧ limit ≤ 1000 then .ok limit else .error "inventory limit must be between 1 and 1000"

def checkedFundingLimit (limit : Option ℕ) : Except String ℕ :=
  let limit := limit.getD 20
  if 1 ≤ limit ∧ limit ≤ 50 then .ok limit else .error "funding limit must be between 1 and 50"

/-- `checked_offset_cursor`: nineteen digits fit a `usize`. -/
def checkedOffsetCursor : Option Text → Except String ℕ
  | none => .ok 0
  | some cursor =>
      if cursor.isEmpty ∨ 19 < cursor.length ∨ ¬ cursor.all Char.isDigit then
        .error "cursor must be a decimal offset"
      else .ok (cursor.foldl (fun value c => 10 * value + (c.toNat - 48)) 0)

def drc20IndexAbsent : String :=
  "this index was created without --index-drc20 and cannot serve DRC-20 state; the flag is fixed at database creation and requires a rebuild"

def transactionIndexAbsent : String :=
  "this index was created without --index-transactions and cannot serve funding proofs; the flag is fixed at database creation and requires a rebuild"

/-- The block count and the hash of the last block, in two read transactions. -/
def chainTip : Handler (ℕ × BlockHash) := do
  let blockCount ← look .blockCount
  let blockHash ← look (.blockHash (if blockCount = 0 then none else some (blockCount - 1)))
  let blockHash ← orNotFound .indexedChainTip blockHash
  return (blockCount, blockHash)

section Handlers

variable (config : ServerConfig) (node : Node)

def getDuneBalancesForOutpoint (outpoint : OutPoint) : Handler (List (ℕ × ℕ)) := do
  let blockCount ← look .blockCount
  if config.firstDuneHeight ≤ blockCount ∧ config.indexDunes then look (.duneBalances outpoint)
  else pure []

def getTransaction (txid : Txid) : Handler (Option Transaction) := do
  if txid = config.genesisBlockCoinbaseTransaction.txid then
    pure (some config.genesisBlockCoinbaseTransaction)
  else if config.indexTransactions then
    let found ← look (.transaction txid)
    return found.or (node.rawTransaction txid)
  else pure (node.rawTransaction txid)

structure FundingInventoryItem where
  outpoint : OutPoint
  valueSats : ℕ
  scriptPubkey : Script
  rawPreviousTransaction : Transaction
  confirmations : ℕ
deriving DecidableEq

structure FundingInventory where
  blockCount : ℕ
  blockHash : BlockHash
  address : Text
  inventoryComplete : Bool
  totalCount : ℕ
  truncated : Bool
  inputs : List FundingInventoryItem
deriving DecidableEq

/-- An output that carries neither an inscription nor a dune; dunes are only looked up on outputs without
inscriptions. -/
def plainOutput (outpoint : OutPoint) : Handler Bool := do
  let inscriptions ← look (.inscriptionsOnOutput outpoint)
  if inscriptions.isEmpty then
    let balances ← getDuneBalancesForOutpoint config outpoint
    return balances.isEmpty
  else pure false

/-- One round of the loop over the outputs of the account. -/
def fundingCandidate (address : Text) (outpoint : OutPoint) : Handler (Option FundingInventoryItem) := do
  if ← plainOutput config outpoint then
    let transaction ← getTransaction config node outpoint.txid
    let transaction ← orNotFound (.fundingTransaction outpoint.txid) transaction
    let output ← orNotFound (.fundingOutput outpoint) transaction.output[outpoint.vout]?
    let confirmations := (node.confirmations outpoint.txid).getD 0
    if config.addressFromScript output.scriptPubkey ≠ some address ∨ confirmations = 0 then pure none
    else
      return some {
        outpoint := outpoint
        valueSats := output.value
        scriptPubkey := output.scriptPubkey
        rawPreviousTransaction := transaction
        confirmations := confirmations }
  else pure none

def fundingCandidates (address : Text) : List OutPoint → Handler (List FundingInventoryItem)
  | [] => pure []
  | outpoint :: outpoints => do
      let candidate ← fundingCandidate config node address outpoint
      let candidates ← fundingCandidates address outpoints
      return candidate.toList ++ candidates

/-- The order of the candidates: the largest value first, then by transaction and output. -/
def FundingInventoryItem.before (left right : FundingInventoryItem) : Bool :=
  if left.valueSats ≠ right.valueSats then right.valueSats < left.valueSats
  else if left.outpoint.txid ≠ right.outpoint.txid then left.outpoint.txid < right.outpoint.txid
  else left.outpoint.vout ≤ right.outpoint.vout

def fundingInventoryComplete (tip : Option ℕ) (blockCount : ℕ) : Bool :=
  match tip with
  | some tip => tip - (blockCount - 1) ≤ 3
  | none => false

def fundingInventory (address : Text) (limit : Option ℕ) : Handler FundingInventory := do
  match config.canonicalAddress address with
  | none => throw .invalidAddress
  | some canonical =>
      refuseIf (canonical ≠ address)
        (.badRequest "funding address must use its canonical encoding")
      let limit ← checked (checkedFundingLimit limit)
      refuseIf (!config.indexTransactions) (.badRequest transactionIndexAbsent)
      let (blockCount, blockHash) ← chainTip
      let outpoints ← look (.accountOutputs canonical)
      let candidates ← fundingCandidates config node canonical outpoints
      return {
        blockCount := blockCount
        blockHash := blockHash
        address := canonical
        inventoryComplete := fundingInventoryComplete node.tip blockCount
        totalCount := candidates.length
        truncated := limit < candidates.length
        inputs := (candidates.insertionSort fun left right => left.before right = true).take limit }

structure Drc20TokenInventoryItem where
  info : TokenInfo
  remainingAtomic : ℕ
  holderCount : ℕ
  complete : Bool
deriving DecidableEq

structure Drc20TokenInventory where
  blockCount : ℕ
  blockHash : BlockHash
  totalCount : ℕ
  nextCursor : Option ℕ
  tokens : List Drc20TokenInventoryItem
deriving DecidableEq

/-- The DRC-20 look-ups read the block count in a read transaction of their own; below the first
inscription height they find nothing. -/
def getDrc20 (lookup : Lookup) (nothing : lookup.Reply) : Handler lookup.Reply := do
  let blockCount ← look .blockCount
  if config.firstInscriptionHeight ≤ blockCount then look lookup else pure nothing

def tokenItems : List TokenInfo → Handler (List Drc20TokenInventoryItem)
  | [] => pure []
  | info :: infos => do
      let holders ← getDrc20 config (.tokenHolder info.tick) []
      refuseIf (2 ^ 32 ≤ info.deployedNumber) .outOfRange
      let items ← tokenItems infos
      return {
        info := info
        remainingAtomic := info.supply - info.minted
        holderCount := holders.length
        complete := info.supply ≤ info.minted } :: items

/-- `Server::drc20_token_inventory`. -/
def drc20TokenInventory (cursor : Option Text) (limit : Option ℕ) : Handler Drc20TokenInventory := do
  let limit ← checked (checkedInventoryLimit limit)
  let offset ← checked (checkedOffsetCursor cursor)
  refuseIf (!config.indexDrc20) (.badRequest drc20IndexAbsent)
  let (blockCount, blockHash) ← chainTip
  let catalog ← getDrc20 config .tokensInfo []
  let catalog := catalog.insertionSort fun left right => left.tick.chars ≤ right.tick.chars
  let tokens ← tokenItems config ((catalog.drop offset).take limit)
  let next := offset + tokens.length
  return {
    blockCount := blockCount
    blockHash := blockHash
    totalCount := catalog.length
    nextCursor := if next < catalog.length then some next else none
    tokens := tokens }

structure Drc20HolderInventoryItem where
  address : Text
  overallAtomic : ℕ
  transferableAtomic : ℕ
  availableAtomic : ℕ
deriving DecidableEq

structure Drc20HolderInventory where
  blockCount : ℕ
  blockHash : BlockHash
  ticker : Tick
  totalCount : ℕ
  nextCursor : Option ℕ
  holders : List Drc20HolderInventoryItem
deriving DecidableEq

def holderItems (tick : Tick) : List ScriptKey → Handler (List Drc20HolderInventoryItem)
  | [] => pure []
  | key :: keys => do
      let balance ← getDrc20 config (.balance key tick) none
      let items ← holderItems tick keys
      match balance with
      | none => return items
      | some balance =>
          return {
            address := key.render
            overallAtomic := balance.overallBalance
            transferableAtomic := balance.transferableBalance
            availableAtomic := balance.overallBalance - balance.transferableBalance } :: items

/-- `Server::drc20_holder_inventory`. -/
def drc20HolderInventory (tick : Text) (cursor : Option Text) (limit : Option ℕ) :
    Handler Drc20HolderInventory := do
  let limit ← checked (checkedInventoryLimit limit)
  let offset ← checked (checkedOffsetCursor cursor)
  refuseIf (!config.indexDrc20) (.badRequest drc20IndexAbsent)
  match Tick.parse tick with
  | .error error => throw (.invalidTick error)
  | .ok tick =>
      let info ← getDrc20 config (.tokenInfo tick) none
      let _ ← orNotFound (.token tick) info
      let (blockCount, blockHash) ← chainTip
      let keys ← getDrc20 config (.tokenHolder tick) []
      let keys := keys.insertionSort fun left right => left.render ≤ right.render
      let holders ← holderItems config tick ((keys.drop offset).take limit)
      let next := offset + min limit (keys.length - offset)
      return {
        blockCount := blockCount
        blockHash := blockHash
        ticker := tick
        totalCount := keys.length
        nextCursor := if next < keys.length then some next else none
        holders := holders }

structure InventoryLocation where
  satpoint : SatPoint
  output : TxOut
  address : Option Text
deriving DecidableEq

structure InscriptionInventoryItem where
  inscriptionId : InscriptionId
  inscriptionNumber : ℕ
  genesisHeight : ℕ
  timestamp : ℕ
  contentType : Option Bytes
  contentLength : Option ℕ
  subsidySats : ℕ
  location : Option InventoryLocation
deriving DecidableEq

structure InscriptionInventory where
  blockCount : ℕ
  blockHash : BlockHash
  subsidyScheduleHash : ℕ
  nextCursor : Option ℕ
  inscriptions : List InscriptionInventoryItem
deriving DecidableEq

/-- `Index::get_inscription_by_id`: the location and the body in two read transactions. -/
def getInscriptionById (id : InscriptionId) : Handler (Option Inscription) := do
  let satpoint ← look (.inscriptionSatpoint id)
  match satpoint with
  | none => pure none
  | some _ => look (.inscriptionBody id)

def resolvedDelegate (id : InscriptionId) (inscription : Inscription) : Handler (Option Inscription) :=
  match inscription.delegateId with
  | none => pure none
  | some delegate => do
      let found ← getInscriptionById delegate
      some <$> orNotFound (.delegate id) found

def inventoryLocation (satpoint : SatPoint) : Handler (Option InventoryLocation) :=
  if satpoint.outpoint = OutPoint.null then pure none
  else do
    let transaction ← getTransaction config node satpoint.outpoint.txid
    return (transaction.bind fun tx => tx.output[satpoint.outpoint.vout]?).map fun output =>
      { satpoint := satpoint, output := output, address := config.addressFromScript output.scriptPubkey }

def inscriptionItem (id : InscriptionId) : Handler InscriptionInventoryItem := do
  let inscription ← getInscriptionById id
  let inscription ← orNotFound (.inscription id) inscription
  let entry ← look (.inscriptionEntry id)
  let entry ← orNotFound (.inscription id) entry
  let satpoint ← look (.inscriptionSatpoint id)
  let satpoint ← orNotFound (.inscription id) satpoint
  let delegate ← resolvedDelegate id inscription
  let content := delegate.getD inscription
  let location ← inventoryLocation config node satpoint
  return {
    inscriptionId := id
    inscriptionNumber := entry.inscriptionNumber
    genesisHeight := entry.height
    timestamp := entry.timestamp
    contentType := content.contentType.filter validUtf8
    contentLength := content.body.map List.length
    subsidySats := config.subsidy entry.height
    location := location }

def inscriptionItems : List InscriptionId → Handler (List InscriptionInventoryItem)
  | [] => pure []
  | id :: ids => do
      let item ← inscriptionItem config node id
      let items ← inscriptionItems ids
      return item :: items

def inscriptionInventory (cursor limit : Option ℕ) : Handler InscriptionInventory := do
  let limit ← checked (checkedInventoryLimit limit)
  let (blockCount, blockHash) ← chainTip
  match config.subsidyScheduleHash with
  | none => throw .subsidySchedule
  | some subsidyScheduleHash =>
      let latest ← look (.latestInscriptions limit cursor)
      let (ids, nextCursor, _) := latest
      let inscriptions ← inscriptionItems config node ids
      return {
        blockCount := blockCount
        blockHash := blockHash
        subsidyScheduleHash := subsidyScheduleHash
        nextCursor := nextCursor
        inscriptions := inscriptions }

/-! ### Requests -/

inductive Request where
  | funding (address : Text) (limit : Option ℕ)
  | drc20Tokens (cursor : Option Text) (limit : Option ℕ)
  | drc20Holders (tick : Text) (cursor : Option Text) (limit : Option ℕ)
  | inscriptions (cursor limit : Option ℕ)

inductive Inventory where
  | funding (inventory : FundingInventory)
  | drc20Tokens (inventory : Drc20TokenInventory)
  | drc20Holders (inventory : Drc20HolderInventory)
  | inscriptions (inventory : InscriptionInventory)
deriving DecidableEq

/-- The checkpoint an answer is stamped with. -/
def Inventory.checkpoint : Inventory → ℕ × BlockHash
  | .funding inventory => (inventory.blockCount, inventory.blockHash)
  | .drc20Tokens inventory => (inventory.blockCount, inventory.blockHash)
  | .drc20Holders inventory => (inventory.blockCount, inventory.blockHash)
  | .inscriptions inventory => (inventory.blockCount, inventory.blockHash)

def handle : Request → Handler Inventory
  | .funding address limit => .funding <$> fundingInventory config node address limit
  | .drc20Tokens cursor limit => .drc20Tokens <$> drc20TokenInventory config cursor limit
  | .drc20Holders tick cursor limit => .drc20Holders <$> drc20HolderInventory config tick cursor limit
  | .inscriptions cursor limit => .inscriptions <$> inscriptionInventory config node cursor limit

end Handlers

end OrdDogecoin.Server
