/-
Module: OrdDogecoin.Drc20.Ledger
Purpose: The DRC-20 ledger: its tables, the four message handlers and the record of decisions.  A
  handler is a procedure, since a rejection raised after a write leaves that write in the table.
  Rows are keyed as in the source by the rendered script, the hex of the lower-cased tick and the
  inscription id; the fixed-width key texts are kept as tuples.
Trusted boundary: `BigDecimal::from_str` and `str::to_lowercase` are parameters (`Env`); redb
  tables are finite maps and do not fail
Main exports: Ledger, processTransfer, executeMessage
-/
import OrdDogecoin.Chain.Transaction
import OrdDogecoin.Drc20.Num
import OrdDogecoin.Lib.KeyTable
import OrdDogecoin.Lib.Procedure
import Mathlib.Data.Finset.Basic

namespace OrdDogecoin.Drc20

open Chain

/-! ### Values -/

/-- `Tick`: a text of exactly four UTF-8 bytes. -/
structure Tick where
  chars : Text
  byteCount : (chars.map Char.utf8Size).sum = 4
deriving DecidableEq

/-- The hex of a lower-cased tick, padded to sixteen bytes: the identity of a token. -/
abbrev TickKey := Text

/-- `ScriptKey`: an address, as its text and network, or a script hash, as its hex. -/
inductive ScriptKey where
  | address (text : Text) (network : ℕ)
  | scriptHash (hex : Text)
deriving DecidableEq, Repr

/-- `Display for ScriptKey`. -/
def ScriptKey.render : ScriptKey → Text
  | .address text _ => text
  | .scriptHash hex => hex

/-- Why a message is rejected. -/
inductive DRC20Error where
  | num (error : NumError)
  | invalidSupply (supply : Num)
  | duplicateTick (tick : Tick)
  | tickNotFound (tick : Tick)
  | invalidTickLen (text : Text)
  | decimalsTooLarge (decimals : ℕ)
  | tickMinted (tick : Tick)
  | mintLimitOutOfRange (tick : Tick) (limit : Num)
  | invalidZeroAmount
  | amountOverflow (amount : Num)
  | insufficientBalance (available amount : Num)
  | amountExceedLimit (amount : Num)
  | transferableNotFound (id : InscriptionId)
  | inscribeToCoinbase
  | transferableOwnerNotMatch (id : InscriptionId)
deriving DecidableEq

/-- `Tick::from_str`. -/
def Tick.parse (text : Text) : Except DRC20Error Tick :=
  if h : (text.map Char.utf8Size).sum = 4 then .ok ⟨text, h⟩ else .error (.invalidTickLen text)

/-- A deploy as inscribed: the numbers are still texts. -/
structure Deploy where
  tick : Text
  maxSupply : Text
  mintLimit : Option Text
  decimals : Option Text
deriving DecidableEq, Repr

structure Mint where
  tick : Text
  amount : Text
deriving DecidableEq, Repr

structure Transfer where
  tick : Text
  amount : Text
deriving DecidableEq, Repr

/-- `Operation`: `transfer` moves what an `inscribeTransfer` has set aside. -/
inductive Operation where
  | deploy (deploy : Deploy)
  | mint (mint : Mint)
  | inscribeTransfer (transfer : Transfer)
  | transfer (transfer : Transfer)
deriving DecidableEq, Repr

/-- `ExecutionMessage`, with the fields the handlers read. -/
structure ExecutionMessage where
  txid : Txid
  inscriptionId : InscriptionId
  inscriptionNumber : ℕ
  newSatpoint : SatPoint
  fromKey : ScriptKey
  toKey : Option ScriptKey
  op : Operation
deriving DecidableEq, Repr

structure BlockContext where
  blockheight : ℕ
  blockhash : BlockHash
  blocktime : ℕ
  reorgEpoch : ℕ
deriving DecidableEq, Repr

/-- `TokenInfo`; amounts count the smallest unit. -/
structure TokenInfo where
  tick : Tick
  inscriptionId : InscriptionId
  inscriptionNumber : ℕ
  supply : ℕ
  minted : ℕ
  limitPerMint : ℕ
  decimal : ℕ
  deployBy : ScriptKey
  deployedNumber : ℕ
  deployedTimestamp : ℕ
  latestMintNumber : ℕ
deriving DecidableEq

/-- What a script holds of a token, of which a part is set aside for transfers. -/
structure Balance where
  tick : Tick
  overallBalance : ℕ
  transferableBalance : ℕ
deriving DecidableEq

def Balance.new (tick : Tick) : Balance :=
  { tick := tick, overallBalance := 0, transferableBalance := 0 }

/-- An amount set aside, until its inscription moves. -/
structure TransferableLog where
  inscriptionId : InscriptionId
  inscriptionNumber : ℕ
  amount : ℕ
  tick : Tick
  owner : ScriptKey
deriving DecidableEq

structure TransferInfo where
  tick : Tick
  amt : ℕ
deriving DecidableEq

inductive Event where
  | deploy (supply limitPerMint decimal : ℕ) (tick : Tick) (deployedBy : ScriptKey) (vout : ℕ)
  | mint (toKey : ScriptKey) (tick : Tick) (amount : ℕ) (cutOff : Option (Num × Num)) (vout : ℕ)
  | inscribeTransfer (toKey : ScriptKey) (tick : Tick) (amount : ℕ) (vout : ℕ)
  | transfer (fromKey toKey : ScriptKey) (tick : Tick) (amount : ℕ) (vout : ℕ)
deriving DecidableEq

def Event.amount : Event → Option ℕ
  | .deploy .. => none
  | .mint _ _ amount _ _ => some amount
  | .inscribeTransfer _ _ amount _ => some amount
  | .transfer _ _ _ amount _ => some amount

inductive Verdict where
  | accepted
  | rejected
deriving DecidableEq, Repr

inductive OperationType where
  | deploy
  | mint
  | inscribeTransfer
  | transfer
deriving DecidableEq, Repr

/-- What the updater notes of a message, accepted or not. -/
structure OperationDecision where
  txid : Txid
  inscriptionId : InscriptionId
  operation : OperationType
  tick : Text
  amount : Option ℕ
  verdict : Verdict
  reason : Option DRC20Error
  height : ℕ
  blockHash : BlockHash
  reorgEpoch : ℕ
deriving DecidableEq

/-! ### Tables -/

/-- The library functions the handlers call. -/
structure Env where
  /-- `BigDecimal::from_str` on unsigned decimal text. -/
  parseUnsigned : Text → Option Num
  /-- `tick.to_lowercase().hex()`. -/
  lowerHex : Tick → TickKey

/-- The tables of the updater. -/
structure Ledger where
  tokenInfo : KeyTable TickKey TokenInfo
  tokenHolder : Finset (TickKey × Text)
  tokenBalance : KeyTable (Text × TickKey) Balance
  inscribeTransfer : KeyTable InscriptionId TransferInfo
  transferableLog : KeyTable (Text × TickKey × InscriptionId) TransferableLog
  operationDecisions : KeyTable (Txid × InscriptionId) OperationDecision

def Ledger.empty : Ledger where
  tokenInfo := ∅
  tokenHolder := ∅
  tokenBalance := ∅
  inscribeTransfer := ∅
  transferableLog := ∅
  operationDecisions := ∅

namespace Ledger

variable (env : Env) (ledger : Ledger)

def getTokenInfo (tick : Tick) : Option TokenInfo := ledger.tokenInfo.lookup (env.lowerHex tick)

def insertTokenInfo (tick : Tick) (info : TokenInfo) : Ledger :=
  { ledger with tokenInfo := ledger.tokenInfo.insert (env.lowerHex tick) info }

/-- `update_mint_token_info`; the handlers only call it for a token that exists. -/
def updateMintTokenInfo (tick : Tick) (minted blockNumber : ℕ) : Ledger :=
  match ledger.getTokenInfo env tick with
  | none => ledger
  | some info =>
      ledger.insertTokenInfo env tick { info with minted := minted, latestMintNumber := blockNumber }

def getBalance (script : ScriptKey) (tick : Tick) : Option Balance :=
  ledger.tokenBalance.lookup (script.render, env.lowerHex tick)

/-- `update_token_balance`: the row is keyed by the tick inside the balance. -/
def updateTokenBalance (script : ScriptKey) (balance : Balance) : Ledger :=
  { ledger with
    tokenBalance := ledger.tokenBalance.insert (script.render, env.lowerHex balance.tick) balance }

def insertTokenHolder (script : ScriptKey) (tick : Tick) : Ledger :=
  { ledger with tokenHolder := insert (env.lowerHex tick, script.render) ledger.tokenHolder }

def removeTokenHolder (script : ScriptKey) (tick : Tick) : Ledger :=
  { ledger with tokenHolder := ledger.tokenHolder.erase (env.lowerHex tick, script.render) }

def insertTransferable (script : ScriptKey) (tick : Tick) (log : TransferableLog) : Ledger :=
  { ledger with
    transferableLog := ledger.transferableLog.insert
      (script.render, env.lowerHex tick, log.inscriptionId) log }

def removeTransferable (script : ScriptKey) (tick : Tick) (id : InscriptionId) : Ledger :=
  { ledger with
    transferableLog := ledger.transferableLog.erase (script.render, env.lowerHex tick, id) }

/-- `get_transferable`: the key range of one script. -/
def getTransferable (script : ScriptKey) : List TransferableLog :=
  (ledger.transferableLog.entries.filter fun row => row.1.1 = script.render).map fun row => row.2

def getTransferableById (script : ScriptKey) (id : InscriptionId) : Option TransferableLog :=
  (ledger.getTransferable script).find? fun log => log.inscriptionId = id

def insertInscribeTransferInscription (id : InscriptionId) (info : TransferInfo) : Ledger :=
  { ledger with inscribeTransfer := ledger.inscribeTransfer.insert id info }

def removeInscribeTransferInscription (id : InscriptionId) : Ledger :=
  { ledger with inscribeTransfer := ledger.inscribeTransfer.erase id }

end Ledger

/-! ### Handlers -/

/-- A handler: it returns an event or rejects, over the tables written so far. -/
abbrev Handler (α : Type) := Proc DRC20Error Ledger α

/-- A step on numbers inside a handler. -/
def ofNum {α : Type} (value : Except NumError α) : Handler α :=
  Proc.ofExcept (value.mapError DRC20Error.num)

section Handlers

variable (env : Env)

/-- The first deploy of a tick makes its token. -/
def processDeploy (context : BlockContext) (msg : ExecutionMessage) (deploy : Deploy) :
    Handler Event := do
  let toScriptKey ← Proc.orExit msg.toKey .inscribeToCoinbase
  let tick ← Proc.ofExcept (Tick.parse deploy.tick)
  let stored ← Proc.read fun ledger => ledger.getTokenInfo env tick
  Proc.exitIf stored.isSome (.duplicateTick ((stored.map TokenInfo.tick).getD tick))
  let decimals ← ofNum (Num.fromStr env.parseUnsigned (deploy.decimals.getD ['1', '8']))
  let dec ← ofNum decimals.checkedToU8
  Proc.exitIf (Num.maxDecimalWidth < dec) (.decimalsTooLarge dec)
  let base := Num.tenPow dec
  let supply ← ofNum (Num.fromStr env.parseUnsigned deploy.maxSupply)
  Proc.exitIf (supply.isZero || Num.maximumSupply.lt supply) (.invalidSupply supply)
  let limit ← ofNum (Num.fromStr env.parseUnsigned (deploy.mintLimit.getD deploy.maxSupply))
  Proc.exitIf (limit.isZero || Num.maximumSupply.lt limit)
    (.mintLimitOutOfRange tick limit)
  let supply ← ofNum (supply.checkedMul base).checkedToU128
  let limit ← ofNum (limit.checkedMul base).checkedToU128
  Proc.write fun ledger => ledger.insertTokenInfo env tick
    { tick := tick
      inscriptionId := msg.inscriptionId
      inscriptionNumber := msg.inscriptionNumber
      supply := supply
      minted := 0
      limitPerMint := limit
      decimal := dec
      deployBy := toScriptKey
      deployedNumber := context.blockheight
      deployedTimestamp := context.blocktime
      latestMintNumber := context.blockheight }
  return .deploy supply limit dec tick toScriptKey msg.newSatpoint.outpoint.vout

/-- The amount credited by a mint: cut off to what is left of the supply. -/
def cutOff (amt minted supply : Num) : Except NumError Num :=
  if supply.lt (amt.checkedAdd minted) then supply.checkedSub minted else .ok amt

/-- A mint past the supply is cut off, one past the limit rejected. -/
def processMint (context : BlockContext) (msg : ExecutionMessage) (mint : Mint) :
    Handler Event := do
  let toScriptKey ← Proc.orExit msg.toKey .inscribeToCoinbase
  let tick ← Proc.ofExcept (Tick.parse mint.tick)
  let found ← Proc.read fun ledger => ledger.getTokenInfo env tick
  let tokenInfo ← Proc.orExit found (.tickNotFound tick)
  let base := Num.tenPow tokenInfo.decimal
  let amt ← ofNum (Num.fromStr env.parseUnsigned mint.amount)
  Proc.exitIf (tokenInfo.decimal < amt.scale) (.amountOverflow amt)
  let requested := amt.checkedMul base
  Proc.exitIf requested.isZero .invalidZeroAmount
  Proc.exitIf ((Num.ofNat tokenInfo.limitPerMint).lt requested) (.amountExceedLimit requested)
  let minted := Num.ofNat tokenInfo.minted
  let supply := Num.ofNat tokenInfo.supply
  Proc.exitIf (!minted.lt supply) (.tickMinted tokenInfo.tick)
  let amt ← ofNum (cutOff requested minted supply)
  let stored ← Proc.read fun ledger => ledger.getBalance env toScriptKey tick
  let balance := stored.getD (Balance.new tick)
  let overall ← ofNum ((Num.ofNat balance.overallBalance).checkedAdd amt).checkedToU128
  Proc.write fun ledger => ledger.updateTokenBalance env toScriptKey
    { balance with overallBalance := overall }
  Proc.write fun ledger => ledger.insertTokenHolder env toScriptKey tick
  let newMinted ← ofNum (minted.checkedAdd amt).checkedToU128
  Proc.write fun ledger => ledger.updateMintTokenInfo env tick newMinted context.blockheight
  let amount ← ofNum amt.checkedToU128
  return .mint toScriptKey tokenInfo.tick amount
    (if supply.lt (requested.checkedAdd minted) then some (requested, amt) else none)
    msg.newSatpoint.outpoint.vout

/-- An inscribed transfer sets a part of the balance aside. -/
def processInscribeTransfer (msg : ExecutionMessage) (transfer : Transfer) : Handler Event := do
  let toScriptKey ← Proc.orExit msg.toKey .inscribeToCoinbase
  let tick ← Proc.ofExcept (Tick.parse transfer.tick)
  let found ← Proc.read fun ledger => ledger.getTokenInfo env tick
  let tokenInfo ← Proc.orExit found (.tickNotFound tick)
  let base := Num.tenPow tokenInfo.decimal
  let amt ← ofNum (Num.fromStr env.parseUnsigned transfer.amount)
  Proc.exitIf (tokenInfo.decimal < amt.scale) (.amountOverflow amt)
  let amt := amt.checkedMul base
  Proc.exitIf (amt.isZero || (Num.ofNat tokenInfo.supply).lt amt) (.amountOverflow amt)
  let stored ← Proc.read fun ledger => ledger.getBalance env toScriptKey tick
  let balance := stored.getD (Balance.new tick)
  let overall := Num.ofNat balance.overallBalance
  let transferable := Num.ofNat balance.transferableBalance
  let available ← ofNum (overall.checkedSub transferable)
  Proc.exitIf (available.lt amt) (.insufficientBalance available amt)
  let newTransferable ← ofNum (transferable.checkedAdd amt).checkedToU128
  let amount ← ofNum amt.checkedToU128
  Proc.write fun ledger => ledger.updateTokenBalance env toScriptKey
    { balance with transferableBalance := newTransferable }
  Proc.write fun ledger => ledger.insertTransferable env toScriptKey tick
    { inscriptionId := msg.inscriptionId
      inscriptionNumber := msg.inscriptionNumber
      amount := amount
      tick := tokenInfo.tick
      owner := toScriptKey }
  Proc.write fun ledger => ledger.insertInscribeTransferInscription msg.inscriptionId
    { tick := tokenInfo.tick, amt := amount }
  return .inscribeTransfer toScriptKey tokenInfo.tick amount msg.newSatpoint.outpoint.vout

/-- The second half of `process_transfer`: credit the receiver, then drop the log and its record.  A
transfer to the coinbase goes back to the sender. -/
def creditTransfer (msg : ExecutionMessage) (transferable : TransferableLog) (tokenInfo : TokenInfo)
    (fromOverall : ℕ) : Handler Event := do
  let amt := Num.ofNat transferable.amount
  let tick := transferable.tick
  let toScriptKey := msg.toKey.getD msg.fromKey
  let toStored ← Proc.read fun ledger => ledger.getBalance env toScriptKey tick
  let toBalance := toStored.getD (Balance.new tick)
  let toOverall ← ofNum ((Num.ofNat toBalance.overallBalance).checkedAdd amt).checkedToU128
  Proc.write fun ledger => ledger.updateTokenBalance env toScriptKey
    { toBalance with overallBalance := toOverall }
  Proc.write fun ledger => ledger.insertTokenHolder env toScriptKey tick
  Proc.write fun ledger =>
    if fromOverall = 0 ∧ msg.fromKey ≠ toScriptKey then ledger.removeTokenHolder env msg.fromKey tick
    else ledger
  Proc.write fun ledger => ledger.removeTransferable env msg.fromKey tick msg.inscriptionId
  Proc.write fun ledger => ledger.removeInscribeTransferInscription msg.inscriptionId
  let amount ← ofNum amt.checkedToU128
  return .transfer msg.fromKey toScriptKey tokenInfo.tick amount msg.newSatpoint.outpoint.vout

/-- The first half of `process_transfer`: debit the sender. -/
def processTransfer (msg : ExecutionMessage) : Handler Event := do
  let stored ← Proc.read fun ledger => ledger.getTransferableById msg.fromKey msg.inscriptionId
  let transferable ← Proc.orExit stored (.transferableNotFound msg.inscriptionId)
  let amt := Num.ofNat transferable.amount
  Proc.exitIf (transferable.owner.render ≠ msg.fromKey.render)
    (.transferableOwnerNotMatch msg.inscriptionId)
  let tick := transferable.tick
  let found ← Proc.read fun ledger => ledger.getTokenInfo env tick
  let tokenInfo ← Proc.orExit found (.tickNotFound tick)
  let fromStored ← Proc.read fun ledger => ledger.getBalance env msg.fromKey tick
  let fromBalance := fromStored.getD (Balance.new tick)
  let fromRest ← ofNum ((Num.ofNat fromBalance.overallBalance).checkedSub amt)
  let fromOverall ← ofNum fromRest.checkedToU128
  let fromTransferableRest ← ofNum ((Num.ofNat fromBalance.transferableBalance).checkedSub amt)
  let fromTransferable ← ofNum fromTransferableRest.checkedToU128
  Proc.write fun ledger => ledger.updateTokenBalance env msg.fromKey
    { fromBalance with overallBalance := fromOverall, transferableBalance := fromTransferable }
  creditTransfer env msg transferable tokenInfo fromOverall

def processMessage (context : BlockContext) (msg : ExecutionMessage) : Handler Event :=
  match msg.op with
  | .deploy deploy => processDeploy env context msg deploy
  | .mint mint => processMint env context msg mint
  | .inscribeTransfer transfer => processInscribeTransfer env msg transfer
  | .transfer _ => processTransfer env msg

/-- The kind and the tick of an operation, for its decision. -/
def Operation.label : Operation → OperationType × Text
  | .deploy payload => (.deploy, payload.tick)
  | .mint payload => (.mint, payload.tick)
  | .inscribeTransfer payload => (.inscribeTransfer, payload.tick)
  | .transfer payload => (.transfer, payload.tick)

def decision (context : BlockContext) (msg : ExecutionMessage) (result : Except DRC20Error Event) :
    OperationDecision where
  txid := msg.txid
  inscriptionId := msg.inscriptionId
  operation := msg.op.label.1
  tick := msg.op.label.2
  amount := match result with
    | .ok event => event.amount
    | .error _ => none
  verdict := match result with
    | .ok _ => .accepted
    | .error _ => .rejected
  reason := match result with
    | .ok _ => none
    | .error error => some error
  height := context.blockheight
  blockHash := context.blockhash
  reorgEpoch := context.reorgEpoch

/-- `execute_message`: run the handler and record the decision. -/
def executeMessage (context : BlockContext) (msg : ExecutionMessage) (ledger : Ledger) : Ledger :=
  let (result, after) := (processMessage env context msg).result ledger
  { after with
    operationDecisions := after.operationDecisions.insert (msg.txid, msg.inscriptionId)
      (decision context msg result) }

def executeMessages (messages : List (BlockContext × ExecutionMessage)) (ledger : Ledger) : Ledger :=
  messages.foldl (fun ledger message => executeMessage env message.1 message.2 ledger) ledger

end Handlers

end OrdDogecoin.Drc20
