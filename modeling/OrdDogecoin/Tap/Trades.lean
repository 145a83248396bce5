/-
Module: OrdDogecoin.Tap.Trades
Purpose: The TAP trade handlers: the accumulator of a trade inscription, the offers of side 0, and
  the fill of side 1 with its fee.
Trusted boundary: log rows, which no token handler reads back, are not kept
Main exports: indexTokenTradeCreated, applyFill, indexTokenTradeExecuted
-/
import OrdDogecoin.Tap.Tokens

namespace OrdDogecoin.Tap

open Chain TapHandler

section Handlers

variable (env : TapEnv) (context : TapContext)

/-! ### Creation -/

def validateTradeAcceptTickerLen (tick : Text) : Bool :=
  validTapTickerVisibleLen env context (env.visibleLength (stripPrefixForLenCheck env tick))

def offerFieldsValid (json : Json) : Bool :=
  match (json.get "accept").bind Json.asArray with
  | none => false
  | some accepts =>
      !accepts.isEmpty && (json.get "valid").isSome &&
        accepts.all fun item =>
          ((item.get "tick").bind Json.asStr).any (validateTradeAcceptTickerLen env context)

/-- The fields that a fill must have, with the fee receiver normalised. -/
def fillFields (json : Json) : Option Json :=
  if (json.get "trade").isNone || (json.get "amt").isNone then none
  else
    match json.get "fee_rcv" with
    | none => some json
    | some (.string receiver) =>
        let normalized := normalizeAddress env receiver
        if isValidBitcoinAddress env context normalized then
          some (json.set "fee_rcv" (.string normalized))
        else none
    | some _ => none

def indexTokenTradeCreated (created : Created) : TapHandler Unit := do
  let json ← get (createdJson env context created)
  let side := (json.get "side").bind jsParseInt
  require (env.toLowercase (json.text "p") = "tap".toList &&
    env.toLowercase (json.text "op") = "token-trade".toList)
  require (side = some 0 || side = some 1)
  require (!tapIsDmtRewardAddress env context created.ownerAddress)
  if side = some 0 ∧ (json.get "trade").isSome then
    require (0 ≤ created.inscriptionNumber || !featureEnabled env context .jubilee)
    Proc.write (putAccumulator created "token-trade" json)
  else
    let tick ← get ((json.get "tick").bind Json.asStr)
    require (!(['-'].isPrefixOf (env.jsToLowercase tick)) || featureEnabled env context .jubilee)
    require (validTransferTickerVisibleLen env context tick (env.visibleLength tick))
    require (side ≠ some 0 || offerFieldsValid env context json)
    let json ← get (if side = some 0 then some json else fillFields env context json)
    -- a negative number does not stop a trade; it only marks the ticker before the jubilee
    let json :=
      if created.inscriptionNumber < 0 && !featureEnabled env context .jubilee then
        json.set "tick" (.string ('-' :: tick))
      else json
    Proc.write (putAccumulator created "token-trade" json)

/-! ### Offers -/

/-- The ticker key and amount of one item that an offer accepts; `none` skips the item. -/
def acceptedItem (store : TapStore) (item : Json) : Option (Text × TickKey × ℕ) := do
  let tick ← (item.get "tick").bind Json.asStr
  if !validateTradeAcceptTickerLen env context tick then none
  else
    let tickKey := jsonStringifyLower env tick
    let deployed ← store.d.lookup tickKey
    let amtVal ← item.get "amt"
    if (jsValueToString amtVal).isEmpty then none
    else
      let amount ← cappedAmount amtVal deployed.dec
      some (tick, tickKey, amount)

/-- Record the offer for one accepted item, once per lower-cased ticker. -/
def recordOffer (inscriptionId : InscriptionId) (tickKey : TickKey) (fail : Bool)
    (offer : TradeOfferRecord) (item : Json) (state : List Text × TapStore) : List Text × TapStore :=
  match acceptedItem env context state.2 item with
  | none => state
  | some (accepted, acceptedKey, acceptedAmount) =>
      let signature := env.jsToLowercase accepted
      if state.1.contains signature then state
      else
        let store := state.2
        let rows := (store.atrofi.lookup (offer.addr, tickKey)).getD []
        let store :=
          { store with
            atrofi := store.atrofi.insert (offer.addr, tickKey)
              (rows ++ [{ offer with atick := signature, aamt := acceptedAmount }]) }
        let store :=
          if fail then store
          else
            { store with
              tradeOffer := store.tradeOffer.insert
                (trimJsWhitespace (inscriptionText inscriptionId), acceptedKey)
                { addr := offer.addr, tick := tickKey, index := rows.length } }
        (state.1 ++ [signature], store)

/-- The amount and decimals check of an offer; `none` drops it. -/
def offerAmount (store : TapStore) (acc : TapAccumulatorEntry) : Option (Text × ℕ × List Json) := do
  let tick ← (acc.json.get "tick").bind Json.asStr
  let deployed ← store.d.lookup (jsonStringifyLower env tick)
  let accepts ← (acc.json.get "accept").bind Json.asArray
  let amtVal ← acc.json.get "amt"
  if (jsValueToString amtVal).isEmpty then none
  else
    let amount ← cappedAmount amtVal deployed.dec
    some (tick, amount, accepts)

/-- The `valid` field as `parseInt` reads it, if it fits `i64`. -/
def offerValid (acc : TapAccumulatorEntry) : ℤ :=
  match (acc.json.get "valid").bind jsParseInt with
  | none => -1
  | some n => if -2 ^ 63 ≤ n ∧ n < 2 ^ 63 then n else -1

/-- Side 0 of a trade: the lock and the offers of every accepted item. -/
def openOffer (moved : Moved) (acc : TapAccumulatorEntry) (store : TapStore) : TapStore :=
  match offerAmount env store acc with
  | none => store
  | some (tick, amount, accepts) =>
      let tickKey := jsonStringifyLower env tick
      let owner := moved.ownerAddress
      let available := i128At store.b owner tickKey - i128At store.t owner tickKey -
        tapGetLockedAmount env context owner tickKey -
        tapGetAccountObligationLockedAmount env context owner tickKey
      let valid := offerValid acc
      let expired := valid < 0 ∨ valid < context.height
      let fail := decide (available ≤ 0 ∨ expired)
      let tradeId := inscriptionText moved.inscriptionId
      let store :=
        if fail || (store.tol.lookup tradeId).isSome then store
        else { store with tol := store.tol.insert tradeId acc }
      let offer : TradeOfferRecord :=
        { addr := owner
          tick := env.jsToLowercase tick
          amt := amount
          atick := []
          aamt := 0
          vld := if expired then -1 else valid }
      (accepts.foldl (fun state item =>
        recordOffer env context moved.inscriptionId tickKey fail offer item state) ([], store)).2

/-- A cancelled offer: only the address that opened it may take its lock away. -/
def cancelOffer (acc : TapAccumulatorEntry) (store : TapStore) : TapStore :=
  match (acc.json.get "trade").bind Json.asStr with
  | none => store
  | some trade =>
      let tradeId := trimJsWhitespace trade
      match store.tol.lookup tradeId with
      | none => store
      | some lock =>
          if lock.addr = acc.addr then { store with tol := store.tol.erase tradeId } else store

/-! ### Fills -/

/-- What a fill is about: both parties, both tickers with their amounts, and the fee. -/
structure TradeFill where
  tradeId : Text
  seller : Address
  buyer : Address
  offerTick : TickKey
  offerAmount : ℤ
  acceptedTick : TickKey
  acceptedAmount : ℕ
  feeReceiver : Option Address
  valid : ℤ
deriving DecidableEq, Repr

/-- `fee`: 0.3 percent of the accepted amount when there is a receiver. -/
def TradeFill.fee (fill : TradeFill) : ℕ :=
  if fill.feeReceiver.isSome then
    fill.acceptedAmount / 10000 * 30 + fill.acceptedAmount % 10000 * 30 / 10000
  else 0

/-- The checks of side 1 up to the balances; `none` drops the accumulator. -/
def tradeFill (store : TapStore) (acc : TapAccumulatorEntry) : Option TradeFill := do
  let acceptedTick ← (acc.json.get "tick").bind Json.asStr
  let trade ← (acc.json.get "trade").bind Json.asStr
  let tradeId := trimJsWhitespace trade
  let acceptedKey := jsonStringifyLower env acceptedTick
  let deployed ← store.d.lookup acceptedKey
  let pointer ← store.tradeOffer.lookup (tradeId, acceptedKey)
  let _ ← store.tol.lookup tradeId
  let offer ← ((store.atrofi.lookup (pointer.addr, pointer.tick)).getD [])[pointer.index]?
  if tapIsDmtRewardAddress env context offer.addr then none
  else if offer.addr = acc.addr then none
  else if env.jsToLowercase offer.atick ≠ env.jsToLowercase acceptedTick then none
  else
    let amtVal ← acc.json.get "amt"
    let amount ← cappedAmount amtVal deployed.dec
    some
      { tradeId := tradeId
        seller := offer.addr
        buyer := acc.addr
        offerTick := jsonStringifyLower env offer.tick
        offerAmount := (readI128 offer.amt).getD 0
        acceptedTick := acceptedKey
        acceptedAmount := amount
        feeReceiver := (acc.json.get "fee_rcv").bind Json.asStr
        valid := offer.vld }

/-- Whether both balances cover the fill and the offer is still valid. -/
def TradeFill.covered (fill : TradeFill) (store : TapStore) : Bool :=
  0 ≤ i128At store.b fill.seller fill.offerTick - fill.offerAmount -
      i128At store.t fill.seller fill.offerTick -
      tapGetLockedAmount env context fill.seller fill.offerTick -
      tapGetAccountObligationLockedAmount env context fill.seller fill.offerTick &&
  0 ≤ i128At store.b fill.buyer fill.acceptedTick - fill.acceptedAmount - fill.fee -
      i128At store.t fill.buyer fill.acceptedTick -
      tapGetLockedAmount env context fill.buyer fill.acceptedTick -
      tapGetAccountObligationLockedAmount env context fill.buyer fill.acceptedTick &&
  !(0 ≤ fill.valid && fill.valid < context.height)

/-- The balance rows after a fill.  All balances are read before the first is written, the one of the
fee receiver too. -/
def TradeFill.balances (fill : TradeFill) (b : KeyTable (Address × TickKey) ℤ) :
    KeyTable (Address × TickKey) ℤ :=
  let sellerOffer := i128At b fill.seller fill.offerTick
  let buyerOffer := i128At b fill.buyer fill.offerTick
  let buyerAccepted := i128At b fill.buyer fill.acceptedTick
  let sellerAccepted := i128At b fill.seller fill.acceptedTick
  let feeBalance := i128At b (fill.feeReceiver.getD []) fill.acceptedTick
  let b := b.insert (fill.buyer, fill.offerTick) (wrapI128 (buyerOffer + fill.offerAmount))
  let b := b.insert (fill.seller, fill.offerTick) (sellerOffer - fill.offerAmount)
  let b := b.insert (fill.seller, fill.acceptedTick)
    (wrapI128 (sellerAccepted + fill.acceptedAmount))
  let b := b.insert (fill.buyer, fill.acceptedTick)
    (buyerAccepted - fill.acceptedAmount - fill.fee)
  match fill.feeReceiver with
  | none => b
  | some receiver => b.insert (receiver, fill.acceptedTick) (wrapI128 (feeBalance + fill.fee))

/-- Side 1 of a trade: the fill, if it is covered, and the end of the lock. -/
def applyFill (acc : TapAccumulatorEntry) (store : TapStore) : TapStore :=
  match tradeFill env context store acc with
  | none => store
  | some fill =>
      let store :=
        if fill.covered env context store then { store with b := fill.balances store.b } else store
      { store with tol := store.tol.erase fill.tradeId }

/-- What a trade does besides dropping its accumulator. -/
def runTrade (moved : Moved) (acc : TapAccumulatorEntry) (store : TapStore) : TapStore :=
  let side := (acc.json.get "side").bind jsParseInt
  if tapIsDmtRewardAddress env context moved.ownerAddress then store
  else if side = some 0 then
    if (acc.json.get "trade").isSome then cancelOffer acc store
    else openOffer env context moved acc store
  else if side = some 1 then applyFill env context acc store
  else store

def indexTokenTradeExecuted (moved : Moved) : TapHandler Unit := do
  require (moved.newSatpoint.outpoint.txid ≠ moved.inscriptionId.txid)
  let found ← Proc.read fun store => store.a.lookup moved.inscriptionId
  let acc ← get found
  require (acc.addr = moved.ownerAddress)
  require (env.toLowercase acc.op = "token-trade".toList)
  Proc.write (runTrade env context moved acc)
  Proc.write fun store => { store with a := store.a.erase moved.inscriptionId }

end Handlers

end OrdDogecoin.Tap
