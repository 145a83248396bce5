/-
Module: OrdDogecoin.Tap.Obligations
Purpose: Obligations of accounts, authorities and pools: opening one, which reserves its amount with the
  source, and settling it by a claim or a refund, each with its reads and writes in the order of the
  source.
Trusted boundary: as in OrdDogecoin.Tap.Authority
Main exports: validateObligationOpenAction, validateObligationSettleAction,
  processObligationSettleAction
-/
import OrdDogecoin.Tap.Amm

namespace OrdDogecoin.Tap

open ProofHandler

/-- `Value::as_u64` of a number. -/
def Json.asU64 : Json → Option ℕ
  | .number text => (parseDigits text).filter (· < 2 ^ 64)
  | _ => none

section Actions

variable (env : ProofEnv) (context : TapContext)

/-! ### Pools with an external asset -/

/-- `amm_external_asset_matches_snapshot`. -/
def externalAssetMatchesSnapshot (asset snapshot : Json) : Bool :=
  let field (json : Json) (key : String) : Option Text := (json.get key).bind Json.asStr
  field asset "ty" = some "ext".toList &&
    ["ns", "cid", "aid"].all (fun key => field asset key = field snapshot key) &&
    (field asset "pool").all fun pool => some pool = field snapshot "pool"

/-- The height until which a snapshot holds. -/
def snapshotExpiry (snapshot : Json) : Option ℕ :=
  match (snapshot.get "exp").bind Json.asU64 with
  | some exp => if exp < 2 ^ 32 then some exp else (snapshot.get "exp").bind parseAmmHeight
  | none => (snapshot.get "exp").bind parseAmmHeight

/-- `validate_amm_obligation_context`. -/
def ProofStore.obligationContext (store : ProofStore) (ctx : Option Json) (pid : Text)
    (pool : AmmPoolRecord) (side : Fin 2) (hash : Text) : Bool :=
  pool.assetsAreTap ||
    (do
      guard (pool.assetIsTap side)
      let amm ← (← ctx).get "amm"
      let sid ← (← amm.get "sid").asStr
      let settlement ← (← amm.get "set").asStr
      guard ((amm.get "pid").bind Json.asStr = some pid ∧
        (amm.get "i").bind parseAmmSide = some side ∧ isAmmRef sid ∧ isAmmRef settlement ∧
        (amm.get "h").bind Json.asStr = some hash)
      let snapshot ← store.amms.lookup (pid, sid)
      let expiry ← snapshotExpiry snapshot
      guard ((snapshot.get "pid").bind Json.asStr = some pid ∧
        (snapshot.get "sid").bind Json.asStr = some sid ∧
        (snapshot.get "ai").bind Json.asU64 = some (1 - side).val ∧ context.height ≤ expiry ∧
        externalAssetMatchesSnapshot (pool.a (1 - side)) snapshot)
      guard (["ns", "cid", "pool", "aid"].all fun key =>
        (amm.get key).isNone ||
          (amm.get key).bind Json.asStr = (snapshot.get key).bind Json.asStr)).isSome

/-! ### Opening -/

/-- The case of an account in `normalize_obligation_source`. -/
def ProofStore.accountSource (store : ProofStore) (source : Json) (link : TokenAuthCreateRecord)
    (amount : ℤ) (tickKey : TickKey) : Option (ObligationTarget × Text) := do
  let sourceTick := env.jsToLowercase (← (← source.get "tick").asStr)
  let address := normalizeAddress env (← (← source.get "to").asStr)
  guard (address = link.addr ∧ jsonStringifyLower env sourceTick = tickKey ∧
    isValidBitcoinAddress env context address)
  let available := bigAt store.b (address, tickKey) - bigAt store.t (address, tickKey) -
    store.lockedAmount env context address tickKey - bigAt store.oll (.account address, tickKey)
  guard (amount ≤ available)
  some (.account address, sourceTick)

/-- The case of an authority in `normalize_obligation_source`. -/
def ProofStore.authoritySource (store : ProofStore) (source : Json) (link : TokenAuthCreateRecord)
    (amount : ℤ) (tickKey : TickKey) : Option (ObligationTarget × Text) := do
  let auth ← (← source.get "to").asStr
  let sourceTick := env.jsToLowercase (← (← source.get "tick").asStr)
  guard (auth = link.ins ∧ jsonStringifyLower env sourceTick = tickKey ∧
    store.authorityActive auth)
  guard (amount ≤ bigAt store.ab (auth, tickKey) - bigAt store.oll (.authority auth, tickKey))
  some (.authority auth, sourceTick)

/-- The case of a pool in `normalize_obligation_source`. -/
def ProofStore.poolSource (store : ProofStore) (source : Json) (link : TokenAuthCreateRecord)
    (amount : ℤ) (tickKey : TickKey) (ctx : Option Json) (hash : Text) :
    Option (ObligationTarget × Text) := do
  let pid ← (← source.get "pid").asStr
  let side ← parseAmmSide (← source.get "i")
  let pool ← store.amm.lookup pid
  guard (!pool.p ∧ pool.assetIsTap side ∧ pool.ctl = link.ins ∧ store.authorityActive link.ins ∧
    pool.tickKey env side = some tickKey ∧ store.obligationContext context ctx pid pool side hash)
  let locked := bigAt store.oll (.pool pid side, tickKey)
  guard (amount ≤ pool.r side - locked ∧ amount ≤ bigAt store.ab (pid, tickKey) - locked)
  let tick ← pool.tick env side
  some (.pool pid side, tick)

/-- `normalize_obligation_source`: the source and its ticker. -/
def ProofStore.normalizeObligationSource (store : ProofStore) (source : Json)
    (link : Option TokenAuthCreateRecord) (amount : ℤ) (tickKey : TickKey) (ctx : Option Json)
    (hash : Text) : Option (ObligationTarget × Text) := do
  let tt := env.toLowercase (← (← source.get "tt").asStr)
  let link ← link
  if tt = "a".toList then store.accountSource env context source link amount tickKey
  else if tt = "h".toList then store.authoritySource env source link amount tickKey
  else if tt = "amm".toList then store.poolSource env context source link amount tickKey ctx hash
  else none

/-- `normalize_obligation_condition`: the hash. -/
def normalizeObligationCondition (condition : Json) : Option Text := do
  let ty := env.toLowercase (← (← (condition.get "ty").or (condition.get "type")).asStr)
  let hash ← (← (condition.get "h").or (condition.get "hash")).asStr
  guard ((ty = "hash".toList ∨ ty = "hashlock".toList) ∧ isValidSha256Hex hash)
  some (env.toLowercase hash)

def ProofStore.normalizeObligationTarget (store : ProofStore) (target : Json) (tickKey : TickKey)
    (ctx : Option Json) (hash : Text) : Option ObligationTarget := do
  let tt := env.toLowercase (← (← target.get "tt").asStr)
  if tt = "a".toList then
    let address := normalizeAddress env (← (← target.get "to").asStr)
    guard (isValidBitcoinAddress env context address)
    some (.account address)
  else if tt = "h".toList then
    let auth ← (← target.get "to").asStr
    let _ ← store.ah.lookup auth
    some (.authority auth)
  else if tt = "b".toList then
    guard ((target.get "to").all fun dest => dest.asStr = some burnAddress)
    some .burn
  else if tt = "amm".toList then
    let pid ← (← target.get "pid").asStr
    let side ← parseAmmSide (← target.get "i")
    let pool ← store.amm.lookup pid
    guard (pool.assetIsTap side ∧ pool.tickKey env side = some tickKey ∧
      store.obligationContext context ctx pid pool side hash)
    some (.pool pid side)
  else none

/-- The ticker of the source: its own field, or the asset of the pool. -/
def ProofStore.sourceTick (store : ProofStore) (source : Json) : Option Text :=
  match (source.get "tick").bind Json.asStr with
  | some tick => some (env.jsToLowercase tick)
  | none => do
      guard (source.text "tt" = "amm".toList)
      let pool ← store.amm.lookup (← (← source.get "pid").asStr)
      let side ← parseAmmSide (← source.get "i")
      guard (pool.assetIsTap side)
      pool.tick env side

def obligationMetadata (action : Json) : Option (Option Json) :=
  match action.get "ctx" with
  | none => some none
  | some value => (env.metadata value).map some

/-- `validate_obligation_open_action`: the identifier, the key of the ticker and the record. -/
def validateObligationOpenAction (action : Json) (link : Option TokenAuthCreateRecord)
    (place : ActionPlace) (store : ProofStore) : Option (Text × TickKey × TokenObligationRecord) := do
  let source ← action.get "src"
  let amt ← action.get "amt"
  let claim ← action.get "cl"
  let refund ← action.get "rf"
  guard (source.isObject ∧ claim.isObject ∧ refund.isObject ∧ !refusedNumber env context amt)
  let sourceTick ← store.sourceTick env source
  let (tickKey, deployed) ← store.getDeploy env sourceTick
  let amount ← resolveProtocolAmount env context amt deployed
  let exp ← storageHeight (action.get "exp")
  let refundAfter ← storageHeight (action.get "ra")
  let hash ← normalizeObligationCondition env (← action.get "cond")
  guard (context.height ≤ exp)
  let ctx ← obligationMetadata env action
  let (source, tick) ← store.normalizeObligationSource env context source link amount tickKey ctx hash
  let claim ← store.normalizeObligationTarget env context claim tickKey ctx hash
  let refund ← store.normalizeObligationTarget env context refund tickKey ctx hash
  guard (source = refund)
  let id := tokenProofLockId place
  guard ((store.ob.lookup id).isNone ∧ (store.obc.lookup id).isNone)
  some (id, tickKey,
    { src := source
      tick := tick
      amt := amount
      cl := claim
      rf := refund
      hash := hash
      ra := refundAfter
      st := .opened })

/-- `tap_add_obligation_locked_bigint`. -/
def tapAddObligationLocked (source : ObligationTarget) (tick : TickKey) (delta : ℤ) :
    ProofHandler Unit := do
  require (source ≠ .burn)
  let current ← Proc.read fun store => bigAt store.oll (source, tick)
  require (0 ≤ current + delta)
  Proc.write fun store => { store with oll := store.oll.insert (source, tick) (current + delta) }

def processObligationOpenAction (action : Json) (link : Option TokenAuthCreateRecord)
    (place : ActionPlace) : ProofHandler Unit := do
  let validated ← Proc.read (validateObligationOpenAction env context action link place)
  let (id, tickKey, obligation) ← get validated
  tapAddObligationLocked obligation.src tickKey obligation.amt
  Proc.write fun store => { store with ob := store.ob.insert id obligation }

/-! ### Settling -/

/-- `op` of a settlement. -/
def settleAction (name : Text) : Option SettleAction :=
  if name = "ob-claim".toList then some .claim
  else if name = "ob-final".toList then some .final
  else if name = "ob-refund".toList then some .refund
  else none

/-- The check of an obligation's hash and times, and where it is settled to. -/
def TokenObligationRecord.target (obligation : TokenObligationRecord) (settle : SettleAction)
    (action : Json) : Option ObligationTarget :=
  match settle with
  | .refund => if obligation.ra ≤ context.height then some obligation.rf else none
  | _ => do
      guard (context.height < obligation.ra)
      let preimage ← action.get "preimage"
      guard (env.toLowercase (hashProofPreimage env preimage) = env.toLowercase obligation.hash)
      some obligation.cl

/-- What `validate_obligation_settle_action` finds out. -/
structure ObligationSettleValidation where
  id : Text
  obligation : TokenObligationRecord
  action : SettleAction
  target : ObligationTarget

def validateObligationSettleAction (action : Json) (store : ProofStore) :
    Option ObligationSettleValidation := do
  let id ← (← action.get "ob").asStr
  guard ((action.get "fee").isNone ∧ (store.obc.lookup id).isNone)
  let obligation ← store.ob.lookup id
  guard (obligation.st = .opened)
  let settle ← settleAction (env.toLowercase (← (← action.get "op").asStr))
  let target ← obligation.target env context settle action
  guard (0 < obligation.amt)
  some { id := id, obligation := obligation, action := settle, target := target }

/-- The key of an obligation's ticker. -/
def TokenObligationRecord.tickKey (obligation : TokenObligationRecord) : TickKey :=
  jsonStringifyLower env (env.jsToLowercase obligation.tick)

/-- The pool of a source or target, whose asset has to be the ticker. -/
def ProofStore.tapPool (store : ProofStore) (pid : Text) (side : Fin 2) (tick : TickKey) :
    Option AmmPoolRecord := do
  let pool ← store.amm.lookup pid
  guard (pool.assetIsTap side ∧ pool.tickKey env side = some tick)
  some pool

def ProofStore.canDebitSource (store : ProofStore) (source : ObligationTarget) (tick : TickKey)
    (amount : ℤ) : Bool :=
  amount ≤ bigAt store.oll (source, tick) &&
    match source with
    | .account address => amount ≤ bigAt store.b (address, tick)
    | .authority auth => amount ≤ bigAt store.ab (auth, tick)
    | .pool pid side =>
        (store.tapPool env pid side tick).any fun pool =>
          amount ≤ pool.r side && amount ≤ bigAt store.ab (pid, tick)
    | .burn => false

def ProofStore.canCreditTarget (store : ProofStore) (target : ObligationTarget) (tick : TickKey) : Bool :=
  match target with
  | .account _ => true
  | .authority auth => (store.ah.lookup auth).isSome
  | .pool pid side => (store.tapPool env pid side tick).isSome
  | .burn => true

def debitObligationSource (source : ObligationTarget) (tick : TickKey) (amount : ℤ) :
    ProofHandler Unit := do
  tapAddObligationLocked source tick (-amount)
  match source with
  | .account address => do
      let current ← Proc.read fun store => bigAt store.b (address, tick)
      require (amount ≤ current)
      Proc.write (ProofStore.putBalance address tick (current - amount))
  | .authority auth => tapAddAuthorityBalanceBigint env auth tick (-amount)
  | .pool pid side => do
      let found ← Proc.read fun store => store.tapPool env pid side tick
      let pool ← get found
      require (amount ≤ pool.r side)
      tapAddAuthorityBalanceBigint env pid tick (-amount)
      putAmmPool pid pool (Function.update pool.r side (pool.r side - amount)) pool.sh
  | .burn => require false

def creditObligationTarget (target : ObligationTarget) (tick : TickKey) (amount : ℤ) :
    ProofHandler Unit :=
  if amount ≤ 0 then pure ()
  else
    match target with
    | .account address => do
        let current ← Proc.read fun store => bigAt store.b (address, tick)
        tapPutAddressBalanceBigint address tick (current + amount)
    | .authority auth => tapAddAuthorityBalanceBigint env auth tick amount
    | .pool pid side => do
        let found ← Proc.read fun store => store.tapPool env pid side tick
        let pool ← get found
        tapAddAuthorityBalanceBigint env pid tick amount
        putAmmPool pid pool (Function.update pool.r side (pool.r side + amount)) pool.sh
    | .burn => pure ()

/-- The status after a settlement. -/
def SettleAction.status : SettleAction → ObligationStatus
  | .claim => .claimed
  | .final => .finalized
  | .refund => .refunded

def processObligationSettleAction (action : Json) : ProofHandler Unit := do
  let validated ← Proc.read (validateObligationSettleAction env context action)
  let settle ← get validated
  let obligation := settle.obligation
  let tickKey := obligation.tickKey env
  let payable ← Proc.read fun store =>
    store.canDebitSource env obligation.src tickKey obligation.amt &&
      store.canCreditTarget env settle.target tickKey
  require payable
  debitObligationSource env obligation.src tickKey obligation.amt
  creditObligationTarget env settle.target tickKey obligation.amt
  Proc.write fun store =>
    { store with ob := store.ob.insert settle.id { obligation with st := settle.action.status } }
  Proc.write fun store =>
    { store with
      obc := store.obc.insert settle.id
        { action := settle.action
          src := obligation.src
          target := settle.target
          tick := obligation.tick
          amt := obligation.amt
          blck := context.height } }

end Actions

end OrdDogecoin.Tap
