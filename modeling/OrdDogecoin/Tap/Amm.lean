/-
Module: OrdDogecoin.Tap.Amm
Purpose: Constant-product pools: their creation, and the three actions on a pool of two TAP assets,
  each with its reads and writes in the order of the source.
Trusted boundary: as in OrdDogecoin.Tap.Authority; the references of actions, which only the batch
  validation looks up, and the event log are not kept
Main exports: processAmmConfigAction, processAmmRemoveLiquidityAction, processAmmSwapAction
-/
import OrdDogecoin.Tap.Locks
import Mathlib.Data.Fin.VecNotation

namespace OrdDogecoin.Tap

open ProofHandler

/-! ### Numbers -/

def parseAmmUintStr (text : Text) (allowZero : Bool) : Option ℤ := do
  guard (!(1 < text.length ∧ text.head? = some '0'))
  let parsed ← parseDigits text
  guard (allowZero ∨ parsed ≠ 0)
  some parsed

def parseAmmUintValue (value : Json) (allowZero : Bool) : Option ℤ := do
  parseAmmUintStr (← value.asStr) allowZero

def parseAmmHeight (value : Json) : Option ℕ := do
  let parsed ← parseAmmUintValue value true
  if parsed < 2 ^ 32 then some parsed.toNat else none

/-- The loop of `integer_sqrt`: the iterates fall until they stop, at most `x0` times. -/
def integerSqrtLoop (value : ℤ) : ℕ → ℤ → ℤ → ℤ
  | 0, x0, _ => x0
  | fuel + 1, x0, x1 =>
      if x1 < x0 then integerSqrtLoop value fuel x1 ((x1 + value.tdiv x1).tdiv 2) else x0

def integerSqrt (value : ℤ) : Option ℤ :=
  if value < 0 then none
  else if value < 2 then some value
  else some (integerSqrtLoop value value.toNat value (value.tdiv 2 + 1))

def divCeil (numerator denominator : ℤ) : Option ℤ :=
  if denominator ≤ 0 then none else some ((numerator + denominator - 1).tdiv denominator)

structure AmmSwapCalc where
  amountIn : ℤ
  amountOut : ℤ
  grossFee : ℤ
  protocolFee : ℤ
deriving DecidableEq, Repr

def ammProtocolFee (grossFee protocolShareBps : ℤ) : ℤ := (grossFee * protocolShareBps).tdiv 10000

def calculateAmmExactIn (amountIn reserveIn reserveOut feeBps protocolShareBps : ℤ) :
    Option AmmSwapCalc := do
  guard (0 < amountIn ∧ 0 < reserveIn ∧ 0 < reserveOut)
  let grossFee := (amountIn * feeBps).tdiv 10000
  let amountInAfterFee := amountIn - grossFee
  guard (0 < amountInAfterFee)
  some
    { amountIn := amountIn
      amountOut := (amountInAfterFee * reserveOut).tdiv (reserveIn + amountInAfterFee)
      grossFee := grossFee
      protocolFee := ammProtocolFee grossFee protocolShareBps }

def calculateAmmExactOut (amountOut reserveIn reserveOut feeBps protocolShareBps : ℤ) :
    Option AmmSwapCalc := do
  guard (0 < amountOut ∧ 0 < reserveIn ∧ amountOut < reserveOut)
  let amountInAfterFee ← divCeil (reserveIn * amountOut) (reserveOut - amountOut)
  guard (0 < amountInAfterFee ∧ feeBps < 10000)
  let amountIn ← divCeil (amountInAfterFee * 10000) (10000 - feeBps)
  let grossFee := (amountIn * feeBps).tdiv 10000
  some
    { amountIn := amountIn
      amountOut := amountOut
      grossFee := grossFee
      protocolFee := ammProtocolFee grossFee protocolShareBps }

/-- `is_amm_ref`, and `token_proof_safe_id` with 128 bytes. -/
def isAmmRef (text : Text) : Bool :=
  !text.isEmpty && utf8Length text ≤ 128 && text.all fun c => c.isAlphanum || c ∈ ['.', '_', ':', '-']

/-! ### Big balances -/

/-- A stored number read as a big integer, zero when there is none. -/
def bigAt {K : Type} [DecidableEq K] (table : KeyTable K ℤ) (key : K) : ℤ := (table.lookup key).getD 0

section Actions

variable (env : ProofEnv) (context : TapContext)

def tapPutAddressBalanceBigint (address : Address) (tick : TickKey) (amount : ℤ) :
    ProofHandler Unit := do
  require (0 ≤ amount)
  Proc.write (ProofStore.putBalance address tick amount)

def tapAddAuthorityBalanceBigint (auth : Text) (tick : TickKey) (delta : ℤ) : ProofHandler Unit := do
  let current ← Proc.read fun store => bigAt store.ab (auth, tick)
  tapSetAuthorityBalance env auth tick (current + delta)

/-- `token_proof_get_deploy`: the key of the ticker and its record. -/
def ProofStore.getDeploy (store : ProofStore) (tick : Text) : Option (TickKey × DeployRecord) := do
  let tickKey := jsonStringifyLower env (env.jsToLowercase tick)
  let record ← store.d.lookup tickKey
  some (tickKey, record)

/-- `token_proof_resolve_protocol_amount_bigint`. -/
def resolveProtocolAmount (value : Json) (deployed : DeployRecord) : Option ℤ := do
  guard (!refusedNumber env context value)
  let amount ← (resolveNumberString (jsValueToString value) deployed.dec).bind parseDigits
  let maxAmount ← (resolveNumberString maxDecU64Str deployed.dec).bind parseDigits
  guard (0 < amount ∧ amount ≤ maxAmount)
  some amount

def Json.asBool : Json → Option Bool
  | .bool value => some value
  | _ => none

/-! ### Targets and assets -/

def ProofStore.validateAmmTarget (store : ProofStore) (value : Json) (allowBurn : Bool) :
    Option AmmTarget := do
  guard value.isObject
  let tt := env.toLowercase (← (← value.get "tt").asStr)
  if tt = "b".toList then
    guard allowBurn
    guard ((value.get "to").all fun dest => dest.asStr = some burnAddress)
    some .burn
  else
    let dest ← (← value.get "to").asStr
    if tt = "a".toList then
      let address := normalizeAddress env dest
      guard (isValidBitcoinAddress env context address)
      some (.account address)
    else if tt = "h".toList then
      let _ ← store.ah.lookup dest
      some (.authority dest)
    else none

def creditAmmTarget (target : AmmTarget) (tick : TickKey) (amount : ℤ) : ProofHandler Unit :=
  if amount ≤ 0 then pure ()
  else
    match target with
    | .account address => do
        let current ← Proc.read fun store => bigAt store.b (address, tick)
        tapPutAddressBalanceBigint address tick (current + amount)
    | .authority auth => tapAddAuthorityBalanceBigint env auth tick amount
    | .burn => pure ()

/-- `normalize_amm_asset` with its key; an external asset keeps the fields that obligations read. -/
def ProofStore.normalizeAmmAsset (store : ProofStore) (value : Json) : Option (Json × Text) := do
  guard value.isObject
  let ty := env.toLowercase (← (← value.get "ty").asStr)
  if ty = "tap".toList then
    let tick ← (← value.get "tick").asStr
    let _ ← store.getDeploy env tick
    let tick := env.jsToLowercase tick
    some (.object [("ty".toList, .string ty), ("tick".toList, .string tick)], "tap:".toList ++ tick)
  else if ty = "ext".toList then
    let field (key : String) : Option Text := do
      let text ← (← value.get key).asStr
      guard (isAmmRef text)
      some (env.toLowercase text)
    let ns ← field "ns"
    let cid ← field "cid"
    let aid ← field "aid"
    let dec ← parseAmmUintStr (← (← value.get "dec").asStr) true
    guard (dec ≤ 38)
    guard (((value.get "pool").bind Json.asStr).all isAmmRef)
    let pool := ((value.get "pool").bind Json.asStr).toList.map fun pool =>
      ("pool".toList, Json.string (env.toLowercase pool))
    some (.object ([("ty".toList, .string ty), ("ns".toList, .string ns), ("cid".toList, .string cid),
      ("aid".toList, .string aid)] ++ pool), "ext:".toList ++ ns ++ ':' :: cid ++ ':' :: aid)
  else none

/-- The sides of a pool are `0` and `1`. -/
scoped instance neZero_sides : NeZero 2 := ⟨by decide⟩

namespace AmmPoolRecord

variable (pool : AmmPoolRecord)

/-- `amm_pool_asset_is_tap`. -/
def assetIsTap (side : Fin 2) : Bool := ((pool.a side).get "ty").bind Json.asStr = some "tap".toList

/-- `amm_pool_assets_are_tap`. -/
def assetsAreTap : Bool := pool.assetIsTap 0 && pool.assetIsTap 1

/-- `amm_pool_tick`. -/
def tick (side : Fin 2) : Option Text := (((pool.a side).get "tick").bind Json.asStr).map env.jsToLowercase

/-- `amm_pool_tick_key`. -/
def tickKey (side : Fin 2) : Option TickKey :=
  (((pool.a side).get "tick").bind Json.asStr).map (jsonStringifyLower env)

end AmmPoolRecord

def ProofStore.coverObligationLocks (store : ProofStore) (pid : Text) (pool : AmmPoolRecord)
    (reserves : Fin 2 → ℤ) : Bool :=
  [0, 1].all fun side =>
    !pool.assetIsTap side ||
      (pool.tickKey env side).any fun tickKey =>
        bigAt store.oll (.pool pid side, tickKey) ≤ reserves side

/-- The check of the optional reference of an action. -/
def validAmmRef (action : Json) : Bool := ((action.get "ref").bind Json.asStr).all isAmmRef

def ammActionExpired (action : Json) : Bool :=
  match (action.get "exp").bind parseAmmHeight with
  | some exp => exp < context.height
  | none => true

/-! ### Creation -/

/-- The two assets of a configuration, with different keys. -/
def ProofStore.ammAssets (store : ProofStore) (action : Json) : Option (Fin 2 → Json) := do
  match (← action.get "a").asArray with
  | some [first, second] => do
      let (first, firstKey) ← store.normalizeAmmAsset env first
      let (second, secondKey) ← store.normalizeAmmAsset env second
      guard (firstKey ≠ secondKey)
      some ![first, second]
  | _ => none

/-- The attestation of a pool with an external asset: between two and eight different signers, a
threshold and two heights. -/
def validAttestation (attestation : Json) : Bool :=
  (do
    let signers ← (← attestation.get "signers").asArray
    guard (2 ≤ signers.length ∧ signers.length ≤ 8)
    let threshold ← jsParseInt (← attestation.get "thr")
    guard (2 ≤ threshold ∧ threshold ≤ signers.length)
    let _ ← parseAmmHeight (← attestation.get "max_age")
    let _ ← parseAmmHeight (← attestation.get "reorg")
    let keys ← signers.mapM fun (signer : Json) => signer.asStr.bind env.compressedPubkey
    guard keys.Nodup).isSome

/-- The attestation part of `validate_amm_authority_config_action`: only pools with an external asset
have one. -/
def ammAttestation (assets : Fin 2 → Json) (action : Json) : Bool :=
  let external := [0, 1].any fun side =>
    ((assets side).get "ty").bind Json.asStr = some "ext".toList
  match external, action.get "att" with
  | true, some attestation => validAttestation env attestation
  | true, none => false
  | false, attestation => attestation.isNone

def ammProtocolShare (config : Json) : Option ℤ :=
  match config.get "pf" with
  | some value => parseAmmUintValue value true
  | none => some 0

/-- The target of the protocol fees, which is given with a positive share only. -/
def ProofStore.ammProtocolTarget (store : ProofStore) (config : Json) (share : ℤ) :
    Option (Option AmmTarget) :=
  if 0 < share then do
    let target ← store.validateAmmTarget env context (← config.get "pp") true
    some (some target)
  else do
    guard (config.get "pp").isNone
    some none

/-- `validate_amm_authority_config_action`. -/
def validateAmmConfigAction (action : Json) (link : Option TokenAuthCreateRecord) (place : ActionPlace)
    (store : ProofStore) : Option (Text × AmmPoolRecord) := do
  let link ← link
  guard (env.toLowercase (action.text "op") = "auth-cfg".toList ∧ action.text "k" = "amm".toList)
  let config ← action.get "c"
  let control ← action.get "ctl"
  let controlAuth ← (← control.get "auth").asStr
  guard (config.text "ty" = "cpmm".toList ∧ control.text "ty" = "ta".toList ∧ controlAuth = link.ins)
  let pause ← (← config.get "pause").asBool
  let id := tokenProofLockId place
  guard ((store.ah.lookup id).isNone ∧ (store.amm.lookup id).isNone)
  let assets ← store.ammAssets env action
  let fee ← parseAmmUintValue (← config.get "fee") true
  let pf ← ammProtocolShare config
  let min ← parseAmmUintValue (← config.get "min") false
  guard (fee ≤ 1000 ∧ pf ≤ 10000)
  let pp ← store.ammProtocolTarget env context config pf
  guard (ammAttestation env assets action)
  some (id,
    { ctl := link.ins
      a := assets
      r := fun _ => 0
      sh := 0
      fee := fee
      pf := pf
      min := min
      p := pause
      pp := pp })

/-- `process_authority_config_action` of a pool. -/
def processAmmConfigAction (action : Json) (link : Option TokenAuthCreateRecord) (place : ActionPlace) :
    ProofHandler Unit := do
  let validated ← Proc.read (validateAmmConfigAction env context action link place)
  let (id, pool) ← get validated
  Proc.write fun store => { store with amm := store.amm.insert id pool }
  Proc.write fun store =>
    { store with ah := store.ah.insert id { k := "amm".toList, stk := [], rt := [], r := .null } }

/-! ### Liquidity -/

/-- `get_amm_lp_shares`. -/
def ProofStore.ammLpShares (store : ProofStore) (pid : Text) (target : AmmTarget) : ℤ :=
  bigAt store.ammp (pid, target)

def addAmmLpShares (pid : Text) (target : AmmTarget) (delta : ℤ) : ProofHandler Unit := do
  let current ← Proc.read fun store => store.ammLpShares pid target
  require (0 ≤ current + delta)
  Proc.write fun store => { store with ammp := store.ammp.insert (pid, target) (current + delta) }

def debitAmmAccount (address : Address) (tick : TickKey) (amount : ℤ) : ProofHandler Unit := do
  let balance ← Proc.read fun store => bigAt store.b (address, tick)
  let reserved ← Proc.read fun store =>
    bigAt store.t (address, tick) + store.lockedAmount env context address tick +
      store.obligationLockedAmount env context address tick
  require (amount ≤ balance - reserved)
  require (0 ≤ balance - amount)
  Proc.write (ProofStore.putBalance address tick (balance - amount))

/-- `put_amm_pool` of a pool with new reserves and shares. -/
def putAmmPool (pid : Text) (pool : AmmPoolRecord) (reserves : Fin 2 → ℤ) (shares : ℤ) :
    ProofHandler Unit :=
  Proc.write fun store =>
    { store with amm := store.amm.insert pid { pool with r := reserves, sh := shares } }

/-- The pool an action names, with the checks that all three actions start with. -/
def ProofStore.namedPool (store : ProofStore) (action : Json) : Option (Text × AmmPoolRecord) := do
  let pid ← (← action.get "auth").asStr
  guard (validAmmRef action ∧ !ammActionExpired context action)
  let pool ← store.amm.lookup pid
  guard pool.assetsAreTap
  some (pid, pool)

/-- The deployments of the two assets. -/
def ProofStore.poolTokens (store : ProofStore) (pool : AmmPoolRecord) :
    Option (Fin 2 → DeployRecord) := do
  let (_, first) ← store.getDeploy env (← pool.tick env 0)
  let (_, second) ← store.getDeploy env (← pool.tick env 1)
  some ![first, second]

/-- Two amounts of a field, one for each asset. -/
def pairAmounts (values : Json) (tokens : Fin 2 → DeployRecord) : Option (Fin 2 → ℤ) :=
  match values with
  | .array [first, second] => do
      let amount0 ← resolveProtocolAmount env context first (tokens 0)
      let amount1 ← resolveProtocolAmount env context second (tokens 1)
      some ![amount0, amount1]
  | _ => none

structure AmmAddValidation where
  pid : Text
  pool : AmmPoolRecord
  dest : AmmTarget
  amounts : Fin 2 → ℤ
  minted : ℤ
  sharesAfter : ℤ

/-- The shares of a deposit, and those it locks as the first one. -/
def AmmPoolRecord.mintedShares (pool : AmmPoolRecord) (amounts : Fin 2 → ℤ) : Option (ℤ × ℤ) :=
  if pool.sh = 0 then do
    let root ← integerSqrt (amounts 0 * amounts 1)
    guard (pool.min < root)
    some (root - pool.min, pool.min)
  else do
    guard (0 < pool.r 0 ∧ 0 < pool.r 1)
    let shares0 := (amounts 0 * pool.sh).tdiv (pool.r 0)
    let shares1 := (amounts 1 * pool.sh).tdiv (pool.r 1)
    some (if shares0 < shares1 then shares0 else shares1, 0)

def normalizeAmmAddLiquidityAction (action : Json) (store : ProofStore) : Option AmmAddValidation := do
  let (pid, pool) ← store.namedPool context action
  guard (!pool.p)
  let dest ← store.validateAmmTarget env context (← action.get "to") false
  let tokens ← store.poolTokens env pool
  let amounts ← pairAmounts env context (← action.get "amts") tokens
  let minShares ← parseAmmUintValue (← action.get "min") false
  let (minted, burnMinted) ← pool.mintedShares amounts
  guard (0 < minted ∧ minShares ≤ minted)
  some
    { pid := pid
      pool := pool
      dest := dest
      amounts := amounts
      minted := minted
      sharesAfter := pool.sh + minted + burnMinted }

def processAmmAddLiquidityAction (action : Json) (link : Option TokenAuthCreateRecord) :
    ProofHandler Unit := do
  let link ← get link
  let validated ← Proc.read (normalizeAmmAddLiquidityAction env context action)
  let normalized ← get validated
  let pool := normalized.pool
  let tick0 ← get (pool.tickKey env 0)
  let tick1 ← get (pool.tickKey env 1)
  debitAmmAccount env context link.addr tick0 (normalized.amounts 0)
  debitAmmAccount env context link.addr tick1 (normalized.amounts 1)
  tapAddAuthorityBalanceBigint env normalized.pid tick0 (normalized.amounts 0)
  tapAddAuthorityBalanceBigint env normalized.pid tick1 (normalized.amounts 1)
  addAmmLpShares normalized.pid normalized.dest normalized.minted
  putAmmPool normalized.pid pool (fun side => pool.r side + normalized.amounts side)
    normalized.sharesAfter

structure AmmRemoveValidation where
  pid : Text
  pool : AmmPoolRecord
  owner : AmmTarget
  dest : AmmTarget
  shares : ℤ
  outputs : Fin 2 → ℤ

/-- The signer of an action may redeem the shares of this holder. -/
def AmmTarget.ownedBy (link : TokenAuthCreateRecord) : AmmTarget → Bool
  | .account address => address = link.addr
  | .authority auth => auth = link.ins
  | .burn => true

/-- The holder of the shares that are redeemed: the signer's address or authority. -/
def ProofStore.lpOwner (store : ProofStore) (action : Json) (link : TokenAuthCreateRecord) :
    Option AmmTarget :=
  (match action.get "own" with
    | some value => store.validateAmmTarget env context value false
    | none => some (.account link.addr)).filter (AmmTarget.ownedBy link)

def normalizeAmmRemoveLiquidityAction (action : Json) (link : TokenAuthCreateRecord)
    (store : ProofStore) : Option AmmRemoveValidation := do
  let (pid, pool) ← store.namedPool context action
  let owner ← store.lpOwner env context action link
  let dest ← store.validateAmmTarget env context (← action.get "to") true
  let tokens ← store.poolTokens env pool
  let shares ← parseAmmUintValue (← action.get "sh") false
  let minimal ← pairAmounts env context (← action.get "min") tokens
  guard (0 < pool.sh ∧ 0 < pool.r 0 ∧ 0 < pool.r 1)
  guard (shares ≤ store.ammLpShares pid owner)
  let outputs : Fin 2 → ℤ := fun side => (shares * pool.r side).tdiv pool.sh
  guard (0 < outputs 0 ∧ 0 < outputs 1 ∧ minimal 0 ≤ outputs 0 ∧ minimal 1 ≤ outputs 1)
  guard (store.coverObligationLocks env pid pool fun side => pool.r side - outputs side)
  some { pid := pid, pool := pool, owner := owner, dest := dest, shares := shares, outputs := outputs }

def processAmmRemoveLiquidityAction (action : Json) (link : Option TokenAuthCreateRecord) :
    ProofHandler Unit := do
  let link ← get link
  let validated ← Proc.read (normalizeAmmRemoveLiquidityAction env context action link)
  let normalized ← get validated
  let pool := normalized.pool
  let tick0 ← get (pool.tickKey env 0)
  let tick1 ← get (pool.tickKey env 1)
  addAmmLpShares normalized.pid normalized.owner (-normalized.shares)
  tapAddAuthorityBalanceBigint env normalized.pid tick0 (-normalized.outputs 0)
  tapAddAuthorityBalanceBigint env normalized.pid tick1 (-normalized.outputs 1)
  creditAmmTarget env normalized.dest tick0 (normalized.outputs 0)
  creditAmmTarget env normalized.dest tick1 (normalized.outputs 1)
  putAmmPool normalized.pid pool (fun side => pool.r side - normalized.outputs side)
    (pool.sh - normalized.shares)

/-! ### Swaps -/

def parseAmmSide (value : Json) : Option (Fin 2) :=
  match value with
  | .number text => if text = ['0'] then some 0 else if text = ['1'] then some 1 else none
  | .string text => if text = ['0'] then some 0 else if text = ['1'] then some 1 else none
  | _ => none

structure AmmSwapValidation where
  pid : Text
  pool : AmmPoolRecord
  side : Fin 2
  dest : AmmTarget
  swap : AmmSwapCalc

/-- The reserves after a swap: what stays of the amount paid in, and what is paid out. -/
def AmmPoolRecord.swapped (pool : AmmPoolRecord) (side : Fin 2) (swap : AmmSwapCalc) (other : Fin 2) :
    ℤ :=
  if other = side then pool.r other + swap.amountIn - swap.protocolFee
  else pool.r other - swap.amountOut

/-- The amounts of a swap with an exact amount in, `xin`, or out, `xout`. -/
def swapCalc (action : Json) (pool : AmmPoolRecord) (side : Fin 2) (tokens : Fin 2 → DeployRecord) :
    Option AmmSwapCalc := do
  let mode ← (← action.get "m").asStr
  if mode = "xin".toList then
    let amountIn ← resolveProtocolAmount env context (← action.get "amt") (tokens side)
    let limit ← resolveProtocolAmount env context (← action.get "min") (tokens (1 - side))
    let swap ← calculateAmmExactIn amountIn (pool.r side) (pool.r (1 - side)) pool.fee pool.pf
    guard (0 < swap.amountOut ∧ limit ≤ swap.amountOut)
    some swap
  else if mode = "xout".toList then
    let amountOut ← resolveProtocolAmount env context (← action.get "out") (tokens (1 - side))
    let limit ← resolveProtocolAmount env context (← action.get "max") (tokens side)
    let swap ← calculateAmmExactOut amountOut (pool.r side) (pool.r (1 - side)) pool.fee pool.pf
    guard (swap.amountIn ≤ limit)
    some swap
  else none

def normalizeAmmSwapAction (action : Json) (store : ProofStore) : Option AmmSwapValidation := do
  let (pid, pool) ← store.namedPool context action
  guard (!pool.p)
  let side ← parseAmmSide (← action.get "i")
  let dest ← store.validateAmmTarget env context (← action.get "to") true
  let tokens ← store.poolTokens env pool
  let swap ← swapCalc env context action pool side tokens
  guard (0 ≤ pool.swapped side swap 0 ∧ 0 ≤ pool.swapped side swap 1)
  guard (store.coverObligationLocks env pid pool (pool.swapped side swap))
  some { pid := pid, pool := pool, side := side, dest := dest, swap := swap }

/-- The protocol fee of a swap, to the target of the pool that is still valid. -/
def creditProtocolFee (pool : AmmPoolRecord) (tick : TickKey) (fee : ℤ) : ProofHandler Unit :=
  if 0 < fee then do
    let target ← get pool.pp
    let valid ← Proc.read fun store => match target with
      | .account address => isValidBitcoinAddress env context
          (normalizeAddress env address)
      | .authority auth => (store.ah.lookup auth).isSome
      | .burn => true
    require valid
    let target := match target with
      | .account address => .account (normalizeAddress env address)
      | other => other
    creditAmmTarget env target tick fee
  else pure ()

def processAmmSwapAction (action : Json) (link : Option TokenAuthCreateRecord) : ProofHandler Unit := do
  let link ← get link
  let validated ← Proc.read (normalizeAmmSwapAction env context action)
  let normalized ← get validated
  let pool := normalized.pool
  let swap := normalized.swap
  let inTick ← get (pool.tickKey env normalized.side)
  let outTick ← get (pool.tickKey env (1 - normalized.side))
  debitAmmAccount env context link.addr inTick swap.amountIn
  tapAddAuthorityBalanceBigint env normalized.pid inTick (swap.amountIn - swap.protocolFee)
  tapAddAuthorityBalanceBigint env normalized.pid outTick (-swap.amountOut)
  creditAmmTarget env normalized.dest outTick swap.amountOut
  creditProtocolFee env context pool inTick swap.protocolFee
  putAmmPool normalized.pid pool (pool.swapped normalized.side swap) pool.sh

end Actions

end OrdDogecoin.Tap
