/-
Module: OrdDogecoin.Tap.Locks
Purpose: Token locks: their creation with allocations and conditions, and their release by a claim or
  a refund, each with its reads and writes in the order of the source.
Trusted boundary: as in OrdDogecoin.Tap.Authority
Main exports: hashProofPreimage, validateTokenProofReleaseAction, processTokenProofReleaseAction
-/
import OrdDogecoin.Tap.Staking

namespace OrdDogecoin.Tap

open ProofHandler

/-! ### Hashes and heights -/

/-- `u8::is_ascii_hexdigit`. -/
def isHexDigit (c : Char) : Bool := (toDigit 16 c).isSome

def hexDecode : Text → List UInt8
  | high :: low :: rest =>
      ((toDigit 16 high).getD 0 * 16 + (toDigit 16 low).getD 0).toUInt8 :: hexDecode rest
  | _ => []

/-- `tap_hash_proof_preimage`. -/
def hashProofPreimage (env : ProofEnv) (preimage : Json) : Text :=
  let raw := jsValueToString preimage
  let isEvenHex := utf8Length raw % 2 = 0 && !raw.isEmpty && raw.all isHexDigit
  env.sha256Hex (if isEvenHex then hexDecode raw else env.nodeUtf8Bytes raw)

/-- `tap_is_valid_sha256_hex`. -/
def isValidSha256Hex (value : Text) : Bool := utf8Length value = 64 && value.all isHexDigit

/-- `token_proof_storage_height`. -/
def storageHeight (value : Option Json) : Option ℕ := do
  let parsed ← jsParseInt (← value)
  if 0 ≤ parsed ∧ parsed < 2 ^ 32 then some parsed.toNat else none

/-! ### Locks -/

section Actions

variable (env : ProofEnv) (context : TapContext)

/-- `tap_authority_active` and `token_proof_authority_condition_active`. -/
def ProofStore.authorityActive (store : ProofStore) (auth : Text) : Bool :=
  (store.tains.lookup auth).isSome && (store.tac.lookup auth).isNone

/-- The raw entries of `normalize_token_proof_allocations`. -/
def rawAllocations (action : Json) : Option (List Json) :=
  match action.get "al", action.get "fee" with
  | some al, fee => do
      let list ← al.asArray
      guard (!list.isEmpty ∧ list.length ≤ 16 ∧ fee.isNone)
      some list
  | none, some fee => do
      guard fee.isObject
      let addr ← fee.get "addr"
      let amt ← fee.get "amt"
      some [.object [("tt".toList, .string "a".toList), ("to".toList, addr), ("amt".toList, amt),
        ("rl".toList, .string "of".toList)]]
  | none, none => some []

/-- `tt` of an allocation. -/
def allocationTarget (text : Text) : Option AllocationTarget :=
  if text = "a".toList then some .account
  else if text = "h".toList then some .authority
  else if text = "b".toList then some .burn
  else none

/-- `normalize_token_allocation_role`. -/
def allocationRole (role : Text) : Option Text :=
  let role := env.toLowercase role
  if role = "of".toList ∨ role = "sr".toList ∨ role = "bn".toList then some role else none

/-- A staking authority accepts the reward of an allocation. -/
def ProofStore.acceptsReward (store : ProofStore) (auth : Text) (config : AuthorityConfigRecord)
    (tick : Text) : Bool :=
  config.k = "stk".toList && rewardTickAllowed env config (jsonStringifyLower env tick) &&
    (store.totalShares auth ≠ 0 ||
      ((config.r.get "ep").bind Json.asStr).any fun policy =>
        policy = "hold".toList || policy = "carry".toList)

/-- The destination of an allocation in its normal form. -/
def ProofStore.allocationDest (store : ProofStore) (tick : Text) (tt : AllocationTarget)
    (role dest : Text) : Option Text :=
  match tt with
  | .account =>
      let address := normalizeAddress env dest
      if isValidBitcoinAddress env context address then some address else none
  | .authority => do
      let config ← store.ah.lookup dest
      guard (role ≠ "sr".toList ∨ store.acceptsReward env dest config tick)
      some dest
  | .burn => if dest = burnAddress then some dest else none

/-- One entry of `normalize_token_proof_allocations`. -/
def ProofStore.allocation (store : ProofStore) (tick : Text) (decimals maxAmount : ℕ) (entry : Json) :
    Option TokenAllocationRecord := do
  let tt ← allocationTarget (env.toLowercase (← (← entry.get "tt").asStr))
  let dest ← (← entry.get "to").asStr
  let amt ← entry.get "amt"
  let role ← allocationRole env (entry.text "rl")
  guard (!refusedNumber env context amt)
  let amount ← resolvedI128 (jsValueToString amt) decimals
  guard (0 < amount ∧ amount ≤ maxAmount)
  let dest ← store.allocationDest env context tick tt role dest
  some { tt := tt, dest := dest, amt := amount, rl := role }

/-- `normalize_token_proof_allocations`: every role at most once, and the sum below the cap. -/
def ProofStore.normalizeAllocations (store : ProofStore) (action : Json) (tick : Text)
    (decimals maxAmount : ℕ) : Option (List TokenAllocationRecord × ℤ) := do
  let raw ← rawAllocations action
  let allocations ← raw.mapM (store.allocation env context tick decimals maxAmount)
  guard (allocations.map TokenAllocationRecord.rl).Nodup
  let total := (allocations.map TokenAllocationRecord.amt).sum
  guard (total ≤ maxAmount)
  some (allocations, total)

def hashCondition (condition : Json) : Option LockCondition := do
  let hash ← (← condition.get "hash").asStr
  guard (isValidSha256Hex hash)
  some (.hashlock (env.toLowercase hash))

def ProofStore.authorityCondition (store : ProofStore) (condition : Json) : Option LockCondition := do
  let auth ← (← condition.get "auth").asStr
  guard (store.authorityActive auth)
  some (.authority auth)

/-- `validate_token_proof_lock_kind`: the condition in its normal form. -/
def ProofStore.lockKind (store : ProofStore) (action : Json) (kind : Text)
    (link : TokenAuthCreateRecord) : Option LockCondition := do
  let condition ← action.get "condition"
  let conditionType := env.toLowercase (condition.text "type")
  let hasRefund :=
    ((action.get "refund").bind Json.asStr).isSome && (storageHeight (action.get "refund_after")).isSome
  let noRefund := (action.get "refund").isNone && (action.get "refund_after").isNone
  guard (env.optionalData (action.get "data"))
  if kind = "htlc".toList then
    guard (conditionType = "hashlock".toList ∧ hasRefund)
    hashCondition env condition
  else if kind = "vesting".toList ∨ kind = "cooldown".toList then
    let min ← storageHeight (condition.get "min")
    guard (conditionType = "height".toList ∧ noRefund)
    guard (kind = "vesting".toList ∨ (action.get "claim").bind Json.asStr = some link.addr)
    guard (env.appData action ["dom", "ref"])
    some (.height min)
  else if kind = "escrow".toList then
    let fields := ["dom", "ref", "payer", "payee"]
    guard (env.appData action fields)
    let data ← action.get "data"
    let payer := normalizeAddress env (← (← data.get "payer").asStr)
    let payee := normalizeAddress env (← (← data.get "payee").asStr)
    guard (env.appData
      (action.set "data" ((data.set "payer" (.string payer)).set "payee" (.string payee))) fields)
    guard (conditionType = "authority".toList ∧ hasRefund ∧ payer = link.addr ∧
      (action.get "claim").bind Json.asStr = some payee)
    store.authorityCondition condition
  else if kind = "otc".toList then
    guard (hasRefund ∧ env.appData action ["dom", "ref", "cp"])
    if conditionType = "hashlock".toList then hashCondition env condition
    else do
      guard (conditionType = "authority".toList)
      store.authorityCondition condition
  else none

def lockRefund (action : Json) : Option (Option Address) :=
  match action.get "refund" with
  | none => some none
  | some value => do
      let refund := normalizeAddress env (← value.asStr)
      guard (isValidBitcoinAddress env context refund)
      some (some refund)

/-- `validate_token_proof_lock_action`: the lock, its ticker key and the amount it binds. -/
def validateTokenProofLockAction (action : Json) (link : TokenAuthCreateRecord) (store : ProofStore) :
    Option (TokenLockRecord × TickKey × ℤ) := do
  let kind := env.toLowercase (← (← action.get "kind").asStr)
  let tick ← (← action.get "tick").asStr
  let tickKey := jsonStringifyLower env tick
  let deployed ← store.d.lookup tickKey
  let amt ← action.get "amt"
  guard (!refusedNumber env context amt)
  let amount ← resolvedI128 (jsValueToString amt) deployed.dec
  let maxAmount ← resolvedI128 maxDecU64Str deployed.dec
  guard (0 < amount ∧ amount ≤ maxAmount)
  let (allocations, allocationAmount) ←
    store.normalizeAllocations env context action tick deployed.dec maxAmount
  let total ← checkedAddI128 amount allocationAmount
  guard (0 < total ∧ total ≤ maxAmount)
  let claim := normalizeAddress env (← (← action.get "claim").asStr)
  guard (isValidBitcoinAddress env context claim)
  let action := action.set "claim" (.string claim)
  let refund ← lockRefund env context action
  let condition ← store.lockKind env action kind link
  guard (action.get "cert").isNone
  let control ← env.controlPolicy (action.get "control") action
  guard (0 ≤ store.available env context link.addr tickKey total)
  some
    ({ owner := link.addr
       tick := env.jsToLowercase tick
       remaining := amount
       al := allocations
       claim := claim
       refund := refund
       condition := condition
       refundAfter := storageHeight (action.get "refund_after")
       control := control }, tickKey, total)

def tapAddLockedAmount (address : Address) (tick : TickKey) (delta : ℤ) : ProofHandler Unit := do
  let current ← Proc.read fun store => i128At store.ll address tick
  let next := wrapI128 (current + delta)
  require (0 ≤ next)
  Proc.write fun store => { store with ll := store.ll.insert (address, tick) next }

/-- `tap_token_proof_lock_id`, which obligations use too. -/
def tokenProofLockId (place : ActionPlace) : Text :=
  place.inscription ++ ':' :: Nat.toDigits 10 place.index

def processTokenProofLockAction (action : Json) (link : TokenAuthCreateRecord) (place : ActionPlace) :
    ProofHandler Unit := do
  let validated ← Proc.read (validateTokenProofLockAction env context action link)
  let (lock, tickKey, total) ← get validated
  let id := tokenProofLockId place
  let existing ← Proc.read fun store => store.l.lookup id
  require existing.isNone
  tapAddLockedAmount link.addr tickKey total
  Proc.write fun store => { store with l := store.l.insert id lock }

/-! ### Releases -/

/-- The key of a lock's ticker. -/
def TokenLockRecord.tickKey (lock : TokenLockRecord) : TickKey :=
  jsonStringifyLower env lock.tick

/-- `op` of a release. -/
def releaseAction (name : Text) : Option ReleaseAction :=
  if name = "claim".toList then some .claim
  else if name = "refund".toList then some .refund
  else none

/-- The check of a lock's condition and times, and the address it is released to. -/
def TokenLockRecord.target (lock : TokenLockRecord) (release : ReleaseAction) (action : Json)
    (link : Option TokenAuthCreateRecord) : Option Address :=
  match release, lock.condition with
  | .claim, .hashlock hash => do
      let refundAfter ← lock.refundAfter
      guard (context.height < refundAfter)
      let preimage ← action.get "preimage"
      guard (env.toLowercase (hashProofPreimage env preimage) = env.toLowercase hash)
      some lock.claim
  | .claim, .height min => do
      guard (min ≤ context.height)
      some lock.claim
  | .claim, .authority auth => do
      guard ((← link).ins = auth)
      some lock.claim
  | .refund, _ => do
      let refundAfter ← lock.refundAfter
      guard (refundAfter ≤ context.height)
      lock.refund

/-- The sum of the allocations of a lock, all of which have to be positive. -/
def allocationTotal : List TokenAllocationRecord → ℤ → Option ℤ
  | [], total => some total
  | allocation :: rest, total => do
      guard (0 < allocation.amt)
      allocationTotal rest (← checkedAddI128 total allocation.amt)

/-- What `validate_token_proof_release_action` finds out. -/
structure TokenProofReleaseValidation where
  id : Text
  lock : TokenLockRecord
  action : ReleaseAction
  target : Address
  total : ℤ
  nonce : Option Text

def validateTokenProofReleaseAction (action : Json) (link : Option TokenAuthCreateRecord)
    (store : ProofStore) : Option TokenProofReleaseValidation := do
  guard ((action.get "fee").isNone ∧ (action.get "control").isNone)
  let id ← (← action.get "lock").asStr
  guard (store.lc.lookup id).isNone
  let lock ← store.l.lookup id
  let name := env.toLowercase (action.text "op")
  let release ← releaseAction name
  let target ← lock.target env context release action link
  let tickKey := lock.tickKey env
  guard (0 < lock.remaining)
  let allocationAmount ← allocationTotal lock.al 0
  let total ← checkedAddI128 lock.remaining allocationAmount
  guard (total ≤ i128At store.b lock.owner tickKey ∧
    total ≤ store.lockedAmount env context lock.owner tickKey)
  let nonce ← env.certificate (fun nonce => (store.ccn.lookup nonce).isSome) action lock.control name
    context.height
  some { id := id, lock := lock, action := release, target := target, total := total, nonce := nonce }

def addDelta (deltas : KeyTable Address ℤ) (delta : Address × ℤ) : KeyTable Address ℤ :=
  deltas.insert delta.1 (wrapI128 ((deltas.lookup delta.1).getD 0 + delta.2))

/-- What a release credits to accounts, in the order of the source. -/
def releaseCredits (lock : TokenLockRecord) (action : ReleaseAction) (target : Address) (total : ℤ) :
    List (Address × ℤ) :=
  match action with
  | .claim =>
      (target, lock.remaining) ::
        (lock.al.filter (·.tt = .account)).map fun allocation => (allocation.dest, allocation.amt)
  | .refund => [(target, total)]

/-- The balances after a release, or `none` when one is out of range or negative. -/
def ProofStore.balancesAfter (store : ProofStore) (tick : TickKey) :
    List (Sigma fun _ : Address => ℤ) → Option (List (Address × ℤ))
  | [] => some []
  | ⟨address, delta⟩ :: rest => do
      let after ← checkedAddI128 (i128At store.b address tick) delta
      guard (0 ≤ after)
      let balances ← store.balancesAfter tick rest
      some ((address, after) :: balances)

/-- `tap_apply_authority_allocation_credit`. -/
def applyAuthorityAllocationCredit (tickKey : TickKey) (allocation : TokenAllocationRecord) :
    ProofHandler Unit := do
  tapAddAuthorityBalance env allocation.dest tickKey allocation.amt
  if allocation.rl = "sr".toList then
    applyAuthorityRewardAllocation allocation.dest tickKey allocation.amt
  else pure ()

/-- The credits of the allocations to authorities. -/
def creditAllocations (tickKey : TickKey) : List TokenAllocationRecord → ProofHandler Unit
  | [] => pure ()
  | allocation :: rest => do
      applyAuthorityAllocationCredit env tickKey allocation
      creditAllocations tickKey rest

/-- Write the balances of a list of accounts. -/
def ProofStore.putBalances (tick : TickKey) (balances : List (Address × ℤ)) (store : ProofStore) :
    ProofStore :=
  balances.foldl (fun store row => store.putBalance row.1 tick row.2) store

/-- The allocations that a release pays to authorities. -/
def releaseAllocations (lock : TokenLockRecord) : ReleaseAction → List TokenAllocationRecord
  | .claim => lock.al.filter (·.tt = .authority)
  | .refund => []

def processTokenProofReleaseAction (action : Json) (link : Option TokenAuthCreateRecord) :
    ProofHandler Unit := do
  let validated ← Proc.read (validateTokenProofReleaseAction env context action link)
  let release ← get validated
  let lock := release.lock
  let tickKey := lock.tickKey env
  tapAddLockedAmount lock.owner tickKey (-release.total)
  let deltas := ((lock.owner, -release.total) ::
    releaseCredits lock release.action release.target release.total).foldl addDelta ∅
  let after ← Proc.read fun store => store.balancesAfter tickKey deltas.entries
  let balances ← get after
  creditAllocations env tickKey (releaseAllocations lock release.action)
  Proc.write (ProofStore.putBalances tickKey balances)
  Proc.write fun store =>
    { store with
      ccn := release.nonce.elim store.ccn fun nonce => store.ccn.insert nonce () }
  Proc.write fun store =>
    { store with
      lc := store.lc.insert release.id
        { action := release.action
          owner := lock.owner
          target := release.target
          tick := lock.tick
          amt := lock.remaining
          al := lock.al
          blck := context.height } }

end Actions

end OrdDogecoin.Tap
