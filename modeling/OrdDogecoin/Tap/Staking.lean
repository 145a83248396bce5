/-
Module: OrdDogecoin.Tap.Staking
Purpose: Staking authorities: reward allocations through the scaled accumulator, stakes, reward claims
  and unstakes, each with its reads and writes in the order of the source.
Trusted boundary: as in OrdDogecoin.Tap.Authority
Main exports: applyAuthorityRewardAllocation, StakingRun, stakingStep
-/
import OrdDogecoin.Tap.Authority

namespace OrdDogecoin.Tap

open ProofHandler

/-! ### The reward accumulator -/

def authorityRewardPrecision : ℤ := 1000000000000000000

/-- `authority_reward_debt_string`. -/
def authorityRewardDebt (shares acc : ℤ) : ℤ := (shares * acc).tdiv authorityRewardPrecision

/-- `authority_reward_pending_i128`, zero when it does not fit. -/
def authorityRewardPending (shares acc paid : ℤ) : ℤ :=
  let value := authorityRewardDebt shares acc - paid
  if value ≤ 0 then 0 else (readI128 value).getD 0

namespace ProofStore

/-- `tap_get_authority_total_shares`. -/
def totalShares (store : ProofStore) (auth : Text) : ℤ := (store.ahs.lookup auth).getD 0

/-- `tap_get_authority_acc_reward`. -/
def accReward (store : ProofStore) (auth : Text) (tick : TickKey) : ℤ :=
  (store.ahrps.lookup (auth, tick)).getD 0

/-- `tap_get_authority_reward_carry`. -/
def rewardCarry (store : ProofStore) (auth : Text) (tick : TickKey) : ℤ :=
  (store.ahrc.lookup (auth, tick)).getD 0

end ProofStore

/-- `tap_set_authority_total_shares`. -/
def setAuthorityTotalShares (auth : Text) (shares : ℤ) : ProofHandler Unit := do
  require (0 ≤ shares)
  Proc.write fun store => { store with ahs := store.ahs.insert auth shares }

/-- `tap_set_authority_acc_reward`. -/
def setAuthorityAccReward (auth : Text) (tick : TickKey) (acc : ℤ) : ProofHandler Unit := do
  require (0 ≤ acc)
  Proc.write fun store => { store with ahrps := store.ahrps.insert (auth, tick) acc }

/-- `tap_set_authority_reward_carry`. -/
def setAuthorityRewardCarry (auth : Text) (tick : TickKey) (carry : ℤ) : ProofHandler Unit := do
  require (0 ≤ carry)
  Proc.write fun store => { store with ahrc := store.ahrc.insert (auth, tick) carry }

/-- How `tap_apply_authority_reward_allocation` splits what it may distribute: the step of the
accumulator and what is taken off the carry, or `none` when everything is carried. -/
def rewardSplit (distributable totalShares : ℤ) : Option (ℤ × ℤ) :=
  if totalShares = 0 then none
  else
    let delta := (distributable * authorityRewardPrecision).tdiv totalShares
    if delta ≤ 0 then none
    else
      let distributed := (delta * totalShares).tdiv authorityRewardPrecision
      if distributed ≤ 0 ∨ distributable < distributed then none else some (delta, distributed)

/-- `tap_apply_authority_reward_allocation`. -/
def applyAuthorityRewardAllocation (auth : Text) (tick : TickKey) (amount : ℤ) :
    ProofHandler Unit := do
  let found ← Proc.read fun store => store.ah.lookup auth
  let config ← get found
  require (config.k = "stk".toList)
  let totalShares ← Proc.read fun store => store.totalShares auth
  let carry ← Proc.read fun store => store.rewardCarry auth tick
  let acc ← Proc.read fun store => store.accReward auth tick
  let distributable := carry + amount
  match rewardSplit distributable totalShares with
  | none => setAuthorityRewardCarry auth tick distributable
  | some (delta, distributed) => do
      setAuthorityAccReward auth tick (acc + delta)
      setAuthorityRewardCarry auth tick (distributable - distributed)

section Actions

variable (env : ProofEnv) (context : TapContext)

/-- The tickers a staking authority takes rewards in; every ticker when it names none. -/
def rewardTickAllowed (config : AuthorityConfigRecord) (tick : TickKey) : Bool :=
  config.rt.isEmpty || (config.rt.map (jsonStringifyLower env)).contains tick

/-- `tap_apply_authority_allocation_credit` with the role of a staking reward, after the check of the
reward ticker that its callers make. -/
def applyStakingReward (auth tick : Text) (amount : ℤ) : ProofHandler Unit := do
  let tickKey := jsonStringifyLower env tick
  let found ← Proc.read fun store => store.ah.lookup auth
  let config ← get found
  require (rewardTickAllowed env config tickKey)
  tapAddAuthorityBalance env auth tickKey amount
  applyAuthorityRewardAllocation auth tickKey amount

/-- `tap_authority_reward_debt_ticks`. -/
def ProofStore.rewardDebtTicks (store : ProofStore) (auth : Text) (config : AuthorityConfigRecord) :
    List Text :=
  if !config.rt.isEmpty then config.rt.map env.jsToLowercase
  else ((store.abli.lookup auth).getD []).filterMap fun label =>
    (env.strings.read label).map env.jsToLowercase

def AuthorityConfigRecord.tier (config : AuthorityConfigRecord) (tierId : Text) : Option Json := do
  let tiers ← (config.r.get "tr").bind Json.asArray
  tiers.find? fun tier => ((tier.get "id").bind Json.asStr) = some tierId

/-- `tap_token_stake_position_id`. -/
def stakePositionId (place : ActionPlace) : Text :=
  place.inscription ++ ':' :: Nat.toDigits 10 place.index

/-- A number where a text is asked for, from `ValueStringifyActivation` on. -/
def refusedNumber (amt : Json) : Bool :=
  featureEnabled env context .valueStringifyActivation && amt.isNumber

/-- `validate_stake_action`: the identifier and the position it opens, owned by the first address. -/
def validateStakeAction (action : Json) (link : Option TokenAuthCreateRecord) (place : ActionPlace)
    (store : ProofStore) : Option (Text × Address × StakePositionRecord) := do
  let link ← link
  let auth ← (← action.get "auth").asStr
  let tick := env.jsToLowercase (← (← action.get "tick").asStr)
  let amt ← action.get "amt"
  guard (!refusedNumber env context amt)
  let tierId ← (← action.get "tier").asStr
  let claim := normalizeAddress env (← (← action.get "claim").asStr)
  guard (isValidBitcoinAddress env context claim)
  let config ← store.ah.lookup auth
  guard (config.k = "stk".toList ∧ config.stk = tick)
  let tier ← config.tier tierId
  let dur ← (tier.get "dur").bind jsParseInt
  let weight ← parseBigInt (jsValueToString (← tier.get "w"))
  guard (0 < dur ∧ 0 < weight)
  let tickKey := jsonStringifyLower env tick
  let deployed ← store.d.lookup tickKey
  let amount ← resolvedI128 (jsValueToString amt) deployed.dec
  let shares := (amount : ℤ) * weight
  guard (0 < amount ∧ 0 < shares)
  guard (0 ≤ store.available env context link.addr tickKey amount)
  let _ ← checkedAddI128 (store.authorityBalance auth tickKey) amount
  let debt := (store.rewardDebtTicks env auth config).foldl
    (fun debt rewardTick => debt.insert rewardTick
      (authorityRewardDebt shares
        (store.accReward auth (jsonStringifyLower env rewardTick)))) ∅
  guard (context.height + dur < 2 ^ 32)
  some (stakePositionId place, link.addr,
    { auth := auth
      claim := claim
      tick := tick
      amt := amount
      shares := shares
      uh := (context.height + dur).toNat
      debt := debt
      status := .opened })

def processStakeAction (action : Json) (link : Option TokenAuthCreateRecord) (place : ActionPlace) :
    ProofHandler Unit := do
  let validated ← Proc.read (validateStakeAction env context action link place)
  let (id, addr, position) ← get validated
  let existing ← Proc.read fun store => store.sp.lookup id
  require existing.isNone
  let tickKey := jsonStringifyLower env position.tick
  let balance ← Proc.read fun store => i128At store.b addr tickKey
  let after := wrapI128 (balance - position.amt)
  require (0 ≤ after)
  Proc.write (ProofStore.putBalance addr tickKey after)
  tapAddAuthorityBalance env position.auth tickKey position.amt
  let oldShares ← Proc.read fun store => store.totalShares position.auth
  setAuthorityTotalShares position.auth (oldShares + position.shares)
  Proc.write fun store => { store with sp := store.sp.insert id position }

def ProofStore.pendingStakeReward (store : ProofStore) (position : StakePositionRecord)
    (rewardTick : Text) : ℤ :=
  authorityRewardPending position.shares
    (store.accReward position.auth (jsonStringifyLower env rewardTick))
    ((position.debt.lookup rewardTick).getD 0)

/-- The part of `process_claim_reward_action` after its fields are read. -/
def claimReward (auth posId rewardTick : Text) : ProofHandler Unit := do
  let found ← Proc.read fun store => store.sp.lookup posId
  let position ← get found
  require (position.auth = auth ∧ position.status = .opened)
  let rewardKey := jsonStringifyLower env rewardTick
  let pending ← Proc.read fun store => store.pendingStakeReward env position rewardTick
  require (0 < pending)
  let authBalance ← Proc.read fun store => store.authorityBalance auth rewardKey
  require (pending ≤ authBalance)
  tapCreditAddressBalance position.claim rewardKey pending
  tapSetAuthorityBalance env auth rewardKey (authBalance - pending)
  let acc ← Proc.read fun store => store.accReward auth rewardKey
  let debt := position.debt.insert rewardTick (authorityRewardDebt position.shares acc)
  Proc.write fun store => { store with sp := store.sp.insert posId { position with debt := debt } }
  Proc.write fun store =>
    { store with
      rcli := store.rcli ++
        [{ auth := auth, pos := posId, rt := rewardTick, claim := position.claim, amt := pending }] }

def processClaimRewardAction (action : Json) : ProofHandler Unit := do
  let auth ← get ((action.get "auth").bind Json.asStr)
  let posId ← get ((action.get "pos").bind Json.asStr)
  let rewardTick ← get ((action.get "rt").bind Json.asStr)
  claimReward env auth posId (env.jsToLowercase rewardTick)

/-- The reward that an unstake claims on the way. -/
def unstakeReward (auth posId : Text) (position : StakePositionRecord) (rewardTick : Text) :
    ProofHandler Unit := do
  let pending ← Proc.read fun store => store.pendingStakeReward env position rewardTick
  if 0 < pending then do
    let rewardKey := jsonStringifyLower env rewardTick
    let stakeKey := jsonStringifyLower env position.tick
    let rewardBalance ← Proc.read fun store => store.authorityBalance auth rewardKey
    require (pending ≤ rewardBalance)
    require (rewardKey ≠ stakeKey ∨ wrapI128 (pending + position.amt) ≤ rewardBalance)
    claimReward env auth posId rewardTick
  else pure ()

/-- Pay the principal of a position and close it. -/
def closePosition (posId : Text) (position : StakePositionRecord) : ProofHandler Unit := do
  let tickKey := jsonStringifyLower env position.tick
  let authBalance ← Proc.read fun store => store.authorityBalance position.auth tickKey
  require (0 < position.amt ∧ position.amt ≤ authBalance)
  tapCreditAddressBalance position.claim tickKey position.amt
  tapSetAuthorityBalance env position.auth tickKey (authBalance - position.amt)
  let oldShares ← Proc.read fun store => store.totalShares position.auth
  setAuthorityTotalShares position.auth (oldShares - position.shares)
  Proc.write fun store =>
    { store with sp := store.sp.insert posId { position with status := .closed } }

def processUnstakeAction (action : Json) (link : Option TokenAuthCreateRecord) :
    ProofHandler Unit := do
  let auth ← get ((action.get "auth").bind Json.asStr)
  let posId ← get ((action.get "pos").bind Json.asStr)
  let found ← Proc.read fun store => store.sp.lookup posId
  let position ← get found
  require (position.auth = auth ∧ position.status = .opened ∧ position.uh ≤ context.height)
  require (link.all fun link => link.addr = position.claim)
  match (action.get "rt").bind Json.asStr with
  | none => closePosition env posId position
  | some rewardTick => do
      unstakeReward env auth posId position (env.jsToLowercase rewardTick)
      -- the claim has written the debt of the position
      let found ← Proc.read fun store => store.sp.lookup posId
      let position ← get found
      closePosition env posId position

end Actions

/-! ### Runs -/

/-- What happens to staking authorities. -/
inductive StakingAction where
  | allocate (auth tick : Text) (amount : ℤ)
  | stake (context : TapContext) (link : Option TokenAuthCreateRecord) (place : ActionPlace)
      (action : Json)
  | claimReward (action : Json)
  | unstake (context : TapContext) (link : Option TokenAuthCreateRecord) (action : Json)

def StakingAction.handler (env : ProofEnv) : StakingAction → ProofHandler Unit
  | .allocate auth tick amount => applyStakingReward env auth tick amount
  | .stake context link place action => processStakeAction env context action link place
  | .claimReward action => processClaimRewardAction env action
  | .unstake context link action => processUnstakeAction env context action link

/-- The rows, and the rewards allocated so far. -/
structure StakingRun where
  store : ProofStore
  allocated : Text → TickKey → ℤ

/-- What an action allocates to an authority in a ticker. -/
def StakingAction.allocates (env : ProofEnv) (auth : Text) (tick : TickKey) : StakingAction → ℤ
  | .allocate auth' tick' amount =>
      if auth = auth' ∧ tick = jsonStringifyLower env tick' then amount else 0
  | _ => 0

def stakingStep (env : ProofEnv) (run : StakingRun) (action : StakingAction) : Option StakingRun :=
  ((action.handler env).commit run.store).map fun store =>
    { store := store
      allocated := fun auth tick => run.allocated auth tick + action.allocates env auth tick }

end OrdDogecoin.Tap
