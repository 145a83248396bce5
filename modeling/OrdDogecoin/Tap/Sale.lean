/-
Module: OrdDogecoin.Tap.Sale
Purpose: Token sales: their configuration and the eight actions on a sale, each with its reads and
  writes in the order of the source.
Trusted boundary: as in OrdDogecoin.Tap.Authority
Main exports: processSaleConfigAction, SaleAction, saleStep
-/
import OrdDogecoin.Tap.Amm

namespace OrdDogecoin.Tap

open ProofHandler

/-- `SaleTarget`. -/
inductive SaleTarget where
  | account (dest : Address)
  | authority (dest : Text)
  | burn
deriving DecidableEq, Repr

/-- `token_sale_target_value`. -/
def SaleTarget.value : SaleTarget → Json
  | .account dest => .object [("tt".toList, .string "a".toList), ("to".toList, .string dest)]
  | .authority dest => .object [("tt".toList, .string "h".toList), ("to".toList, .string dest)]
  | .burn => .object [("tt".toList, .string "b".toList), ("to".toList, .string burnAddress)]

section Actions

variable (env : ProofEnv) (context : TapContext)

namespace AuthorityConfigRecord

variable (config : AuthorityConfigRecord)

/-- The key of the ticker that is sold. -/
def saleKey : TickKey := jsonStringifyLower env (config.st.getD [])

/-- The key of the ticker that is paid with. -/
def paymentKey : TickKey := jsonStringifyLower env (config.pt.getD [])

end AuthorityConfigRecord

/-! ### Amounts and targets -/

/-- `token_proof_resolve_protocol_amount`. -/
def resolveProtocolI128 (value : Json) (deployed : DeployRecord) : Option ℤ := do
  guard (!refusedNumber env context value)
  let amount ← resolvedI128 (jsValueToString value) deployed.dec
  let maxAmount ← resolvedI128 maxDecU64Str deployed.dec
  guard (0 < amount ∧ amount ≤ maxAmount)
  some amount

/-- `validate_token_sale_target`. -/
def ProofStore.validateSaleTarget (store : ProofStore) (value : Json) : Option SaleTarget := do
  guard value.isObject
  let tt := env.toLowercase (← (← value.get "tt").asStr)
  let dest ← (← value.get "to").asStr
  if tt = "a".toList then
    let address := normalizeAddress env dest
    guard (isValidBitcoinAddress env context address)
    some (.account address)
  else if tt = "h".toList then
    let _ ← store.ah.lookup dest
    some (.authority dest)
  else if tt = "b".toList then
    guard (dest = burnAddress)
    some .burn
  else none

def creditTarget (target : SaleTarget) (tick : TickKey) (amount : ℤ) : ProofHandler Unit :=
  match target with
  | .account address => tapCreditAddressBalance address tick amount
  | .authority auth => tapAddAuthorityBalance env auth tick amount
  | .burn => pure ()

def creditSaleTarget (config : AuthorityConfigRecord) (tick : TickKey) (amount : ℤ) :
    ProofHandler Unit := do
  let treasury ← get config.tre
  let validated ← Proc.read fun store => store.validateSaleTarget env context treasury
  let target ← get validated
  creditTarget env target tick amount

/-! ### Allowlists -/

def tokenSaleMerkleParent (left right : Text) : Text :=
  let left := env.toLowercase left
  let right := env.toLowercase right
  env.sha256Hex (hexDecode (if right < left then right ++ left else left ++ right))

/-- The root above a leaf, or nothing when a sibling is no hash. -/
def tokenSaleMerkleRoot : List Json → Text → Option Text
  | [], node => some node
  | sibling :: proof, node => do
      let sibling ← sibling.asStr
      guard (isValidSha256Hex sibling)
      tokenSaleMerkleRoot proof (tokenSaleMerkleParent env node sibling)

/-- The leaf of a contributor: his address, with the cap he proves when caps are asked for. -/
def tokenSaleLeaf (capped : Bool) (proof : Json) (claim : Address) (amount : ℤ)
    (deployed : DeployRecord) : Option Text :=
  if capped then do
    let cap ← resolveProtocolI128 env context (← proof.get "max") deployed
    guard (amount ≤ cap)
    some (claim ++ ':' :: Nat.toDigits 10 cap.toNat)
  else some claim

def validateTokenSaleAllowlist (allowlist : Option SaleAllowlist) (action : Json) (claim : Address)
    (amount : ℤ) (deployed : DeployRecord) : Bool :=
  match allowlist with
  | none => (action.get "alw").isNone
  | some allowlist =>
      (do
        let proofObject ← action.get "alw"
        guard proofObject.isObject
        let proof ← (← proofObject.get "proof").asArray
        guard (proof.length ≤ 32)
        let leaf ← tokenSaleLeaf env context allowlist.capped proofObject claim amount deployed
        let root ← tokenSaleMerkleRoot env proof
          (env.sha256Hex (leaf.flatMap String.utf8EncodeChar))
        guard (env.toLowercase root = env.toLowercase allowlist.root)).isSome

/-! ### Configuration -/

def optionalAmount (value : Option Json) (deployed : DeployRecord) : Option (Option ℤ) :=
  match value with
  | none => some none
  | some value => (resolveProtocolI128 env context value deployed).map some

def saleAllowlist (value : Option Json) : Option (Option SaleAllowlist) :=
  match value with
  | none => some none
  | some .null => some none
  | some value => do
      guard (value.isObject ∧ value.text "ty" = "sha256-merkle".toList)
      let lf ← (← value.get "lf").asStr
      guard (lf = "addr".toList ∨ lf = "addr-cap".toList)
      let root ← (← value.get "root").asStr
      guard (isValidSha256Hex root)
      some (some { capped := lf = "addr-cap".toList, root := env.toLowercase root })

def saleTerms (terms : Json) (sold paid : DeployRecord) : Option SaleTerms := do
  guard terms.isObject
  let rate ← terms.get "r"
  guard rate.isObject
  let sh ← storageHeight (terms.get "sh")
  let eh ← storageHeight (terms.get "eh")
  guard (sh < eh)
  let hc ← resolveProtocolI128 env context (← terms.get "hc") paid
  let sc ← optionalAmount env context (terms.get "sc") paid
  let mn ← optionalAmount env context (terms.get "mn") paid
  let mx ← optionalAmount env context (terms.get "mx") paid
  let pa ← resolveProtocolI128 env context (← rate.get "pa") paid
  let sa ← resolveProtocolI128 env context (← rate.get "sa") sold
  guard (sc.all (· ≤ hc) ∧ mn.all (fun min => mx.all (min ≤ ·)))
  guard (rate.text "cm" = "fix".toList ∧ rate.text "rnd" = "flr".toList)
  guard (terms.text "ov" = "reject".toList)
  let alw ← saleAllowlist env (terms.get "alw")
  some
    { sh := sh
      eh := eh
      hc := hc
      sc := sc
      mn := mn
      mx := mx
      pa := pa
      sa := sa
      cx := ((terms.get "cx").bind Json.asBool).getD false
      alw := alw }

/-- The sale branch of `validate_authority_config_action`. -/
def validateSaleConfigAction (action : Json) (link : Option TokenAuthCreateRecord)
    (place : ActionPlace) (store : ProofStore) : Option (Text × AuthorityConfigRecord) := do
  let link ← link
  guard (action.text "k" = "sale".toList ∧ env.toLowercase (action.text "op") = "auth-cfg".toList)
  let st ← (← action.get "st").asStr
  let pt ← (← action.get "pt").asStr
  let control ← action.get "ctl"
  let controlAuth ← (← control.get "auth").asStr
  guard (control.text "ty" = "ta".toList ∧ controlAuth = link.ins)
  let id := tokenProofLockId place
  guard (store.ah.lookup id).isNone
  let (_, sold) ← store.getDeploy env st
  let (_, paid) ← store.getDeploy env pt
  let treasury ← store.validateSaleTarget env context (← action.get "tre")
  let terms ← saleTerms env context (← action.get "s") sold paid
  some (id,
    { k := "sale".toList
      stk := []
      rt := []
      r := .null
      st := some (env.jsToLowercase st)
      pt := some (env.jsToLowercase pt)
      ctl := some link.ins
      tre := some treasury.value
      s := some terms })

/-- `process_authority_config_action` of a sale. -/
def processSaleConfigAction (action : Json) (link : Option TokenAuthCreateRecord)
    (place : ActionPlace) : ProofHandler Unit := do
  let validated ← Proc.read (validateSaleConfigAction env context action link place)
  let (id, config) ← get validated
  Proc.write fun store => { store with ah := store.ah.insert id config }

/-! ### Funding and contributions -/

/-- `tap_get_sale_status`. -/
def ProofStore.saleStatus (store : ProofStore) (auth : Text) : SaleStatusRecord :=
  (store.sale.lookup auth).getD {}

/-- `tap_put_sale_status` of a changed status. -/
def putSaleStatus (auth : Text) (change : SaleStatusRecord → SaleStatusRecord) : ProofHandler Unit :=
  Proc.write fun store =>
    { store with sale := store.sale.insert auth (change (store.saleStatus auth)) }

/-- Take an amount off an account and give it to an authority. -/
def payAuthority (address : Address) (auth : Text) (tick : TickKey) (amount : ℤ) :
    ProofHandler Unit := do
  let balance ← Proc.read fun store => i128At store.b address tick
  let after := wrapI128 (balance - amount)
  require (0 ≤ after)
  Proc.write (ProofStore.putBalance address tick after)
  tapAddAuthorityBalance env auth tick amount

/-- `validate_fund_sale_action`: the authority, the ticker key and the amount. -/
def validateFundSaleAction (action : Json) (link : TokenAuthCreateRecord) (store : ProofStore) :
    Option (Text × TickKey × ℤ) := do
  let auth ← (← action.get "auth").asStr
  let tick ← (← action.get "tick").asStr
  let config ← store.ah.lookup auth
  let (tickKey, record) ← store.getDeploy env tick
  guard (config.k = "sale".toList ∧ config.ctl = some link.ins ∧
    config.st = some (env.jsToLowercase tick))
  let amount ← resolveProtocolI128 env context (← action.get "amt") record
  guard (0 ≤ store.available env context link.addr tickKey amount)
  let _ ← checkedAddI128 (store.authorityBalance auth tickKey) amount
  some (auth, tickKey, amount)

def processFundSaleAction (action : Json) (link : Option TokenAuthCreateRecord) :
    ProofHandler Unit := do
  let link ← get link
  let validated ← Proc.read (validateFundSaleAction env context action link)
  let (auth, tickKey, amount) ← get validated
  payAuthority env link.addr auth tickKey amount
  putSaleStatus auth fun status => { status with inv := wrapI128 (status.inv + amount) }

/-- `i128::checked_mul`, and a division that rounds towards zero. -/
def checkedMulDiv (amount numerator denominator : ℤ) : Option ℤ := do
  let product ← readI128 (amount * numerator)
  readI128 (product.tdiv denominator)

def tokenSaleContributionAllocation (amount : ℤ) (terms : SaleTerms) : Option ℤ :=
  if terms.pa ≤ 0 ∨ terms.sa ≤ 0 then some 0 else checkedMulDiv amount terms.sa terms.pa

/-- A contribution within the limits of the terms. -/
def SaleTerms.admits (terms : SaleTerms) (amount nextExisting nextTotal : ℤ) : Bool :=
  terms.mn.all (· ≤ amount) && terms.mx.all (nextExisting ≤ ·) && decide (nextTotal ≤ terms.hc)

structure SaleContributionValidation where
  id : Text
  auth : Text
  claim : Address
  tickKey : TickKey
  amount : ℤ
  allocation : ℤ
  existingAmount : ℤ

def validateSaleContributionAction (action : Json) (link : TokenAuthCreateRecord)
    (place : ActionPlace) (store : ProofStore) : Option SaleContributionValidation := do
  let auth ← (← action.get "auth").asStr
  let tick ← (← action.get "tick").asStr
  let config ← store.ah.lookup auth
  let (tickKey, record) ← store.getDeploy env tick
  guard (config.k = "sale".toList ∧ config.pt = some (env.jsToLowercase tick))
  let status := store.saleStatus auth
  let terms ← config.s
  guard (!status.fin ∧ !status.can ∧ terms.sh ≤ context.height ∧ context.height ≤ terms.eh)
  let claim := normalizeAddress env (← (← action.get "claim").asStr)
  guard (isValidBitcoinAddress env context claim ∧ claim = link.addr)
  let amount ← resolveProtocolI128 env context (← action.get "amt") record
  let existingAmount := i128At store.scab auth claim
  let nextExisting ← checkedAddI128 existingAmount amount
  let nextTotal ← checkedAddI128 status.tc amount
  guard (terms.admits amount nextExisting nextTotal)
  guard (validateTokenSaleAllowlist env context terms.alw action claim amount record)
  let allocation ← tokenSaleContributionAllocation amount terms
  guard (0 < allocation)
  guard (0 ≤ store.available env context link.addr tickKey amount)
  let _ ← checkedAddI128 (store.authorityBalance auth tickKey) amount
  some
    { id := tokenProofLockId place
      auth := auth
      claim := claim
      tickKey := tickKey
      amount := amount
      allocation := allocation
      existingAmount := existingAmount }

def processSaleContributionAction (action : Json) (link : Option TokenAuthCreateRecord)
    (place : ActionPlace) : ProofHandler Unit := do
  let link ← get link
  let validated ← Proc.read (validateSaleContributionAction env context action link place)
  let normalized ← get validated
  let existing ← Proc.read fun store => store.scon.lookup normalized.id
  require existing.isNone
  payAuthority env link.addr normalized.auth normalized.tickKey normalized.amount
  putSaleStatus normalized.auth fun status =>
    { status with
      tc := wrapI128 (status.tc + normalized.amount)
      alc := wrapI128 (status.alc + normalized.allocation) }
  Proc.write fun store =>
    { store with
      scab := store.scab.insert (normalized.auth, normalized.claim)
        (wrapI128 (normalized.existingAmount + normalized.amount)) }
  Proc.write fun store =>
    { store with
      scon := store.scon.insert normalized.id
        { auth := normalized.auth
          claim := normalized.claim
          amt := normalized.amount
          sa := normalized.allocation
          status := .opened } }

/-! ### The end of a sale -/

/-- `validate_finalize_sale_action`: the authority, its configuration and the total that is paid. -/
def validateFinalizeSaleAction (action : Json) (link : Option TokenAuthCreateRecord)
    (store : ProofStore) : Option (Text × AuthorityConfigRecord × ℤ) := do
  let link ← link
  let auth ← (← action.get "auth").asStr
  let config ← store.ah.lookup auth
  guard (config.k = "sale".toList ∧ config.ctl = some link.ins)
  let status := store.saleStatus auth
  let terms ← config.s
  guard (!status.fin ∧ !status.can ∧ !status.pp)
  guard (terms.eh < context.height ∨ terms.hc ≤ status.tc)
  guard (terms.sc.getD 0 ≤ status.tc)
  guard (config.st.isSome ∧ config.pt.isSome)
  guard (status.alc ≤ store.authorityBalance auth (config.saleKey env) ∧
    status.tc ≤ store.authorityBalance auth (config.paymentKey env))
  some (auth, config, status.tc)

/-- Pay the total of a sale to the treasury, and finalize it. -/
def finalizeSale (auth : Text) (config : AuthorityConfigRecord) (amount : ℤ) : ProofHandler Unit := do
  let before ← Proc.read fun store => store.authorityBalance auth (config.paymentKey env)
  require (amount ≤ before)
  tapSetAuthorityBalance env auth (config.paymentKey env) (before - amount)
  creditSaleTarget env context config (config.paymentKey env) amount
  putSaleStatus auth fun status => { status with fin := true, pp := true }

def processFinalizeSaleAction (action : Json) (link : Option TokenAuthCreateRecord) :
    ProofHandler Unit := do
  let validated ← Proc.read (validateFinalizeSaleAction env context action link)
  let (auth, config, amount) ← get validated
  finalizeSale env context auth config amount

structure SaleResolveValidation where
  auth : Text
  config : AuthorityConfigRecord
  amount : ℤ
  finalized : Bool

def validateResolveSaleAction (action : Json) (store : ProofStore) :
    Option SaleResolveValidation := do
  let auth ← (← action.get "auth").asStr
  let config ← store.ah.lookup auth
  guard (config.k = "sale".toList)
  let status := store.saleStatus auth
  guard (!status.fin ∧ !status.can ∧ !status.pp)
  let terms ← config.s
  guard (terms.eh < context.height ∨ terms.hc ≤ status.tc)
  guard (config.st.isSome ∧ config.pt.isSome)
  -- a target that was validated can be credited
  let _ ← store.validateSaleTarget env context (← config.tre)
  let canFinalize := terms.sc.getD 0 ≤ status.tc ∧
    status.alc ≤ store.authorityBalance auth (config.saleKey env) ∧
    status.tc ≤ store.authorityBalance auth (config.paymentKey env)
  guard (canFinalize ∨ terms.eh < context.height)
  some { auth := auth, config := config, amount := status.tc, finalized := canFinalize }

def processResolveSaleAction (action : Json) : ProofHandler Unit := do
  let validated ← Proc.read (validateResolveSaleAction env context action)
  let normalized ← get validated
  if normalized.finalized then
    finalizeSale env context normalized.auth normalized.config normalized.amount
  else putSaleStatus normalized.auth fun status => { status with can := true, fail := true }

def processCancelSaleAction (action : Json) (link : Option TokenAuthCreateRecord) :
    ProofHandler Unit := do
  let link ← get link
  let auth ← get ((action.get "auth").bind Json.asStr)
  let found ← Proc.read fun store => store.ah.lookup auth
  let config ← get found
  let status ← Proc.read fun store => store.saleStatus auth
  require (config.k = "sale".toList ∧ config.ctl = some link.ins)
  require (config.s.any fun terms => terms.cx)
  require (!status.fin && !status.can)
  putSaleStatus auth fun status => { status with can := true }

/-! ### Claims, refunds and withdrawals -/

/-- Pay a contribution out, as claims and refunds do after their own checks. -/
def payContribution (auth cid : Text) (contribution : SaleContributionRecord) (tick : TickKey)
    (amount : ℤ) (settled : ContributionStatus) : ProofHandler Unit := do
  let authBalance ← Proc.read fun store => store.authorityBalance auth tick
  require (0 < amount ∧ amount ≤ authBalance)
  tapCreditAddressBalance contribution.claim tick amount
  tapSetAuthorityBalance env auth tick (authBalance - amount)
  Proc.write fun store =>
    { store with scon := store.scon.insert cid { contribution with status := settled } }

def processClaimSaleAction (action : Json) : ProofHandler Unit := do
  let auth ← get ((action.get "auth").bind Json.asStr)
  let cid ← get ((action.get "cid").bind Json.asStr)
  let found ← Proc.read fun store => store.ah.lookup auth
  let config ← get found
  let found ← Proc.read fun store => store.scon.lookup cid
  let contribution ← get found
  let status ← Proc.read fun store => store.saleStatus auth
  require (config.k = "sale".toList ∧ contribution.auth = auth ∧ contribution.status = .opened)
  require status.fin
  payContribution env auth cid contribution (config.saleKey env) contribution.sa .claimed
  putSaleStatus auth fun status => { status with clm := wrapI128 (status.clm + contribution.sa) }
  Proc.write fun store =>
    { store with
      sclaimli := store.sclaimli ++
        [{ auth := auth, cid := cid, claim := contribution.claim, amt := contribution.sa }] }

def processRefundSaleAction (action : Json) : ProofHandler Unit := do
  let auth ← get ((action.get "auth").bind Json.asStr)
  let cid ← get ((action.get "cid").bind Json.asStr)
  let found ← Proc.read fun store => store.ah.lookup auth
  let config ← get found
  let found ← Proc.read fun store => store.scon.lookup cid
  let contribution ← get found
  let status ← Proc.read fun store => store.saleStatus auth
  let terms ← get config.s
  require (config.k = "sale".toList ∧ contribution.auth = auth ∧ contribution.status = .opened)
  require (!status.fin && (status.can || terms.eh < context.height))
  require (status.can || status.tc < terms.sc.getD 0)
  payContribution env auth cid contribution (config.paymentKey env) contribution.amt .refunded
  putSaleStatus auth fun status => { status with ref := wrapI128 (status.ref + contribution.amt) }
  Proc.write fun store =>
    { store with
      srefli := store.srefli ++
        [{ auth := auth, cid := cid, claim := contribution.claim, amt := contribution.amt }] }

def saleWithdrawAllowed (config : AuthorityConfigRecord) (status : SaleStatusRecord) : Bool :=
  status.fin || status.can ||
    config.s.any fun terms => terms.eh < context.height && status.tc < terms.sc.getD 0

def saleOutstandingAllocation (status : SaleStatusRecord) : ℤ :=
  if status.clm < status.alc then wrapI128 (status.alc - status.clm) else 0

def saleWithdrawalReserve (config : AuthorityConfigRecord) (status : SaleStatusRecord) (tick : Text) :
    ℤ :=
  if !status.fin ∨ config.st ≠ some tick then 0 else saleOutstandingAllocation status

/-- The authority, the configuration, the target, the ticker key and the amount of a withdrawal. -/
def validateWithdrawSaleAction (action : Json) (link : TokenAuthCreateRecord) (store : ProofStore) :
    Option (Text × AuthorityConfigRecord × SaleTarget × TickKey × ℤ) := do
  let auth ← (← action.get "auth").asStr
  let config ← store.ah.lookup auth
  let tick ← (← action.get "tick").asStr
  let (tickKey, record) ← store.getDeploy env tick
  let target ← store.validateSaleTarget env context action
  let status := store.saleStatus auth
  guard (config.k = "sale".toList ∧ config.ctl = some link.ins ∧
    config.st = some (env.jsToLowercase tick))
  guard (saleWithdrawAllowed context config status)
  let amount ← resolveProtocolI128 env context (← action.get "amt") record
  let available ← readI128 (store.authorityBalance auth tickKey -
    saleWithdrawalReserve config status (env.jsToLowercase tick))
  guard (0 < amount ∧ amount ≤ available)
  some (auth, config, target, tickKey, amount)

def processWithdrawSaleAction (action : Json) (link : Option TokenAuthCreateRecord) :
    ProofHandler Unit := do
  let link ← get link
  let validated ← Proc.read (validateWithdrawSaleAction env context action link)
  let (auth, _, target, tickKey, amount) ← get validated
  let authBalance ← Proc.read fun store => store.authorityBalance auth tickKey
  tapSetAuthorityBalance env auth tickKey (authBalance - amount)
  creditTarget env target tickKey amount
  putSaleStatus auth fun status => { status with wdr := wrapI128 (status.wdr + amount) }

end Actions

/-! ### Runs -/

/-- What happens to sales. -/
inductive SaleAction where
  | config (context : TapContext) (link : Option TokenAuthCreateRecord) (place : ActionPlace)
      (action : Json)
  | fund (context : TapContext) (link : Option TokenAuthCreateRecord) (action : Json)
  | contribute (context : TapContext) (link : Option TokenAuthCreateRecord) (place : ActionPlace)
      (action : Json)
  | finalize (context : TapContext) (link : Option TokenAuthCreateRecord) (action : Json)
  | resolve (context : TapContext) (action : Json)
  | claim (action : Json)
  | refund (context : TapContext) (action : Json)
  | cancel (link : Option TokenAuthCreateRecord) (action : Json)
  | withdraw (context : TapContext) (link : Option TokenAuthCreateRecord) (action : Json)

def SaleAction.handler (env : ProofEnv) : SaleAction → ProofHandler Unit
  | .config context link place action => processSaleConfigAction env context action link place
  | .fund context link action => processFundSaleAction env context action link
  | .contribute context link place action =>
      processSaleContributionAction env context action link place
  | .finalize context link action => processFinalizeSaleAction env context action link
  | .resolve context action => processResolveSaleAction env context action
  | .claim action => processClaimSaleAction env action
  | .refund context action => processRefundSaleAction env context action
  | .cancel link action => processCancelSaleAction action link
  | .withdraw context link action => processWithdrawSaleAction env context action link

def saleStep (env : ProofEnv) (store : ProofStore) (action : SaleAction) : Option ProofStore :=
  (action.handler env).commit store

end OrdDogecoin.Tap
