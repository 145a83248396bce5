/-
Module: OrdDogecoin.Tap.Tokens
Purpose: The TAP handlers that deploy, mint, transfer and send tokens, each with its early returns
  and its reads and writes in the order of the source.
Trusted boundary: log rows and holder lists, which no token handler reads back, are not kept; the bare
  texts of the rows tl, to and dmtDi hold no internal marker, so that they read back as written
Main exports: indexDeployments, indexTokenSendExecuted, execInternalSendOne
-/
import OrdDogecoin.Tap.Store

namespace OrdDogecoin.Tap

open Chain TapHandler

/-- `MAX_DEC_U64_STR`. -/
def maxDecU64Str : Text := "18446744073709551615".toList

/-- `parse::<u128>` of a resolved amount. -/
def parseU128 (text : Text) : Option ℕ := (parseDigits text).filter (· < 2 ^ 128)

/-- `parse::<i128>` of a resolved amount. -/
def parseI128 (text : Text) : Option ℕ := (parseDigits text).filter (· < 2 ^ 127)

/-- An amount field in the smallest unit, as `u128`. -/
def resolvedU128 (text : Text) (decimals : ℕ) : Option ℕ :=
  (resolveNumberString text decimals).bind parseU128

/-- An amount field in the smallest unit, as `i128`. -/
def resolvedI128 (text : Text) (decimals : ℕ) : Option ℕ :=
  (resolveNumberString text decimals).bind parseI128

/-- A positive amount below the cap of a token, as sends and trades require it. -/
def cappedAmount (json : Json) (decimals : ℕ) : Option ℕ := do
  let amount ← resolvedI128 (jsValueToString json) decimals
  let maxAmount ← resolvedI128 maxDecU64Str decimals
  if 0 < amount ∧ amount ≤ maxAmount then some amount else none

section Handlers

variable (env : TapEnv) (context : TapContext)

/-! ### Deployments -/

/-- The `dec` field of a deployment: 18 unless it is a number below. -/
def deployDecimals (json : Json) : Option ℕ :=
  match json.get "dec" with
  | none => some 18
  | some value =>
      match jsParseInt value with
      | none => some 18
      | some parsed =>
          if 0 ≤ parsed ∧ parsed < 18 then
            if isValidNumber (jsValueToString value) then some parsed.toNat else none
          else some 18

/-- The cap of a deployment with `decimals` decimals. -/
def deployCap (decimals : ℕ) : ℕ := (resolvedU128 maxDecU64Str decimals).getD (2 ^ 128 - 1)

/-- The `lim` field of a deployment, zero when it is missing. -/
def deployLimit (json : Json) (decimals : ℕ) : Option ℕ :=
  match json.get "lim" with
  | none => some 0
  | some value => do
      let limit ← resolvedU128 (jsValueToString value) decimals
      if limit = 0 ∨ deployCap decimals < limit then none else some limit

/-- `BRC20_PRIVILEGE_AUTHORITY`. -/
def brc20PrivilegeAuthority : Text :=
  "c14d3de97cecc573d86592240ef38bf5ba298c8c2eaf68e17b99dbbeedbab7e4i0".toList

/-- The authority of a deployment; `none` for an inactive or malformed one. -/
def deployPrivilege (isTapDeploy : Bool) (json : Json) : Option (Option Text) :=
  match json.get "prv" with
  | none => some (if isTapDeploy then none else some brc20PrivilegeAuthority)
  | some (.string authority) =>
      if isTapDeploy && (!context.prains authority || context.prac authority) then none
      else some (some authority)
  | some _ => none

def indexDeployments (created : Created) : TapHandler Unit := do
  let json ← get (createdJson env context created)
  let tickVal ← get (json.get "tick")
  let maxVal ← get (json.get "max")
  let pVal ← get (json.get "p")
  let opVal ← get (json.get "op")
  let p := env.toLowercase (pVal.asStr.getD [])
  let op := env.toLowercase (opVal.asStr.getD [])
  let tick := tickVal.asStr.getD []
  require (!tick.isEmpty)
  let isTapDeploy := p = "tap".toList && op = "token-deploy".toList
  let isBrc20Deploy := p = "brc-20".toList && op = "deploy".toList
  require (isTapDeploy || isBrc20Deploy)
  let tickLower := env.jsToLowercase tick
  require (!reservedTick tickLower)
  require (!isTapDeploy || featureEnabled env context .tapStart)
  let visLen := env.visibleLength tick
  require (if isTapDeploy then validTapTickerVisibleLen env context visLen
    else validBrc20TickerVisibleLen env context visLen)
  require (0 ≤ created.inscriptionNumber || !featureEnabled env context .jubilee)
  let effectiveTick := if created.inscriptionNumber < 0 then '-' :: tickLower else tickLower
  let _ ← get (dtaField json)
  let decimals ← get (deployDecimals json)
  let max ← get (resolvedU128 (jsValueToString maxVal) decimals)
  require (0 < max && max ≤ deployCap decimals)
  let limit ← get (deployLimit json decimals)
  let prv ← get (deployPrivilege context isTapDeploy json)
  let tickKey := env.jsJsonStringifyStr effectiveTick
  let deployed ← Proc.read fun store => store.d.lookup tickKey
  require deployed.isNone
  let record : DeployRecord :=
    { tick := effectiveTick
      max := max
      lim := limit
      dec := decimals
      ins := inscriptionText created.inscriptionId
      dmt := false
      elem := none
      prj := none
      dim := none
      dt := none
      prv := prv }
  Proc.write fun store => { store with d := store.d.insert tickKey record }
  Proc.write fun store => { store with dc := store.dc.insert tickKey record.max }

/-- An optional field that must be one of some texts. -/
def choiceField (json : Json) (key : String) (choices : List String) : Option (Option Text) :=
  match json.get key with
  | none => some none
  | some (.string text) =>
      if (choices.map String.toList).contains text then some (some text) else none
  | some _ => none

/-- Whether the data type of a deployment suits its element. -/
def dtSuitsElement (element : DmtElement) (dt : Option Text) : Bool :=
  if element.pat.isNone then true
  else
    match dt with
    | none => false
    | some dt =>
        if element.fld = 4 || element.fld = 10 then dt = ['n']
        else if element.fld = 11 then dt = ['n'] || dt = ['h']
        else false

def writerLooseInscriptionIdSyntax (text : Text) : Bool :=
  match text.splitOn 'i' with
  | [hash, index] =>
      hash.length = 64 && hash.all (fun c => (toDigit 16 c).isSome) &&
        (jsParseInt (.string index)).isSome
  | _ => false

/-- The optional `prj` field of a DMT deployment. -/
def projectField (json : Json) : Option (Option Text) :=
  match json.get "prj" with
  | none => some none
  | some (.string project) =>
      if writerLooseInscriptionIdSyntax project && context.ordinalAvailable project then
        some (some project)
      else none
  | some _ => none

/-- The optional `prv` field of a DMT deployment. -/
def dmtPrivilege (json : Json) : Option (Option Text) :=
  match json.get "prv" with
  | none => some none
  | some (.string authority) =>
      if context.prains authority && !context.prac authority then some (some authority) else none
  | some _ => none

/-- `index_dmt_deploy`, which does not ask for the inscription's own transaction. -/
def indexDmtDeploy (created : Created) : TapHandler Unit := do
  let body ← get created.body
  let json ← get (parseTapJsonValue env context body)
  require (env.toLowercase (json.text "p") = "tap".toList &&
    env.toLowercase (json.text "op") = "dmt-deploy".toList)
  require (featureEnabled env context .tapStart)
  let userTick ← get ((json.get "tick").bind Json.asStr)
  let tickLower := env.jsToLowercase userTick
  require (!reservedTick tickLower)
  require (validTapTickerVisibleLen env context (env.visibleLength userTick))
  require (featureEnabled env context .dmt)
  require (0 ≤ created.inscriptionNumber)
  let _ ← get (dtaField json)
  let dim ← get (choiceField json "dim" ["h", "v", "d", "a"])
  let dt ← get (choiceField json "dt" ["h", "n", "x", "s", "b"])
  let elemVal ← get (json.get "elem")
  let elemId := jsValueToString elemVal
  let elemName ← get (context.elementName elemId)
  let element ← get (context.element (jsonStringifyLower env elemName))
  require (dtSuitsElement element dt)
  let prj ← get (projectField context json)
  let prv ← get (dmtPrivilege context json)
  let effectiveTick := "dmt-".toList ++ tickLower
  let tickKey := jsonStringifyLower env effectiveTick
  let deployed ← Proc.read fun store => store.d.lookup tickKey
  require deployed.isNone
  let cap := deployCap 0
  let record : DeployRecord :=
    { tick := effectiveTick
      max := cap
      lim := cap
      dec := 0
      ins := inscriptionText created.inscriptionId
      dmt := true
      elem := some elemId
      prj := prj
      dim := dim
      dt := dt
      prv := prv }
  Proc.write fun store => { store with d := store.d.insert tickKey record }
  Proc.write fun store =>
    { store with dmtDi := store.dmtDi.insert (inscriptionText created.inscriptionId) effectiveTick }
  Proc.write fun store => { store with dc := store.dc.insert tickKey cap }

/-! ### Mints -/

def legacyPrivilegeSignatureGate (prv : Option Json) : Option Bool :=
  match prv with
  | none => none
  | some prv =>
      if prv.isNull then none
      else
        match prv.get "sig" with
        | none => some false
        | some sig =>
            if sig.isNull then none
            else if !sig.isObject then some false
            else
              some ((sig.get "v").isSome && (sig.get "r").isSome && (sig.get "s").isSome &&
                (prv.get "hash").isSome && (prv.get "address").isSome && (prv.get "salt").isSome)

/-- The privilege check of a mint: `none` returns from the handler, otherwise whether the mint fails
and the signature it uses up.  `message` takes the address and the salt of the signature object. -/
def mintPrivilege (used : Text → Bool) (authority : Option Text) (json : Json)
    (message : Text → Text → Text) (owner : Address) : Option (Bool × Option Text) :=
  match authority with
  | none => some (false, none)
  | some authority =>
      match legacyPrivilegeSignatureGate (json.get "prv") with
      | none => none
      | some false => some (true, none)
      | some true => do
          let prv ← json.get "prv"
          let salt := ((prv.get "salt").map jsValueToString).getD []
          let digest := env.sha256 (message (prv.text "address") salt)
          let (ok, signature) ← env.verifyPrivilege used authority prv digest owner
          some (if ok then (false, some signature) else (true, none))

/-- Parts of a message, joined by dashes. -/
def dashed (parts : List Text) : Text := List.intercalate ['-'] parts

/-- The signature check and the writes that end a mint of `amount`; `failed` mints write nothing but
logs.  The token row and the balance are those read before. -/
def finishMint (created : Created) (json : Json) (record : DeployRecord) (tickKey : TickKey)
    (message : Text → Text → Text) (failed : Bool) (left balance : ℤ) (onSuccess : TapStore → TapStore) :
    TapHandler Unit := do
  let used ← Proc.read fun store => fun signature => (store.prah.lookup signature).isSome
  let (failed, signature) ← get
    (if failed then some (true, none)
      else mintPrivilege env used record.prv json message created.ownerAddress)
  Proc.write fun store =>
    if failed then store
    else onSuccess
      { store with
        dc := store.dc.insert tickKey left
        b := store.b.insert (created.ownerAddress, tickKey) balance }
  Proc.write fun store =>
    match signature with
    | none => store
    | some signature => { store with prah := store.prah.insert signature () }

def indexMints (created : Created) : TapHandler Unit := do
  let json ← get (createdJson env context created)
  let p := env.toLowercase (json.text "p")
  let op := env.toLowercase (json.text "op")
  let tick := json.text "tick"
  require (p = "tap".toList && op = "token-mint".toList && !tick.isEmpty)
  let amtVal ← get (json.get "amt")
  let tickLower := env.jsToLowercase tick
  require (!reservedTick tickLower)
  require (validTapTickerVisibleLen env context (env.visibleLength tick))
  require (0 ≤ created.inscriptionNumber || !featureEnabled env context .jubilee)
  let effectiveTick := if created.inscriptionNumber < 0 then '-' :: tickLower else tickLower
  let insData ← get (dtaField json)
  let tickKey := env.jsJsonStringifyStr effectiveTick
  let deployed ← Proc.read fun store => store.d.lookup tickKey
  let deployed ← get deployed
  let left ← Proc.read fun store => (store.dc.lookup tickKey).bind readU128
  let tokensLeft ← get left
  let amtStr := jsValueToString amtVal
  let requested ← get (resolvedU128 amtStr deployed.dec)
  let overLimit := decide (0 < deployed.lim ∧ deployed.lim < requested)
  let amount := if tokensLeft < requested then tokensLeft else requested
  let message := fun address salt =>
    dashed ([p, op, tick, amtStr, address] ++ insData.toList ++ [salt])
  let previous ← Proc.read fun store => u128At store.b created.ownerAddress tickKey
  finishMint env created json deployed tickKey message (overLimit || amount = 0)
    (tokensLeft - amount : ℕ) (min (previous + amount) (2 ^ 128 - 1) : ℕ) id

/-- The inscription a DMT mint depends on: the `dep` field, or the deployment itself when a blockdrop
comes with a parent of the right kind. -/
def dmtDependency (store : TapStore) (deployed : DeployRecord) (dep : Option Text)
    (parents : List InscriptionId) : Option Text :=
  let parent := (parents.head?).map inscriptionText
  match deployed.prj with
  | none => dep
  | some prj =>
      match store.dmtDi.lookup prj with
      | some projectTick =>
          match store.d.lookup (jsonStringifyLower env projectTick) with
          | none => dep
          | some project =>
              if !project.dmt then dep
              else if dep.isSome then none
              else
                if (parent.bind fun id => store.dmtmh.lookup id).map DmtHolderRecord.tick =
                    some project.tick then
                  some deployed.ins
                else none
      | none =>
          if context.bitmap prj ≠ some "bm/0".toList then dep
          else if dep.isSome then none
          else if (parent.bind context.bitmap).isSome then some deployed.ins
          else none

/-- `parse_js_bigint_string_to_biguint`. -/
def parseJsBigint (text : Text) : Option ℕ :=
  let digits := fun (radix : ℕ) (text : Text) =>
    if text.isEmpty then none
    else (text.mapM (toDigit radix)).map (List.foldl (fun n digit => radix * n + digit) 0)
  match trimJsWhitespace text with
  | [] => some 0
  | '-' :: _ => none
  | '0' :: 'x' :: rest | '0' :: 'X' :: rest => digits 16 rest
  | '0' :: 'b' :: rest | '0' :: 'B' :: rest => digits 2 rest
  | '0' :: 'o' :: rest | '0' :: 'O' :: rest => digits 8 rest
  | '+' :: '0' :: 'x' :: _ | '+' :: '0' :: 'X' :: _ | '+' :: '0' :: 'b' :: _
  | '+' :: '0' :: 'B' :: _ | '+' :: '0' :: 'o' :: _ | '+' :: '0' :: 'O' :: _ => none
  | '+' :: rest => digits 10 rest
  | rest => digits 10 rest

/-- The amount of a DMT mint: a count of pattern matches, or the number itself. -/
def dmtAmount (deployed : DeployRecord) (element : DmtElement) (block : ℕ) (blockStr : Text) :
    Option ℕ :=
  let counted := fun (pattern printed : Text) => env.countGlobalMatches pattern printed
  if element.fld = 4 then
    match element.pat with
    | some pattern => if deployed.dt = some ['n'] then counted pattern blockStr else none
    | none => (parseJsBigint blockStr).filter (· < 2 ^ 127)
  else if element.fld = 10 then do
    let header ← context.header block
    match element.pat with
    | some pattern =>
        if deployed.dt = some ['n'] then counted pattern (Nat.toDigits 10 header.nonce) else none
    | none => some header.nonce
  else if element.fld = 11 then do
    let header ← context.header block
    match element.pat with
    | some pattern =>
        if deployed.dt = some ['n'] then counted pattern (Nat.toDigits 10 header.bits)
        else if deployed.dt = some ['h'] then counted pattern (Nat.toDigits 16 header.bits)
        else none
    | none => some header.bits
  else none

/-- The `blk` field of a DMT mint: a block up to the current one, and how it was written. -/
def dmtBlock (json : Json) : Option (ℕ × Text) := do
  let value ← json.get "blk"
  let (parsed, printed) ← jsParseIntWithString value
  if parsed < 0 ∨ 2 ^ 63 ≤ parsed then none
  else
    let block := parsed.toNat % 2 ^ 32
    if context.height < block then none
    else if featureEnabled env context .dmtParseintActivation &&
        Nat.toDigits 10 parsed.toNat ≠ printed then none
    else some (block, printed)

/-- The optional `dep` field of a DMT mint. -/
def depField (json : Json) : Option (Option Text) :=
  match json.get "dep" with
  | none => if featureEnabled env context .fullTicker then some none else none
  | some (.string dep) => some (some dep)
  | some _ => none

def indexDmtMint (created : Created) : TapHandler Unit := do
  let json ← get (createdJson env context created)
  let p := env.toLowercase (json.text "p")
  let op := env.toLowercase (json.text "op")
  let tickUser := json.text "tick"
  require (p = "tap".toList && op = "dmt-mint".toList && !tickUser.isEmpty && (json.get "blk").isSome)
  require (featureEnabled env context .tapStart && featureEnabled env context .dmt)
  let tickUserLower := env.jsToLowercase tickUser
  require (!reservedTick tickUserLower)
  require (validTapTickerVisibleLen env context (env.visibleLength tickUser))
  let tickEffective := "dmt-".toList ++ tickUserLower
  let tickKey := env.jsJsonStringifyStr tickEffective
  require (!(featureEnabled env context .dmtNatRewards && tickEffective = "dmt-nat".toList))
  let (block, blockStr) ← get (dmtBlock env context json)
  require (0 ≤ created.inscriptionNumber)
  let insData ← get (dtaField json)
  let consumed ← Proc.read fun store => store.dmtBlk.lookup (tickEffective, block)
  require consumed.isNone
  let depJson ← get (depField env context json)
  let deployed ← Proc.read fun store => store.d.lookup tickKey
  let deployed ← get deployed
  require deployed.dmt
  let left ← Proc.read fun store => (store.dc.lookup tickKey).bind readI128
  let tokensLeft ← get left
  let dependency ← Proc.read fun store =>
    dmtDependency env context store deployed depJson created.parents
  let dep ← get dependency
  require (deployed.ins = dep && writerLooseInscriptionIdSyntax dep && context.ordinalAvailable dep)
  let elemIns ← get deployed.elem
  let elemName ← get (context.elementName elemIns)
  let element ← get (context.element (jsonStringifyLower env elemName))
  let requested ← get (dmtAmount env context deployed element block blockStr)
  let limit := if deployed.lim < 2 ^ 127 then deployed.lim else 0
  let overLimit := decide (0 < limit ∧ limit < requested)
  let amount : ℤ := if tokensLeft - requested < 0 then tokensLeft else requested
  let message := fun address salt =>
    dashed ([p, op, tickUser, blockStr, dep, address] ++ insData.toList ++ [salt])
  let previous ← Proc.read fun store => i128At store.b created.ownerAddress tickKey
  finishMint env created json deployed tickKey message (overLimit || amount ≤ 0)
    (tokensLeft - amount) (min (previous + amount) (2 ^ 127 - 1))
    (fun store =>
      { store with
        dmtmh := store.dmtmh.insert (inscriptionText created.inscriptionId) ⟨tickEffective, block⟩
        dmtBlk := store.dmtBlk.insert (tickEffective, block) () })

/-! ### Transfers -/

def indexTokenTransferCreated (created : Created) : TapHandler Unit := do
  let json ← get (createdJson env context created)
  let tick := json.text "tick"
  require (env.toLowercase (json.text "p") = "tap".toList &&
    env.toLowercase (json.text "op") = "token-transfer".toList && !tick.isEmpty)
  let amtVal ← get (json.get "amt")
  require (!(['-'].isPrefixOf (env.jsToLowercase tick)) || featureEnabled env context .jubilee)
  require (validTransferTickerVisibleLen env context tick (env.visibleLength tick))
  let _ ← get (dtaField json)
  require (0 ≤ created.inscriptionNumber || !featureEnabled env context .jubilee)
  let tick := if created.inscriptionNumber < 0 then '-' :: tick else tick
  require (!context.bltr created.ownerAddress)
  let tickKey := jsonStringifyLower env tick
  let deployed ← Proc.read fun store => store.d.lookup tickKey
  let deployed ← get deployed
  let balance ← Proc.read fun store =>
    (store.b.lookup (created.ownerAddress, tickKey)).bind readU128
  let tokensLeft ← get balance
  let amount ← get
    ((resolveNumberString (jsValueToString amtVal) deployed.dec).bind parseDigits)
  let transferable ← Proc.read fun store => u128At store.t created.ownerAddress tickKey
  let locked := tapGetLockedAmount env context created.ownerAddress tickKey
  let obligationLocked := tapGetAccountObligationLockedAmount env context created.ownerAddress tickKey
  let fail := tokensLeft < transferable + locked + obligationLocked + amount
  let atr : TransferInitRecord :=
    { addr := created.ownerAddress, amt := amount, tx := created.satpoint.outpoint.txid }
  -- on success the amount fits `u128`, since it is at most the balance
  Proc.write fun store =>
    if fail then store
    else
      { store with
        t := store.t.insert (created.ownerAddress, tickKey)
          (min (transferable + amount) (2 ^ 128 - 1) : ℕ) }
  let rows ← Proc.read fun store =>
    (store.atrli.lookup (created.ownerAddress, tickKey)).getD []
  Proc.write fun store =>
    { store with atrli := store.atrli.insert (created.ownerAddress, tickKey) (rows ++ [atr]) }
  Proc.write fun store =>
    if fail then store
    else
      { store with
        tl := store.tl.insert created.inscriptionId
          (some { addr := created.ownerAddress, tick := tickKey, index := rows.length }) }

def clearLink (inscriptionId : InscriptionId) (store : TapStore) : TapStore :=
  { store with tl := store.tl.insert inscriptionId none }

/-- Move `amount` from the sender to the receiver of a transfer, or leave both balances when it is
not covered; the transferable amount is reduced either way. -/
def settleTransfer (sender receiver : Address) (tickKey : TickKey) (amount balance transferable : ℤ)
    (store : TapStore) : TapStore :=
  let newBalance := balance - amount
  let newTransferable := transferable - amount
  let fail := newTransferable < 0 ∨ newBalance < 0
  let received := wrapI128 (i128At store.b receiver tickKey + amount)
  let store :=
    if ¬ fail ∧ receiver ≠ sender then
      { store with
        b := (store.b.insert (sender, tickKey) newBalance).insert (receiver, tickKey) received }
    else store
  { store with t := store.t.insert (sender, tickKey) (max newTransferable 0) }

def indexTokenTransferExecuted (moved : Moved) : TapHandler Unit := do
  require (moved.newSatpoint.outpoint.txid ≠ moved.inscriptionId.txid)
  let link ← Proc.read fun store => store.tl.lookup moved.inscriptionId
  let link ← get link
  let pointer ← get link
  let found ← Proc.read fun store =>
    ((store.atrli.lookup (pointer.addr, pointer.tick)).getD [])[pointer.index]?
  let atr ← get found
  require (pointer.addr = atr.addr && !pointer.tick.isEmpty)
  let tickKey := pointer.tick
  require (atr.tx ≠ moved.newSatpoint.outpoint.txid)
  let deployed ← Proc.read fun store => store.d.lookup tickKey
  require deployed.isSome
  let sender := atr.addr
  let receiver := moved.ownerAddress
  let amount : ℤ := if atr.amt < 2 ^ 127 then atr.amt else 0
  if tapBlocksDmtRewardTransferExecution env context sender then
    Proc.write fun store =>
      if receiver = sender then store
      else
        match store.t.lookup (sender, tickKey) with
        | some transferable =>
            clearLink moved.inscriptionId
              { store with
                t := store.t.insert (sender, tickKey)
                  (max ((readI128 transferable).getD 0 - amount) 0) }
        | none => clearLink moved.inscriptionId { store with t := store.t.erase (sender, tickKey) }
  else
    let balance ← Proc.read fun store => store.b.lookup (sender, tickKey)
    Proc.write fun store =>
      match balance with
      | none => { store with t := store.t.erase (sender, tickKey) }
      | some balance =>
          match store.t.lookup (sender, tickKey) with
          | none => store
          | some transferable =>
              settleTransfer sender receiver tickKey amount ((readI128 balance).getD 0)
                ((readI128 transferable).getD 0) store
    Proc.write (clearLink moved.inscriptionId)

/-! ### Sends -/

def execInternalSendOne (sender receiver : Address) (tick : Text) (amtVal : Json) :
    TapHandler Unit := do
  let tickKey := jsonStringifyLower env tick
  let deployed ← Proc.read fun store => store.d.lookup tickKey
  let deployed ← get deployed
  let amount ← get (cappedAmount amtVal deployed.dec)
  let fromBalance ← Proc.read fun store => i128At store.b sender tickKey
  let fromTransferable ← Proc.read fun store => i128At store.t sender tickKey
  let locked := tapGetLockedAmount env context sender tickKey
  let obligationLocked := tapGetAccountObligationLockedAmount env context sender tickKey
  let toBalance ← Proc.read fun store => i128At store.b receiver tickKey
  require (0 ≤ fromBalance - amount - fromTransferable - locked - obligationLocked)
  require (sender ≠ receiver)
  Proc.write fun store =>
    { store with b := store.b.insert (sender, tickKey) (fromBalance - amount) }
  Proc.write fun store =>
    { store with b := store.b.insert (receiver, tickKey) (wrapI128 (toBalance + amount)) }

/-- One item of a send, with the address normalised; `none` rejects the whole inscription. -/
def sendItem (item : Json) : Option Json := do
  let tick ← (item.get "tick").bind Json.asStr
  let address ← (item.get "address").bind Json.asStr
  let _ ← item.get "amt"
  let normalized := normalizeAddress env address
  if !validTapTickerVisibleLen env context (env.visibleLength (stripPrefixForLenCheck env tick)) then
    none
  else if !isValidBitcoinAddress env context normalized then none
  else if (dtaField item).isNone then none
  else some (item.set "address" (.string normalized))

def putAccumulator (created : Created) (op : String) (json : Json) (store : TapStore) : TapStore :=
  { store with
    a := store.a.insert created.inscriptionId
      { op := op.toList, json := json, addr := created.ownerAddress } }

def indexTokenSendCreated (created : Created) : TapHandler Unit := do
  let json ← get (createdJson env context created)
  require (env.toLowercase (json.text "p") = "tap".toList &&
    env.toLowercase (json.text "op") = "token-send".toList)
  let items ← get ((json.get "items").bind Json.asArray)
  require (!items.isEmpty)
  require (0 ≤ created.inscriptionNumber || !featureEnabled env context .jubilee)
  require (!tapIsDmtRewardAddress env context created.ownerAddress)
  let items ← get (items.mapM (sendItem env context))
  Proc.write (putAccumulator created "token-send" (json.set "items" (.array items)))

/-- The body of the loop over the items of a send; an item without its fields is skipped. -/
def sendOne (sender : Address) (item : Json) : TapHandler Unit := do
  let _ ← get (dtaField item)
  let tick ← get ((item.get "tick").bind Json.asStr)
  let receiver ← get ((item.get "address").bind Json.asStr)
  let amtVal ← get (item.get "amt")
  execInternalSendOne env context sender receiver tick amtVal

/-- The items of a send, one after the other. -/
def sendAll (sender : Address) (items : List Json) (store : TapStore) : TapStore :=
  items.foldl (fun store item => (sendOne env context sender item).after store) store

def indexTokenSendExecuted (moved : Moved) : TapHandler Unit := do
  require (moved.newSatpoint.outpoint.txid ≠ moved.inscriptionId.txid)
  let found ← Proc.read fun store => store.a.lookup moved.inscriptionId
  let acc ← get found
  require (acc.addr = moved.ownerAddress)
  require (env.toLowercase acc.op = "token-send".toList)
  let items :=
    if tapIsDmtRewardAddress env context moved.ownerAddress then []
    else ((acc.json.get "items").bind Json.asArray).getD []
  Proc.write (sendAll env context moved.ownerAddress items)
  Proc.write fun store => { store with a := store.a.erase moved.inscriptionId }

end Handlers

end OrdDogecoin.Tap
