/-
Module: OrdDogecoin.Tap.Privileges
Purpose: Privilege authorities and what they sign: the creation and cancellation of an authority, the
  verification of an item of a collection, and the signature check of a privileged mint.
Trusted boundary: `SignatureLib` stands for the secp256k1, hash and JSON printing libraries; the list
  entry that `prains/<id>` points to is kept in the row itself; the accumulator of an authority is given
  with its move; lists that no handler reads back are not kept
Main exports: PrivilegeStore, MintFields, acceptedMint
-/
import OrdDogecoin.Tap.Tokens

namespace OrdDogecoin.Tap

open Chain

/-- What the privilege handlers use of other libraries. -/
structure SignatureLib where
  /-- The compact form of a signature object and the key recovered from it under a hash; `none` when a
  part of either does not parse or there is no such key. -/
  recover : Json → Text → Option (Text × Text)
  /-- `verify_ecdsa` of a signature object by a key. -/
  verify : Text → Json → ℕ → Bool
  /-- `build_sha256_json_plus_salt`. -/
  authDigest : Json → Text → ℕ

/-- `PrivilegeAuthCreateRecord`, less the fields no handler reads. -/
structure PrivilegeAuthCreateRecord where
  addr : Address
  auth : Json
  sig : Json
  hash : Text
  slt : Text
  ins : Text

/-- The rows of privileges: used signatures, authorities, cancelled authorities and verified items. -/
structure PrivilegeStore where
  prah : KeyTable Text Unit
  prains : KeyTable Text PrivilegeAuthCreateRecord
  prac : KeyTable Text Unit
  prvvrfd : KeyTable Text Unit

def PrivilegeStore.empty : PrivilegeStore where
  prah := ∅
  prains := ∅
  prac := ∅
  prvvrfd := ∅

section Handlers

variable (env : TapEnv) (lib : SignatureLib) (context : TapContext)

/-! ### Authorities -/

/-- `verify_sig_obj_against_msg_with_hash`: whether the signature is valid, its compact form and the
recovered key. -/
def verifySigObj (sig : Json) (hash : Text) (digest : ℕ) : Option (Bool × Text × Text) := do
  let _ ← sig.get "v"
  let _ ← sig.get "r"
  let _ ← sig.get "s"
  let (compact, key) ← lib.recover sig hash
  some (lib.verify key sig digest, compact, key)

/-- The key of an authority, and whether its own signature is valid. -/
def PrivilegeAuthCreateRecord.signer (link : PrivilegeAuthCreateRecord) : Option (Text × Bool) := do
  let (_, key) ← lib.recover link.sig link.hash
  some (key, lib.verify key link.sig (lib.authDigest link.auth link.slt))

/-- The cancellation of an authority, by its owner only. -/
def cancelPrivilegeAuth (owner : Address) (cancelled : Text) (store : PrivilegeStore) :
    PrivilegeStore :=
  match store.prains.lookup cancelled with
  | none => store
  | some link =>
      if link.addr ≠ owner then store
      else { store with prac := store.prac.insert link.ins () }

/-- The authority that an accumulator creates, with the signature it uses up. -/
def createdAuthority (moved : Moved) (acc : TapAccumulatorEntry) (store : PrivilegeStore) :
    Option (Text × PrivilegeAuthCreateRecord) := do
  let sig ← acc.json.get "sig"
  let hash ← (← acc.json.get "hash").asStr
  let salt ← acc.json.get "salt"
  let auth ← acc.json.get "auth"
  let name ← (← auth.get "name").asStr
  guard (env.visibleLength name ≠ 0 ∧ env.visibleLength name ≤ 512)
  let slt := jsValueToString salt
  let (valid, compact, _) ← verifySigObj lib sig hash (lib.authDigest auth slt)
  guard (valid ∧ (store.prah.lookup compact).isNone)
  some (compact,
    { addr := moved.ownerAddress
      auth := auth
      sig := sig
      hash := hash
      slt := slt
      ins := inscriptionText moved.inscriptionId })

/-- `index_privilege_auth_executed` of an inscription with this accumulator. -/
def indexPrivilegeAuthExecuted (moved : Moved) (acc : TapAccumulatorEntry) (store : PrivilegeStore) :
    PrivilegeStore :=
  if moved.newSatpoint.outpoint.txid = moved.inscriptionId.txid then store
  else if acc.addr ≠ moved.ownerAddress then store
  else if env.toLowercase acc.op ≠ "privilege-auth".toList then store
  else
    match acc.json.get "cancel" with
    | some cancelled => cancelPrivilegeAuth moved.ownerAddress (jsValueToString cancelled) store
    | none =>
        match createdAuthority env lib moved acc store with
        | none => store
        | some (compact, link) =>
            { store with
              prah := store.prah.insert compact ()
              prains := store.prains.insert (inscriptionText moved.inscriptionId) link }

/-! ### Verified items -/

def isWordChar (c : Char) : Bool := c.isAlphanum || c = '_'

/-- `js_word_boundary_hex64_test`: 64 hexadecimal digits somewhere, with a word boundary at both ends;
`before` is the character in front. -/
def hex64From (before : Option Char) : Text → Bool
  | [] => false
  | c :: text =>
      (((c :: text).take 64).length = 64 && ((c :: text).take 64).all (fun c => (toDigit 16 c).isSome) &&
        !before.any isWordChar && !(((c :: text).drop 64).head?.any isWordChar)) ||
      hex64From (some c) text

def jsWordBoundaryHex64Test (text : Text) : Bool := hex64From none text

/-- The fields of an item that its authority signs. -/
structure VerifyFields where
  prv : Text
  col : Text
  verify : Text
  seq : Text
  address : Text
  salt : Text
deriving DecidableEq, Repr

/-- The message of `build_sha256_privilege_verify`. -/
def VerifyFields.message (fields : VerifyFields) : Text :=
  dashed [fields.prv, fields.col, fields.verify, fields.seq, fields.address, fields.salt]

/-- The path under which an item is verified, behind `prvvrfd/`. -/
def VerifyFields.path (fields : VerifyFields) : Text :=
  fields.prv ++ '/' :: (env.jsJsonStringifyStr fields.col ++ '/' :: (fields.verify ++ '/' :: fields.seq))

/-- The collection as it is signed and stored: an empty one is a dash. -/
def normalizedCollection (col : Text) : Option Text :=
  if 512 < env.visibleLength col then none
  else some (if env.visibleLength col = 0 then ['-'] else col)

/-- The sequence number: an integer text in its canonical form. -/
def sequenceText (value : Json) : Option Text := do
  let (parsed, text) ← jsParseIntWithString value
  guard (intText parsed = text)
  guard (0 ≤ parsed ∧ parsed ≤ 9007199254740991)
  some text

/-- The fields of a document, after the checks on each of them. -/
def verifyFields (json : Json) : Option VerifyFields := do
  let prv ← (← json.get "prv").asStr
  guard (writerLooseInscriptionIdSyntax prv)
  let verify ← (← json.get "verify").asStr
  guard (jsWordBoundaryHex64Test verify)
  let col ← normalizedCollection env (← (← json.get "col").asStr)
  let address ← (← json.get "address").asStr
  let seq ← sequenceText (← json.get "seq")
  let salt ← json.get "salt"
  some
    { prv := prv
      col := col
      verify := verify
      seq := seq
      address := address
      salt := jsValueToString salt }

/-- The checks of `index_privilege_verify_created`: the signed fields and the signature. -/
def checkedVerify (created : Created) (store : PrivilegeStore) : Option (VerifyFields × Text) := do
  let json ← parseTapJsonValue env context (← created.body)
  guard (env.toLowercase (json.text "p") = "tap".toList ∧
    env.toLowercase (json.text "op") = "privilege-auth".toList)
  guard (featureEnabled env context .tapStart)
  let sig ← json.get "sig"
  guard sig.isObject
  let hash ← (← json.get "hash").asStr
  let fields ← verifyFields env json
  let (valid, compact, key) ← verifySigObj lib sig hash (env.sha256 fields.message)
  guard (valid ∧ (store.prah.lookup compact).isNone)
  guard (store.prvvrfd.lookup (fields.path env)).isNone
  guard (fields.address = created.ownerAddress)
  let link ← store.prains.lookup fields.prv
  guard (store.prac.lookup fields.prv).isNone
  let (authKey, authValid) ← link.signer lib
  guard (authValid ∧ authKey = key)
  let _ ← (← link.auth.get "name").asStr
  some (fields, compact)

def indexPrivilegeVerifyCreated (created : Created) (store : PrivilegeStore) : PrivilegeStore :=
  match checkedVerify env lib context created store with
  | none => store
  | some (fields, compact) =>
      { store with
        prvvrfd := store.prvvrfd.insert (fields.path env) ()
        prah := store.prah.insert compact () }

/-! ### Privileged mints -/

/-- The link part of `verify_privilege_signature_with_msg`: an authority that is not cancelled, signed by
the same key, for the address. -/
def privilegeLinked (rows : PrivilegeStore) (authority key prvAddr : Text) (address : Address) :
    Option Bool :=
  match rows.prains.lookup authority with
  | none => some false
  | some link => do
      let (authKey, authValid) ← link.signer lib
      some ((rows.prac.lookup link.ins).isNone && authValid && key = authKey && prvAddr = address)

def verifyPrivilegeSignatureWithMsg (rows : PrivilegeStore) (used : Text → Bool) (authority : Text)
    (prv : Json) (digest : ℕ) (address : Address) : Option (Bool × Text) := do
  let sig ← prv.get "sig"
  let _ ← sig.get "v"
  let _ ← sig.get "r"
  let _ ← sig.get "s"
  let hash ← prv.get "hash"
  let prvAddr ← (← prv.get "address").asStr
  let _ ← prv.get "salt"
  let hash ← hash.asStr
  let (compact, key) ← lib.recover sig hash
  let valid := lib.verify key sig digest
  let linked ← privilegeLinked lib rows authority key prvAddr address
  some (valid && !used compact && linked, compact)

/-- The libraries of the token handlers, with the signature check over these rows. -/
def TapEnv.withPrivileges (rows : PrivilegeStore) : TapEnv :=
  { env with verifyPrivilege := verifyPrivilegeSignatureWithMsg lib rows }

theorem TapEnv.withPrivileges_verifyPrivilege (rows : PrivilegeStore) :
    (env.withPrivileges lib rows).verifyPrivilege = verifyPrivilegeSignatureWithMsg lib rows := rfl

/-- The fields of a mint that its authority signs. -/
structure MintFields where
  tick : Text
  amt : Text
  address : Text
  dta : Option Text
  salt : Text
deriving DecidableEq, Repr

/-- The message of `build_mint_privilege_message_hash`. -/
def MintFields.message (fields : MintFields) : Text :=
  dashed (["tap".toList, "token-mint".toList, fields.tick, fields.amt, fields.address] ++
    fields.dta.toList ++ [fields.salt])

/-- The signed fields and the signature of a mint that `index_mints` accepts on a signature. -/
def acceptedMint (created : Created) (store : TapStore) : Option (MintFields × Text) := do
  let json ← createdJson env context created
  let tick := json.text "tick"
  guard (env.toLowercase (json.text "p") = "tap".toList ∧
    env.toLowercase (json.text "op") = "token-mint".toList ∧ tick ≠ [])
  let amtVal ← json.get "amt"
  let tickLower := env.jsToLowercase tick
  guard (!reservedTick tickLower)
  guard (validTapTickerVisibleLen env context (env.visibleLength tick))
  guard (0 ≤ created.inscriptionNumber ∨ !featureEnabled env context .jubilee)
  let effectiveTick := if created.inscriptionNumber < 0 then '-' :: tickLower else tickLower
  let dta ← dtaField json
  let tickKey := env.jsJsonStringifyStr effectiveTick
  let deployed ← store.d.lookup tickKey
  let tokensLeft ← (store.dc.lookup tickKey).bind readU128
  let amt := jsValueToString amtVal
  let requested ← resolvedU128 amt deployed.dec
  guard (!(0 < deployed.lim ∧ deployed.lim < requested) ∧ 0 < requested ∧ 0 < tokensLeft)
  let authority ← deployed.prv
  guard (legacyPrivilegeSignatureGate (json.get "prv") = some true)
  let prv ← json.get "prv"
  let fields : MintFields :=
    { tick := tick
      amt := amt
      address := prv.text "address"
      dta := dta
      salt := ((prv.get "salt").map jsValueToString).getD [] }
  let (valid, compact) ← env.verifyPrivilege (fun signature => (store.prah.lookup signature).isSome)
    authority prv (env.sha256 fields.message) created.ownerAddress
  guard valid
  some (fields, compact)

end Handlers

end OrdDogecoin.Tap
