/-
Module: OrdDogecoin.Tap.CertifiedControl
Purpose: Certified control of token locks: the normal form of a control policy, the message that its
  signers sign, and the check of a certificate against the policy, the action and the height.
Trusted boundary: `SignatureOracle` stands for the recovery and the check of a signature; a digest is
  given by its hex text
Main exports: compressedDelegationPubkey, validateCertifiedControlCertificate, ProofEnv.certified
-/
import OrdDogecoin.Tap.Obligations
import OrdDogecoin.Tap.CanonicalJson
import OrdDogecoin.Lib.Utf8

namespace OrdDogecoin.Tap

/-! ### Public keys -/

/-- `token_proof_valid_delegation_signer`. -/
def validDelegationSigner (signer : Text) : Bool :=
  ((signer.length = 66 && (signer.take 2 = "02".toList || signer.take 2 = "03".toList)) ||
    (signer.length = 130 && signer.take 2 = "04".toList)) && signer.all isHexDigit

/-- `from_str_radix` with radix 16 of a text of hex digits. -/
def hexNumber (text : Text) : ℕ := text.foldl (fun n c => 16 * n + (toDigit 16 c).getD 0) 0

/-- `token_proof_compressed_delegation_pubkey`; all characters are ASCII here, so that `to_lowercase`
is `Char.toLower` on each. -/
def compressedDelegationPubkey (signer : Text) : Option Text :=
  if !validDelegationSigner signer then none
  else
    let lower := signer.map Char.toLower
    if lower.length = 66 then some lower
    else
      let yLast := hexNumber (lower.drop 128)
      some ((if yLast % 2 = 0 then "02".toList else "03".toList) ++ (lower.drop 2).take 64)

/-! ### Hashes and messages -/

section Hashes

variable (env : ProofEnv)

def certifiedControlHash (value : Json) : Option Text :=
  (certifiedControlCanonicalJson value).map fun canonical => env.sha256Hex (Utf8.encode canonical)

def parseCertifiedControlInteger (value : Json) : Option ℕ :=
  match value.asU64 with
  | some n => if n < 2 ^ 32 then some n else none
  | none => do
      let text ← value.asStr
      guard (¬ (1 < text.length ∧ text.head? = some '0'))
      (parseDigits text).filter (· < 2 ^ 32)

def isCertifiedControlId (value : Text) : Bool :=
  !value.isEmpty && utf8Length value ≤ 128 &&
    value.all fun c => c.isAlphanum || c = '.' || c = '_' || c = ':' || c = '-'

def certifiedControlReplayKey (policy target action nonce : Text) : Text :=
  "ccn/".toList ++ policy ++ '/' :: target ++ '/' :: action ++ '/' :: nonce

/-- The action without its certificate. -/
def certifiedControlPayload (action : Json) : Option Json :=
  match action with
  | .object fields => some (.object (fields.filter fun field => field.1 ≠ "cert".toList))
  | _ => none

def certifiedControlPayloadHash (action : Json) : Option Text := do
  certifiedControlHash env (← certifiedControlPayload action)

/-- A number in a policy or a message. -/
def numberJson (n : ℕ) : Json := .number (Nat.toDigits 10 n)

def certifiedControlMessage (policy : Json) (actionName target payloadHash nonce : Text)
    (validUntil : ℕ) : Option Json := do
  some (.array
    [.string "tap-certified-control-v1".toList,
      .string "tap".toList,
      .string (← (← policy.get "id").asStr),
      .string (← (← policy.get "hash").asStr),
      .string actionName,
      .string target,
      .string payloadHash,
      .string nonce,
      numberJson validUntil])

/-! ### Policies -/

/-- A name of an action that a policy may control. -/
def scopeName (value : Json) : Option Text := do
  let name ← value.asStr
  guard (name = "claim".toList ∨ name = "refund".toList)
  some name

/-- The field `terminal_refund_after` of the rules of a policy, which have no other. -/
def terminalRefundAfter (control : Json) : Option (Option ℕ) :=
  match control.get "rules" with
  | none => some none
  | some rules => do
      guard rules.isObject
      guard (rules.fields.all fun field => field.1 = "terminal_refund_after".toList)
      match rules.get "terminal_refund_after" with
      | none => some none
      | some value => (parseCertifiedControlInteger value).map some

/-- The lock of a policy that controls refunds has one, and it comes before the terminal height. -/
def refundControllable (action : Json) (terminal : Option ℕ) : Bool :=
  (action.get "refund").isSome &&
    match (action.get "refund_after").bind parseCertifiedControlInteger, terminal with
    | some refundAfter, some terminal => refundAfter < terminal
    | _, _ => false

/-- An optional field that holds a number. -/
def optionalInteger (json : Json) (key : String) : Option (Option ℕ) :=
  match json.get key with
  | none => some none
  | some value => (parseCertifiedControlInteger value).map some

/-- A control policy in its normal form. -/
structure ControlPolicy where
  id : Text
  threshold : ℕ
  signers : List Text
  scope : List Text
  expires : Option ℕ
  terminal : Option ℕ
deriving DecidableEq, Repr

/-- The members of a policy, less its hash. -/
def ControlPolicy.members (policy : ControlPolicy) : List (Text × Json) :=
  [("type".toList, .string "cert".toList), ("id".toList, .string policy.id),
    ("threshold".toList, numberJson policy.threshold),
    ("signers".toList, .array (policy.signers.map .string)),
    ("scope".toList, .array (policy.scope.map .string))] ++
  (policy.expires.map fun expires => ("expires".toList, numberJson expires)).toList ++
  (policy.terminal.map fun terminal =>
    ("rules".toList, .object [("terminal_refund_after".toList, numberJson terminal)])).toList

def ControlPolicy.json (policy : ControlPolicy) (hash : Text) : Json :=
  .object (policy.members ++ [("hash".toList, .string hash)])

def normalizeCertifiedControlPolicy (control : Option Json) (action : Json) : Option (Option Json) :=
  match control with
  | none => some none
  | some control => do
      guard control.isObject
      guard (control.fields.all fun field => field.1 ∈ ["type", "id", "threshold", "signers", "scope",
        "expires", "rules", "hash"].map String.toList)
      guard ((control.get "type").bind Json.asStr = some "cert".toList)
      let id ← (← control.get "id").asStr
      guard (isCertifiedControlId id)
      let listed ← (← control.get "signers").asArray
      let signers ← listed.mapM fun signer => do compressedDelegationPubkey (← signer.asStr)
      guard signers.Nodup
      guard (!signers.isEmpty ∧ signers.length ≤ 8)
      let threshold ← parseCertifiedControlInteger (← control.get "threshold")
      guard (threshold ≠ 0 ∧ threshold ≤ signers.length ∧ threshold ≤ 8)
      let named ← (← (← control.get "scope").asArray).mapM scopeName
      let scope := ["claim".toList, "refund".toList].filter fun name => name ∈ named
      guard (!scope.isEmpty)
      let expires ← optionalInteger control "expires"
      let terminal ← terminalRefundAfter control
      guard ("refund".toList ∈ scope → refundControllable action terminal)
      let policy : ControlPolicy :=
        { id := id
          threshold := threshold
          signers := signers.insertionSort (· ≤ ·)
          scope := scope
          expires := expires
          terminal := terminal }
      let hash ← certifiedControlHash env (.object policy.members)
      guard ((control.get "hash").all fun given => given.asStr.map env.toLowercase = some hash)
      some (some (policy.json hash))

/-! ### Certificates -/

/-- `verify_sig_obj_against_msg_with_hash` on a signature, the hash it was made for and the digest to
check: whether it is valid, and the public key it was made with. -/
abbrev SignatureOracle := Json → Text → Text → Option (Bool × Text)

def controlsAction (control : Option Json) (name : Text) : Bool :=
  ((control.bind (Json.get · "scope")).bind Json.asArray).any fun scope =>
    scope.any fun entry => entry.asStr = some name

/-- A refund from the terminal height of a policy on. -/
def isTerminalRefund (control : Json) (name : Text) (block : ℕ) : Bool :=
  name = "refund".toList &&
    (((control.get "rules").bind (Json.get · "terminal_refund_after")).bind Json.asU64).any fun terminal =>
      terminal ≤ block

/-- The signers of a policy whose valid signatures a certificate holds; nothing when an entry is
malformed, declares another signer, or is for another message. -/
def certifiedSigners (verify : SignatureOracle) (signers : List Text) (msgHash : Text)
    (sigs : List Json) : Option (List Text) := do
  let found ← sigs.mapM fun entry => do
    let declared ← compressedDelegationPubkey (← (← entry.get "signer").asStr)
    let hash ← (← entry.get "hash").asStr
    guard (declared ∈ signers ∧ env.toLowercase hash = msgHash)
    let (ok, pubkey) ← verify (← entry.get "sig") hash msgHash
    let signer ← compressedDelegationPubkey pubkey
    some (if ok && signer = declared then some signer else none)
  some found.reduceOption.dedup

/-- `validate_certified_control_certificate`: the key of the nonce it uses up. -/
def validateCertifiedControlCertificate (verify : SignatureOracle) (used : Text → Bool) (action : Json)
    (control : Option Json) (name : Text) (block : ℕ) : Option (Option Text) :=
  if !controlsAction control name then
    if (action.get "cert").isNone then some none else none
  else do
    let control ← control
    if isTerminalRefund control name block && (action.get "cert").isNone then some none
    else do
      let cert ← action.get "cert"
      guard cert.isObject
      guard (cert.fields.all fun field => field.1 ∈ ["v", "policy", "action", "target", "payload_hash",
        "nonce", "valid_until", "sigs"].map String.toList)
      let version ← optionalInteger cert "v"
      let validUntil ← parseCertifiedControlInteger (← cert.get "valid_until")
      let nonce ← (← cert.get "nonce").asStr
      guard (version.getD 1 = 1 ∧
        (cert.get "policy").bind Json.asStr = (control.get "id").bind Json.asStr ∧
        (cert.get "action").bind Json.asStr = some name ∧
        (cert.get "target").bind Json.asStr = (action.get "lock").bind Json.asStr ∧
        isCertifiedControlId nonce ∧ block ≤ validUntil ∧
        ((control.get "expires").bind Json.asU64).all (fun expires => decide (block ≤ expires)))
      let payloadHash ← certifiedControlPayloadHash env action
      guard (((cert.get "payload_hash").bind Json.asStr).map env.toLowercase = some payloadHash)
      let target ← (← action.get "lock").asStr
      let policyId ← (← control.get "id").asStr
      let nonceKey := certifiedControlReplayKey policyId target name nonce
      guard (!used nonceKey)
      let msg ← certifiedControlMessage control name target payloadHash nonce validUntil
      let msgHash ← certifiedControlHash env msg
      let signers ← (← control.get "signers").asArray
      let threshold ← (← control.get "threshold").asU64
      let valid ← certifiedSigners env verify (signers.filterMap Json.asStr) msgHash
        (← (← cert.get "sigs").asArray)
      guard (threshold ≤ valid.length)
      some (some nonceKey)

/-- The libraries, with the checks of control policies and certificates. -/
def ProofEnv.certified (verify : SignatureOracle) : ProofEnv :=
  { env with
    compressedPubkey := compressedDelegationPubkey
    controlPolicy := normalizeCertifiedControlPolicy env
    certificate := validateCertifiedControlCertificate env verify }

end Hashes

end OrdDogecoin.Tap
