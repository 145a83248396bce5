/-
Module: OrdDogecoin.Tap.Store
Purpose: What the TAP token handlers work on: activation heights, the library functions and the rows
  of other handlers as they see them, and the rows of `TAP_KV` that they read back.
Trusted boundary: the fields of `TapEnv` stand for the Unicode, JSON, Base58Check, hash, signature and
  regular expression libraries; a row's text key is the tuple it is formatted from
Main exports: TapFeature, TapStore, TapHandler
-/
import OrdDogecoin.Tap.ValueCodec
import OrdDogecoin.Chain.Transaction
import OrdDogecoin.Lib.KeyTable
import OrdDogecoin.Lib.Procedure

namespace OrdDogecoin.Tap

open Chain

abbrev Address := Text

/-- The JSON text of a lower-cased ticker. -/
abbrev TickKey := Text

def burnAddress : Text := "1BitcoinEaterAddressDontSendf59kuE".toList

/-! ### Activation -/

inductive TapFeature where
  | tapStart
  | fullTicker
  | jubilee
  | dmt
  | dmtNatRewards
  | valueStringifyActivation
  | dmtParseintActivation
  | tokenAuthorityStakingUpgradeActivation
  | tokenAuthWhitelistFixActivation
  | minerRewardShieldActivation
  | minerRewardTransferExecutionShieldActivation
deriving DecidableEq, Repr

def maxU32 : ℕ := 2 ^ 32 - 1

def featureHeight (mainnet : Bool) (feature : TapFeature) : ℕ :=
  if !mainnet then 0
  else
    match feature with
    | .tapStart => 4771259
    | .dmt => 4771259
    | .fullTicker => 5487639
    | .dmtParseintActivation => 5497100
    | .jubilee => 0
    | .valueStringifyActivation => maxU32
    | .dmtNatRewards => maxU32
    | .tokenAuthorityStakingUpgradeActivation => maxU32
    | .tokenAuthWhitelistFixActivation => maxU32
    | .minerRewardShieldActivation => maxU32
    | .minerRewardTransferExecutionShieldActivation => maxU32

/-! ### Library functions -/

/-- What the handlers use of the libraries. -/
structure TapEnv where
  mainnet : Bool
  /-- `serde_json::from_str` on the preprocessed body. -/
  parse : List UInt8 → Option Json
  /-- `str::to_lowercase`. -/
  toLowercase : Text → Text
  /-- `js_to_lowercase`. -/
  jsToLowercase : Text → Text
  /-- `js_json_stringify_str`. -/
  jsJsonStringifyStr : Text → Text
  /-- `visible_length`: the number of grapheme clusters. -/
  visibleLength : Text → ℕ
  /-- `doge_address_version`. -/
  dogeAddressVersion : Text → Option ℕ
  /-- `js_count_global_matches`. -/
  countGlobalMatches : Text → Text → Option ℕ
  /-- `sha256_bytes`. -/
  sha256 : Text → ℕ
  /-- `verify_privilege_signature_with_msg` on the used signatures, the authority, the signature
  object, the digest and the address. -/
  verifyPrivilege : (Text → Bool) → Text → Json → ℕ → Address → Option (Bool × Text)
  /-- Reading the rows that hold a text alone. -/
  strings : StringRows := storedStrings

/-- `dmt-el/<name>`: the fields a deployment and a mint read of an element. -/
structure DmtElement where
  pat : Option Text
  fld : ℕ
deriving DecidableEq, Repr

/-- `hdr/<height>`: what a mint reads of a block header. -/
structure HeaderSnapshot where
  bits : ℕ
  nonce : ℕ
deriving DecidableEq, Repr

/-- The block being indexed and the rows that other handlers maintain.  Locked amounts are naturals:
`tap_add_locked_amount` never stores a negative one. -/
structure TapContext where
  height : ℕ
  prains : Text → Bool
  prac : Text → Bool
  bltr : Address → Bool
  dmtRewardAddress : Address → Bool
  lockedAmount : Address → TickKey → ℕ
  obligationLockedAmount : Address → TickKey → ℕ
  elementName : Text → Option Text
  element : Text → Option DmtElement
  bitmap : Text → Option Text
  header : ℕ → Option HeaderSnapshot
  ordinalAvailable : Text → Bool

section Rules

variable (env : TapEnv) (context : TapContext)

def featureEnabled (feature : TapFeature) : Bool := featureHeight env.mainnet feature ≤ context.height

def jsonStringifyLower (text : Text) : TickKey := env.jsJsonStringifyStr (env.jsToLowercase text)

mutual

/-- `tap_writer_node20_value_stringify_would_throw`. -/
def valueStringifyWouldThrow : Json → Bool
  | .object fields => fieldsWouldThrow fields
  | .array items => itemsWouldThrow items
  | _ => false

def fieldsWouldThrow : List (Text × Json) → Bool
  | [] => false
  | (key, child) :: fields =>
      ((key = "max".toList || key = "lim".toList || key = "amt".toList) &&
          child.isNumber) ||
        valueStringifyWouldThrow child || fieldsWouldThrow fields

def itemsWouldThrow : List Json → Bool
  | [] => false
  | item :: items => valueStringifyWouldThrow item || itemsWouldThrow items

end

def parseTapJsonValue (body : List UInt8) : Option Json := do
  let value ← env.parse body
  if featureEnabled env context .valueStringifyActivation && valueStringifyWouldThrow value then none
  else some value

/-- `valid_tap_ticker_visible_len` at the current height. -/
def validTapTickerVisibleLen (len : ℕ) : Bool :=
  if context.height < featureHeight env.mainnet .fullTicker then len = 3 || (5 ≤ len && len ≤ 32)
  else 0 < len && len ≤ 32

/-- `valid_brc20_ticker_visible_len` at the current height. -/
def validBrc20TickerVisibleLen (len : ℕ) : Bool :=
  context.height < featureHeight env.mainnet .fullTicker && (len = 1 || len = 2 || len = 4)

/-- `valid_transfer_ticker_visible_len` at the current height. -/
def validTransferTickerVisibleLen (tick : Text) (len : ℕ) : Bool :=
  let lower := env.jsToLowercase tick
  let isNeg := ['-'].isPrefixOf lower
  let isDmt := "dmt-".toList.isPrefixOf lower
  let jubilee := featureHeight env.mainnet .jubilee ≤ context.height
  if context.height < featureHeight env.mainnet .fullTicker then
    if isDmt then 5 ≤ len && len ≤ 36
    else if !isNeg then len = 3 || (5 ≤ len && len ≤ 32)
    else jubilee && (len = 4 || (6 ≤ len && len ≤ 33))
  else if isDmt then 0 < len && len ≤ 36
  else if !isNeg then 0 < len && len ≤ 32
  else jubilee && (1 < len && len ≤ 33)

def stripPrefixForLenCheck (tick : Text) : Text :=
  let lower := env.jsToLowercase tick
  if ['-'].isPrefixOf lower then tick.drop 1
  else if "dmt-".toList.isPrefixOf lower then tick.drop 4
  else tick

/-- A ticker that a deployment or mint may not use. -/
def reservedTick (lower : Text) : Bool :=
  ['-'].isPrefixOf lower || "dmt-".toList.isPrefixOf lower

def normalizeAddress (address : Text) : Text :=
  let trimmed := trimJsWhitespace address
  let lower := env.toLowercase trimmed
  if "bc1".toList.isPrefixOf lower then lower else trimmed

def isValidBitcoinAddress (address : Text) : Bool :=
  match env.dogeAddressVersion address with
  | none => false
  | some version =>
      let main := version = 30 || version = 22
      let test := version = 113 || version = 196
      if context.height < featureHeight env.mainnet .fullTicker then main || test
      else if env.mainnet then main
      else test

def tapGetLockedAmount (address : Address) (tick : TickKey) : ℕ :=
  if featureEnabled env context .tokenAuthorityStakingUpgradeActivation then
    context.lockedAmount address tick
  else 0

def tapGetAccountObligationLockedAmount (address : Address) (tick : TickKey) : ℕ :=
  if featureEnabled env context .tokenAuthorityStakingUpgradeActivation then
    context.obligationLockedAmount address tick
  else 0

def tapIsDmtRewardAddress (address : Address) : Bool :=
  featureEnabled env context .minerRewardShieldActivation && context.dmtRewardAddress address

def tapBlocksDmtRewardTransferExecution (address : Address) : Bool :=
  featureEnabled env context .minerRewardTransferExecutionShieldActivation &&
    context.dmtRewardAddress address && context.bltr address

end Rules

/-- The number of UTF-8 bytes of a text. -/
def utf8Length (text : Text) : ℕ := (text.map Char.utf8Size).sum

/-- The optional `dta` field: `none` for one that is too long. -/
def dtaField (json : Json) : Option (Option Text) :=
  match (json.get "dta").bind Json.asStr with
  | none => some none
  | some text => if 512 < utf8Length text then none else some (some text)

/-! ### Rows -/

/-- `d/<tick>`, less the fields no handler reads. -/
structure DeployRecord where
  tick : Text
  max : ℕ
  lim : ℕ
  dec : ℕ
  ins : Text
  dmt : Bool
  elem : Option Text
  prj : Option Text
  dim : Option Text
  dt : Option Text
  prv : Option Text
deriving DecidableEq, Repr

/-- A row of `atrli/<addr>/<tick>`, less the fields no handler reads. -/
structure TransferInitRecord where
  addr : Address
  amt : ℕ
  tx : Txid
deriving DecidableEq, Repr

/-- `tl/<inscription>`: which row of `atrli` the inscription transfers. -/
structure TransferPointer where
  addr : Address
  tick : TickKey
  index : ℕ
deriving DecidableEq, Repr

/-- `a/<inscription>` and `tol/<trade>`. -/
structure TapAccumulatorEntry where
  op : Text
  json : Json
  addr : Address
deriving Repr

/-- A row of `atrofi/<addr>/<tick>`, less the fields no handler reads. -/
structure TradeOfferRecord where
  addr : Address
  tick : Text
  amt : ℤ
  atick : Text
  aamt : ℤ
  vld : ℤ
deriving DecidableEq, Repr

/-- `dmtmh/<inscription>`, less the fields no handler reads or that are copies. -/
structure DmtHolderRecord where
  tick : Text
  dmtblck : ℕ
deriving DecidableEq, Repr

/-- The rows of `TAP_KV` that the token handlers read back.  Decimal texts are the numbers they
write. -/
structure TapStore where
  d : KeyTable TickKey DeployRecord
  dc : KeyTable TickKey ℤ
  b : KeyTable (Address × TickKey) ℤ
  t : KeyTable (Address × TickKey) ℤ
  tl : KeyTable InscriptionId (Option TransferPointer)
  atrli : KeyTable (Address × TickKey) (List TransferInitRecord)
  a : KeyTable InscriptionId TapAccumulatorEntry
  tol : KeyTable Text TapAccumulatorEntry
  tradeOffer : KeyTable (Text × TickKey) TransferPointer
  atrofi : KeyTable (Address × TickKey) (List TradeOfferRecord)
  dmtBlk : KeyTable (Text × ℕ) Unit
  dmtDi : KeyTable Text Text
  dmtmh : KeyTable Text DmtHolderRecord
  prah : KeyTable Text Unit

def TapStore.empty : TapStore where
  d := ∅
  dc := ∅
  b := ∅
  t := ∅
  tl := ∅
  atrli := ∅
  a := ∅
  tol := ∅
  tradeOffer := ∅
  atrofi := ∅
  dmtBlk := ∅
  dmtDi := ∅
  dmtmh := ∅
  prah := ∅

/-- `parse::<u128>` of a stored number. -/
def readU128 (n : ℤ) : Option ℕ := if 0 ≤ n ∧ n < 2 ^ 128 then some n.toNat else none

/-- `parse::<i128>` of a stored number. -/
def readI128 (n : ℤ) : Option ℤ := if -2 ^ 127 ≤ n ∧ n < 2 ^ 127 then some n else none

theorem readU128_eq_some {n : ℤ} {value : ℕ} (hread : readU128 n = some value) : n = value := by
  unfold readU128 at hread
  split at hread
  next hrange =>
    cases hread
    omega
  next => cases hread

theorem readI128_eq_some {n m : ℤ} (hread : readI128 n = some m) :
    m = n ∧ -2 ^ 127 ≤ n ∧ n < 2 ^ 127 := by
  unfold readI128 at hread
  split at hread
  next hrange =>
    cases hread
    exact ⟨rfl, hrange⟩
  next => cases hread

/-- A stored number read as `i128`, zero when there is none. -/
def i128At (table : KeyTable (Address × TickKey) ℤ) (address : Address) (tick : TickKey) : ℤ :=
  ((table.lookup (address, tick)).bind readI128).getD 0

/-- A stored number read as `u128`, zero when there is none. -/
def u128At (table : KeyTable (Address × TickKey) ℤ) (address : Address) (tick : TickKey) : ℕ :=
  ((table.lookup (address, tick)).bind readU128).getD 0

/-- The value of a release-build `i128` computation. -/
def wrapI128 (n : ℤ) : ℤ := (n + 2 ^ 127) % 2 ^ 128 - 2 ^ 127

theorem wrapI128_of_range {n : ℤ} (hlow : -2 ^ 127 ≤ n) (hhigh : n < 2 ^ 127) : wrapI128 n = n := by
  unfold wrapI128
  omega

/-- `InscriptionId::to_string`. -/
def inscriptionText (id : InscriptionId) : Text :=
  let hex := Nat.toDigits 16 id.txid
  List.replicate (64 - hex.length) '0' ++ hex ++ 'i' :: Nat.toDigits 10 id.index

/-- A character that is no digit does not occur in a number. -/
theorem not_mem_toDigits {c : Char} (hc : ∀ digit < 16, Nat.digitChar digit ≠ c) {base : ℕ}
    (hbase : 1 < base) (hsmall : base ≤ 16) (n : ℕ) : c ∉ Nat.toDigits base n := by
  induction n using Nat.strong_induction_on with
  | _ n ih =>
      rw [Nat.toDigits_eq_if hbase]
      split
      next hlt =>
        rw [List.mem_singleton]
        exact (hc n (by omega)).symm
      next hle =>
        have hmod := Nat.mod_lt n (by omega : 0 < base)
        rw [List.mem_append, List.mem_singleton]
        rintro (hmem | hmem)
        · exact ih (n / base) (Nat.div_lt_self (by omega) hbase) hmem
        · exact hc (n % base) (by omega) hmem.symm

/-- An identifier has only digits and the `i` between them. -/
theorem not_mem_inscriptionText {c : Char} (hc : ∀ digit < 16, Nat.digitChar digit ≠ c)
    (hi : c ≠ 'i') (id : InscriptionId) : c ∉ inscriptionText id := by
  unfold inscriptionText
  simp only [List.mem_append, List.mem_cons, List.mem_replicate, not_or]
  refine ⟨⟨?_, not_mem_toDigits hc (by decide) (by decide) _⟩, hi,
    not_mem_toDigits hc (by decide) (by decide) _⟩
  rintro ⟨-, hzero⟩
  exact hc 0 (by decide) hzero.symm

/-! ### Handlers -/

/-- What a handler of a new inscription is given. -/
structure Created where
  inscriptionId : InscriptionId
  inscriptionNumber : ℤ
  satpoint : SatPoint
  body : Option (List UInt8)
  ownerAddress : Address
  parents : List InscriptionId

/-- What a handler of a moved inscription is given. -/
structure Moved where
  inscriptionId : InscriptionId
  newSatpoint : SatPoint
  ownerAddress : Address

/-- A handler: it leaves at its early returns with the rows written so far. -/
abbrev TapHandler (α : Type) := Proc Unit TapStore α

/-- Return from the handler unless the condition holds. -/
def TapHandler.require (condition : Bool) : TapHandler Unit := Proc.exitIf (!condition) ()

def TapHandler.get {α : Type} (value : Option α) : TapHandler α := Proc.orExit value ()

/-- The JSON of an inscription that is seen in its own transaction. -/
def createdJson (env : TapEnv) (context : TapContext) (created : Created) : Option Json := do
  if created.satpoint.outpoint.txid ≠ created.inscriptionId.txid then none
  else
    let body ← created.body
    parseTapJsonValue env context body

end OrdDogecoin.Tap
