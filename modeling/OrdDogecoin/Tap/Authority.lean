/-
Module: OrdDogecoin.Tap.Authority
Purpose: What the proof actions of a token-auth redeem work on: the rows of authorities beside those of
  the token handlers, the amounts an account has reserved, and the small functions that read and write
  them.
Trusted boundary: the fields that `ProofEnv` adds stand for the JSON text parser; log lists, which no
  action reads back, are not kept
Main exports: ProofEnv, tapAddAuthorityBalance, tapCreditAddressBalance
-/
import OrdDogecoin.Tap.Tokens

namespace OrdDogecoin.Tap

open Chain

/-! ### Numbers -/

/-- `parse::<BigUint>`: digits, between which underscores may stand. -/
def parseBigUint (text : Text) : Option ℕ :=
  let text := match text with
    | '+' :: '+' :: _ => text
    | '+' :: rest => rest
    | _ => text
  if text.head? = some '_' then none else parseDigits (text.filter (· ≠ '_'))

/-- `parse::<BigInt>`. -/
def parseBigInt (text : Text) : Option ℤ :=
  match text with
  | '-' :: '+' :: _ => none
  | '-' :: rest => (parseBigUint rest).map fun n => -(n : ℤ)
  | _ => (parseBigUint text).map fun n => (n : ℤ)

/-! ### Rows -/

/-- What the actions use of the libraries beside the token handlers, and the checks of metadata and
certificates, which decide whether an action is accepted and nothing else. -/
structure ProofEnv extends TapEnv where
  /-- `js_json_string_parse_str`. -/
  jsJsonStringParseStr : Text → Option Text
  /-- `js_string_node_utf8_bytes`. -/
  nodeUtf8Bytes : Text → List UInt8
  /-- `hex::encode` of a SHA-256 digest. -/
  sha256Hex : List UInt8 → Text
  /-- `token_proof_compressed_delegation_pubkey`. -/
  compressedPubkey : Text → Option Text
  /-- `normalize_token_proof_optional_data`. -/
  optionalData : Option Json → Bool
  /-- `token_proof_validate_app_data` with the fields it asks for. -/
  appData : Json → List String → Bool
  /-- `normalize_token_proof_metadata_object`, with the check of its reference. -/
  metadata : Json → Option Json
  /-- `normalize_certified_control_policy`. -/
  controlPolicy : Option Json → Json → Option (Option Json)
  /-- `validate_certified_control_certificate` on the used nonces, the action, the control policy of
  the lock, the name of the action and the height: the nonce it uses up. -/
  certificate : (Text → Bool) → Json → Option Json → Text → ℕ → Option (Option Text)

instance ProofEnv.instCoeTapEnv : Coe ProofEnv TapEnv := ⟨ProofEnv.toTapEnv⟩

/-- `TokenAuthCreateRecord`, less the fields no action reads. -/
structure TokenAuthCreateRecord where
  addr : Address
  auth : List Text
  ins : Text
deriving DecidableEq, Repr

/-- The allowlist of a sale: a Merkle root over addresses, or over addresses with their caps. -/
structure SaleAllowlist where
  capped : Bool
  root : Text
deriving DecidableEq, Repr

/-- The field `s` of a sale, as `validate_authority_config_action` normalizes it. -/
structure SaleTerms where
  sh : ℕ
  eh : ℕ
  hc : ℤ
  sc : Option ℤ
  mn : Option ℤ
  mx : Option ℤ
  pa : ℤ
  sa : ℤ
  cx : Bool
  alw : Option SaleAllowlist
deriving DecidableEq, Repr

/-- `AuthorityConfigRecord` of an `ah` row, less the fields no action reads.  The control names the
authority that may act for a sale. -/
structure AuthorityConfigRecord where
  k : Text
  stk : Text
  rt : List Text
  r : Json
  st : Option Text := none
  pt : Option Text := none
  ctl : Option Text := none
  tre : Option Json := none
  s : Option SaleTerms := none
deriving Repr

/-! ### Rows of stakes -/

inductive StakeStatus where
  | opened
  | closed
deriving DecidableEq, Repr

/-- `StakePositionRecord`, less the fields no action reads.  The debt is the reward a position has
no claim to any more, for each reward ticker. -/
structure StakePositionRecord where
  auth : Text
  claim : Address
  tick : Text
  amt : ℤ
  shares : ℤ
  uh : ℕ
  debt : KeyTable Text ℤ
  status : StakeStatus

/-- `RewardClaimRecord`, less the fields that only say where the claim was made. -/
structure RewardClaimRecord where
  auth : Text
  pos : Text
  rt : Text
  claim : Address
  amt : ℤ
deriving DecidableEq, Repr

/-! ### Rows of locks -/

/-- The condition of a lock's claim, as `validate_token_proof_lock_kind` normalizes it. -/
inductive LockCondition where
  | hashlock (hash : Text)
  | height (min : ℕ)
  | authority (auth : Text)
deriving DecidableEq, Repr

/-- Where an allocation goes: `a`, `h` or `b`. -/
inductive AllocationTarget where
  | account
  | authority
  | burn
deriving DecidableEq, Repr

structure TokenAllocationRecord where
  tt : AllocationTarget
  dest : Text
  amt : ℤ
  rl : Text
deriving DecidableEq, Repr

/-- `TokenLockRecord`, less the fields no action reads.  The legacy fee is never written. -/
structure TokenLockRecord where
  owner : Address
  tick : Text
  remaining : ℤ
  al : List TokenAllocationRecord
  claim : Address
  refund : Option Address
  condition : LockCondition
  refundAfter : Option ℕ
  control : Option Json
deriving Repr

inductive ReleaseAction where
  | claim
  | refund
deriving DecidableEq, Repr

/-- `TokenLockConsumeRecord`, less the fields that only say where the release was made. -/
structure TokenLockConsumeRecord where
  action : ReleaseAction
  owner : Address
  target : Address
  tick : Text
  amt : ℤ
  al : List TokenAllocationRecord
  blck : ℕ
deriving DecidableEq, Repr

/-! ### Rows of pools and obligations -/

/-- `AmmTarget`. -/
inductive AmmTarget where
  | account (dest : Address)
  | authority (dest : Text)
  | burn
deriving DecidableEq, Repr

/-- `AuthorityConfigRecord` of an `amm` row, less the fields no action reads; its key is its id. -/
structure AmmPoolRecord where
  ctl : Text
  a : Fin 2 → Json
  r : Fin 2 → ℤ
  sh : ℤ
  fee : ℤ
  pf : ℤ
  min : ℤ
  p : Bool
  pp : Option AmmTarget

/-- The source or a target of an obligation. -/
inductive ObligationTarget where
  | account (dest : Address)
  | authority (dest : Text)
  | pool (pid : Text) (side : Fin 2)
  | burn
deriving DecidableEq, Repr

inductive ObligationStatus where
  | opened
  | claimed
  | finalized
  | refunded
deriving DecidableEq, Repr

/-- An `ob` row, less the fields no action reads.  Its condition is always a hash. -/
structure TokenObligationRecord where
  src : ObligationTarget
  tick : Text
  amt : ℤ
  cl : ObligationTarget
  rf : ObligationTarget
  hash : Text
  ra : ℕ
  st : ObligationStatus
deriving DecidableEq, Repr

/-- `ob-claim`, `ob-final` and `ob-refund`. -/
inductive SettleAction where
  | claim
  | final
  | refund
deriving DecidableEq, Repr

/-- An `obc` row, less the fields that only say where the settlement was made. -/
structure ObligationConsumeRecord where
  action : SettleAction
  src : ObligationTarget
  target : ObligationTarget
  tick : Text
  amt : ℤ
  blck : ℕ
deriving DecidableEq, Repr

/-! ### Rows of sales -/

/-- A `sale` row, less the fields that only say how a sale was resolved. -/
structure SaleStatusRecord where
  tc : ℤ := 0
  inv : ℤ := 0
  alc : ℤ := 0
  clm : ℤ := 0
  ref : ℤ := 0
  wdr : ℤ := 0
  fin : Bool := false
  can : Bool := false
  fail : Bool := false
  pp : Bool := false
deriving DecidableEq, Repr

inductive ContributionStatus where
  | opened
  | claimed
  | refunded
deriving DecidableEq, Repr

/-- A `scon` row, less the fields no action reads. -/
structure SaleContributionRecord where
  auth : Text
  claim : Address
  amt : ℤ
  sa : ℤ
  status : ContributionStatus
deriving DecidableEq, Repr

/-- A row of `sclaimli` or `srefli`, less the fields that only say where it was made. -/
structure SaleSettleRecord where
  auth : Text
  cid : Text
  claim : Address
  amt : ℤ
deriving DecidableEq, Repr

/-! ### The store -/

/-- The rows that the token handlers and the proof actions read back. -/
structure ProofStore extends TapStore where
  ll : KeyTable (Address × TickKey) ℤ
  oll : KeyTable (ObligationTarget × TickKey) ℤ
  ah : KeyTable Text AuthorityConfigRecord
  ab : KeyTable (Text × TickKey) ℤ
  abli : KeyTable Text (List Text)
  abo : KeyTable (Text × TickKey) Unit
  ahs : KeyTable Text ℤ
  ahrps : KeyTable (Text × TickKey) ℤ
  ahrc : KeyTable (Text × TickKey) ℤ
  sp : KeyTable Text StakePositionRecord
  rcli : List RewardClaimRecord
  tains : KeyTable Text Unit := ∅
  tac : KeyTable Text Unit := ∅
  l : KeyTable Text TokenLockRecord := ∅
  lc : KeyTable Text TokenLockConsumeRecord := ∅
  ccn : KeyTable Text Unit := ∅
  amm : KeyTable Text AmmPoolRecord := ∅
  ammp : KeyTable (Text × AmmTarget) ℤ := ∅
  amms : KeyTable (Text × Text) Json := ∅
  ob : KeyTable Text TokenObligationRecord := ∅
  obc : KeyTable Text ObligationConsumeRecord := ∅
  sale : KeyTable Text SaleStatusRecord := ∅
  scon : KeyTable Text SaleContributionRecord := ∅
  scab : KeyTable (Text × Address) ℤ := ∅
  sclaimli : List SaleSettleRecord := []
  srefli : List SaleSettleRecord := []

/-- The place of an action: the redeeming inscription and the position in its list. -/
structure ActionPlace where
  inscription : Text
  index : ℕ
deriving DecidableEq, Repr

/-- An action: it leaves with a failure, after which the rows written so far are taken back. -/
abbrev ProofHandler (α : Type) := Proc Unit ProofStore α

/-- The rows after an action: those before it when it fails. -/
def ProofHandler.commit (handler : ProofHandler Unit) (store : ProofStore) : Option ProofStore :=
  match handler.result store with
  | (.ok _, after) => some after
  | (.error _, _) => none

namespace ProofHandler

/-- Fail unless the condition holds. -/
def require (condition : Bool) : ProofHandler Unit := Proc.exitIf (!condition) ()

def get {α : Type} (value : Option α) : ProofHandler α := Proc.orExit value ()

end ProofHandler

section Rows

variable (env : ProofEnv) (context : TapContext)

/-- `tap_get_locked_amount` over the stored rows. -/
def ProofStore.lockedAmount (store : ProofStore) (address : Address) (tick : TickKey) : ℤ :=
  if featureEnabled env context .tokenAuthorityStakingUpgradeActivation then
    i128At store.ll address tick
  else 0

/-- `tap_get_account_obligation_locked_amount` over the stored rows. -/
def ProofStore.obligationLockedAmount (store : ProofStore) (address : Address) (tick : TickKey) : ℤ :=
  if featureEnabled env context .tokenAuthorityStakingUpgradeActivation then
    ((store.oll.lookup (.account address, tick)).bind readI128).getD 0
  else 0

/-- What an account may spend after `amount` more has gone, as the actions compute it. -/
def ProofStore.available (store : ProofStore) (address : Address) (tick : TickKey) (amount : ℤ) : ℤ :=
  wrapI128 (i128At store.b address tick - i128At store.t address tick -
    store.lockedAmount env context address tick -
    store.obligationLockedAmount env context address tick - amount)

/-- `tap_get_authority_balance`. -/
def ProofStore.authorityBalance (store : ProofStore) (auth : Text) (tick : TickKey) : ℤ :=
  i128At store.ab auth tick

/-- The rows with a new balance of an authority: a ticker is listed with its first positive one. -/
def ProofStore.putAuthorityBalance (auth : Text) (tick : TickKey) (amount : ℤ) (store : ProofStore) :
    ProofStore :=
  let written := { store with ab := store.ab.insert (auth, tick) amount }
  if 0 < amount ∧ (store.abo.lookup (auth, tick)).isNone then
    let label := (env.jsJsonStringParseStr tick).getD tick
    { written with
      abli := store.abli.insert auth ((store.abli.lookup auth).getD [] ++ [label])
      abo := store.abo.insert (auth, tick) () }
  else written

def tapSetAuthorityBalance (auth : Text) (tick : TickKey) (amount : ℤ) : ProofHandler Unit := do
  ProofHandler.require (0 ≤ amount)
  Proc.write (ProofStore.putAuthorityBalance env auth tick amount)

/-- `i128::checked_add`. -/
def checkedAddI128 (a b : ℤ) : Option ℤ := readI128 (a + b)

def tapAddAuthorityBalance (auth : Text) (tick : TickKey) (delta : ℤ) : ProofHandler Unit := do
  let current ← Proc.read fun store => store.authorityBalance auth tick
  let next ← ProofHandler.get (checkedAddI128 current delta)
  tapSetAuthorityBalance env auth tick next

/-- Write the balance of an account. -/
def ProofStore.putBalance (address : Address) (tick : TickKey) (amount : ℤ) (store : ProofStore) :
    ProofStore :=
  { store with b := store.b.insert (address, tick) amount }

def tapCreditAddressBalance (address : Address) (tick : TickKey) (amount : ℤ) : ProofHandler Unit := do
  ProofHandler.require (0 ≤ amount)
  let before ← Proc.read fun store => i128At store.b address tick
  let after ← ProofHandler.get (checkedAddI128 before amount)
  Proc.write (ProofStore.putBalance address tick after)

end Rows

/-! ### Rules -/

namespace ProofHandler

variable {α β : Type} {post : α → ProofStore → Prop} {store : ProofStore}

theorem wp_require {condition : Bool} {rest : Unit → ProofHandler α}
    (hrest : condition = true → Proc.wp (rest ()) post (fun _ _ => True) store) :
    Proc.wp (require condition >>= rest) post (fun _ _ => True) store := by
  apply Proc.wp_exitIf
  · exact fun _ => trivial
  · intro hcondition
    apply hrest
    simpa using hcondition

theorem wp_get {value : Option β} {rest : β → ProofHandler α}
    (hrest : ∀ found, value = some found → Proc.wp (rest found) post (fun _ _ => True) store) :
    Proc.wp (get value >>= rest) post (fun _ _ => True) store :=
  Proc.wp_orExit (fun _ => trivial) hrest

section Total

variable {exit : Unit → ProofStore → Prop}

theorem wp_require_of {condition : Bool} {rest : Unit → ProofHandler α} (hcondition : condition = true)
    (hrest : Proc.wp (rest ()) post exit store) :
    Proc.wp (require condition >>= rest) post exit store := by
  subst hcondition
  exact Proc.wp_exitIf (fun hexit => nomatch hexit) fun _ => hrest

theorem wp_get_of {value : Option β} {found : β} {rest : β → ProofHandler α}
    (hvalue : value = some found) (hrest : Proc.wp (rest found) post exit store) :
    Proc.wp (get value >>= rest) post exit store := by
  subst hvalue
  exact Proc.wp_orExit (fun hexit => nomatch hexit) fun _ hfound => by
    cases hfound
    exact hrest

/-- An action that cannot fail commits. -/
theorem exists_commit {handler : ProofHandler Unit} {Post : ProofStore → Prop}
    (hwp : Proc.wp handler (fun _ => Post) (fun _ _ => False) store) :
    ∃ after, handler.commit store = some after ∧ Post after := by
  unfold Proc.wp at hwp
  unfold commit
  rcases hresult : handler.result store with ⟨_ | _, final⟩
  · rw [hresult] at hwp
    exact hwp.elim
  · rw [hresult] at hwp
    exact ⟨final, rfl, hwp⟩

end Total

/-- What an action ensures holds of the rows it commits. -/
theorem of_commit {handler : ProofHandler Unit} {Post : ProofStore → Prop} {after : ProofStore}
    (hwp : Proc.wp handler (fun _ => Post) (fun _ _ => True) store)
    (hcommit : handler.commit store = some after) : Post after := by
  unfold Proc.wp at hwp
  unfold commit at hcommit
  rcases hresult : handler.result store with ⟨_ | _, final⟩
  · rw [hresult] at hcommit
    cases hcommit
  · rw [hresult] at hcommit hwp
    cases hcommit
    exact hwp

end ProofHandler

section Balances

variable {env : ProofEnv} {store : ProofStore} {auth other : Text} {tick otherTick : TickKey} {n : ℤ}

theorem readI128_of_range (hlow : -2 ^ 127 ≤ n) (hhigh : n < 2 ^ 127) : readI128 n = some n := by
  unfold readI128
  rw [if_pos ⟨hlow, hhigh⟩]

theorem i128At_range (table : KeyTable (Address × TickKey) ℤ) (address : Address) (tick : TickKey) :
    -2 ^ 127 ≤ i128At table address tick ∧ i128At table address tick < 2 ^ 127 := by
  unfold i128At
  cases hrow : (table.lookup (address, tick)).bind readI128 with
  | none => simp
  | some value =>
      obtain ⟨row, hread⟩ := Proc.of_bind hrow
      obtain ⟨rfl, hrange⟩ := readI128_eq_some hread
      exact hrange

theorem i128At_insert (table : KeyTable (Address × TickKey) ℤ) (address other : Address)
    (tick otherTick : TickKey) (hlow : -2 ^ 127 ≤ n) (hhigh : n < 2 ^ 127) :
    i128At (table.insert (address, tick) n) other otherTick =
      if other = address ∧ otherTick = tick then n else i128At table other otherTick := by
  unfold i128At
  rw [KeyTable.lookup_insert_ite]
  by_cases hsame : other = address ∧ otherTick = tick
  · rw [if_pos hsame, if_pos (by rw [hsame.1, hsame.2]), Option.bind_some,
      readI128_of_range hlow hhigh]
    rfl
  · rw [if_neg hsame, if_neg fun heq => hsame (Prod.mk.injEq _ _ _ _ ▸ heq)]

/-- Writing a balance of an authority touches no row but its own and the list of its tickers. -/
theorem putAuthorityBalance_eq (env : ProofEnv) (store : ProofStore) (auth : Text) (tick : TickKey)
    (n : ℤ) :
    ∃ abli abo, store.putAuthorityBalance env auth tick n =
      { store with ab := store.ab.insert (auth, tick) n, abli := abli, abo := abo } := by
  unfold ProofStore.putAuthorityBalance
  dsimp only
  split
  · exact ⟨_, _, rfl⟩
  · exact ⟨_, _, rfl⟩

theorem putAuthorityBalance_field {β : Type} (field : ProofStore → β)
    (hfield : ∀ ab abli abo, field { store with ab := ab, abli := abli, abo := abo } = field store) :
    field (store.putAuthorityBalance env auth tick n) = field store := by
  obtain ⟨abli, abo, hput⟩ := putAuthorityBalance_eq env store auth tick n
  rw [hput, hfield]

@[simp] theorem putAuthorityBalance_toTapStore :
    (store.putAuthorityBalance env auth tick n).toTapStore = store.toTapStore :=
  putAuthorityBalance_field (·.toTapStore) fun _ _ _ => rfl

@[simp] theorem putAuthorityBalance_ah :
    (store.putAuthorityBalance env auth tick n).ah = store.ah :=
  putAuthorityBalance_field (·.ah) fun _ _ _ => rfl

@[simp] theorem putAuthorityBalance_ahs :
    (store.putAuthorityBalance env auth tick n).ahs = store.ahs :=
  putAuthorityBalance_field (·.ahs) fun _ _ _ => rfl

@[simp] theorem putAuthorityBalance_ahrps :
    (store.putAuthorityBalance env auth tick n).ahrps = store.ahrps :=
  putAuthorityBalance_field (·.ahrps) fun _ _ _ => rfl

@[simp] theorem putAuthorityBalance_ahrc :
    (store.putAuthorityBalance env auth tick n).ahrc = store.ahrc :=
  putAuthorityBalance_field (·.ahrc) fun _ _ _ => rfl

@[simp] theorem putAuthorityBalance_sp :
    (store.putAuthorityBalance env auth tick n).sp = store.sp :=
  putAuthorityBalance_field (·.sp) fun _ _ _ => rfl

@[simp] theorem putAuthorityBalance_rcli :
    (store.putAuthorityBalance env auth tick n).rcli = store.rcli :=
  putAuthorityBalance_field (·.rcli) fun _ _ _ => rfl

/-- The name under which a ticker is listed with an authority. -/
def tickLabel (env : ProofEnv) (tick : TickKey) : Text := (env.jsJsonStringParseStr tick).getD tick

/-- The tickers listed with an authority. -/
def ProofStore.labels (store : ProofStore) (auth : Text) : List Text := (store.abli.lookup auth).getD []

/-- Every ticker that is marked as listed is in the list. -/
def ProofStore.Listed (env : ProofEnv) (auth : Text) (store : ProofStore) : Prop :=
  ∀ tick, (store.abo.lookup (auth, tick)).isSome → tickLabel env tick ∈ store.labels auth

theorem labels_putAuthorityBalance (auth : Text) {label : Text} (hlabel : label ∈ store.labels auth) :
    label ∈ (store.putAuthorityBalance env other tick n).labels auth := by
  unfold ProofStore.putAuthorityBalance
  dsimp only
  split
  · unfold ProofStore.labels
    dsimp only
    rw [KeyTable.lookup_insert_ite]
    split
    next hsame =>
      subst hsame
      exact List.mem_append_left _ hlabel
    next => exact hlabel
  · exact hlabel

/-- A positive balance is listed. -/
theorem listed_putAuthorityBalance (other : Text) (tick : TickKey) (n : ℤ)
    (hlisted : store.Listed env auth) :
    (store.putAuthorityBalance env other tick n).Listed env auth ∧
      (other = auth → 0 < n →
        tickLabel env tick ∈ (store.putAuthorityBalance env other tick n).labels auth) := by
  by_cases hnew : 0 < n ∧ (store.abo.lookup (other, tick)).isNone
  · have hput : store.putAuthorityBalance env other tick n =
        { store with
          ab := store.ab.insert (other, tick) n
          abli := store.abli.insert other (store.labels other ++ [tickLabel env tick])
          abo := store.abo.insert (other, tick) () } := by
      unfold ProofStore.putAuthorityBalance
      dsimp only
      rw [if_pos hnew]
      rfl
    have hown : tickLabel env tick ∈ (store.putAuthorityBalance env other tick n).labels other := by
      rw [hput]
      unfold ProofStore.labels
      dsimp only
      rw [AList.lookup_insert]
      exact List.mem_append_right _ (List.mem_singleton.2 rfl)
    constructor
    · intro asked hmarked
      rw [hput] at hmarked
      dsimp only at hmarked
      rw [KeyTable.lookup_insert_ite] at hmarked
      split at hmarked
      next hsame =>
        cases hsame
        exact hown
      next => exact labels_putAuthorityBalance auth (hlisted asked hmarked)
    · rintro rfl -
      exact hown
  · have hput : store.putAuthorityBalance env other tick n =
        { store with ab := store.ab.insert (other, tick) n } := by
      unfold ProofStore.putAuthorityBalance
      dsimp only
      rw [if_neg hnew]
    constructor
    · intro asked hmarked
      rw [hput] at hmarked ⊢
      exact hlisted asked hmarked
    · rintro rfl hpos
      rw [hput]
      apply hlisted
      by_contra hunmarked
      exact hnew ⟨hpos, by simpa using hunmarked⟩

/-- A balance of an authority that changes by `delta`, as the actions read it back. -/
theorem authorityBalance_put (env : ProofEnv) (store : ProofStore) (auth target : Text)
    (tick : TickKey) {delta : ℤ} (hnonneg : 0 ≤ store.authorityBalance target tick + delta)
    (hhigh : store.authorityBalance target tick + delta < 2 ^ 127) (asked : TickKey) :
    (store.putAuthorityBalance env target tick
        (store.authorityBalance target tick + delta)).authorityBalance auth asked =
      store.authorityBalance auth asked + if target = auth ∧ asked = tick then delta else 0 := by
  obtain ⟨abli, abo, hput⟩ := putAuthorityBalance_eq env store target tick
    (store.authorityBalance target tick + delta)
  rw [hput]
  unfold ProofStore.authorityBalance at hnonneg hhigh ⊢
  rw [i128At_insert _ _ _ _ _ (by omega) hhigh, eq_comm]
  by_cases hsame : target = auth ∧ asked = tick
  · rw [if_pos hsame, if_pos ⟨hsame.1.symm, hsame.2⟩, hsame.1, hsame.2]
  · rw [if_neg hsame, if_neg fun hboth => hsame ⟨hboth.1.symm, hboth.2⟩, add_zero]

theorem lt_of_resolvedI128 {text : Text} {decimals amount : ℕ}
    (hamount : resolvedI128 text decimals = some amount) : amount < 2 ^ 127 := by
  obtain ⟨resolved, hparsed⟩ := Proc.of_bind hamount
  have hfilter := (Option.filter_eq_some_iff.1 hparsed).2
  simpa using hfilter

/-! ### Spec lemmas -/

section Spec

variable {post : Unit → ProofStore → Prop}

theorem wp_tapSetAuthorityBalance
    (hpost : 0 ≤ n → post () (store.putAuthorityBalance env auth tick n)) :
    Proc.wp (tapSetAuthorityBalance env auth tick n) post (fun _ _ => True) store := by
  unfold tapSetAuthorityBalance
  apply ProofHandler.wp_require
  intro hnonneg
  exact Proc.wp_write_last (hpost (by simpa using hnonneg))

theorem wp_tapAddAuthorityBalance
    (hpost : 0 ≤ store.authorityBalance auth tick + n →
      store.authorityBalance auth tick + n < 2 ^ 127 →
      post () (store.putAuthorityBalance env auth tick (store.authorityBalance auth tick + n))) :
    Proc.wp (tapAddAuthorityBalance env auth tick n) post (fun _ _ => True) store := by
  unfold tapAddAuthorityBalance
  apply Proc.wp_read
  apply ProofHandler.wp_get
  intro next hnext
  obtain ⟨rfl, -, hhigh⟩ := readI128_eq_some hnext
  exact wp_tapSetAuthorityBalance fun hnonneg => hpost hnonneg hhigh

theorem wp_tapCreditAddressBalance {address : Address}
    (hpost : 0 ≤ n → i128At store.b address tick + n < 2 ^ 127 →
      post () (store.putBalance address tick (i128At store.b address tick + n))) :
    Proc.wp (tapCreditAddressBalance address tick n) post (fun _ _ => True) store := by
  unfold tapCreditAddressBalance
  apply ProofHandler.wp_require
  intro hnonneg
  apply Proc.wp_read
  apply ProofHandler.wp_get
  intro after hafter
  obtain ⟨rfl, -, hhigh⟩ := readI128_eq_some hafter
  exact Proc.wp_write_last (hpost (by simpa using hnonneg) hhigh)

end Spec

end Balances

/-! ### Tickers -/

/-- Lower-casing a text twice changes nothing, and a printed text is read back.  A `Text` is a string of
the engine here: its markers stand before their four digits, as the JSON reader leaves them. -/
structure LawfulText (env : ProofEnv) : Prop where
  lower_lower : ∀ text, env.jsToLowercase (env.jsToLowercase text) = env.jsToLowercase text
  parse_stringify : ∀ text, env.jsJsonStringParseStr (env.jsJsonStringifyStr text) = some text

namespace LawfulText

variable {env : ProofEnv}

/-- Two texts with one ticker key have one lower-case form. -/
theorem lower_eq (lawful : LawfulText env) {text other : Text}
    (hkey : jsonStringifyLower env text = jsonStringifyLower env other) :
    env.jsToLowercase text = env.jsToLowercase other := by
  have hparsed := congrArg env.jsJsonStringParseStr hkey
  unfold jsonStringifyLower at hparsed
  rw [lawful.parse_stringify, lawful.parse_stringify] at hparsed
  exact Option.some.inj hparsed

theorem tickLabel_eq (lawful : LawfulText env) (text : Text) :
    tickLabel env (jsonStringifyLower env text) = env.jsToLowercase text := by
  unfold tickLabel jsonStringifyLower
  rw [lawful.parse_stringify]
  rfl

/-- Lower-case texts are told apart by their ticker keys. -/
theorem key_injective (lawful : LawfulText env) {text other : Text}
    (hlower : env.jsToLowercase text = text) (hother : env.jsToLowercase other = other)
    (hkey : jsonStringifyLower env text = jsonStringifyLower env other) :
    text = other := by
  rw [← hlower, ← hother]
  exact lawful.lower_eq hkey

theorem key_eq_iff (lawful : LawfulText env) {text other : Text}
    (hlower : env.jsToLowercase text = text) (hother : env.jsToLowercase other = other) :
    jsonStringifyLower env text = jsonStringifyLower env other ↔ text = other :=
  ⟨lawful.key_injective hlower hother, congrArg _⟩

end LawfulText

/-! ### A plain environment -/

/-- The libraries on lower-case ASCII texts and one preimage, on a test network. -/
def plainEnv : ProofEnv where
  mainnet := false
  parse _ := none
  toLowercase text := text
  jsToLowercase text := text
  jsJsonStringifyStr text := '"' :: (text ++ ['"'])
  visibleLength text := text.length
  dogeAddressVersion _ := some 113
  countGlobalMatches _ _ := none
  sha256 _ := 0
  verifyPrivilege _ _ _ _ _ := none
  jsJsonStringParseStr text :=
    match text with
    | '"' :: rest => some rest.dropLast
    | _ => none
  nodeUtf8Bytes text := text.map fun c => c.toNat.toUInt8
  sha256Hex bytes :=
    if bytes = [115, 101, 99, 114, 101, 116] then
      "2bb80d537b1da3e38bd30361aa855686bde0eacd7162fef6a25fe97bf527a25b".toList
    else []
  compressedPubkey text := some text
  optionalData _ := true
  appData _ _ := true
  metadata data := some data
  controlPolicy control _ := some control
  certificate _ _ _ _ _ := some none

theorem plainEnv_lawful : LawfulText plainEnv where
  lower_lower _ := rfl
  parse_stringify text := by
    change some (text ++ ['"']).dropLast = some text
    rw [List.dropLast_concat]

def plainContext : TapContext where
  height := 100
  prains _ := false
  prac _ := false
  bltr _ := false
  dmtRewardAddress _ := false
  lockedAmount _ _ := 0
  obligationLockedAmount _ _ := 0
  elementName _ := none
  element _ := none
  bitmap _ := none
  header _ := none
  ordinalAvailable _ := false

def textObject (fields : List (String × String)) : Json :=
  .object (fields.map fun field => (field.1.toList, .string field.2.toList))

def dogKey : TickKey := "\"dog\"".toList

def catKey : TickKey := "\"cat\"".toList

end OrdDogecoin.Tap
