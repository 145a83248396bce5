/-
Module: OrdDogecoin.Tap.ControlQuorum
Purpose: Runs in which locks with a control policy are created and released.  A release that the policy
  controls is a refund from the terminal height on, or enough different signers of the policy have
  signed exactly this release.
Trusted boundary: none
Main exports: publicKey, ReleaseControlled, ControlsQuorum
-/
import OrdDogecoin.Tap.CertifiedControl
import OrdDogecoin.Tap.LockSafety
import Mathlib.Data.List.Dedup
import Mathlib.Data.List.ReduceOption

namespace OrdDogecoin.Tap

open Option (bind_eq_some_iff map_eq_some_iff bind_some)
open Proc (of_bind of_guard guard_bind_eq_some wp_read)

/-! ### Public keys -/

/-- The public key that a signer names in either encoding: whether `y` is odd, and `x`. -/
def publicKey (signer : Text) : Bool × ℕ :=
  if signer.length = 66 then (signer.take 2 = "03".toList, hexNumber (signer.drop 2))
  else (hexNumber (signer.drop 128) % 2 = 1, hexNumber ((signer.drop 2).take 64))

theorem of_ascii {P : Char → Prop} (hsmall : ∀ n < 128, P (Char.ofNat n)) {c : Char}
    (hc : c.toNat < 128) : P c := by
  have hofNat := hsmall c.toNat hc
  rwa [Char.ofNat_toNat] at hofNat

theorem toLower_of_large {c : Char} (hc : 128 ≤ c.toNat) : c.toLower = c := by
  unfold Char.toLower
  split
  next hupper =>
    have hle : c.toNat ≤ 90 := UInt32.le_iff_toNat_le.1 hupper.2
    omega
  next => rfl

theorem toDigit_toLower (c : Char) : toDigit 16 c.toLower = toDigit 16 c := by
  by_cases hc : c.toNat < 128
  · exact of_ascii (P := fun c => toDigit 16 c.toLower = toDigit 16 c) (by decide) hc
  · rw [toLower_of_large (by omega)]

theorem toLower_toLower (c : Char) : c.toLower.toLower = c.toLower := by
  by_cases hc : c.toNat < 128
  · exact of_ascii (P := fun c => c.toLower.toLower = c.toLower) (by decide) hc
  · have hlarge := toLower_of_large (c := c) (by omega)
    rw [hlarge, hlarge]

theorem hexNumber_toLower (text : Text) : hexNumber (text.map Char.toLower) = hexNumber text := by
  simp only [hexNumber, List.foldl_map, toDigit_toLower]

theorem toDigit_eq_some {c : Char} {digit : ℕ} (hdigit : toDigit 16 c = some digit) :
    c.toNat < 128 ∧ digit < 16 := by
  simp only [toDigit, Option.ite_none_right_eq_some, Option.some.injEq] at hdigit
  obtain ⟨hlt, heq⟩ := hdigit
  refine ⟨?_, heq ▸ hlt⟩
  split at hlt
  next => omega
  next =>
    split at hlt
    next => omega
    next =>
      split at hlt
      next => omega
      next => omega

/-- A hex digit in lower case is the digit of its value. -/
theorem digitChar_of_lower {c : Char} {digit : ℕ} (hdigit : toDigit 16 c = some digit)
    (hlower : c.toLower = c) : c = Nat.digitChar digit := by
  have hall : ∀ n < 128, (toDigit 16 (Char.ofNat n)).isSome → (Char.ofNat n).toLower = Char.ofNat n →
      Char.ofNat n = Nat.digitChar ((toDigit 16 (Char.ofNat n)).getD 0) := by decide
  have hc := hall c.toNat (toDigit_eq_some hdigit).1
  rw [Char.ofNat_toNat, hdigit] at hc
  exact hc rfl hlower

def LowerHex (text : Text) : Prop := ∀ c ∈ text, (toDigit 16 c).isSome ∧ c.toLower = c

/-- Texts of as many hex digits in lower case with the same value are the same. -/
theorem foldl_hex_injective : ∀ {text other : Text} {m n : ℕ}, LowerHex text → LowerHex other →
    text.length = other.length →
    text.foldl (fun n c => 16 * n + (toDigit 16 c).getD 0) m =
      other.foldl (fun n c => 16 * n + (toDigit 16 c).getD 0) n → m = n ∧ text = other
  | [], [], m, n, _, _, _, hsame => ⟨hsame, rfl⟩
  | c :: text, d :: other, m, n, hhex, hhex', hlength, hsame => by
      obtain ⟨hc, hhex⟩ := List.forall_mem_cons.1 hhex
      obtain ⟨hd, hhex'⟩ := List.forall_mem_cons.1 hhex'
      obtain ⟨hvalue, rfl⟩ := foldl_hex_injective hhex hhex' (Nat.succ.inj hlength) hsame
      obtain ⟨digit, hdigit⟩ := Option.isSome_iff_exists.1 hc.1
      obtain ⟨digit', hdigit'⟩ := Option.isSome_iff_exists.1 hd.1
      simp only [hdigit, hdigit', Option.getD_some] at hvalue
      have hlt := (toDigit_eq_some hdigit).2
      have hlt' := (toDigit_eq_some hdigit').2
      obtain ⟨rfl, rfl⟩ : m = n ∧ digit = digit' := by omega
      rw [digitChar_of_lower hdigit hc.2, digitChar_of_lower hdigit' hd.2]
      exact ⟨rfl, rfl⟩

/-- A compressed key: `02` or `03`, and `x` in lower case. -/
structure Compressed (key : Text) : Prop where
  length_eq : key.length = 66
  sign : key.take 2 = "02".toList ∨ key.take 2 = "03".toList
  lower : LowerHex (key.drop 2)

theorem lowerHex_toLower {text : Text} (hhex : text.all isHexDigit) :
    LowerHex (text.map Char.toLower) := by
  intro c hc
  obtain ⟨d, hd, rfl⟩ := List.mem_map.1 hc
  rw [toDigit_toLower, toLower_toLower]
  exact ⟨List.all_eq_true.1 hhex d hd, rfl⟩

theorem compressed_cons {sign x : Text} {odd : Bool} (hlength : x.length = 64) (hlower : LowerHex x)
    (hsign : sign = "02".toList ∧ odd = false ∨ sign = "03".toList ∧ odd = true) :
    Compressed (sign ++ x) ∧ publicKey (sign ++ x) = (odd, hexNumber x) := by
  rcases hsign with ⟨rfl, rfl⟩ | ⟨rfl, rfl⟩
  · exact ⟨⟨by simp [hlength], .inl (by simp), by simpa using hlower⟩, by simp [publicKey, hlength]⟩
  · exact ⟨⟨by simp [hlength], .inr (by simp), by simpa using hlower⟩, by simp [publicKey, hlength]⟩

/-- The compressed form of a signer names the same public key. -/
theorem compressed_of_pubkey {signer key : Text} (hkey : compressedDelegationPubkey signer = some key) :
    Compressed key ∧ publicKey key = publicKey signer := by
  unfold compressedDelegationPubkey at hkey
  split at hkey
  next => cases hkey
  next hvalid =>
    simp only [Bool.not_eq_true', Bool.not_eq_false, validDelegationSigner, Bool.and_eq_true,
      Bool.or_eq_true, decide_eq_true_eq] at hvalid
    obtain ⟨hform, hhex⟩ := hvalid
    have hlower : LowerHex (signer.map Char.toLower) := lowerHex_toLower hhex
    simp only [List.length_map] at hkey
    split at hkey
    next hlength =>
      obtain rfl := Option.some.inj hkey
      have hsign : (signer.map Char.toLower).take 2 = signer.take 2 := by
        rcases hform with ⟨-, hsign | hsign⟩ | ⟨hlong, -⟩
        · rw [← List.map_take, hsign]
          decide
        · rw [← List.map_take, hsign]
          decide
        · omega
      refine ⟨⟨by simpa using hlength, ?_, fun c hc => hlower c (List.mem_of_mem_drop hc)⟩, ?_⟩
      · rcases hform with ⟨-, hform⟩ | ⟨hlong, -⟩
        · rwa [hsign]
        · omega
      · simp only [publicKey, List.length_map, hlength, if_true, hsign, ← List.map_drop,
          hexNumber_toLower]
    next hlength =>
      obtain rfl := Option.some.inj hkey
      have hlong : signer.length = 130 := by
        rcases hform with ⟨hshort, -⟩ | ⟨hlong, -⟩
        · exact absurd hshort hlength
        · exact hlong
      have hx : (((signer.map Char.toLower).drop 2).take 64).length = 64 := by simp [hlong]
      have hxLower : LowerHex (((signer.map Char.toLower).drop 2).take 64) :=
        fun c hc => hlower c (List.mem_of_mem_drop (List.mem_of_mem_take hc))
      have hlongKey : publicKey signer = (decide (hexNumber ((signer.map Char.toLower).drop 128) % 2 = 1),
          hexNumber (((signer.map Char.toLower).drop 2).take 64)) := by
        simp [publicKey, hlong, ← List.map_drop, ← List.map_take, hexNumber_toLower]
      rw [hlongKey]
      split
      next heven => exact compressed_cons hx hxLower (.inl ⟨rfl, by simp [heven]⟩)
      next hodd => exact compressed_cons hx hxLower (.inr ⟨rfl, by simpa using hodd⟩)

/-- Different compressed keys are different public keys. -/
theorem publicKey_injective {key other : Text} (hkey : Compressed key) (hother : Compressed other)
    (hsame : publicKey key = publicKey other) : key = other := by
  simp only [publicKey, hkey.length_eq, hother.length_eq, if_true, Prod.mk.injEq] at hsame
  obtain ⟨hsign, hx⟩ := hsame
  have hlength : (key.drop 2).length = (other.drop 2).length := by simp [hkey.length_eq, hother.length_eq]
  have hdrop : key.drop 2 = other.drop 2 :=
    (foldl_hex_injective hkey.lower hother.lower hlength hx).2
  have htake : key.take 2 = other.take 2 := by
    rcases hkey.sign with hsign' | hsign' <;> rcases hother.sign with hsign'' | hsign'' <;>
      simp [hsign', hsign''] at hsign ⊢
  rw [← List.take_append_drop 2 key, ← List.take_append_drop 2 other, hdrop, htake]

/-! ### Policies -/

namespace ControlPolicy

variable (policy : ControlPolicy) (hash : Text)

theorem get_id : (policy.json hash).get "id" = some (.string policy.id) := rfl

theorem get_threshold : (policy.json hash).get "threshold" = some (numberJson policy.threshold) := rfl

theorem get_signers : (policy.json hash).get "signers" = some (.array (policy.signers.map .string)) := rfl

theorem get_scope : (policy.json hash).get "scope" = some (.array (policy.scope.map .string)) := rfl

theorem get_expires : (policy.json hash).get "expires" = policy.expires.map numberJson := by
  cases hexpires : policy.expires <;> cases hterminal : policy.terminal <;>
    simp only [json, members, hexpires, hterminal] <;> rfl

theorem get_rules : (policy.json hash).get "rules" = policy.terminal.map fun terminal =>
    .object [("terminal_refund_after".toList, numberJson terminal)] := by
  cases hexpires : policy.expires <;> cases hterminal : policy.terminal <;>
    simp only [json, members, hexpires, hterminal] <;> rfl

theorem get_hash : (policy.json hash).get "hash" = some (.string hash) := by
  cases hexpires : policy.expires <;> cases hterminal : policy.terminal <;>
    simp only [json, members, hexpires, hterminal] <;> rfl

end ControlPolicy

theorem asU64_numberJson {n : ℕ} (hn : n < 2 ^ 64) : (numberJson n).asU64 = some n := by
  simp only [numberJson, Json.asU64, parseDigits_toDigits, Option.filter_some, decide_eq_true hn, if_true]

/-- What the normal form of a policy ensures: a threshold that its signers can reach, and signers that
are different compressed keys. -/
structure ControlPolicy.Valid (policy : ControlPolicy) : Prop where
  threshold_pos : 0 < policy.threshold
  threshold_le : policy.threshold ≤ policy.signers.length
  few_signers : policy.signers.length ≤ 8
  signers_nodup : policy.signers.Nodup
  signers_compressed : ∀ signer ∈ policy.signers, Compressed signer
  expires_lt : ∀ expires ∈ policy.expires, expires < 2 ^ 32
  terminal_lt : ∀ terminal ∈ policy.terminal, terminal < 2 ^ 32

theorem parseCertifiedControlInteger_lt {value : Json} {n : ℕ}
    (hn : parseCertifiedControlInteger value = some n) : n < 2 ^ 32 := by
  unfold parseCertifiedControlInteger at hn
  split at hn
  next =>
    split at hn
    next hlt => exact Option.some.inj hn ▸ hlt
    next => cases hn
  next =>
    obtain ⟨text, hn⟩ := of_bind hn
    replace hn := of_guard hn
    exact of_decide_eq_true (Option.filter_eq_some_iff.1 hn).2

theorem optionalInteger_lt (json : Json) (key : String) {found : Option ℕ}
    (hfound : optionalInteger json key = some found) : ∀ n ∈ found, n < 2 ^ 32 := by
  unfold optionalInteger at hfound
  split at hfound
  next =>
    cases hfound
    simp
  next value hvalue =>
    obtain ⟨n, hn, rfl⟩ := map_eq_some_iff.1 hfound
    simpa using parseCertifiedControlInteger_lt hn

theorem terminalRefundAfter_lt {control : Json} {found : Option ℕ}
    (hfound : terminalRefundAfter control = some found) : ∀ n ∈ found, n < 2 ^ 32 := by
  unfold terminalRefundAfter at hfound
  split at hfound
  next =>
    cases hfound
    simp
  next rules hrules =>
    replace hfound := of_guard hfound
    replace hfound := of_guard hfound
    exact optionalInteger_lt rules "terminal_refund_after" hfound

/-- The signers of a policy are compressed keys. -/
theorem compressed_of_mapM {listed : List Json} {signers : List Text}
    (hsigners : (listed.mapM fun signer => do compressedDelegationPubkey (← signer.asStr)) =
      some signers) : ∀ signer ∈ signers, Compressed signer := by
  intro signer hsigner
  obtain ⟨entry, -, hentry⟩ := Proc.exists_of_mapM hsigners signer hsigner
  obtain ⟨text, hkey⟩ := of_bind hentry
  exact (compressed_of_pubkey hkey).1

variable {env : ProofEnv}

/-- What `normalize_certified_control_policy` returns for a policy. -/
theorem normalizeCertifiedControlPolicy_spec {raw action : Json} {found : Option Json}
    (hnormal : normalizeCertifiedControlPolicy env (some raw) action = some found) :
    ∃ (policy : ControlPolicy) (hash : Text), found = some (policy.json hash) ∧ policy.Valid ∧
      certifiedControlHash env (.object policy.members) = some hash := by
  unfold normalizeCertifiedControlPolicy at hnormal
  replace hnormal := of_guard hnormal
  replace hnormal := of_guard hnormal
  replace hnormal := of_guard hnormal
  obtain ⟨_, hnormal⟩ := of_bind hnormal
  obtain ⟨id, hnormal⟩ := of_bind hnormal
  replace hnormal := of_guard hnormal
  obtain ⟨_, hnormal⟩ := of_bind hnormal
  obtain ⟨listed, hnormal⟩ := of_bind hnormal
  obtain ⟨signers, hsigners, hnormal⟩ := bind_eq_some_iff.1 hnormal
  obtain ⟨hnodup, hnormal⟩ := guard_bind_eq_some.1 hnormal
  obtain ⟨hfew, hnormal⟩ := guard_bind_eq_some.1 hnormal
  obtain ⟨_, hnormal⟩ := of_bind hnormal
  obtain ⟨threshold, hnormal⟩ := of_bind hnormal
  obtain ⟨hthreshold, hnormal⟩ := guard_bind_eq_some.1 hnormal
  obtain ⟨_, hnormal⟩ := of_bind hnormal
  obtain ⟨_, hnormal⟩ := of_bind hnormal
  obtain ⟨named, hnormal⟩ := of_bind hnormal
  replace hnormal := of_guard hnormal
  obtain ⟨expires, hexpires, hnormal⟩ := bind_eq_some_iff.1 hnormal
  obtain ⟨terminal, hterminal, hnormal⟩ := bind_eq_some_iff.1 hnormal
  replace hnormal := of_guard hnormal
  obtain ⟨hash, hhash, hnormal⟩ := bind_eq_some_iff.1 hnormal
  replace hnormal := of_guard hnormal
  have hperm := List.perm_insertionSort (· ≤ ·) signers
  refine ⟨_, hash, (Option.some.inj hnormal).symm, ?_, hhash⟩
  exact
    { threshold_pos := Nat.pos_of_ne_zero hthreshold.1
      threshold_le := hperm.length_eq ▸ hthreshold.2.1
      few_signers := hperm.length_eq ▸ hfew.2
      signers_nodup := hperm.nodup_iff.2 hnodup
      signers_compressed := fun signer hsigner =>
        compressed_of_mapM hsigners signer (hperm.mem_iff.1 hsigner)
      expires_lt := optionalInteger_lt raw "expires" hexpires
      terminal_lt := terminalRefundAfter_lt hterminal }

/-! ### Statements -/

/-- What the signers of a certificate agree to. -/
structure ControlStatement where
  policyId : Text
  policyHash : Text
  actionName : Text
  target : Text
  payload : Json
  nonce : Text
  validUntil : ℕ

namespace ControlStatement

variable (env : ProofEnv) (statement : ControlStatement)

/-- The message of a statement whose payload has a hash. -/
def message (payloadHash : Text) : Json :=
  .array
    [.string "tap-certified-control-v1".toList, .string "tap".toList, .string statement.policyId,
      .string statement.policyHash, .string statement.actionName, .string statement.target,
      .string payloadHash, .string statement.nonce, numberJson statement.validUntil]

def digest : Option Text := do
  certifiedControlHash env (statement.message (← certifiedControlHash env statement.payload))

/-- The same statement, up to the order of the members in the payload. -/
structure Same (statement other : ControlStatement) : Prop where
  policyId : statement.policyId = other.policyId
  policyHash : statement.policyHash = other.policyHash
  actionName : statement.actionName = other.actionName
  target : statement.target = other.target
  payload : statement.payload.sortMembers = other.payload.sortMembers
  nonce : statement.nonce = other.nonce
  validUntil : statement.validUntil = other.validUntil

end ControlStatement

/-- Without collisions a hash determines the value up to the order of members. -/
theorem sortMembers_eq_of_hash (hsha : Function.Injective env.sha256Hex) {json other : Json}
    {hash : Text} (hhash : certifiedControlHash env json = some hash)
    (hother : certifiedControlHash env other = some hash) : json.sortMembers = other.sortMembers := by
  obtain ⟨text, htext, rfl⟩ := map_eq_some_iff.1 hhash
  obtain ⟨text', htext', hsame⟩ := map_eq_some_iff.1 hother
  obtain rfl := Utf8.encode_injective (hsha hsame)
  exact sortMembers_eq_of_text htext htext'

/-- The signed digest determines the statement. -/
theorem ControlStatement.same_of_digest (hsha : Function.Injective env.sha256Hex)
    {statement other : ControlStatement} {digest : Text}
    (hdigest : statement.digest env = some digest) (hother : other.digest env = some digest) :
    Same statement other := by
  obtain ⟨payloadHash, hpayload, hdigest⟩ := bind_eq_some_iff.1 hdigest
  obtain ⟨payloadHash', hpayload', hother⟩ := bind_eq_some_iff.1 hother
  have hsame := sortMembers_eq_of_hash hsha hdigest hother
  simp only [message, Json.sortMembers, sortItems, numberJson, Json.array.injEq, List.cons.injEq,
    Json.string.injEq, Json.number.injEq, and_true, true_and] at hsame
  obtain ⟨hid, hhash, hname, htarget, rfl, hnonce, huntil⟩ := hsame
  exact
    { policyId := hid
      policyHash := hhash
      actionName := hname
      target := htarget
      payload := sortMembers_eq_of_hash hsha hpayload hpayload'
      nonce := hnonce
      validUntil := toDigits_injective huntil }

/-! ### Certificates -/

/-- A release of a lock: when it came, and its action. -/
structure LockRelease where
  height : ℕ
  action : Json

def LockRelease.name (env : ProofEnv) (release : LockRelease) : Text :=
  env.toLowercase (release.action.text "op")

/-- As many different signers of a policy as it asks for have signed a statement, each by an entry of
the certificate whose signature is valid and was made with the key of the signer. -/
def QuorumSigned (env : ProofEnv) (verify : SignatureOracle) (policy : ControlPolicy) (cert : Json)
    (statement : ControlStatement) : Prop :=
  ∃ (digest : Text) (quorum : List Text) (sigs : List Json), statement.digest env = some digest ∧
    (cert.get "sigs").bind Json.asArray = some sigs ∧
    quorum ⊆ policy.signers ∧ (quorum.map publicKey).Nodup ∧ policy.threshold ≤ quorum.length ∧
    ∀ signer ∈ quorum, ∃ entry ∈ sigs, ∃ sig hash pubkey, entry.get "sig" = some sig ∧
      env.toLowercase hash = digest ∧ verify sig hash digest = some (true, pubkey) ∧
      publicKey pubkey = publicKey signer

/-- A release with a certificate in force, by which a quorum has agreed to exactly this release. -/
structure Certified (env : ProofEnv) (verify : SignatureOracle) (policy : ControlPolicy)
    (policyHash : Text) (release : LockRelease) (cert : Json) (statement : ControlStatement) : Prop where
  cert_eq : release.action.get "cert" = some cert
  policyId : statement.policyId = policy.id
  policyHash : statement.policyHash = policyHash
  actionName : statement.actionName = release.name env
  target : statement.target = release.action.text "lock"
  payload : certifiedControlPayload release.action = some statement.payload
  nonce : (cert.get "nonce").bind Json.asStr = some statement.nonce
  validUntil : (cert.get "valid_until").bind parseCertifiedControlInteger = some statement.validUntil
  in_force : release.height ≤ statement.validUntil
  not_expired : ∀ expires ∈ policy.expires, release.height ≤ expires
  signed : QuorumSigned env verify policy cert statement

theorem controlsAction_json (policy : ControlPolicy) (hash name : Text) :
    controlsAction (some (policy.json hash)) name = true ↔ name ∈ policy.scope := by
  simp [controlsAction, policy.get_scope, Json.asArray, Json.asStr]

theorem lt_u64_of_lt_u32 {n : ℕ} (hn : n < 2 ^ 32) : n < 2 ^ 64 :=
  hn.trans_le (Nat.pow_le_pow_right (by decide) (by decide))

variable {policy : ControlPolicy}

theorem ControlPolicy.Valid.read_expires (valid : policy.Valid) (hash : Text) :
    ((policy.json hash).get "expires").bind Json.asU64 = policy.expires := by
  rw [policy.get_expires]
  cases hexpires : policy.expires with
  | none => rfl
  | some expires => exact asU64_numberJson (lt_u64_of_lt_u32 (valid.expires_lt expires hexpires))

theorem ControlPolicy.Valid.read_terminal (valid : policy.Valid) (hash : Text) :
    (((policy.json hash).get "rules").bind (Json.get · "terminal_refund_after")).bind Json.asU64 =
      policy.terminal := by
  rw [policy.get_rules]
  cases hterminal : policy.terminal with
  | none => rfl
  | some terminal =>
      have hread := asU64_numberJson (lt_u64_of_lt_u32 (valid.terminal_lt terminal hterminal))
      have hget : (Json.object [("terminal_refund_after".toList, numberJson terminal)]).get
          "terminal_refund_after" = some (numberJson terminal) := rfl
      rw [Option.map_some, bind_some, hget, bind_some, hread]

theorem isTerminalRefund_json (valid : policy.Valid) {hash name : Text} {block : ℕ}
    (hterminal : isTerminalRefund (policy.json hash) name block = true) :
    name = "refund".toList ∧ ∃ terminal ∈ policy.terminal, terminal ≤ block := by
  unfold isTerminalRefund at hterminal
  rw [valid.read_terminal, Bool.and_eq_true] at hterminal
  refine ⟨of_decide_eq_true hterminal.1, ?_⟩
  obtain ⟨terminal, hpolicy, hle⟩ := (Option.any_eq_true _ _).1 hterminal.2
  exact ⟨terminal, hpolicy, of_decide_eq_true hle⟩

/-- The signers that a certificate counts are different signers of the policy with valid signatures. -/
theorem certifiedSigners_spec {verify : SignatureOracle} {signers : List Text} {msgHash : Text}
    {sigs : List Json} {valid : List Text}
    (hvalid : certifiedSigners env verify signers msgHash sigs = some valid) :
    valid.Nodup ∧ ∀ signer ∈ valid, signer ∈ signers ∧ ∃ entry ∈ sigs, ∃ sig hash pubkey,
      entry.get "sig" = some sig ∧ env.toLowercase hash = msgHash ∧
      verify sig hash msgHash = some (true, pubkey) ∧ publicKey pubkey = publicKey signer := by
  unfold certifiedSigners at hvalid
  obtain ⟨found, hfound, hvalid⟩ := bind_eq_some_iff.1 hvalid
  cases hvalid
  refine ⟨List.nodup_dedup _, fun signer hsigner => ?_⟩
  rw [List.mem_dedup, List.reduceOption_mem_iff] at hsigner
  obtain ⟨entry, hentry, hresult⟩ := Proc.exists_of_mapM hfound _ hsigner
  obtain ⟨_, hresult⟩ := of_bind hresult
  obtain ⟨_, hresult⟩ := of_bind hresult
  obtain ⟨declared, hresult⟩ := of_bind hresult
  obtain ⟨_, hresult⟩ := of_bind hresult
  obtain ⟨hash, hresult⟩ := of_bind hresult
  obtain ⟨⟨hdeclared, hhash⟩, hresult⟩ := guard_bind_eq_some.1 hresult
  obtain ⟨sig, hsig, hresult⟩ := bind_eq_some_iff.1 hresult
  obtain ⟨⟨ok, pubkey⟩, hverify, hresult⟩ := bind_eq_some_iff.1 hresult
  obtain ⟨key, hkey, hresult⟩ := bind_eq_some_iff.1 hresult
  simp only [Option.some.injEq, Option.ite_none_right_eq_some, Bool.and_eq_true,
    decide_eq_true_eq] at hresult
  obtain ⟨⟨rfl, rfl⟩, rfl⟩ := hresult
  exact ⟨hdeclared, entry, hentry, sig, hash, pubkey, hsig, hhash, hverify,
    (compressed_of_pubkey hkey).2.symm⟩

/-- A refund from the terminal height of the policy on. -/
def TerminalRefund (env : ProofEnv) (policy : ControlPolicy) (release : LockRelease) : Prop :=
  release.name env = "refund".toList ∧ ∃ terminal ∈ policy.terminal, terminal ≤ release.height

/-- The certificate check on a lock with a policy that controls the release. -/
theorem validateCertifiedControlCertificate_spec {verify : SignatureOracle}
    {used : Text → Bool} (valid : policy.Valid) {hash : Text}
    (release : LockRelease) {nonceKey : Option Text}
    (hcheck : validateCertifiedControlCertificate env verify used release.action
      (some (policy.json hash)) (release.name env) release.height = some nonceKey)
    (hscope : release.name env ∈ policy.scope) :
    TerminalRefund env policy release ∨
      ∃ cert statement, Certified env verify policy hash release cert statement := by
  unfold validateCertifiedControlCertificate at hcheck
  rw [(controlsAction_json policy hash _).2 hscope, if_neg (by simp)] at hcheck
  obtain ⟨control, hcontrol, hcheck⟩ := bind_eq_some_iff.1 hcheck
  obtain rfl := Option.some.inj hcontrol
  split at hcheck
  next hterminal =>
    rw [Bool.and_eq_true] at hterminal
    exact .inl (isTerminalRefund_json valid hterminal.1)
  next =>
    obtain ⟨cert, hcert, hcheck⟩ := bind_eq_some_iff.1 hcheck
    replace hcheck := of_guard hcheck
    replace hcheck := of_guard hcheck
    obtain ⟨_, hcheck⟩ := of_bind hcheck
    obtain ⟨untilField, hfield, hcheck⟩ := bind_eq_some_iff.1 hcheck
    obtain ⟨validUntil, huntil, hcheck⟩ := bind_eq_some_iff.1 hcheck
    obtain ⟨nonceField, hnonceField, hcheck⟩ := bind_eq_some_iff.1 hcheck
    obtain ⟨nonce, hnonce, hcheck⟩ := bind_eq_some_iff.1 hcheck
    obtain ⟨⟨-, -, -, -, -, hforce, hexpires⟩, hcheck⟩ := guard_bind_eq_some.1 hcheck
    obtain ⟨payloadHash, hpayloadHash, hcheck⟩ := bind_eq_some_iff.1 hcheck
    replace hcheck := of_guard hcheck
    obtain ⟨lockField, hlockField, hcheck⟩ := bind_eq_some_iff.1 hcheck
    obtain ⟨target, htarget, hcheck⟩ := bind_eq_some_iff.1 hcheck
    obtain ⟨_, hcheck⟩ := of_bind hcheck
    obtain ⟨_, hcheck⟩ := of_bind hcheck
    replace hcheck := of_guard hcheck
    obtain ⟨msg, hmsg, hcheck⟩ := bind_eq_some_iff.1 hcheck
    obtain ⟨msgHash, hmsgHash, hcheck⟩ := bind_eq_some_iff.1 hcheck
    obtain ⟨signersField, hsignersField, hcheck⟩ := bind_eq_some_iff.1 hcheck
    obtain ⟨signers, hsigners, hcheck⟩ := bind_eq_some_iff.1 hcheck
    obtain ⟨thresholdField, hthresholdField, hcheck⟩ := bind_eq_some_iff.1 hcheck
    obtain ⟨threshold, hthreshold, hcheck⟩ := bind_eq_some_iff.1 hcheck
    obtain ⟨sigsField, hsigsField, hcheck⟩ := bind_eq_some_iff.1 hcheck
    obtain ⟨sigs, hsigs, hcheck⟩ := bind_eq_some_iff.1 hcheck
    obtain ⟨counted, hcounted, hcheck⟩ := bind_eq_some_iff.1 hcheck
    obtain ⟨henough, -⟩ := guard_bind_eq_some.1 hcheck
    rw [policy.get_signers] at hsignersField
    obtain rfl := Option.some.inj hsignersField
    obtain rfl := Option.some.inj hsigners
    rw [policy.get_threshold] at hthresholdField
    obtain rfl := Option.some.inj hthresholdField
    have hthresholdLe := valid.threshold_le.trans valid.few_signers
    rw [asU64_numberJson (lt_u64_of_lt_u32 (hthresholdLe.trans_lt (by decide)))] at hthreshold
    obtain rfl := Option.some.inj hthreshold
    obtain ⟨payload, hpayload, hpayloadHash⟩ := bind_eq_some_iff.1 hpayloadHash
    have hreadSigners : (policy.signers.map Json.string).filterMap Json.asStr = policy.signers := by
      simp [List.filterMap_map, Function.comp_def, Json.asStr]
    rw [hreadSigners] at hcounted
    obtain ⟨hnodup, hsigned⟩ := certifiedSigners_spec hcounted
    let statement : ControlStatement :=
      { policyId := policy.id
        policyHash := hash
        actionName := release.name env
        target := target
        payload := payload
        nonce := nonce
        validUntil := validUntil }
    have hmessage : msg = statement.message payloadHash := by
      simp only [certifiedControlMessage, policy.get_id, policy.get_hash, Json.asStr] at hmsg
      exact (Option.some.inj hmsg).symm
    have hdigest : statement.digest env = some msgHash := by
      rw [ControlStatement.digest, hpayloadHash, Option.bind_eq_bind, bind_some, ← hmessage]
      exact hmsgHash
    have hkeys : (counted.map publicKey).Nodup := by
      refine hnodup.map_on fun key hkey other hother hsame => ?_
      exact publicKey_injective (valid.signers_compressed key (hsigned key hkey).1)
        (valid.signers_compressed other (hsigned other hother).1) hsame
    refine .inr ⟨cert, statement, ?_⟩
    exact
      { cert_eq := hcert
        policyId := rfl
        policyHash := rfl
        actionName := rfl
        target := (Json.text_eq hlockField htarget).symm
        payload := hpayload
        nonce := by rw [hnonceField, bind_some, hnonce]
        validUntil := by rw [hfield, bind_some, huntil]
        in_force := hforce
        not_expired := by
          rw [valid.read_expires, Option.all_eq_true] at hexpires
          exact fun expires hpolicy => of_decide_eq_true (hexpires expires hpolicy)
        signed := ⟨msgHash, counted, sigs, hdigest, by rw [hsigsField, bind_some, hsigs],
          fun signer hsigner => (hsigned signer hsigner).1, hkeys, henough,
          fun signer hsigner => (hsigned signer hsigner).2⟩ }

/-! ### Creation of a lock with a policy -/

/-- The normal form of a policy depends on the refund of the lock only. -/
theorem normalizeCertifiedControlPolicy_set (env : ProofEnv) (control : Option Json)
    (action value : Json) :
    normalizeCertifiedControlPolicy env control (action.set "claim" value) =
      normalizeCertifiedControlPolicy env control action := by
  have hrefund : refundControllable (action.set "claim" value) = refundControllable action := by
    funext terminal
    unfold refundControllable
    rw [Json.get_set_of_ne (by decide), Json.get_set_of_ne (by decide)]
  unfold normalizeCertifiedControlPolicy
  rw [hrefund]

section Creation

variable {env : ProofEnv} {verify : SignatureOracle} {context : TapContext} {store : ProofStore}

/-- A lock holds the normal form of the policy it was created with. -/
theorem validateTokenProofLockAction_control {action : Json} {link : TokenAuthCreateRecord}
    {lock : TokenLockRecord} {tick : TickKey} {total : ℤ}
    (hvalid : validateTokenProofLockAction (env.certified verify) context action link store =
      some (lock, tick, total)) :
    normalizeCertifiedControlPolicy env (action.get "control") action = some lock.control := by
  unfold validateTokenProofLockAction at hvalid
  obtain ⟨_, hvalid⟩ := of_bind hvalid
  obtain ⟨_, hvalid⟩ := of_bind hvalid
  obtain ⟨_, hvalid⟩ := of_bind hvalid
  obtain ⟨_, hvalid⟩ := of_bind hvalid
  obtain ⟨_, hvalid⟩ := of_bind hvalid
  obtain ⟨_, hvalid⟩ := of_bind hvalid
  replace hvalid := of_guard hvalid
  obtain ⟨_, hvalid⟩ := of_bind hvalid
  obtain ⟨_, hvalid⟩ := of_bind hvalid
  replace hvalid := of_guard hvalid
  obtain ⟨⟨_, _⟩, hvalid⟩ := of_bind hvalid
  obtain ⟨_, hvalid⟩ := of_bind hvalid
  replace hvalid := of_guard hvalid
  obtain ⟨_, hvalid⟩ := of_bind hvalid
  obtain ⟨_, hvalid⟩ := of_bind hvalid
  replace hvalid := of_guard hvalid
  obtain ⟨_, hvalid⟩ := of_bind hvalid
  obtain ⟨_, hvalid⟩ := of_bind hvalid
  replace hvalid := of_guard hvalid
  obtain ⟨control, hcontrol, hvalid⟩ := bind_eq_some_iff.1 hvalid
  replace hvalid := of_guard hvalid
  cases hvalid
  rw [Json.get_set_of_ne (by decide)] at hcontrol
  exact (normalizeCertifiedControlPolicy_set env _ action _).symm.trans hcontrol

/-- The row that the creation of a lock writes. -/
theorem processTokenProofLockAction_row {action : Json} {link : TokenAuthCreateRecord}
    {place : ActionPlace} :
    Proc.wp (processTokenProofLockAction (env.certified verify) context action link place)
      (fun _ after => ∃ lock, store.l.lookup (tokenProofLockId place) = none ∧
        normalizeCertifiedControlPolicy env (action.get "control") action = some lock.control ∧
        after.l = store.l.insert (tokenProofLockId place) lock) (fun _ _ => True) store := by
  unfold processTokenProofLockAction
  apply wp_read
  apply ProofHandler.wp_get
  rintro ⟨lock, tick, total⟩ hvalid
  dsimp only
  apply wp_read
  apply ProofHandler.wp_require
  intro hfresh
  apply Proc.wp_bind
  apply wp_tapAddLockedAmount
  intro _
  apply Proc.wp_write_last
  exact ⟨lock, by simpa using hfresh, validateTokenProofLockAction_control hvalid, rfl⟩

end Creation

/-! ### Runs -/

/-- The creation of a lock: its identifier, and the action that created it. -/
structure LockCreation where
  id : Text
  action : Json

/-- The rows, with the locks created and released. -/
structure ControlRun where
  run : SafetyRun
  creations : List LockCreation
  releases : List LockRelease

def controlStep (env : ProofEnv) (state : ControlRun) (action : SafetyAction) : Option ControlRun :=
  (safetyStep env state.run action).map fun next =>
    match action with
    | .lock _ _ place action =>
        { state with
          run := next
          creations := state.creations ++ [{ id := tokenProofLockId place, action := action }] }
    | .release context _ action =>
        { state with
          run := next
          releases := state.releases ++ [{ height := context.height, action := action }] }
    | _ => { state with run := next }

/-- A run starts without locks, whatever the other rows are. -/
def ControlRun.start (store : ProofStore) : ControlRun where
  run := .start store
  creations := []
  releases := []

/-- A release of a lock that was created with a policy: the policy has a normal form, and when it
controls the release, the release is a terminal refund or certified. -/
def ReleaseControlled (env : ProofEnv) (verify : SignatureOracle) (creation : LockCreation)
    (release : LockRelease) : Prop :=
  ∀ raw, creation.action.get "control" = some raw →
    ∃ (policy : ControlPolicy) (hash : Text),
      normalizeCertifiedControlPolicy env (some raw) creation.action = some (some (policy.json hash)) ∧
      policy.Valid ∧ certifiedControlHash env (.object policy.members) = some hash ∧
      (release.name env ∈ policy.scope →
        TerminalRefund env policy release ∨
          ∃ cert statement, Certified env verify policy hash release cert statement)

/-- What holds in every state of a run. -/
structure ControlInvariant (env : ProofEnv) (verify : SignatureOracle) (state : ControlRun) : Prop where
  rows : ∀ {id lock}, state.run.store.l.lookup id = some lock → ∃ creation ∈ state.creations,
    creation.id = id ∧ normalizeCertifiedControlPolicy env (creation.action.get "control")
      creation.action = some lock.control
  created : ∀ creation ∈ state.creations, (state.run.store.l.lookup creation.id).isSome
  once : (state.creations.map LockCreation.id).Nodup
  releases : ∀ release ∈ state.releases, ∃ creation ∈ state.creations,
    creation.id = release.action.text "lock" ∧ ReleaseControlled env verify creation release

namespace ControlInvariant

variable {env : ProofEnv} {verify : SignatureOracle} {state : ControlRun}

theorem start (store : ProofStore) : ControlInvariant env verify (ControlRun.start store) where
  rows hrow := by cases hrow
  created creation hcreation := by cases hcreation
  once := List.nodup_nil
  releases release hrelease := by cases hrelease

/-- What does not touch the rows of locks keeps the invariant. -/
theorem frame (inv : ControlInvariant env verify state) {next : SafetyRun}
    (hl : next.store.l = state.run.store.l) :
    ControlInvariant env verify { state with run := next } where
  rows hrow := inv.rows (hl ▸ hrow)
  created creation hcreation := by
    dsimp only
    rw [hl]
    exact inv.created creation hcreation
  once := inv.once
  releases := inv.releases

theorem lock (inv : ControlInvariant env verify state) {next : SafetyRun} {id : Text} {action : Json}
    {lock : TokenLockRecord} (hfresh : state.run.store.l.lookup id = none)
    (hcontrol : normalizeCertifiedControlPolicy env (action.get "control") action = some lock.control)
    (hl : next.store.l = state.run.store.l.insert id lock) :
    ControlInvariant env verify
      { state with run := next, creations := state.creations ++ [{ id := id, action := action }] } where
  rows := by
    intro other row hrow
    dsimp only at hrow ⊢
    rw [hl] at hrow
    obtain ⟨rfl, rfl⟩ | ⟨-, hold⟩ := KeyTable.lookup_insert_cases hrow
    · exact ⟨_, List.mem_append_right _ (List.mem_singleton.2 rfl), rfl, hcontrol⟩
    · obtain ⟨creation, hmem, hcreation⟩ := inv.rows hold
      exact ⟨creation, List.mem_append_left _ hmem, hcreation⟩
  created := by
    intro creation hcreation
    dsimp only
    rw [hl, KeyTable.lookup_insert_ite]
    split
    next => rfl
    next hne =>
      rcases List.mem_append.1 hcreation with hold | hnew
      · exact inv.created creation hold
      · exact absurd (by rw [List.mem_singleton.1 hnew]) hne
  once := by
    dsimp only
    rw [List.map_append, List.nodup_append]
    refine ⟨inv.once, List.nodup_singleton _, ?_⟩
    intro created hcreated other hother
    obtain ⟨creation, hcreation, rfl⟩ := List.mem_map.1 hcreated
    rw [List.map_singleton, List.mem_singleton] at hother
    rintro rfl
    have hrow := inv.created creation hcreation
    rw [hother, hfresh] at hrow
    cases hrow
  releases := by
    intro release hrelease
    obtain ⟨creation, hmem, hcreation⟩ := inv.releases release hrelease
    exact ⟨creation, List.mem_append_left _ hmem, hcreation⟩

/-- A release that is not refused observes the policy of its lock. -/
theorem release_controlled {context : TapContext} {store : ProofStore} {action : Json}
    {link : Option TokenAuthCreateRecord} {release : TokenProofReleaseValidation}
    (checked : ReleaseChecked (env.certified verify) context action link store release)
    {creation : LockCreation}
    (hcontrol : normalizeCertifiedControlPolicy env (creation.action.get "control") creation.action =
      some release.lock.control) :
    ReleaseControlled env verify creation { height := context.height, action := action } := by
  intro raw hraw
  rw [hraw] at hcontrol
  obtain ⟨policy, hash, hpolicy, valid, hhash⟩ := normalizeCertifiedControlPolicy_spec hcontrol
  refine ⟨policy, hash, hcontrol.trans (congrArg some hpolicy), valid, hhash, fun hscope => ?_⟩
  have hcertified : validateCertifiedControlCertificate env verify
      (fun nonce => (store.ccn.lookup nonce).isSome) action release.lock.control
      (env.toLowercase (action.text "op")) context.height = some release.nonce := checked.certified
  rw [hpolicy] at hcertified
  exact validateCertifiedControlCertificate_spec valid
    { height := context.height, action := action } hcertified hscope

theorem release (inv : ControlInvariant env verify state) {context : TapContext} {action : Json}
    {link : Option TokenAuthCreateRecord} {release : TokenProofReleaseValidation}
    (checked : ReleaseChecked (env.certified verify) context action link state.run.store release)
    {next : SafetyRun} (hl : next.store.l = state.run.store.l) :
    ControlInvariant env verify
      { state with
        run := next
        releases := state.releases ++ [{ height := context.height, action := action }] } where
  rows := (inv.frame hl).rows
  created := (inv.frame hl).created
  once := inv.once
  releases := by
    intro event hevent
    rcases List.mem_append.1 hevent with hold | hnew
    · exact inv.releases event hold
    · obtain ⟨creation, hmem, hid, hcontrol⟩ := inv.rows checked.created
      rw [List.mem_singleton.1 hnew]
      exact ⟨creation, hmem, hid.trans checked.id_eq.symm, release_controlled checked hcontrol⟩

/-- Every action keeps the invariant. -/
theorem step (inv : ControlInvariant env verify state) {action : SafetyAction} {next : ControlRun}
    (hstep : controlStep (env.certified verify) state action = some next) :
    ControlInvariant env verify next := by
  obtain ⟨after, hsafety, rfl⟩ := map_eq_some_iff.1 hstep
  cases action with
  | lock context link place action =>
      obtain ⟨store, hcommit, rfl⟩ := map_eq_some_iff.1 hsafety
      obtain ⟨lock, hfresh, hcontrol, hl⟩ :=
        ProofHandler.of_commit processTokenProofLockAction_row hcommit
      exact inv.lock hfresh hcontrol hl
  | release context link action =>
      obtain ⟨store, hcommit, rfl⟩ := map_eq_some_iff.1 hsafety
      obtain ⟨release, checked, -, b, ll, ab, abli, abo, ahrps, ahrc, ccn, rfl⟩ :=
        ProofHandler.of_commit processTokenProofReleaseAction_spec hcommit
      exact inv.release checked rfl
  | openObligation context link place action =>
      obtain ⟨store, hcommit, rfl⟩ := map_eq_some_iff.1 hsafety
      obtain ⟨obligation, tick, -, opened⟩ :=
        ProofHandler.of_commit processObligationOpenAction_spec hcommit
      obtain ⟨oll, hframe⟩ := opened.frame
      exact inv.frame (by dsimp only; rw [hframe])
  | settle context action =>
      obtain ⟨store, hcommit, rfl⟩ := map_eq_some_iff.1 hsafety
      obtain ⟨settle, -, -, b, oll, ab, abli, abo, amm, rfl⟩ :=
        ProofHandler.of_commit processObligationSettleAction_spec hcommit
      exact inv.frame rfl
  | other update =>
      cases hsafety
      exact inv.frame rfl

end ControlInvariant

/-- Locks are created once each, and their releases observe the policies they were created with. -/
structure ControlsQuorum (env : ProofEnv) (verify : SignatureOracle) (state : ControlRun) : Prop where
  once : (state.creations.map LockCreation.id).Nodup
  releases : ∀ release ∈ state.releases, ∃ creation ∈ state.creations,
    creation.id = release.action.text "lock" ∧ ReleaseControlled env verify creation release

/-- What is signed determines the statement, and the canonical text of a value determines it up to the
order of its members, on which it does not depend. -/
structure SignsExactly (env : ProofEnv) : Prop where
  statements : ∀ {statement other : ControlStatement} {digest : Text},
    statement.digest env = some digest → other.digest env = some digest → statement.Same other
  texts : ∀ {json other : Json} {text : Text}, certifiedControlCanonicalJson json = some text →
    (certifiedControlCanonicalJson other = some text ↔ json.sortMembers = other.sortMembers)
  orders : ∀ {fields fields' : List (Text × Json)}, fields.Perm fields' →
    (fields.map Prod.fst).Nodup →
    certifiedControlCanonicalJson (.object fields) = certifiedControlCanonicalJson (.object fields')

/-- In every run the releases of controlled locks have a quorum for exactly what they do. -/
theorem certified_control_quorum {env : ProofEnv} {verify : SignatureOracle}
    (hsha : Function.Injective env.sha256Hex) {store : ProofStore} {state : ControlRun}
    (hreaches : Run.Reaches (controlStep (env.certified verify)) (fun _ _ => True)
      (ControlRun.start store) state) :
    ControlsQuorum env verify state ∧ SignsExactly env := by
  have inv : ControlInvariant env verify state := by
    apply hreaches.invariant (ControlInvariant env verify)
    · intro state next action inv _ hstep
      exact inv.step hstep
    · exact .start store
  refine ⟨⟨inv.once, inv.releases⟩, ?_⟩
  exact
    { statements := fun hdigest hother => ControlStatement.same_of_digest hsha hdigest hother
      texts := canonicalJson_eq_iff
      orders := fun hperm hnames => canonicalJson_of_sortMembers (sortMembers_of_perm hperm hnames) }

/-! ### A claim by two of three signers -/

/-- A hash with known digests; any other text is its own digest, marked by an `x`. -/
def knownHash (table : List (List UInt8 × Text)) (bytes : List UInt8) : Text :=
  match table.find? fun row => row.1 = bytes with
  | some row => row.2
  | none => 'x' :: bytes.map fun byte => Char.ofNat byte.toNat

theorem byteChar_injective : Function.Injective fun byte : UInt8 => Char.ofNat byte.toNat := by
  intro byte other hsame
  have hnat := congrArg Char.toNat hsame
  have hvalid : ∀ byte : UInt8, byte.toNat.isValidChar := fun byte =>
    .inl (byte.toNat_lt.trans (by decide))
  simp only [Utf8.toNat_ofNat (hvalid _)] at hnat
  exact UInt8.toNat_inj.1 hnat

theorem knownHash_injective {table : List (List UInt8 × Text)} (hdigests : (table.map Prod.snd).Nodup)
    (hmark : ∀ row ∈ table, row.2.head? ≠ some 'x') : Function.Injective (knownHash table) := by
  intro bytes other hsame
  unfold knownHash at hsame
  cases hbytes : table.find? fun row => row.1 = bytes with
  | none =>
      cases hother : table.find? fun row => row.1 = other with
      | none =>
          rw [hbytes, hother] at hsame
          exact List.map_injective_iff.2 byteChar_injective (List.cons.inj hsame).2
      | some row =>
          rw [hbytes, hother] at hsame
          dsimp only at hsame
          exact absurd (by rw [← hsame]; rfl) (hmark row (List.mem_of_find?_eq_some hother))
  | some row =>
      have hrow : row.1 = bytes := by simpa using List.find?_some hbytes
      cases hother : table.find? fun row => row.1 = other with
      | none =>
          rw [hbytes, hother] at hsame
          dsimp only at hsame
          exact absurd (by rw [hsame]; rfl) (hmark row (List.mem_of_find?_eq_some hbytes))
      | some row' =>
          have hrow' : row'.1 = other := by simpa using List.find?_some hother
          rw [hbytes, hother] at hsame
          rw [← hrow, ← hrow', List.inj_on_of_nodup_map hdigests (List.mem_of_find?_eq_some hbytes)
            (List.mem_of_find?_eq_some hother) hsame]

/-- The compressed keys of the secrets one, two and three. -/
def controlKeys : List String :=
  ["0279be667ef9dcbbac55a06295ce870b07029bfcdb2dce28d959f2815b16f81798",
    "02c6047f9441ed7d6d3045406e95c07cd85c778e4b8cef3ca7abac09b95c709ee5",
    "02f9308a019258c31049344f85f89d5229b531c845836f99b08601f113bce036f9"]

/-- The first two of them uncompressed. -/
def uncompressedKeys : List String :=
  ["0479be667ef9dcbbac55a06295ce870b07029bfcdb2dce28d959f2815b16f81798483ada7726a3c4655da4fbfc0e1108a8" ++
      "fd17b448a68554199c47d08ffb10d4b8",
    "04c6047f9441ed7d6d3045406e95c07cd85c778e4b8cef3ca7abac09b95c709ee51ae168fea63dc339a3c58419466ceaee" ++
      "f7f632653266d0e1236431a950cfe52a"]

/-- Two of three have to sign claims and refunds until height 150, and refunds are free from 300 on. -/
def twoOfThree : ControlPolicy where
  id := "p1".toList
  threshold := 2
  signers := controlKeys.map String.toList
  scope := ["claim".toList, "refund".toList]
  expires := some 150
  terminal := some 300

def twoOfThreeHash : String := "2c32c791b638e4209d8324e189980529b191e2ae1dc8f9c44fba7b95328a4045"

/-- A claim, less its certificate. -/
def claimPayload : List (Text × Json) :=
  [("op".toList, .string "claim".toList), ("lock".toList, .string "p:0".toList),
    ("preimage".toList, .string "secret".toList)]

def claimStatement : ControlStatement where
  policyId := "p1".toList
  policyHash := twoOfThreeHash.toList
  actionName := "claim".toList
  target := "p:0".toList
  payload := .object claimPayload
  nonce := "n-1".toList
  validUntil := 120

def claimPayloadHash : String := "d5ec369d12da1525e601a323767a2fe52776a9911c4becc8613fe5269e2b7b7e"

def claimDigest : String := "779380a0a1a37852bf4cff570a738a62d803fc34337978605c19d25b6030fca7"

/-- The SHA-256 digests of the texts that the run hashes. -/
def controlHashes : List (List UInt8 × Text) :=
  let bytes (json : Json) : List UInt8 := Utf8.encode ((certifiedControlCanonicalJson json).getD [])
  [(Utf8.encode "secret".toList, secretHash.toList),
    (bytes (.object twoOfThree.members), twoOfThreeHash.toList),
    (bytes claimStatement.payload, claimPayloadHash.toList),
    (bytes (claimStatement.message claimPayloadHash.toList), claimDigest.toList)]

def controlEnv : ProofEnv := { plainEnv with sha256Hex := knownHash controlHashes }

/-- Signatures under the digest of the claim, by the secrets one and two. -/
def claimSignatures : List Json :=
  [textObject [("v", "0"),
      ("r", "9095336584878135285323626290390304629144733021093931031601863937614363290303"),
      ("s", "30030573943802403882652172437700790362338177834742739012741277070484031267194")],
    textObject [("v", "1"),
      ("r", "23748107845393620234681136920851339088143090039058394693092231684124293956679"),
      ("s", "16871066072853481194647723628556535921381519137483447887523245505117536937203")]]

/-- The two signatures are valid under the digest of the claim. -/
def claimOracle : SignatureOracle := fun sig hash digest =>
  if hash = claimDigest.toList ∧ digest = claimDigest.toList then
    ((claimSignatures.zip uncompressedKeys).find? fun entry =>
      ["v", "r", "s"].all fun key => entry.1.text key = sig.text key).map
        fun entry => (true, entry.2.toList)
  else none

/-- A lock with the policy, and its claim.  The policy names its second signer uncompressed, the
certificate its first. -/
def controlActions : List SafetyAction :=
  let link : TokenAuthCreateRecord := { addr := "n1".toList, auth := [], ins := "l".toList }
  let strings (texts : List String) : Json := .array (texts.map fun text => .string text.toList)
  let entry (signer : String) (sig : Json) : Json :=
    .object [("signer".toList, .string signer.toList), ("hash".toList, .string claimDigest.toList),
      ("sig".toList, sig)]
  [.lock plainContext link { inscription := "p".toList, index := 0 }
      (.object [("kind".toList, .string "htlc".toList), ("tick".toList, .string "dog".toList),
        ("amt".toList, .string "4".toList), ("claim".toList, .string "n2".toList),
        ("refund".toList, .string "n1".toList), ("refund_after".toList, .string "200".toList),
        ("condition".toList, textObject [("type", "hashlock"), ("hash", secretHash)]),
        ("control".toList, .object
          [("type".toList, .string "cert".toList), ("id".toList, .string "p1".toList),
            ("threshold".toList, .string "2".toList),
            ("signers".toList, strings (controlKeys.set 1 (uncompressedKeys.getD 1 ""))),
            ("scope".toList, strings ["refund", "claim"]), ("expires".toList, numberJson 150),
            ("rules".toList, .object [("terminal_refund_after".toList, numberJson 300)])])]),
    .release plainContext none
      (.object (claimPayload ++ [("cert".toList, .object
        [("policy".toList, .string "p1".toList), ("action".toList, .string "claim".toList),
          ("target".toList, .string "p:0".toList),
          ("payload_hash".toList, .string claimPayloadHash.toList),
          ("nonce".toList, .string "n-1".toList), ("valid_until".toList, numberJson 120),
          ("sigs".toList, .array
            [entry (uncompressedKeys.getD 0 "") (claimSignatures.getD 0 .null),
              entry (controlKeys.getD 1 "") (claimSignatures.getD 1 .null)])])]))]

/-- What the two accounts own, and how many locks were created and released. -/
def controlView (state : ControlRun) : ℤ × ℤ × ℕ × ℕ :=
  (bigAt state.run.store.b ("n1".toList, dogKey), bigAt state.run.store.b ("n2".toList, dogKey),
    state.creations.length, state.releases.length)

theorem twoOfThree_quorum :
    ∃ state, Run.Reaches (controlStep (controlEnv.certified claimOracle)) (fun _ _ => True)
        (ControlRun.start tenTokens) state ∧
      controlView state = (6, 4, 1, 1) ∧ ControlsQuorum controlEnv claimOracle state ∧
      SignsExactly controlEnv := by
  have hexec : (Run.exec (controlStep (controlEnv.certified claimOracle)) (fun _ _ => true)
      controlActions (ControlRun.start tenTokens)).map controlView = some (6, 4, 1, 1) := by
    decide +kernel
  have hrun : ∃ state, Run.Reaches (controlStep (controlEnv.certified claimOracle)) (fun _ _ => True)
      (ControlRun.start tenTokens) state ∧ controlView state = (6, 4, 1, 1) :=
    Run.exists_reaches_of_exec (fun _ => trivial) hexec
  obtain ⟨state, hreaches, hview⟩ := hrun
  have hsha : Function.Injective controlEnv.sha256Hex :=
    knownHash_injective (by decide) (by decide)
  exact ⟨state, hreaches, hview, certified_control_quorum hsha hreaches⟩

end OrdDogecoin.Tap
