/-
Module: OrdDogecoin.Tap.PrivilegeMessages
Purpose: What a signed privilege message binds.  Its fields are joined by dashes and some of them may
  hold dashes; which of them a message determines.
Trusted boundary: none
Main exports: OwnerText, MintAccepted, privilege_messages_bind
-/
import OrdDogecoin.Tap.Privileges
import OrdDogecoin.Tap.Conservation
import OrdDogecoin.Lib.PrefixCode
import OrdDogecoin.Lib.Run

namespace OrdDogecoin.Tap

open Chain Proc
open Option (bind_eq_some_iff)

/-! ### Runs -/

/-- What changes the rows of privileges; mints use up signatures too. -/
inductive PrivilegeAction where
  | authExecuted (context : TapContext) (moved : Moved) (acc : TapAccumulatorEntry)
  | verifyCreated (context : TapContext) (created : Created)
  | signatureUsed (signature : Text)

def privilegeStep (env : TapEnv) (lib : SignatureLib) (store : PrivilegeStore) :
    PrivilegeAction → Option PrivilegeStore
  | .authExecuted _ moved acc => some (indexPrivilegeAuthExecuted env lib moved acc store)
  | .verifyCreated context created =>
      some (indexPrivilegeVerifyCreated env lib context created store)
  | .signatureUsed signature => some { store with prah := store.prah.insert signature () }

section Authorities

variable {env : TapEnv} {lib : SignatureLib} {store : PrivilegeStore}

/-- Every authority is named by the text of an inscription identifier. -/
def AuthoritiesNamed (store : PrivilegeStore) : Prop :=
  ∀ authority link, store.prains.lookup authority = some link → ∃ id, authority = inscriptionText id

theorem named_authExecuted (named : AuthoritiesNamed store) (moved : Moved)
    (acc : TapAccumulatorEntry) :
    AuthoritiesNamed (indexPrivilegeAuthExecuted env lib moved acc store) := by
  unfold indexPrivilegeAuthExecuted
  split
  · exact named
  split
  · exact named
  split
  · exact named
  split
  · unfold cancelPrivilegeAuth
    split
    · exact named
    · split
      · exact named
      · exact named
  · split
    · exact named
    · intro authority link hlink
      obtain ⟨rfl, -⟩ | ⟨-, hold⟩ := KeyTable.lookup_insert_cases hlink
      · exact ⟨moved.inscriptionId, rfl⟩
      · exact named authority link hold

theorem named_verifyCreated (named : AuthoritiesNamed store) (context : TapContext)
    (created : Created) :
    AuthoritiesNamed (indexPrivilegeVerifyCreated env lib context created store) := by
  unfold indexPrivilegeVerifyCreated
  split
  · exact named
  · exact named

theorem named_step (named : AuthoritiesNamed store) {action : PrivilegeAction} {next : PrivilegeStore}
    (hstep : privilegeStep env lib store action = some next) : AuthoritiesNamed next := by
  cases action with
  | authExecuted context moved acc =>
      cases hstep
      exact named_authExecuted named moved acc
  | verifyCreated context created =>
      cases hstep
      exact named_verifyCreated named context created
  | signatureUsed signature =>
      cases hstep
      exact named

theorem named_of_reaches
    (reaches : Run.Reaches (privilegeStep env lib) (fun _ _ => True) PrivilegeStore.empty store) :
    AuthoritiesNamed store := by
  apply reaches.invariant AuthoritiesNamed
  · intro store next action named _ hstep
    exact named_step named hstep
  · intro authority link hlink
    cases hlink

theorem dash_not_mem_authority (named : AuthoritiesNamed store) {authority : Text}
    {link : PrivilegeAuthCreateRecord} (hlink : store.prains.lookup authority = some link) :
    '-' ∉ authority := by
  obtain ⟨id, rfl⟩ := named authority link hlink
  exact not_mem_inscriptionText (by decide) (by decide) id

end Authorities

/-! ### Fields that pass the checks -/

/-- The owner of an inscription as the updater passes it on: a Base58 address, or a dash when there is
none. -/
def OwnerText (address : Text) : Prop := address = ['-'] ∨ (address ≠ [] ∧ '-' ∉ address)

instance (address : Text) : Decidable (OwnerText address) := inferInstanceAs (Decidable (_ ∨ _))

/-- What the checks of an item promise about its fields. -/
structure VerifyChecked (store : PrivilegeStore) (created : Created) (fields : VerifyFields) :
    Prop where
  authority : ∃ link, store.prains.lookup fields.prv = some link
  seq : '-' ∉ fields.seq
  address : fields.address = created.ownerAddress

theorem sequenceText_eq {value : Json} {text : Text} (hseq : sequenceText value = some text) :
    ∃ n, text = Nat.toDigits 10 n := by
  unfold sequenceText at hseq
  obtain ⟨⟨parsed, printed⟩, hseq⟩ := of_bind hseq
  obtain ⟨htext, hseq⟩ := guard_bind_eq_some.1 hseq
  obtain ⟨hrange, hseq⟩ := guard_bind_eq_some.1 hseq
  cases hseq
  exact ⟨parsed.toNat, by rw [← htext, intText_of_nonneg hrange.1]⟩

variable {env : TapEnv}

theorem verifyFields_seq {json : Json} {fields : VerifyFields}
    (hfields : verifyFields env json = some fields) : ∃ n, fields.seq = Nat.toDigits 10 n := by
  unfold verifyFields at hfields
  obtain ⟨_, hfields⟩ := of_bind hfields
  obtain ⟨prv, hfields⟩ := of_bind hfields
  replace hfields := of_guard hfields
  obtain ⟨_, hfields⟩ := of_bind hfields
  obtain ⟨verify, hfields⟩ := of_bind hfields
  replace hfields := of_guard hfields
  obtain ⟨_, hfields⟩ := of_bind hfields
  obtain ⟨_, hfields⟩ := of_bind hfields
  obtain ⟨col, hfields⟩ := of_bind hfields
  obtain ⟨_, hfields⟩ := of_bind hfields
  obtain ⟨address, hfields⟩ := of_bind hfields
  obtain ⟨_, hfields⟩ := of_bind hfields
  obtain ⟨seq, hseq, hfields⟩ := bind_eq_some_iff.1 hfields
  obtain ⟨salt, hfields⟩ := of_bind hfields
  cases hfields
  exact sequenceText_eq hseq

variable {lib : SignatureLib}

theorem checkedVerify_spec {context : TapContext} {created : Created} {store : PrivilegeStore}
    {fields : VerifyFields} {signature : Text}
    (hchecked : checkedVerify env lib context created store = some (fields, signature)) :
    VerifyChecked store created fields := by
  unfold checkedVerify at hchecked
  obtain ⟨_, hchecked⟩ := of_bind hchecked
  obtain ⟨json, hchecked⟩ := of_bind hchecked
  replace hchecked := of_guard hchecked
  replace hchecked := of_guard hchecked
  obtain ⟨sig, hchecked⟩ := of_bind hchecked
  replace hchecked := of_guard hchecked
  obtain ⟨_, hchecked⟩ := of_bind hchecked
  obtain ⟨hash, hchecked⟩ := of_bind hchecked
  obtain ⟨found, hfound, hchecked⟩ := bind_eq_some_iff.1 hchecked
  obtain ⟨⟨valid, compact, key⟩, hchecked⟩ := of_bind hchecked
  replace hchecked := of_guard hchecked
  replace hchecked := of_guard hchecked
  obtain ⟨haddress, hchecked⟩ := guard_bind_eq_some.1 hchecked
  obtain ⟨link, hlink, hchecked⟩ := bind_eq_some_iff.1 hchecked
  replace hchecked := of_guard hchecked
  obtain ⟨⟨authKey, authValid⟩, hchecked⟩ := of_bind hchecked
  replace hchecked := of_guard hchecked
  obtain ⟨_, hchecked⟩ := of_bind hchecked
  obtain ⟨name, hchecked⟩ := of_bind hchecked
  cases hchecked
  obtain ⟨n, hseq⟩ := verifyFields_seq hfound
  exact ⟨⟨link, hlink⟩, hseq ▸ not_mem_toDigits (by decide) (by decide) (by decide) n, haddress⟩

/-! ### Messages -/

theorem dashed_cons (first second : Text) (rest : List Text) :
    dashed (first :: second :: rest) = first ++ '-' :: dashed (second :: rest) := by
  simp [dashed]

/-- An owner in front of a dash is determined, also when it is a dash itself. -/
theorem ownerText_inj {address address' rest rest' : Text} (howner : OwnerText address)
    (howner' : OwnerText address') (heq : address ++ '-' :: rest = address' ++ '-' :: rest') :
    address = address' := by
  rcases howner with rfl | ⟨hne, hdash⟩
  · rcases howner' with rfl | ⟨hne', hdash'⟩
    · rfl
    · obtain ⟨first, tail, rfl⟩ := List.exists_cons_of_ne_nil hne'
      have hfirst : '-' = first := (List.cons.inj heq).1
      subst hfirst
      simp at hdash'
  · rcases howner' with rfl | ⟨-, hdash'⟩
    · obtain ⟨first, tail, rfl⟩ := List.exists_cons_of_ne_nil hne
      have hfirst : first = '-' := (List.cons.inj heq).1
      subst hfirst
      simp at hdash
    · exact (PrefixCode.separated_inj_of_not_mem hdash hdash' heq).1

/-- A field tuple that passes the checks in a state of a run. -/
def VerifyAccepted (env : TapEnv) (lib : SignatureLib) (fields : VerifyFields) : Prop :=
  ∃ store context created signature,
    Run.Reaches (privilegeStep env lib) (fun _ _ => True) PrivilegeStore.empty store ∧
      OwnerText created.ownerAddress ∧
      checkedVerify env lib context created store = some (fields, signature)

/-- What two accepted tuples with one message have in common. -/
theorem verify_message_binds {fields fields' : VerifyFields}
    (haccepted : VerifyAccepted env lib fields) (haccepted' : VerifyAccepted env lib fields')
    (hmessage : fields.message = fields'.message) :
    fields.prv = fields'.prv ∧
      (fields.col.count '-' = fields'.col.count '-' →
        fields.verify.count '-' = fields'.verify.count '-' →
        fields.col = fields'.col ∧ fields.verify = fields'.verify ∧ fields.seq = fields'.seq ∧
          fields.address = fields'.address) := by
  obtain ⟨store, context, created, signature, reaches, howner, hchecked⟩ := haccepted
  obtain ⟨store', context', created', signature', reaches', howner', hchecked'⟩ := haccepted'
  have checked := checkedVerify_spec hchecked
  have checked' := checkedVerify_spec hchecked'
  obtain ⟨link, hlink⟩ := checked.authority
  obtain ⟨link', hlink'⟩ := checked'.authority
  rw [← checked.address] at howner
  rw [← checked'.address] at howner'
  simp only [VerifyFields.message, dashed_cons] at hmessage
  obtain ⟨hprv, hrest⟩ := PrefixCode.separated_inj_of_not_mem
    (dash_not_mem_authority (named_of_reaches reaches) hlink)
    (dash_not_mem_authority (named_of_reaches reaches') hlink') hmessage
  refine ⟨hprv, fun hcols hverifies => ?_⟩
  obtain ⟨hcol, hrest⟩ := PrefixCode.separated_inj hcols hrest
  obtain ⟨hverify, hrest⟩ := PrefixCode.separated_inj hverifies hrest
  obtain ⟨hseq, hrest⟩ := PrefixCode.separated_inj_of_not_mem checked.seq checked'.seq hrest
  exact ⟨hcol, hverify, hseq, ownerText_inj howner howner' hrest⟩

/-! ### Mints -/

/-- What the checks of a privileged mint promise about its fields. -/
structure MintChecked (env : TapEnv) (created : Created) (fields : MintFields) : Prop where
  tick : env.visibleLength fields.tick ≤ 32
  amt : '-' ∉ fields.amt
  number : isValidNumber fields.amt = true
  address : fields.address = created.ownerAddress

theorem visibleLength_le {context : TapContext} {len : ℕ}
    (hvalid : validTapTickerVisibleLen env context len = true) : len ≤ 32 := by
  unfold validTapTickerVisibleLen at hvalid
  split at hvalid
  · simp at hvalid
    omega
  · simp at hvalid
    omega

theorem isValidNumber_of_resolved {text : Text} {decimals amount : ℕ}
    (hresolved : resolvedU128 text decimals = some amount) : isValidNumber text = true := by
  obtain ⟨number, hnumber, -⟩ := bind_eq_some_iff.1 hresolved
  unfold resolveNumberString at hnumber
  split at hnumber
  · cases hnumber
  next hvalid => simpa using hvalid

theorem dash_not_mem_of_number {text : Text} (hnumber : isValidNumber text = true) : '-' ∉ text := by
  unfold isValidNumber at hnumber
  rw [Bool.and_eq_true, List.all_eq_true] at hnumber
  intro hmem
  exact absurd (hnumber.1 '-' hmem) (by decide)

theorem address_of_privilegeLinked {rows : PrivilegeStore} {authority key prvAddr : Text}
    {address : Address}
    (hlinked : privilegeLinked lib rows authority key prvAddr address = some true) :
    prvAddr = address := by
  unfold privilegeLinked at hlinked
  split at hlinked
  · cases hlinked
  · obtain ⟨⟨authKey, authValid⟩, hlinked⟩ := of_bind hlinked
    have hall := Option.some.inj hlinked
    simp only [Bool.and_eq_true, decide_eq_true_eq] at hall
    exact hall.2

/-- A valid signature is one for the owner of the inscription. -/
theorem address_of_verifyPrivilege {rows : PrivilegeStore} {used : Text → Bool}
    {authority : Text} {prv : Json} {digest : ℕ} {address : Address} {signature : Text}
    (hvalid : verifyPrivilegeSignatureWithMsg lib rows used authority prv digest address =
      some (true, signature)) : prv.text "address" = address := by
  unfold verifyPrivilegeSignatureWithMsg at hvalid
  obtain ⟨sig, hvalid⟩ := of_bind hvalid
  obtain ⟨_, hvalid⟩ := of_bind hvalid
  obtain ⟨_, hvalid⟩ := of_bind hvalid
  obtain ⟨_, hvalid⟩ := of_bind hvalid
  obtain ⟨_, hvalid⟩ := of_bind hvalid
  obtain ⟨field, hfield, hvalid⟩ := bind_eq_some_iff.1 hvalid
  obtain ⟨prvAddr, hprvAddr, hvalid⟩ := bind_eq_some_iff.1 hvalid
  obtain ⟨_, hvalid⟩ := of_bind hvalid
  obtain ⟨hash, hvalid⟩ := of_bind hvalid
  obtain ⟨⟨compact, key⟩, hvalid⟩ := of_bind hvalid
  obtain ⟨linked, hlinked, hvalid⟩ := bind_eq_some_iff.1 hvalid
  simp only [Option.some.injEq, Prod.mk.injEq, Bool.and_eq_true] at hvalid
  rw [Json.text_eq hfield hprvAddr]
  exact address_of_privilegeLinked (hvalid.1.2 ▸ hlinked)

theorem acceptedMint_spec {rows : PrivilegeStore}
    {context : TapContext} {created : Created} {store : TapStore} {fields : MintFields}
    {signature : Text}
    (haccepted : acceptedMint (env.withPrivileges lib rows) context created store =
      some (fields, signature)) : MintChecked env created fields := by
  unfold acceptedMint at haccepted
  obtain ⟨json, haccepted⟩ := of_bind haccepted
  replace haccepted := of_guard haccepted
  obtain ⟨amtVal, haccepted⟩ := of_bind haccepted
  replace haccepted := of_guard haccepted
  obtain ⟨hlength, haccepted⟩ := guard_bind_eq_some.1 haccepted
  replace haccepted := of_guard haccepted
  obtain ⟨dta, haccepted⟩ := of_bind haccepted
  obtain ⟨deployed, haccepted⟩ := of_bind haccepted
  obtain ⟨tokensLeft, haccepted⟩ := of_bind haccepted
  obtain ⟨requested, hrequested, haccepted⟩ := bind_eq_some_iff.1 haccepted
  replace haccepted := of_guard haccepted
  obtain ⟨authority, haccepted⟩ := of_bind haccepted
  replace haccepted := of_guard haccepted
  obtain ⟨prv, haccepted⟩ := of_bind haccepted
  obtain ⟨⟨valid, compact⟩, hverified, haccepted⟩ := bind_eq_some_iff.1 haccepted
  obtain ⟨hvalid, haccepted⟩ := guard_bind_eq_some.1 haccepted
  cases haccepted
  subst hvalid
  rw [TapEnv.withPrivileges_verifyPrivilege] at hverified
  have hnumber := isValidNumber_of_resolved hrequested
  exact
    { tick := visibleLength_le hlength
      amt := dash_not_mem_of_number hnumber
      number := hnumber
      address := address_of_verifyPrivilege hverified }

/-- An address that is no dash: it is too wide to be a part of a ticker, and no number. -/
structure AddressText (env : TapEnv) (address : Text) : Prop where
  dash : '-' ∉ address
  number : isValidNumber address = false
  wide : ∀ before after, 33 ≤ env.visibleLength (before ++ '-' :: (address ++ after))

theorem MintFields.message_eq (fields : MintFields) :
    fields.message = "tap".toList ++ '-' :: ("token-mint".toList ++ '-' ::
      (fields.tick ++ '-' :: (fields.amt ++ '-' ::
        (fields.address ++ '-' :: dashed (fields.dta.toList ++ [fields.salt]))))) := by
  unfold MintFields.message
  cases fields.dta with
  | none => simp [dashed]
  | some dta => simp [dashed]

/-- A ticker that goes on behind another one would hold the other's address, or take it for an amount. -/
theorem not_longer_tick {created created' : Created} {fields fields' : MintFields}
    (checked : MintChecked env created fields) (checked' : MintChecked env created' fields')
    (haddress : AddressText env fields.address) {more rest rest' : Text}
    (htick : fields'.tick = fields.tick ++ '-' :: more)
    (hrest : fields.amt ++ '-' :: (fields.address ++ '-' :: rest) =
      more ++ '-' :: (fields'.amt ++ '-' :: rest')) : False := by
  have hnarrow := checked'.tick
  rw [htick] at hnarrow
  obtain ⟨rfl, hafter⟩ | ⟨later, rfl, hafter⟩ | ⟨later, hamt, -⟩ := PrefixCode.separated_cases hrest
  · obtain ⟨hsame, -⟩ := PrefixCode.separated_inj_of_not_mem haddress.dash checked'.amt hafter
    have hnumber := checked'.number
    rw [← hsame, haddress.number] at hnumber
    cases hnumber
  · obtain ⟨rfl, -⟩ | ⟨last, rfl, -⟩ | ⟨last, hdash, -⟩ := PrefixCode.separated_cases hafter
    · have hwide := haddress.wide (fields.tick ++ '-' :: fields.amt) []
      simp only [List.append_assoc, List.cons_append, List.append_nil] at hwide hnarrow
      omega
    · have hwide := haddress.wide (fields.tick ++ '-' :: fields.amt) ('-' :: last)
      simp only [List.append_assoc, List.cons_append] at hwide hnarrow
      omega
    · apply haddress.dash
      rw [hdash]
      simp
  · apply checked.amt
    rw [hamt]
    simp

/-- A field tuple of a mint that is accepted on its signature. -/
def MintAccepted (env : TapEnv) (lib : SignatureLib) (fields : MintFields) : Prop :=
  ∃ rows context created store signature, OwnerText created.ownerAddress ∧
    acceptedMint (env.withPrivileges lib rows) context created store = some (fields, signature)

/-- What two accepted mints with one message have in common. -/
theorem mint_message_binds {fields fields' : MintFields}
    (haccepted : MintAccepted env lib fields) (haccepted' : MintAccepted env lib fields')
    (hmessage : fields.message = fields'.message)
    (hticks : fields.tick.count '-' = fields'.tick.count '-' ∨
      (AddressText env fields.address ∧ AddressText env fields'.address)) :
    fields.tick = fields'.tick ∧ fields.amt = fields'.amt ∧ fields.address = fields'.address := by
  obtain ⟨rows, context, created, store, signature, howner, haccepted⟩ := haccepted
  obtain ⟨rows', context', created', store', signature', howner', haccepted'⟩ := haccepted'
  have checked := acceptedMint_spec haccepted
  have checked' := acceptedMint_spec haccepted'
  rw [← checked.address] at howner
  rw [← checked'.address] at howner'
  rw [MintFields.message_eq, MintFields.message_eq] at hmessage
  have hbody := (List.cons.inj (List.append_cancel_left hmessage)).2
  have hfields := (List.cons.inj (List.append_cancel_left hbody)).2
  have htick : fields.tick = fields'.tick := by
    rcases hticks with hcount | ⟨haddress, haddress'⟩
    · exact (PrefixCode.separated_inj hcount hfields).1
    · obtain ⟨hsame, -⟩ | ⟨more, hmore, hrest⟩ | ⟨more, hmore, hrest⟩ :=
        PrefixCode.separated_cases hfields
      · exact hsame
      · exact (not_longer_tick checked checked' haddress hmore hrest).elim
      · exact (not_longer_tick checked' checked haddress' hmore hrest).elim
  rw [htick] at hfields
  have hrest := (List.cons.inj (List.append_cancel_left hfields)).2
  obtain ⟨hamt, hrest⟩ := PrefixCode.separated_inj_of_not_mem checked.amt checked'.amt hrest
  exact ⟨htick, hamt, ownerText_inj howner howner' hrest⟩

/-! ### What a message binds -/

/-- Equal messages of accepted items name one authority, and one item when neither the collections nor
the hash texts differ in their number of dashes; equal messages of accepted mints are for one ticker,
amount and address when the tickers do not differ in it, or both owners have an address. -/
theorem privilege_messages_bind (env : TapEnv) (lib : SignatureLib) :
    (∀ fields fields', VerifyAccepted env lib fields → VerifyAccepted env lib fields' →
      fields.message = fields'.message →
      fields.prv = fields'.prv ∧
        (fields.col.count '-' = fields'.col.count '-' →
          fields.verify.count '-' = fields'.verify.count '-' →
          fields.col = fields'.col ∧ fields.verify = fields'.verify ∧ fields.seq = fields'.seq ∧
            fields.address = fields'.address)) ∧
    ∀ fields fields', MintAccepted env lib fields → MintAccepted env lib fields' →
      fields.message = fields'.message →
      (fields.tick.count '-' = fields'.tick.count '-' ∨
        (AddressText env fields.address ∧ AddressText env fields'.address)) →
      fields.tick = fields'.tick ∧ fields.amt = fields'.amt ∧ fields.address = fields'.address := by
  constructor
  · intro fields fields' haccepted haccepted' hmessage
    exact verify_message_binds haccepted haccepted' hmessage
  · intro fields fields' haccepted haccepted' hmessage hticks
    exact mint_message_binds haccepted haccepted' hmessage hticks

/-! ### Shifted dashes -/

/-- A library that takes the hash text for the compact signature and accepts every signature. -/
def trustingLib : SignatureLib where
  recover _ hash := some (hash, "key".toList)
  verify _ _ _ := true
  authDigest _ _ := 0

def signatureDocument : Json := .object (textFields [("v", "0"), ("r", "1"), ("s", "1")])

def privilegeId : InscriptionId := ⟨7, 0⟩

def authorityEntry : TapAccumulatorEntry where
  op := "privilege-auth".toList
  json := .object
    [("sig".toList, signatureDocument), ("hash".toList, .string "a".toList),
      ("salt".toList, .string "s".toList), ("auth".toList, .object (textFields [("name", "n")]))]
  addr := sampleSeller

/-- An item of a collection of this authority. -/
def itemDocument (col verify : String) : Json :=
  .object (textFields [("p", "tap"), ("op", "privilege-auth"), ("hash", "b"), ("col", col),
      ("verify", verify), ("seq", "5"), ("salt", "x")] ++
    [("sig".toList, signatureDocument), ("prv".toList, .string (inscriptionText privilegeId)),
      ("address".toList, .string sampleSeller)])

def signedMintDocument (tick amt : String) (address salt : Text) : Json :=
  .object (textFields [("p", "tap"), ("op", "token-mint"), ("tick", tick), ("amt", amt)] ++
    [("prv".toList, .object [("sig".toList, signatureDocument), ("hash".toList, .string "c".toList),
      ("address".toList, .string address), ("salt".toList, .string salt)])])

def zeroHash : String := "0000000000000000000000000000000000000000000000000000000000000000"

def shiftedDocuments : List Json :=
  [itemDocument "A" ("B-" ++ zeroHash), itemDocument "A-B" zeroHash,
    signedMintDocument "abc" "1" ['-'] ("5-".toList ++ sampleSeller ++ "-s".toList),
    signedMintDocument "abc-1--" "5" sampleSeller "s".toList]

def shiftedEnv : TapEnv :=
  { sampleEnv with parse := fun body => shiftedDocuments.find? fun json => json.body = body }

def verifiedItem (json : Json) (store : PrivilegeStore) : Option VerifyFields :=
  (checkedVerify shiftedEnv trustingLib sampleContext (inscribed 8 sampleSeller json) store).map Prod.fst

theorem verifyAccepted_of_fields {json : Json} {store : PrivilegeStore} {fields : VerifyFields}
    (reaches : Run.Reaches (privilegeStep shiftedEnv trustingLib) (fun _ _ => True) PrivilegeStore.empty
      store)
    (hfields : verifiedItem json store = some fields) : VerifyAccepted shiftedEnv trustingLib fields := by
  obtain ⟨⟨found, signature⟩, hchecked, rfl⟩ := Option.map_eq_some_iff.1 hfields
  have howner : OwnerText sampleSeller := by decide
  exact ⟨store, _, _, signature, reaches, howner, hchecked⟩

def itemFields (col verify : String) : VerifyFields where
  prv := inscriptionText privilegeId
  col := col.toList
  verify := verify.toList
  seq := "5".toList
  address := sampleSeller
  salt := "x".toList

/-- Two tokens that are minted on signatures of the authority. -/
def privilegedTokens : TapStore :=
  let deployed (tick : String) : DeployRecord :=
    { tick := tick.toList, max := 1000, lim := 0, dec := 0, ins := [], dmt := false, elem := none,
      prj := none, dim := none, dt := none, prv := some (inscriptionText privilegeId) }
  { TapStore.empty with
    d := ((∅ : KeyTable TickKey DeployRecord).insert "\"abc\"".toList (deployed "abc")).insert
      "\"abc-1--\"".toList (deployed "abc-1--")
    dc := ((∅ : KeyTable TickKey ℤ).insert "\"abc\"".toList 1000).insert "\"abc-1--\"".toList 1000 }

def acceptedMintFields (owner : Address) (json : Json) : Option MintFields :=
  (acceptedMint (shiftedEnv.withPrivileges trustingLib
    (indexPrivilegeAuthExecuted shiftedEnv trustingLib (sentToSelf 7 sampleSeller) authorityEntry .empty))
    sampleContext (inscribed 9 owner json) privilegedTokens).map Prod.fst

theorem mintAccepted_of_fields {owner : Address} {json : Json} {fields : MintFields}
    (howner : OwnerText owner) (hfields : acceptedMintFields owner json = some fields) :
    MintAccepted shiftedEnv trustingLib fields := by
  obtain ⟨⟨found, signature⟩, haccepted, rfl⟩ := Option.map_eq_some_iff.1 hfields
  exact ⟨_, _, _, _, signature, howner, haccepted⟩

/-- Items of the collections `A` and `A-B` that one authority may sign with one message. -/
theorem shiftedItems_accepted :
    VerifyAccepted shiftedEnv trustingLib (itemFields "A" ("B-" ++ zeroHash)) ∧
      VerifyAccepted shiftedEnv trustingLib (itemFields "A-B" zeroHash) := by
  have hexec : (Run.exec (privilegeStep shiftedEnv trustingLib) (fun _ _ => true)
      [.authExecuted sampleContext (sentToSelf 7 sampleSeller) authorityEntry]
      PrivilegeStore.empty).map (fun store =>
        (verifiedItem (itemDocument "A" ("B-" ++ zeroHash)) store,
          verifiedItem (itemDocument "A-B" zeroHash) store)) =
        some (some (itemFields "A" ("B-" ++ zeroHash)), some (itemFields "A-B" zeroHash)) := by
    decide +kernel
  obtain ⟨store, reaches, hitems⟩ : ∃ store,
      Run.Reaches (privilegeStep shiftedEnv trustingLib) (fun _ _ => True) PrivilegeStore.empty store ∧
        (verifiedItem (itemDocument "A" ("B-" ++ zeroHash)) store,
          verifiedItem (itemDocument "A-B" zeroHash) store) =
        (some (itemFields "A" ("B-" ++ zeroHash)), some (itemFields "A-B" zeroHash)) :=
    Run.exists_reaches_of_exec (fun _ => trivial) hexec
  obtain ⟨hfirst, hsecond⟩ := Prod.mk.inj hitems
  exact ⟨verifyAccepted_of_fields reaches hfirst, verifyAccepted_of_fields reaches hsecond⟩

/-- The authority of the item of `A-B` is that of every item with its message. -/
theorem shiftedItem_bound :
    VerifyAccepted shiftedEnv trustingLib (itemFields "A-B" zeroHash) ∧
      ∀ fields, VerifyAccepted shiftedEnv trustingLib fields →
        (itemFields "A-B" zeroHash).message = fields.message →
        (itemFields "A-B" zeroHash).prv = fields.prv :=
  ⟨shiftedItems_accepted.2, fun fields haccepted hmessage =>
    ((privilege_messages_bind shiftedEnv trustingLib).1 _ fields shiftedItems_accepted.2 haccepted
      hmessage).1⟩

/-- One message for an item of the collection `A` and another of `A-B`, and one for a mint of `abc` to
nobody and one of `abc-1--` to an address. -/
theorem shifted_dashes_collide :
    (∃ fields fields', VerifyAccepted shiftedEnv trustingLib fields ∧
      VerifyAccepted shiftedEnv trustingLib fields' ∧ fields.message = fields'.message ∧
      fields.col ≠ fields'.col ∧ fields.verify ≠ fields'.verify) ∧
    ∃ fields fields', MintAccepted shiftedEnv trustingLib fields ∧
      MintAccepted shiftedEnv trustingLib fields' ∧ fields.message = fields'.message ∧
      fields.tick ≠ fields'.tick ∧ fields.amt ≠ fields'.amt ∧ fields.address ≠ fields'.address := by
  constructor
  · exact ⟨_, _, shiftedItems_accepted.1, shiftedItems_accepted.2, by decide +kernel,
      by decide +kernel, by decide +kernel⟩
  · have hfirst : acceptedMintFields ['-'] (signedMintDocument "abc" "1" ['-']
        ("5-".toList ++ sampleSeller ++ "-s".toList)) =
          some ⟨"abc".toList, "1".toList, ['-'], none, "5-".toList ++ sampleSeller ++ "-s".toList⟩ := by
      decide +kernel
    have hsecond : acceptedMintFields sampleSeller (signedMintDocument "abc-1--" "5" sampleSeller
        "s".toList) = some ⟨"abc-1--".toList, "5".toList, sampleSeller, none, "s".toList⟩ := by
      decide +kernel
    exact ⟨_, _, mintAccepted_of_fields (.inl rfl) hfirst,
      mintAccepted_of_fields (.inr (by decide)) hsecond, by decide, by decide, by decide, by decide⟩

end OrdDogecoin.Tap
