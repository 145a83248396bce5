/-
Module: OrdDogecoin.Tap.PrivilegeLists
Purpose: The lists of verified items against their history.  Over every run an item is verified once, and
  the lists of authorities and the newest records follow the history; the lists of collections follow it
  as long as no item moves whose hash text holds a slash.
Trusted boundary: none
Main exports: ItemEvent, ListsInvariant, listsAgree_of_reaches
-/
import OrdDogecoin.Tap.VerifiedItems
import OrdDogecoin.Tap.PrivilegeMessages
import OrdDogecoin.Tap.DogemapRows

namespace OrdDogecoin.Tap

open Chain KeyedLog PrefixCode Proc VerifiedStore
open Option (bind_some bind_eq_bind)

/-! ### Runs -/

/-- What history keeps of a record: the creation of an item, or a later move of it. -/
structure ItemEvent where
  id : InscriptionId
  fields : VerifyFields
  height : ℕ
  creation : Bool
deriving DecidableEq, Repr

/-- The rows, and their history: the inscriptions created, the last height, and the events of items. -/
structure ListsRun where
  store : VerifiedStore
  created : List InscriptionId
  height : ℕ
  log : List ItemEvent

def ListsRun.empty : ListsRun where
  store := .empty
  created := []
  height := 0
  log := []

inductive ListsAction where
  | authExecuted (context : TapContext) (moved : Moved) (acc : TapAccumulatorEntry)
  | signatureUsed (signature : Text)
  | verifyCreated (context : TapContext) (created : Created)
  | verifyTransferred (context : TapContext) (moved : Moved)

/-- The item that a new inscription verifies. -/
def createdItemEvents (env : TapEnv) (lib : SignatureLib) (context : TapContext) (created : Created)
    (run : ListsRun) : List ItemEvent :=
  (checkedVerify env lib context created run.store.rows).toList.map fun checked =>
    { id := created.inscriptionId, fields := checked.1, height := context.height, creation := true }

/-- The move of an item out of the transaction that created it. -/
def movedEvents (context : TapContext) (moved : Moved) (run : ListsRun) : List ItemEvent :=
  if moved.newSatpoint.outpoint.txid = moved.inscriptionId.txid then []
  else
    (run.log.find? fun event => event.id = moved.inscriptionId).toList.map fun event =>
      { event with height := context.height, creation := false }

def listsStep (env : TapEnv) (lib : SignatureLib) (run : ListsRun) : ListsAction → Option ListsRun
  | .authExecuted _ moved acc =>
      some { run with
        store := run.store.withAuthorities
          (indexPrivilegeAuthExecuted env lib moved acc run.store.rows) }
  | .signatureUsed signature =>
      some { run with store := { run.store with prah := run.store.prah.insert signature () } }
  | .verifyCreated context created =>
      some
        { store := run.store.indexPrivilegeVerifyCreated env lib context created
          created := created.inscriptionId :: run.created
          height := context.height
          log := run.log ++ createdItemEvents env lib context created run }
  | .verifyTransferred context moved =>
      some { run with
        store := run.store.indexPrivilegeVerifyTransferred env context moved
        height := context.height
        log := run.log ++ movedEvents context moved run }

/-- An inscription is created once, and heights do not go down. -/
def Ordered (run : ListsRun) : ListsAction → Prop
  | .verifyCreated context created =>
      created.inscriptionId ∉ run.created ∧ run.height ≤ context.height
  | .verifyTransferred context _ => run.height ≤ context.height
  | _ => True

/-- No item moves whose hash text holds a slash, or whose path is not read back from its row. -/
def PlainMove (env : TapEnv) (run : ListsRun) : ListsAction → Prop
  | .verifyTransferred _ moved =>
      ∀ event ∈ run.log, event.id = moved.inscriptionId → '/' ∉ event.fields.verify ∧
        env.strings.read ("prvins/".toList ++ event.fields.path env) =
          some ("prvins/".toList ++ event.fields.path env)
  | _ => True

instance (run : ListsRun) (action : ListsAction) : Decidable (Ordered run action) := by
  cases action with
  | authExecuted context moved acc => exact isTrue trivial
  | signatureUsed signature => exact isTrue trivial
  | verifyCreated context created => exact inferInstanceAs (Decidable (_ ∧ _))
  | verifyTransferred context moved => exact inferInstanceAs (Decidable (_ ≤ _))

instance (env : TapEnv) (run : ListsRun) (action : ListsAction) :
    Decidable (PlainMove env run action) := by
  cases action with
  | authExecuted context moved acc => exact isTrue trivial
  | signatureUsed signature => exact isTrue trivial
  | verifyCreated context created => exact isTrue trivial
  | verifyTransferred context moved => exact inferInstanceAs (Decidable (∀ event ∈ _, _))

/-! ### What the lists should hold -/

structure RecordOf (event : ItemEvent) (record : PrivilegeVerifiedRecord) : Prop where
  ins : record.ins = inscriptionText event.id
  privf : record.privf = event.fields.prv
  col : record.col = event.fields.col
  vrf : record.vrf = event.fields.verify
  seq : record.seq = event.fields.seq
  blck : record.blck = event.height

namespace ItemEvent

def authorityBlock (event : ItemEvent) : Text × ℕ := (event.fields.prv, event.height)

/-- The authority, the collection, which its key text stands for, and the block of an event. -/
def collectionBlock (env : TapEnv) (event : ItemEvent) : Text × Text × ℕ :=
  (event.fields.prv, env.jsJsonStringifyStr event.fields.col, event.height)

/-- What an authority verifies once. -/
def triple (event : ItemEvent) : Text × Text × Text × Text :=
  (event.fields.prv, event.fields.col, event.fields.verify, event.fields.seq)

end ItemEvent

/-- Each triple is verified once under its authority; every event of an item has one record, whose
pointer is in the lists of its authority and of its collection, as its creation has it, for its block, and
in no other one; the path of an item points to the newest record of its inscription. -/
structure ListsAgree (env : TapEnv) (run : ListsRun) : Prop where
  once : ((run.log.filter (·.creation)).map ItemEvent.triple).Nodup
  records : List.Forall₂ RecordOf run.log run.store.sfprav
  authority : ∀ authority height,
    (run.store.blckp.lookup (authorityKey (inscriptionText authority) height)).getD [] =
      positions ItemEvent.authorityBlock run.log (inscriptionText authority, height)
  collection : ∀ authority col height,
    (run.store.blckpc.lookup
        (collectionBlockKey (inscriptionText authority) (env.jsJsonStringifyStr col) height)).getD [] =
      positions (ItemEvent.collectionBlock env) run.log
        (inscriptionText authority, env.jsJsonStringifyStr col, height)
  authorityOnly : ∀ key, (run.store.blckp.lookup key).getD [] ≠ [] →
    ∃ event ∈ run.log, key = authorityKey event.fields.prv event.height
  collectionOnly : ∀ key, (run.store.blckpc.lookup key).getD [] ≠ [] →
    ∃ event ∈ run.log,
      key = collectionBlockKey event.fields.prv (env.jsJsonStringifyStr event.fields.col) event.height
  newest : ∀ event ∈ run.log, run.store.prvvrfd.lookup (event.fields.path env) =
    (positions ItemEvent.id run.log event.id).getLast?

/-! ### The invariant -/

namespace ItemEvent

def path (env : TapEnv) (event : ItemEvent) : Text := event.fields.path env

def authorityKey (event : ItemEvent) : Text :=
  VerifiedStore.authorityKey event.fields.prv event.height

def collectionKey (env : TapEnv) (event : ItemEvent) : Text :=
  collectionBlockKey event.fields.prv (env.jsJsonStringifyStr event.fields.col) event.height

end ItemEvent

/-- What is known of an item: the feature was on, its authority is an inscription, and its sequence is a
number. -/
structure ItemKnown (env : TapEnv) (run : ListsRun) (event : ItemEvent) : Prop where
  created : event.id ∈ run.created
  started : featureHeight env.mainnet .tapStart ≤ run.height
  authority : ∃ authority, event.fields.prv = inscriptionText authority
  seq : ∃ n, event.fields.seq = Nat.toDigits 10 n
  linked : run.store.prvins.lookup (inscriptionText event.id) =
    some ("prvins/".toList ++ event.path env)
  owned : run.store.prvins.lookup (event.path env) = some (inscriptionText event.id)

/-- The rows of a run, as its history says by key texts. -/
structure ListsInvariant (env : TapEnv) (run : ListsRun) : Prop where
  named : AuthoritiesNamed run.store.rows
  known : ∀ event ∈ run.log, ItemKnown env run event
  unlinked : ∀ id, (∀ event ∈ run.log, event.id ≠ id) →
    run.store.prvins.lookup (inscriptionText id) = none
  fields : ∀ event ∈ run.log, ∀ other ∈ run.log, event.id = other.id → event.fields = other.fields
  paths : ∀ event ∈ run.log, ∀ other ∈ run.log, event.path env = other.path env → event.id = other.id
  once : ((run.log.filter (·.creation)).map ItemEvent.triple).Nodup
  records : List.Forall₂ RecordOf run.log run.store.sfprav
  newest : Newest (ItemEvent.path env) run.log run.store.prvvrfd
  authority : Listed ItemEvent.authorityKey run.log run.store.blckp
  collection : Listed (ItemEvent.collectionKey env) run.log run.store.blckpc

section Steps

variable {env : TapEnv} {lib : SignatureLib} {context : TapContext} {run : ListsRun}
  {event : ItemEvent}

theorem ListsInvariant.empty : ListsInvariant env .empty where
  named _ _ hlink := by cases hlink
  known _ hmem := by cases hmem
  unlinked _ _ := rfl
  fields _ hmem := by cases hmem
  paths _ hmem := by cases hmem
  once := List.nodup_nil
  records := .nil
  newest := .empty
  authority := .empty
  collection := .empty

/-- A step that writes no row of an item. -/
theorem ListsInvariant.idle (inv : ListsInvariant env run) {next : ListsRun} (hlog : next.log = run.log)
    (hcreated : run.created ⊆ next.created) (hheight : run.height ≤ next.height)
    (hnamed : AuthoritiesNamed next.store.rows) (hsfprav : next.store.sfprav = run.store.sfprav)
    (hprvvrfd : next.store.prvvrfd = run.store.prvvrfd) (hprvins : next.store.prvins = run.store.prvins)
    (hblckp : next.store.blckp = run.store.blckp) (hblckpc : next.store.blckpc = run.store.blckpc) :
    ListsInvariant env next where
  named := hnamed
  known event hmem := by
    obtain ⟨created, started, authority, seq, linked, owned⟩ := inv.known event (hlog ▸ hmem)
    exact ⟨hcreated created, started.trans hheight, authority, seq, hprvins ▸ linked, hprvins ▸ owned⟩
  unlinked := by
    rw [hlog, hprvins]
    exact inv.unlinked
  fields := by
    rw [hlog]
    exact inv.fields
  paths := by
    rw [hlog]
    exact inv.paths
  once := by
    rw [hlog]
    exact inv.once
  records := by
    rw [hlog, hsfprav]
    exact inv.records
  newest := by
    rw [hlog, hprvvrfd]
    exact inv.newest
  authority := by
    rw [hlog, hblckp]
    exact inv.authority
  collection := by
    rw [hlog, hblckpc]
    exact inv.collection

/-! ### Creation -/

/-- The checks of an item that its lists depend on. -/
theorem checkedVerify_listed {created : Created} {store : PrivilegeStore} {fields : VerifyFields}
    {signature : Text}
    (hchecked : checkedVerify env lib context created store = some (fields, signature)) :
    featureEnabled env context .tapStart = true ∧ store.prvvrfd.lookup (fields.path env) = none ∧
      ∃ n, fields.seq = Nat.toDigits 10 n := by
  unfold checkedVerify at hchecked
  obtain ⟨_, hchecked⟩ := of_bind hchecked
  obtain ⟨json, hchecked⟩ := of_bind hchecked
  replace hchecked := of_guard hchecked
  obtain ⟨hstarted, hchecked⟩ := guard_bind_eq_some.1 hchecked
  obtain ⟨sig, hchecked⟩ := of_bind hchecked
  replace hchecked := of_guard hchecked
  obtain ⟨_, hchecked⟩ := of_bind hchecked
  obtain ⟨hash, hchecked⟩ := of_bind hchecked
  obtain ⟨found, hfound, hchecked⟩ := Option.bind_eq_some_iff.1 hchecked
  obtain ⟨⟨valid, compact, key⟩, hchecked⟩ := of_bind hchecked
  replace hchecked := of_guard hchecked
  obtain ⟨hpath, hchecked⟩ := guard_bind_eq_some.1 hchecked
  replace hchecked := of_guard hchecked
  obtain ⟨link, hchecked⟩ := of_bind hchecked
  replace hchecked := of_guard hchecked
  obtain ⟨⟨authKey, authValid⟩, hchecked⟩ := of_bind hchecked
  replace hchecked := of_guard hchecked
  obtain ⟨_, hchecked⟩ := of_bind hchecked
  obtain ⟨name, hchecked⟩ := of_bind hchecked
  cases hchecked
  exact ⟨hstarted, Option.isNone_iff_eq_none.1 hpath, verifyFields_seq hfound⟩

/-- A path is no identifier: it has slashes. -/
theorem path_ne_inscriptionText (fields : VerifyFields) (id : InscriptionId) :
    fields.path env ≠ inscriptionText id := by
  intro hsame
  have hslash : '/' ∈ fields.path env := by simp [VerifyFields.path]
  rw [hsame] at hslash
  exact not_mem_inscriptionText (by decide) (by decide) id hslash

/-- The links of an item after those of another one are written. -/
theorem lookup_links {prvins : KeyTable Text Text} {path key value : Text} {id : InscriptionId}
    (hpath : key ≠ path) (hid : key ≠ inscriptionText id) :
    ((prvins.insert path (inscriptionText id)).insert (inscriptionText id) value).lookup key =
      prvins.lookup key := by
  rw [AList.lookup_insert_ne hid, AList.lookup_insert_ne hpath]

/-- A new item is one that no event is about. -/
theorem ListsInvariant.path_new (inv : ListsInvariant env run) {path : Text}
    (hpath : run.store.rows.prvvrfd.lookup path = none) : ∀ event ∈ run.log, event.path env ≠ path := by
  have hnone : run.store.prvvrfd.lookup path = none := by simpa [VerifiedStore.rows] using hpath
  exact inv.newest.isNone.1 hnone

theorem ListsInvariant.created (inv : ListsInvariant env run) {created : Created}
    (hnew : created.inscriptionId ∉ run.created) (hheight : run.height ≤ context.height)
    {fields : VerifyFields} {compact : Text}
    (hchecked : checkedVerify env lib context created run.store.rows = some (fields, compact)) :
    ListsInvariant env
      { store := run.store.recordCreated env context created fields compact
        created := created.inscriptionId :: run.created
        height := context.height
        log := run.log ++ [⟨created.inscriptionId, fields, context.height, true⟩] } := by
  obtain ⟨hstarted, hpath, hseq⟩ := checkedVerify_listed hchecked
  obtain ⟨link, hlink⟩ := (checkedVerify_spec hchecked).authority
  obtain ⟨authority, hauthority⟩ := inv.named _ _ hlink
  have hpaths := inv.path_new hpath
  have hids : ∀ event ∈ run.log, event.id ≠ created.inscriptionId := fun event hmem hsame =>
    hnew (hsame ▸ (inv.known event hmem).created)
  have hlength : run.log.length = run.store.sfprav.length := inv.records.length_eq
  constructor
  case named => exact inv.named
  case known =>
    intro event hmem
    rcases List.mem_append.1 hmem with hold | hlast
    · have known := inv.known event hold
      have hid : inscriptionText event.id ≠ inscriptionText created.inscriptionId := fun hsame =>
        hids event hold (inscriptionText_injective hsame)
      refine ⟨List.mem_cons_of_mem _ known.created, known.started.trans hheight, known.authority,
        known.seq, ?_, ?_⟩
      · rw [← known.linked]
        exact lookup_links (path_ne_inscriptionText fields _).symm hid
      · rw [← known.owned]
        exact lookup_links (hpaths event hold) (path_ne_inscriptionText event.fields _)
    · obtain rfl := List.mem_singleton.1 hlast
      refine ⟨List.mem_cons_self .., of_decide_eq_true hstarted, ⟨authority, hauthority⟩, hseq,
        AList.lookup_insert _, ?_⟩
      exact (AList.lookup_insert_ne (path_ne_inscriptionText fields _)).trans (AList.lookup_insert _)
  case unlinked =>
    intro id hother
    have hlast := hother _ (List.mem_append_right _ (List.mem_singleton_self _))
    rw [← inv.unlinked id fun event hmem => hother event (List.mem_append_left _ hmem)]
    exact lookup_links (path_ne_inscriptionText fields id).symm fun hsame =>
      hlast (inscriptionText_injective hsame).symm
  case fields =>
    exact determined_append inv.fields fun event hmem hsame => absurd hsame (hids event hmem)
  case paths =>
    exact determined_append inv.paths fun event hmem hsame => absurd hsame (hpaths event hmem)
  case once =>
    rw [List.filter_append, List.map_append, List.nodup_append]
    refine ⟨inv.once, by simp, ?_⟩
    rintro triple hmem last hlast rfl
    obtain ⟨event, hevent, htriple⟩ := List.mem_map.1 hmem
    -- the same triple has the same path, which the checks found free
    have hlast : triple = (fields.prv, fields.col, fields.verify, fields.seq) := by
      simpa [ItemEvent.triple] using hlast
    apply hpaths event (List.mem_filter.1 hevent).1
    simp only [ItemEvent.triple, hlast, Prod.mk.injEq] at htriple
    obtain ⟨hprv, hcol, hverify, hseq⟩ := htriple
    simp only [ItemEvent.path, VerifyFields.path, hprv, hcol, hverify, hseq]
  case records => exact List.rel_append inv.records (.cons ⟨rfl, rfl, rfl, rfl, rfl, rfl⟩ .nil)
  case newest =>
    have happend := inv.newest.append ⟨created.inscriptionId, fields, context.height, true⟩
    rw [hlength] at happend
    exact happend
  case authority =>
    have happend := inv.authority.append ⟨created.inscriptionId, fields, context.height, true⟩
    rw [hlength] at happend
    exact happend
  case collection =>
    have happend := inv.collection.append ⟨created.inscriptionId, fields, context.height, true⟩
    rw [hlength] at happend
    exact happend

/-! ### Moves -/

/-- The element of a related list at the same place. -/
theorem exists_getElem?_of_forall₂ {α β : Type} {R : α → β → Prop} {left : List α} {right : List β}
    (hrelated : List.Forall₂ R left right) {i : ℕ} {a : α} (ha : left[i]? = some a) :
    ∃ b, right[i]? = some b ∧ R a b := by
  induction hrelated generalizing i with
  | nil => simp at ha
  | cons hhead _ ih =>
      cases i with
      | zero =>
          cases ha
          exact ⟨_, rfl, hhead⟩
      | succ i => exact ih ha

/-- An identifier of an inscription has no marker. -/
theorem plain_inscriptionText (id : InscriptionId) :
    jsStringContainsInternalMarker (inscriptionText id) = false := by
  have hnot : ∀ marker, isJsInternalMarkerChar marker = true → marker ∉ inscriptionText id := by
    intro marker hmarker
    rcases (by simpa [isJsInternalMarkerChar] using hmarker) with rfl | rfl
    · exact not_mem_inscriptionText (by decide) (by decide) id
    · exact not_mem_inscriptionText (by decide) (by decide) id
  refine List.any_eq_false.2 fun c hc hmarker => hnot c (by simpa using hmarker) hc

/-- The handler of moves finds the path of an item and a record of it. -/
theorem ListsInvariant.movedItem_eq (inv : ListsInvariant env run)
    (hevent : event ∈ run.log)
    (hread : env.strings.read ("prvins/".toList ++ event.path env) =
      some ("prvins/".toList ++ event.path env)) :
    ∃ earlier ∈ run.log, ∃ record, earlier.id = event.id ∧ RecordOf earlier record ∧
      movedItem env event.id run.store = some (event.path env, record) := by
  have known := inv.known event hevent
  have hrow : run.store.prvvrfd.lookup (event.path env) ≠ none := fun hnone =>
    inv.newest.isNone.1 hnone event hevent rfl
  obtain ⟨ptr, hptr⟩ := Option.ne_none_iff_exists'.1 hrow
  obtain ⟨earlier, hearlier, hpath⟩ := inv.newest.event hptr
  have hmem := List.mem_of_getElem? hearlier
  obtain ⟨record, hrecord, hof⟩ := exists_getElem?_of_forall₂ inv.records hearlier
  refine ⟨earlier, hmem, record, inv.paths earlier hmem event hevent hpath, hof, ?_⟩
  have hown : env.strings.read (inscriptionText event.id) = some (inscriptionText event.id) :=
    env.strings.read_of_plain (plain_inscriptionText event.id)
  unfold movedItem
  rw [known.linked, bind_some, hread, bind_eq_bind, bind_some, guard_bind_eq_some]
  have hdrop : ("prvins/".toList ++ event.path env).drop 7 = event.path env := List.drop_left' rfl
  refine ⟨by simp, ?_⟩
  dsimp only
  rw [hdrop, hptr, bind_eq_bind, bind_some, hrecord, bind_eq_bind, bind_some,
    known.owned, bind_some, hown, bind_some]
  exact guard_bind_eq_some.2 ⟨rfl, rfl⟩

/-- The handler of moves leaves an inscription alone that is no item. -/
theorem ListsInvariant.movedItem_none (inv : ListsInvariant env run) {id : InscriptionId}
    (hother : ∀ event ∈ run.log, event.id ≠ id) : movedItem env id run.store = none := by
  unfold movedItem
  rw [inv.unlinked id hother]
  rfl

/-- A path is cut where it was joined, when its hash text holds no slash. -/
theorem splitPath_path {fields : VerifyFields} {authority : InscriptionId} {n : ℕ}
    (hprv : fields.prv = inscriptionText authority) (hseq : fields.seq = Nat.toDigits 10 n)
    (hverify : '/' ∉ fields.verify) :
    splitPath (fields.path env) = some (fields.prv, env.jsJsonStringifyStr fields.col) := by
  have hprvSlash : '/' ∉ fields.prv := hprv ▸ not_mem_inscriptionText (by decide) (by decide) authority
  have hseqSlash : '/' ∉ fields.seq :=
    hseq ▸ not_mem_toDigits (by decide) (by decide) (by decide) n
  have hrest : env.jsJsonStringifyStr fields.col ++ '/' :: (fields.verify ++ '/' :: fields.seq) =
      (env.jsJsonStringifyStr fields.col ++ '/' :: fields.verify) ++ '/' :: fields.seq := by simp
  unfold splitPath VerifyFields.path
  rw [splitOnce_append hprvSlash, hrest]
  simp only [bind_eq_bind, bind_some, rsplitOnce_append _ hseqSlash,
    rsplitOnce_append _ hverify]

theorem ListsInvariant.moved (inv : ListsInvariant env run) (hheight : run.height ≤ context.height)
    (moved : Moved) (hevent : event ∈ run.log) (hplain : '/' ∉ event.fields.verify)
    {earlier : ItemEvent} (hearlier : earlier ∈ run.log) (hid : earlier.id = event.id)
    {prev : PrivilegeVerifiedRecord} (hprev : RecordOf earlier prev) :
    ListsInvariant env
      { run with
        store := run.store.recordTransferred context moved (event.path env) prev
        height := context.height
        log := run.log ++ [{ event with height := context.height, creation := false }] } := by
  have known := inv.known event hevent
  obtain ⟨authority, hauthority⟩ := known.authority
  obtain ⟨n, hseq⟩ := known.seq
  have hlength : run.log.length = run.store.sfprav.length := inv.records.length_eq
  have hfields : earlier.fields = event.fields := inv.fields earlier hearlier event hevent hid
  simp only [recordTransferred, listMove, ItemEvent.path, splitPath_path hauthority hseq hplain]
  constructor
  case named => exact inv.named
  case known =>
    intro other hmem
    rcases List.mem_append.1 hmem with hold | hlast
    · obtain ⟨created, started, authority, seq, linked, owned⟩ := inv.known other hold
      exact ⟨created, started.trans hheight, authority, seq, linked, owned⟩
    · obtain rfl := List.mem_singleton.1 hlast
      exact ⟨known.created, known.started.trans hheight, known.authority, known.seq, known.linked,
        known.owned⟩
  case unlinked =>
    intro id hother
    exact inv.unlinked id fun other hmem => hother other (List.mem_append_left _ hmem)
  case fields =>
    exact determined_append inv.fields fun other hmem => inv.fields other hmem event hevent
  case paths =>
    exact determined_append inv.paths fun other hmem => inv.paths other hmem event hevent
  case once => simpa [List.filter_append] using inv.once
  case records =>
    refine List.rel_append inv.records (.cons ?_ .nil)
    obtain ⟨ins, privf, col, vrf, seq, -⟩ := hprev
    rw [hid] at ins
    rw [hfields] at privf col vrf seq
    exact ⟨ins, privf, col, vrf, seq, rfl⟩
  case newest =>
    have happend := inv.newest.append { event with height := context.height, creation := false }
    rw [hlength] at happend
    exact happend
  case authority =>
    have happend := inv.authority.append { event with height := context.height, creation := false }
    rw [hlength] at happend
    exact happend
  case collection =>
    have happend := inv.collection.append { event with height := context.height, creation := false }
    rw [hlength] at happend
    exact happend

/-! ### Steps -/

theorem ListsInvariant.verifyCreated (inv : ListsInvariant env run) (created : Created)
    (hnew : created.inscriptionId ∉ run.created) (hheight : run.height ≤ context.height) :
    ListsInvariant env
      { store := run.store.indexPrivilegeVerifyCreated env lib context created
        created := created.inscriptionId :: run.created
        height := context.height
        log := run.log ++ createdItemEvents env lib context created run } := by
  unfold VerifiedStore.indexPrivilegeVerifyCreated createdItemEvents
  cases hchecked : checkedVerify env lib context created run.store.rows with
  | none =>
      exact inv.idle (List.append_nil _) (List.subset_cons_self _ _) hheight inv.named rfl rfl rfl rfl rfl
  | some found => exact inv.created hnew hheight hchecked

theorem ListsInvariant.verifyTransferred (inv : ListsInvariant env run) (moved : Moved)
    (hheight : run.height ≤ context.height)
    (hplain : PlainMove env run (.verifyTransferred context moved)) :
    ListsInvariant env
      { run with
        store := run.store.indexPrivilegeVerifyTransferred env context moved
        height := context.height
        log := run.log ++ movedEvents context moved run } := by
  unfold indexPrivilegeVerifyTransferred movedEvents
  split
  · exact inv.idle (List.append_nil _) (List.Subset.refl _) hheight inv.named rfl rfl rfl rfl rfl
  cases hfind : run.log.find? fun event => event.id = moved.inscriptionId with
  | none =>
      have hother : ∀ event ∈ run.log, event.id ≠ moved.inscriptionId := by
        simpa using List.find?_eq_none.1 hfind
      rw [inv.movedItem_none hother, ite_self]
      exact inv.idle (List.append_nil _) (List.Subset.refl _) hheight inv.named rfl rfl rfl rfl rfl
  | some event =>
      have hevent := List.mem_of_find?_eq_some hfind
      have hid : event.id = moved.inscriptionId := by simpa using List.find?_some hfind
      have hstarted : featureEnabled env context .tapStart = true :=
        decide_eq_true ((inv.known event hevent).started.trans hheight)
      obtain ⟨hslash, hread⟩ := hplain event hevent hid
      obtain ⟨earlier, hearlier, prev, hsame, hprev, hmoved⟩ := inv.movedItem_eq hevent hread
      rw [← hid, hmoved, hstarted]
      exact inv.moved hheight moved hevent hslash hearlier hsame hprev

theorem ListsInvariant.step (inv : ListsInvariant env run) {action : ListsAction} {next : ListsRun}
    (hordered : Ordered run action) (hplain : PlainMove env run action)
    (hstep : listsStep env lib run action = some next) : ListsInvariant env next := by
  cases action with
  | authExecuted context moved acc =>
      cases hstep
      exact inv.idle rfl (List.Subset.refl _) le_rfl (named_authExecuted inv.named moved acc)
        rfl rfl rfl rfl rfl
  | signatureUsed signature =>
      cases hstep
      exact inv.idle rfl (List.Subset.refl _) le_rfl inv.named rfl rfl rfl rfl rfl
  | verifyCreated context created =>
      cases hstep
      exact inv.verifyCreated created hordered.1 hordered.2
  | verifyTransferred context moved =>
      cases hstep
      exact inv.verifyTransferred moved hordered hplain

/-! ### Lists by authority and collection -/

theorem authorityKey_eq_iff (known : ItemKnown env run event) (authority : InscriptionId)
    (height : ℕ) :
    event.authorityKey = authorityKey (inscriptionText authority) height ↔
      event.authorityBlock = (inscriptionText authority, height) := by
  obtain ⟨own, hown⟩ := known.authority
  simp only [ItemEvent.authorityKey, authorityKey, ItemEvent.authorityBlock, Prod.mk.injEq, hown]
  constructor
  · intro hsame
    obtain ⟨hprv, hheight⟩ := separated_inj_of_not_mem
      (not_mem_inscriptionText (by decide) (by decide) own)
      (not_mem_inscriptionText (by decide) (by decide) authority) hsame
    exact ⟨hprv, toDigits_injective hheight⟩
  · rintro ⟨hprv, rfl⟩
    rw [hprv]

theorem collectionKey_eq_iff (known : ItemKnown env run event) (authority : InscriptionId)
    (col : Text) (height : ℕ) :
    event.collectionKey env =
        collectionBlockKey (inscriptionText authority) (env.jsJsonStringifyStr col) height ↔
      event.collectionBlock env =
        (inscriptionText authority, env.jsJsonStringifyStr col, height) := by
  obtain ⟨own, hown⟩ := known.authority
  simp only [ItemEvent.collectionKey, collectionBlockKey, ItemEvent.collectionBlock, Prod.mk.injEq, hown]
  constructor
  · intro hsame
    obtain ⟨hprv, hrest⟩ := separated_inj_of_not_mem
      (not_mem_inscriptionText (by decide) (by decide) own)
      (not_mem_inscriptionText (by decide) (by decide) authority) hsame
    obtain ⟨hcol, hheight⟩ := separated_inj_of_rest_not_mem
      (not_mem_toDigits (by decide) (by decide) (by decide) event.height)
      (not_mem_toDigits (by decide) (by decide) (by decide) height) hrest
    exact ⟨hprv, hcol, toDigits_injective hheight⟩
  · rintro ⟨hprv, hcol, rfl⟩
    rw [hprv, hcol]

/-- A list that is not empty is one of an event. -/
theorem exists_event_of_listed {keyOf : ItemEvent → Text} {log : List ItemEvent}
    {lists : KeyTable Text (List ℕ)} (listed : Listed keyOf log lists) {key : Text}
    (hne : (lists.lookup key).getD [] ≠ []) : ∃ event ∈ log, key = keyOf event := by
  rw [listed] at hne
  by_contra hnone
  apply hne
  rw [positions_eq_nil]
  intro event hmem hkey
  exact hnone ⟨event, hmem, hkey.symm⟩

theorem ListsInvariant.agree (inv : ListsInvariant env run) : ListsAgree env run where
  once := inv.once
  records := inv.records
  authority authority height := by
    rw [inv.authority]
    exact positions_congr fun event hmem => authorityKey_eq_iff (inv.known event hmem) authority height
  collection authority col height := by
    rw [inv.collection]
    exact positions_congr fun event hmem =>
      collectionKey_eq_iff (inv.known event hmem) authority col height
  authorityOnly _ hne := exists_event_of_listed inv.authority hne
  collectionOnly _ hne := exists_event_of_listed inv.collection hne
  newest event hevent := by
    have hpaths : ∀ other ∈ run.log,
        other.path env = event.path env ↔ other.id = event.id := fun other hmem =>
      ⟨inv.paths other hmem event hevent, fun hid => by
        rw [ItemEvent.path, ItemEvent.path, inv.fields other hmem event hevent hid]⟩
    rw [← positions_congr hpaths]
    exact inv.newest (event.path env)

end Steps

/-- In every run in which no item moves whose hash text holds a slash or whose path is not read back, the
lists agree with history. -/
theorem listsAgree_of_reaches (env : TapEnv) (lib : SignatureLib) {run : ListsRun}
    (reaches : Run.Reaches (listsStep env lib)
      (fun run action => Ordered run action ∧ PlainMove env run action) .empty run) :
    ListsAgree env run := by
  have inv : ListsInvariant env run := by
    apply reaches.invariant (ListsInvariant env)
    · intro run next action inv hallowed hstep
      exact inv.step hallowed.1 hallowed.2 hstep
    · exact .empty
  exact inv.agree

/-! ### Hash texts with a slash -/

/-- The text libraries with one document of an item. -/
def itemEnv (verify : String) : TapEnv :=
  { sampleEnv with parse := fun body => [itemDocument "A" verify].find? fun json => json.body = body }

/-- An authority, an item of it with this hash text, and a move of the item. -/
def movedItemRun (verify : String) : List ListsAction :=
  [.authExecuted sampleContext (sentToSelf 7 sampleSeller) authorityEntry,
    .verifyCreated sampleContext (inscribed 8 sampleSeller (itemDocument "A" verify)),
    .verifyTransferred sampleContext (sentToSelf 8 sampleSeller)]

/-- The pointers of a collection in a block, and the events there. -/
def collectionView (env : TapEnv) (run : ListsRun) : List ℕ × List ℕ :=
  ((run.store.blckpc.lookup (collectionBlockKey (inscriptionText privilegeId)
      (env.jsJsonStringifyStr "A".toList) sampleContext.height)).getD [],
    positions (ItemEvent.collectionBlock env) run.log
      (inscriptionText privilegeId, env.jsJsonStringifyStr "A".toList, sampleContext.height))

theorem plain_item_listed : ∃ run, collectionView (itemEnv zeroHash) run = ([0, 1], [0, 1]) ∧
    ListsAgree (itemEnv zeroHash) run := by
  have hexec : (Run.exec (listsStep (itemEnv zeroHash) trustingLib)
      (fun run action => decide (Ordered run action ∧ PlainMove (itemEnv zeroHash) run action))
      (movedItemRun zeroHash) .empty).map (collectionView (itemEnv zeroHash)) = some ([0, 1], [0, 1]) := by decide +kernel
  obtain ⟨run, reaches, hview⟩ := Run.exists_reaches_of_exec of_decide_eq_true hexec
  exact ⟨run, hview, listsAgree_of_reaches _ _ reaches⟩

/-- The move of an item with the hash text `x/0…0` is not in the list of its collection `A`. -/
theorem slashed_move_unlisted : ¬ ∀ env lib run,
    Run.Reaches (listsStep env lib) Ordered .empty run → ListsAgree env run := by
  intro hagree
  have hexec : (Run.exec (listsStep (itemEnv ("x/" ++ zeroHash)) trustingLib)
      (fun run action => decide (Ordered run action)) (movedItemRun ("x/" ++ zeroHash))
      .empty).map (collectionView (itemEnv ("x/" ++ zeroHash))) = some ([0], [0, 1]) := by
    decide +kernel
  obtain ⟨run, reaches, hview⟩ := Run.exists_reaches_of_exec of_decide_eq_true hexec
  obtain ⟨hlist, hevents⟩ := Prod.mk.inj hview
  have hsame := (hagree _ _ run reaches).collection privilegeId "A".toList sampleContext.height
  rw [hlist, hevents] at hsame
  exact absurd hsame (by decide)

end OrdDogecoin.Tap
