/-
Module: OrdDogecoin.Tap.RouteFamilies
Purpose: What writes under the keys of the routed families do to the rows and to the index of routes.
  Rows of other families change neither; a row of an inscription changes its own route only.
Trusted boundary: none
Main exports: ValidId, OnlyAt, SameRows
-/
import OrdDogecoin.Tap.Routing
import OrdDogecoin.Tap.DogemapRows

namespace OrdDogecoin.Tap

open Chain AtomicBatch

/-! ### Identifiers in keys -/

/-- The transaction id has 32 bytes and the index 4. -/
def ValidId (id : InscriptionId) : Prop := id.txid < 2 ^ 256 ∧ id.index < 2 ^ 32

instance (id : InscriptionId) : Decidable (ValidId id) := inferInstanceAs (Decidable (_ ∧ _))

theorem length_txidText {txid : Txid} (htxid : txid < 2 ^ 256) : (txidText txid).length = 64 := by
  have hlength : (Nat.toDigits 16 txid).length ≤ 64 := by
    rw [Nat.length_toDigits_le_iff (by decide) (by decide)]
    norm_num at htxid ⊢
    exact htxid
  rw [txidText, List.length_leftpad]
  omega

theorem isSome_toDigit_of_mem_txidText (txid : Txid) :
    ∀ c ∈ txidText txid, (toDigit 16 c).isSome = true := by
  intro c hc
  rcases List.mem_append.1 hc with hzero | hdigit
  · rw [List.eq_of_mem_replicate hzero]
    rfl
  · exact isSome_toDigit_of_mem c hdigit

/-- A transaction id is read back from its text. -/
theorem parseTxid_txidText {txid : Txid} (htxid : txid < 2 ^ 256) :
    parseTxid (txidText txid) = some txid := by
  have hread : readHex (txidText txid) = txid := by
    rw [txidText, List.leftpad, readHex_zeros_append, readHex_toDigits]
  have hdigits : (txidText txid).all (fun c => (toDigit 16 c).isSome) = true :=
    List.all_eq_true.2 (isSome_toDigit_of_mem_txidText txid)
  unfold parseTxid
  rw [length_txidText htxid, hdigits]
  exact congrArg some hread

theorem parseU32_toDigits {n : ℕ} (hn : n < 2 ^ 32) : parseU32 (Nat.toDigits 10 n) = some n := by
  unfold parseU32
  rw [parseUsize_toDigits (by omega), Option.filter_some, if_pos (decide_eq_true hn)]

theorem inscriptionText_eq (id : InscriptionId) :
    inscriptionText id = txidText id.txid ++ 'i' :: Nat.toDigits 10 id.index := by
  simp [inscriptionText, txidText, List.leftpad]

theorem toNat_lt_of_isSome_toDigit {c : Char} (hc : (toDigit 16 c).isSome = true) : c.toNat < 0x80 := by
  unfold toDigit at hc
  grind

variable {id : InscriptionId}

/-- An identifier is read back from its text. -/
theorem parseInscriptionId_inscriptionText (valid : ValidId id) :
    parseInscriptionId (inscriptionText id) = some id := by
  have hlength := length_txidText valid.1
  have hascii : (inscriptionText id).any (fun c => 0x80 ≤ c.toNat) = false := by
    rw [List.any_eq_false]
    intro c hc
    rw [inscriptionText_eq] at hc
    have hsmall : c.toNat < 0x80 := by
      rcases List.mem_append.1 hc with htxid | hrest
      · exact toNat_lt_of_isSome_toDigit (isSome_toDigit_of_mem_txidText _ c htxid)
      · rcases List.mem_cons.1 hrest with rfl | hdigit
        · decide
        · have hisDigit := Nat.isDigit_of_mem_toDigits (by decide) (by decide) hdigit
          simp only [Char.isDigit, Bool.and_eq_true, decide_eq_true_eq] at hisDigit
          have := hisDigit.2
          have htoNat : c.toNat ≤ 57 := this
          omega
    simpa using hsmall
  have hindex : 0 < (Nat.toDigits 10 id.index).length := Nat.length_toDigits_pos
  unfold parseInscriptionId
  rw [hascii, inscriptionText_eq, List.take_left' hlength, List.length_append, List.length_cons, hlength,
    List.getElem?_append_right hlength.le, hlength]
  have hdrop : (txidText id.txid ++ 'i' :: Nat.toDigits 10 id.index).drop 65 =
      Nat.toDigits 10 id.index := by
    rw [List.append_cons, List.drop_left' (by simp [hlength])]
  rw [if_neg (by decide), if_neg (by omega), if_neg (by simp), hdrop, parseTxid_txidText valid.1,
    parseU32_toDigits valid.2]
  rfl

theorem parseDigits_of_slash {text : Text} (hslash : '/' ∈ text) : parseDigits text = none := by
  have hany : text.any (fun c => !c.isDigit) = true := List.any_eq_true.2 ⟨'/', hslash, by decide⟩
  unfold parseDigits
  rw [hany, Bool.or_true, if_pos rfl]

theorem parseU32_of_slash {text : Text} (hslash : '/' ∈ text) : parseU32 text = none := by
  unfold parseU32 parseUsize
  split
  next rest =>
    have hrest : '/' ∈ rest := by simpa using hslash
    rw [parseDigits_of_slash hrest]
    rfl
  next => rw [parseDigits_of_slash hslash]; rfl

theorem parseTxid_of_slash {text : Text} (hslash : '/' ∈ text) : parseTxid text = none := by
  have hall : text.all (fun c => (toDigit 16 c).isSome) = false :=
    List.all_eq_false.2 ⟨'/', hslash, by decide⟩
  unfold parseTxid
  rw [hall, Bool.and_false, if_neg (by decide)]

/-- A text with a slash is no identifier. -/
theorem parseInscriptionId_of_slash {text : Text} (hslash : '/' ∈ text) :
    parseInscriptionId text = none := by
  unfold parseInscriptionId
  split
  · rfl
  split
  · rfl
  split
  · rfl
  next hseparator =>
    have hi : text[64]? = some 'i' := not_not.1 hseparator
    have hparts : text = text.take 64 ++ 'i' :: text.drop 65 := by
      have htail : text.drop 64 = 'i' :: text.drop 65 := by
        rw [List.drop_eq_getElem?_toList_append, hi]
        rfl
      rw [← htail, List.take_append_drop]
    rw [hparts] at hslash
    rcases List.mem_append.1 hslash with htxid | hrest
    · rw [parseTxid_of_slash htxid]
      rfl
    · have hindex : '/' ∈ text.drop 65 := by simpa using hrest
      rw [parseU32_of_slash hindex]
      cases parseTxid (text.take 64) with
      | none => rfl
      | some txid => rfl

/-! ### The index of routes -/

namespace TapRouteIndex

/-- Only the route of this inscription changes, and no cache learns anything. -/
structure OnlyAt (id : InscriptionId) (before after : TapRouteIndex) : Prop where
  routes : ∀ other, other ≠ id → after.routes.lookup other = before.routes.lookup other
  bitmapHot : ∀ other entry, after.bitmapHot.value other = some entry →
    before.bitmapHot.value other = some entry
  dmtHot : ∀ other entry, after.dmtHot.value other = some entry →
    before.dmtHot.value other = some entry

variable {id : InscriptionId} {index : TapRouteIndex}

theorem OnlyAt.refl (id : InscriptionId) (index : TapRouteIndex) : OnlyAt id index index :=
  ⟨fun _ _ => rfl, fun _ _ hfound => hfound, fun _ _ hfound => hfound⟩

theorem OnlyAt.trans {before after last : TapRouteIndex} (first : OnlyAt id before after)
    (second : OnlyAt id after last) : OnlyAt id before last where
  routes other hother := (second.routes other hother).trans (first.routes other hother)
  bitmapHot other entry hfound := first.bitmapHot other entry (second.bitmapHot other entry hfound)
  dmtHot other entry hfound := first.dmtHot other entry (second.dmtHot other entry hfound)

/-- A route is stored at its inscription only. -/
theorem onlyAt_insertRoute (route : TapRoute) : OnlyAt id index (index.insertRoute id route) where
  routes _ hother := AList.lookup_insert_ne hother
  bitmapHot _ _ hfound := hfound
  dmtHot _ _ hfound := hfound

theorem onlyAt_removeRouteIf (route : TapRoute) : OnlyAt id index (index.removeRouteIf id route) := by
  unfold removeRouteIf
  split
  · exact ⟨fun _ hother => AList.lookup_erase_ne hother,
      fun _ _ hfound => (StampedCache.value_remove hfound).2,
      fun _ _ hfound => (StampedCache.value_remove hfound).2⟩
  · exact .refl id index

theorem lookup_insertRoute (route : TapRoute) : (index.insertRoute id route).routes.lookup id =
    some (insertedRoute (index.routes.lookup id) route) := AList.lookup_insert _

theorem lookup_removeRouteIf {route : TapRoute} (hroute : index.routes.lookup id = some route) :
    (index.removeRouteIf id route).routes.lookup id = none := by
  unfold removeRouteIf
  rw [if_pos hroute]
  exact AList.lookup_erase _ _

/-! ### Observed keys -/

/-- A row of another family is not observed. -/
theorem observePut_of_not_routed {key : Text} (hkey : routed key = false) (value : Option Text) :
    index.observePut key value = index := by
  have hnone : ∀ front ∈ routedFamilies, (strip front key).isSome = false := by
    simpa [routed] using hkey
  unfold observePut
  simp only [hnone _ (by decide : "kind/" ∈ routedFamilies), hnone _ (by decide : "bmh/" ∈ routedFamilies),
    hnone _ (by decide : "dmtmhm/" ∈ routedFamilies), hnone _ (by decide : "dmtmho/" ∈ routedFamilies),
    hnone _ (by decide : "prvins/" ∈ routedFamilies), hnone _ (by decide : "tl/" ∈ routedFamilies),
    hnone _ (by decide : "a/" ∈ routedFamilies)]
  rfl

theorem observeDel_of_not_routed {key : Text} (hkey : routed key = false) : index.observeDel key = index := by
  have hnone : ∀ front ∈ routedFamilies, (strip front key).isSome = false := by
    simpa [routed] using hkey
  unfold observeDel
  simp only [hnone _ (by decide : "tl/" ∈ routedFamilies), hnone _ (by decide : "a/" ∈ routedFamilies)]
  rfl

section Keys

variable (valid : ValidId id) (value : Option Text)

include valid

/-- What each key of an inscription does to the index. -/
theorem observePut_kindKey : index.observePut (kindKey id) value = index.observeKind (some id) value := by
  have hkey : index.observePut (kindKey id) value =
      index.observeKind (parseInscriptionId (inscriptionText id)) value := rfl
  rw [hkey, parseInscriptionId_inscriptionText valid]

theorem observePut_bmhKey : index.observePut (bmhKey id) value =
    index.insertRoute id (.bitmap (value.bind bitmapBlockFromMapping)) := by
  have hkey : index.observePut (bmhKey id) value =
      index.insertAt (parseInscriptionId (inscriptionText id))
        (.bitmap (value.bind bitmapBlockFromMapping)) := rfl
  rw [hkey, parseInscriptionId_inscriptionText valid]
  rfl

theorem observePut_dmtmhmKey : index.observePut (dmtmhmKey id) value = index.insertRoute id .dmtMint := by
  have hkey : index.observePut (dmtmhmKey id) value =
      index.insertAt (parseInscriptionId (inscriptionText id)) .dmtMint := rfl
  rw [hkey, parseInscriptionId_inscriptionText valid]
  rfl

theorem observePut_dmtmhoKey : index.observePut (dmtmhoKey id) value = index.insertRoute id .dmtMint := by
  have hkey : index.observePut (dmtmhoKey id) value =
      index.insertAt (parseInscriptionId (inscriptionText id)) .dmtMint := rfl
  rw [hkey, parseInscriptionId_inscriptionText valid]
  rfl

theorem observePut_prvinsKey : index.observePut (prvinsKey id) value = index.insertRoute id .privilege := by
  have hkey : index.observePut (prvinsKey id) value =
      index.insertAt (parseInscriptionId (inscriptionText id)) .privilege := rfl
  rw [hkey, parseInscriptionId_inscriptionText valid]
  rfl

theorem observePut_tlKey : index.observePut (tlKey id) value = index.observeLink (some id) value := by
  have hkey : index.observePut (tlKey id) value =
      index.observeLink (parseInscriptionId (inscriptionText id)) value := rfl
  rw [hkey, parseInscriptionId_inscriptionText valid]

theorem observePut_accKey : index.observePut (accKey id) value = index.insertRoute id .accumulator := by
  have hkey : index.observePut (accKey id) value =
      index.insertAt (parseInscriptionId (inscriptionText id)) .accumulator := rfl
  rw [hkey, parseInscriptionId_inscriptionText valid]
  rfl

theorem observeDel_accKey : index.observeDel (accKey id) = index.removeRouteIf id .accumulator := by
  have hstrip : strip "a/" (accKey id) = some (inscriptionText id) := rfl
  have hid : idOfKey "a/" (accKey id) = parseInscriptionId (inscriptionText id) := rfl
  rw [observeDel, hstrip, if_pos Option.isSome_some, hid, parseInscriptionId_inscriptionText valid]

end Keys

theorem observePut_bmKey (number : ℕ) (value : Option Text) :
    index.observePut (bmKey number) value = index := rfl

theorem observePut_dmtmhKey (id : InscriptionId) (value : Option Text) :
    index.observePut (dmtmhKey id) value = index := rfl

/-- A removed kind leaves the index as it is. -/
theorem observeDel_kindKey (id : InscriptionId) : index.observeDel (kindKey id) = index := rfl

/-- The path of a privilege is no identifier. -/
theorem observePut_path {path : Text} (hslash : '/' ∈ path) (value : Option Text) :
    index.observePut ("prvins/".toList ++ path) value = index := by
  have hkey : index.observePut ("prvins/".toList ++ path) value =
      index.insertAt (parseInscriptionId path) .privilege := rfl
  rw [hkey, parseInscriptionId_of_slash hslash]
  rfl

theorem onlyAt_observeKind (value : Option Text) : OnlyAt id index (index.observeKind (some id) value) := by
  unfold observeKind
  split
  · exact .refl id index
  · exact onlyAt_insertRoute _

theorem onlyAt_observeLink (value : Option Text) : OnlyAt id index (index.observeLink (some id) value) := by
  unfold observeLink
  dsimp only
  split
  · exact onlyAt_insertRoute _
  · exact onlyAt_removeRouteIf _

end TapRouteIndex

/-- The keys of the routed families for an inscription. -/
def idKeys (id : InscriptionId) : List Text :=
  [kindKey id, bmhKey id, dmtmhKey id, dmtmhmKey id, dmtmhoKey id, prvinsKey id, tlKey id, accKey id]

variable {key : Text}

/-- A row of an inscription changes its own route only. -/
theorem TapRouteIndex.onlyAt_observePut (valid : ValidId id) (hkey : key ∈ idKeys id)
    (index : TapRouteIndex) (value : Option Text) :
    OnlyAt id index (index.observePut key value) := by
  simp only [idKeys, List.mem_cons, List.not_mem_nil, or_false] at hkey
  rcases hkey with rfl | rfl | rfl | rfl | rfl | rfl | rfl | rfl
  · rw [observePut_kindKey valid]
    exact onlyAt_observeKind value
  · rw [observePut_bmhKey valid]
    exact onlyAt_insertRoute _
  · exact .refl id index
  · rw [observePut_dmtmhmKey valid]
    exact onlyAt_insertRoute _
  · rw [observePut_dmtmhoKey valid]
    exact onlyAt_insertRoute _
  · rw [observePut_prvinsKey valid]
    exact onlyAt_insertRoute _
  · rw [observePut_tlKey valid]
    exact onlyAt_observeLink value
  · rw [observePut_accKey valid]
    exact onlyAt_insertRoute _

/-- A key of an inscription is the name of its family, a slash and the identifier. -/
theorem exists_name_of_mem_idKeys (hkey : key ∈ idKeys id) :
    ∃ name, '/' ∉ name ∧ key = name ++ '/' :: inscriptionText id := by
  simp only [idKeys, List.mem_cons, List.not_mem_nil, or_false] at hkey
  rcases hkey with rfl | rfl | rfl | rfl | rfl | rfl | rfl | rfl
  · exact ⟨"kind".toList, by decide, rfl⟩
  · exact ⟨"bmh".toList, by decide, rfl⟩
  · exact ⟨"dmtmh".toList, by decide, rfl⟩
  · exact ⟨"dmtmhm".toList, by decide, rfl⟩
  · exact ⟨"dmtmho".toList, by decide, rfl⟩
  · exact ⟨"prvins".toList, by decide, rfl⟩
  · exact ⟨"tl".toList, by decide, rfl⟩
  · exact ⟨"a".toList, by decide, rfl⟩

/-- No other row has the key of an inscription. -/
theorem not_mem_idKeys {name rest : Text} (hname : '/' ∉ name) (hrest : rest ≠ inscriptionText id) :
    name ++ '/' :: rest ∉ idKeys id := by
  intro hmem
  obtain ⟨own, hown, hsame⟩ := exists_name_of_mem_idKeys hmem
  exact hrest (PrefixCode.separated_inj_of_not_mem hname hown hsame).2

/-- Two inscriptions have no key in common. -/
theorem idKeys_disjoint {id other : InscriptionId} (hne : other ≠ id) (hkey : key ∈ idKeys id) :
    key ∉ idKeys other := by
  obtain ⟨name, hname, rfl⟩ := exists_name_of_mem_idKeys hkey
  exact not_mem_idKeys hname fun hsame => hne (inscriptionText_injective hsame).symm

theorem bmKey_not_mem_idKeys (number : ℕ) (id : InscriptionId) : bmKey number ∉ idKeys id := by
  have hdigits : Nat.toDigits 10 number ≠ inscriptionText id := by
    intro hsame
    have hi : 'i' ∈ inscriptionText id := by
      rw [inscriptionText_eq]
      simp
    rw [← hsame] at hi
    exact not_mem_toDigits (by decide) (by decide) (by decide) number hi
  exact not_mem_idKeys (by decide : '/' ∉ "bm".toList) hdigits

theorem routed_of_mem_idKeys (hkey : key ∈ idKeys id) :
    routed key = true := by
  simp only [idKeys, List.mem_cons, List.not_mem_nil, or_false] at hkey
  rcases hkey with rfl | rfl | rfl | rfl | rfl | rfl | rfl | rfl <;> rfl

theorem not_historyLength_of_mem_idKeys (hkey : key ∈ idKeys id) :
    historyLength key = false := by
  simp only [idKeys, List.mem_cons, List.not_mem_nil, or_false] at hkey
  rcases hkey with rfl | rfl | rfl | rfl | rfl | rfl | rfl | rfl <;> rfl

/-! ### States -/

/-- The lengths of the histories of mints are texts. -/
def TextLengths (rows : KeyTable Text RouteRow) : Prop :=
  ∀ key row, historyLength key = true → rows.lookup key = some row → row.asText.isSome = true

theorem TextLengths.insert {rows : KeyTable Text RouteRow} (lengths : TextLengths rows)
    {row : RouteRow} (hrow : historyLength key = false ∨ row.asText.isSome = true) :
    TextLengths (rows.insert key row) := by
  intro other found hother hfound
  obtain ⟨rfl, rfl⟩ | ⟨-, hold⟩ := KeyTable.lookup_insert_cases hfound
  · exact hrow.resolve_left (by rw [hother]; decide)
  · exact lengths other found hother hold

theorem TextLengths.erase {rows : KeyTable Text RouteRow} (lengths : TextLengths rows) (key : Text) :
    TextLengths (rows.erase key) := fun other found hother hfound =>
  lengths other found hother (KeyTable.lookup_erase_cases hfound).2

namespace RouteState

/-- The rows of the routed families and the index of routes are the same, and lengths stay texts. -/
structure SameRoutes (before after : RouteState) : Prop where
  rows : ∀ key, routed key = true → after.rows.lookup key = before.rows.lookup key
  lengths : TextLengths before.rows → TextLengths after.rows
  routeIndex : after.routeIndex = before.routeIndex

namespace SameRoutes

variable {before after last : RouteState}

theorem refl (state : RouteState) : SameRoutes state state := ⟨fun _ _ => rfl, id, rfl⟩

theorem trans (first : SameRoutes before after) (second : SameRoutes after last) :
    SameRoutes before last where
  rows key hkey := (second.rows key hkey).trans (first.rows key hkey)
  lengths hlengths := second.lengths (first.lengths hlengths)
  routeIndex := second.routeIndex.trans first.routeIndex

/-- A write under a key that is not routed. -/
theorem tapPut (same : SameRoutes before after) {key : Text} (hkey : routed key = false) {row : RouteRow}
    (hrow : historyLength key = false ∨ row.asText.isSome = true) :
    SameRoutes before (after.tapPut key row) := by
  refine same.trans ⟨fun other hother => ?_, fun lengths => lengths.insert hrow, ?_⟩
  · apply AList.lookup_insert_ne
    rintro rfl
    rw [hkey] at hother
    cases hother
  · cases hindex : after.routeIndex with
    | none => simp [RouteState.tapPut, hindex]
    | some index => simp [RouteState.tapPut, hindex, TapRouteIndex.observePut_of_not_routed hkey]

theorem tapDel (same : SameRoutes before after) {key : Text} (hkey : routed key = false) :
    SameRoutes before (after.tapDel key) := by
  refine same.trans ⟨fun other hother => ?_, fun lengths => lengths.erase key, ?_⟩
  · apply AList.lookup_erase_ne
    rintro rfl
    rw [hkey] at hother
    cases hother
  · cases hindex : after.routeIndex with
    | none => simp [RouteState.tapDel, hindex]
    | some index => simp [RouteState.tapDel, hindex, TapRouteIndex.observeDel_of_not_routed hkey]

/-- The rows of the other handlers leave the routes alone. -/
theorem writeAll (same : SameRoutes before after) (writes : List OtherWrite) :
    SameRoutes before (after.writeAll writes) := by
  induction writes generalizing after with
  | nil => exact same
  | cons other writes ih =>
      apply ih
      unfold RouteState.write
      split
      · exact same.tapPut other.other (.inl other.noLength)
      · exact same.tapDel other.other

theorem tapSetListRecord (same : SameRoutes before after) {lengthKey iteratorKey : Text}
    (hlength : routed lengthKey = false) (hitem : ∀ index, routed (listKey iteratorKey index) = false)
    {row : RouteRow}
    (hrow : ∀ index, historyLength (listKey iteratorKey index) = false ∨ row.asText.isSome = true) :
    SameRoutes before (after.tapSetListRecord lengthKey iteratorKey row).2 := by
  unfold RouteState.tapSetListRecord
  split
  · exact same
  · exact (same.tapPut hlength (.inr rfl)).tapPut (hitem _) (hrow _)

theorem appendRow (same : SameRoutes before after) {lengthKey iteratorKey : Text}
    (hlength : routed lengthKey = false) (hitem : ∀ index, routed (listKey iteratorKey index) = false)
    (text : Text) : SameRoutes before (after.appendRow lengthKey iteratorKey (.text text)) :=
  same.tapSetListRecord hlength hitem fun _ => .inr rfl

theorem listRecord (same : SameRoutes before after) (context : TapContext) (number : ℕ) (txid : Txid)
    (record : BitmapRecord) : SameRoutes before (after.listRecord context number txid record) := by
  have hlisted : SameRoutes before
      (after.tapSetListRecord (bmhlKey number) (bmhliKey number) (.bitmap record)).2 :=
    same.tapSetListRecord rfl (fun _ => rfl) fun _ => .inl rfl
  unfold RouteState.listRecord
  rcases hpair : after.tapSetListRecord (bmhlKey number) (bmhliKey number) (.bitmap record) with
    ⟨listLen, next⟩
  rw [hpair] at hlisted
  cases listLen with
  | none => exact hlisted
  | some listLen => exact (hlisted.appendRow rfl (fun _ => rfl) _).appendRow rfl (fun _ => rfl) _

theorem listHolder (same : SameRoutes before after) (context : TapContext) (tickKey ptr owner : Text)
    (txid : Txid) (id : InscriptionId) :
    SameRoutes before (after.listHolder context tickKey ptr owner txid id) := by
  unfold RouteState.listHolder
  refine SameRoutes.appendRow ?_ rfl (fun _ => rfl) _
  refine SameRoutes.appendRow ?_ rfl (fun _ => rfl) _
  refine SameRoutes.appendRow ?_ rfl (fun _ => rfl) _
  refine SameRoutes.appendRow ?_ rfl (fun _ => rfl) _
  exact same.appendRow rfl (fun _ => rfl) _

theorem beginHistory (same : SameRoutes before after) (id : InscriptionId) (holder : Json) :
    SameRoutes before (after.beginHistory id holder).2 :=
  (same.tapPut rfl (.inl rfl)).tapPut rfl (.inr rfl)

end SameRoutes

/-- Only the rows and the route of this inscription change, besides rows that no route depends on; a block
that has a record keeps it. -/
structure OnlyAt (id : InscriptionId) (before after : RouteState) : Prop where
  rows : ∀ other, other ≠ id → ∀ key ∈ idKeys other, after.rows.lookup key = before.rows.lookup key
  bitmaps : ∀ number record, before.rows.lookup (bmKey number) = some (.bitmap record) →
    after.rows.lookup (bmKey number) = some (.bitmap record)
  lengths : TextLengths before.rows → TextLengths after.rows
  routeIndex : Option.Rel (TapRouteIndex.OnlyAt id) before.routeIndex after.routeIndex

/-- A change to both sides of a relation. -/
theorem rel_map {α : Type} {R : α → α → Prop} {before after : Option α} {change : α → α}
    (hrel : Option.Rel R before after) (hchange : ∀ a b, R a b → R a (change b)) :
    Option.Rel R before (after.map change) := by
  cases hrel with
  | none => exact .none
  | some hrel => exact .some (hchange _ _ hrel)

namespace OnlyAt

variable {id : InscriptionId} {before after last : RouteState}

theorem refl (id : InscriptionId) (state : RouteState) : OnlyAt id state state where
  rows _ _ _ _ := rfl
  bitmaps _ _ hrecord := hrecord
  lengths := fun hlengths => hlengths
  routeIndex := by
    cases state.routeIndex with
    | none => exact .none
    | some index => exact .some (.refl id index)

theorem sameRoutes (only : OnlyAt id before after) (same : SameRoutes after last) :
    OnlyAt id before last where
  rows other hother key hkey :=
    (same.rows key (routed_of_mem_idKeys hkey)).trans (only.rows other hother key hkey)
  bitmaps number record hrecord := (same.rows _ rfl).trans (only.bitmaps number record hrecord)
  lengths hlengths := same.lengths (only.lengths hlengths)
  routeIndex := same.routeIndex ▸ only.routeIndex

/-- A write under a key of the inscription. -/
theorem tapPut (only : OnlyAt id before after) (valid : ValidId id) {key : Text} (hkey : key ∈ idKeys id)
    (row : RouteRow) : OnlyAt id before (after.tapPut key row) where
  rows other hother key' hkey' := by
    have hne : key' ≠ key := fun hsame => idKeys_disjoint hother hkey (hsame ▸ hkey')
    exact (AList.lookup_insert_ne hne).trans (only.rows other hother key' hkey')
  bitmaps number record hrecord := by
    have hne : bmKey number ≠ key := fun hsame => bmKey_not_mem_idKeys number id (hsame ▸ hkey)
    exact (AList.lookup_insert_ne hne).trans (only.bitmaps number record hrecord)
  lengths hlengths := (only.lengths hlengths).insert (.inl (not_historyLength_of_mem_idKeys hkey))
  routeIndex := rel_map only.routeIndex fun _ index hindex =>
    hindex.trans (TapRouteIndex.onlyAt_observePut valid hkey index _)

/-- A removal under such a key. -/
theorem tapDel (only : OnlyAt id before after) {key : Text} (hkey : key ∈ idKeys id)
    (hindex : ∀ index : TapRouteIndex, TapRouteIndex.OnlyAt id index (index.observeDel key)) :
    OnlyAt id before (after.tapDel key) where
  rows other hother key' hkey' := by
    have hne : key' ≠ key := fun hsame => idKeys_disjoint hother hkey (hsame ▸ hkey')
    exact (AList.lookup_erase_ne hne).trans (only.rows other hother key' hkey')
  bitmaps number record hrecord := by
    have hne : bmKey number ≠ key := fun hsame => bmKey_not_mem_idKeys number id (hsame ▸ hkey)
    exact (AList.lookup_erase_ne hne).trans (only.bitmaps number record hrecord)
  lengths hlengths := (only.lengths hlengths).erase key
  routeIndex := rel_map only.routeIndex fun _ index honly => honly.trans (hindex index)

/-- The record of a block that has none. -/
theorem tapPutBitmap (only : OnlyAt id before after) {number : ℕ}
    (hnone : ∀ record, after.rows.lookup (bmKey number) ≠ some (.bitmap record)) (row : RouteRow) :
    OnlyAt id before (after.tapPut (bmKey number) row) where
  rows other hother key hkey := by
    have hne : key ≠ bmKey number := fun hsame => bmKey_not_mem_idKeys number other (hsame ▸ hkey)
    exact (AList.lookup_insert_ne hne).trans (only.rows other hother key hkey)
  bitmaps other record hrecord := by
    have hold := only.bitmaps other record hrecord
    have hne : bmKey other ≠ bmKey number := fun hsame => hnone record (hsame ▸ hold)
    exact (AList.lookup_insert_ne hne).trans hold
  lengths hlengths := (only.lengths hlengths).insert (.inl rfl)
  routeIndex := rel_map only.routeIndex fun _ _ honly => honly

/-- The path of a privilege is the key of no inscription. -/
theorem tapPutPath (only : OnlyAt id before after) {path : Text} (hslash : '/' ∈ path) (row : RouteRow) :
    OnlyAt id before (after.tapPut ("prvins/".toList ++ path) row) where
  rows other hother key hkey := by
    have hne : key ≠ "prvins/".toList ++ path := by
      rintro rfl
      have hrest : path ≠ inscriptionText other := by
        rintro rfl
        exact not_mem_inscriptionText (by decide) (by decide) other hslash
      exact not_mem_idKeys (by decide : '/' ∉ "prvins".toList) hrest hkey
    exact (AList.lookup_insert_ne hne).trans (only.rows other hother key hkey)
  bitmaps number record hrecord := by
    have hne : bmKey number ≠ "prvins/".toList ++ path := by simp [bmKey]
    exact (AList.lookup_insert_ne hne).trans (only.bitmaps number record hrecord)
  lengths hlengths := (only.lengths hlengths).insert (.inl rfl)
  routeIndex := rel_map only.routeIndex fun _ index honly => by
    rw [TapRouteIndex.observePut_path hslash]
    exact honly

end OnlyAt

/-! ### Handlers without the index -/

section SameRows

variable {state state' : RouteState} (hrows : state.rows = state'.rows)

include hrows

theorem rows_tapPut_congr (key : Text) (row : RouteRow) :
    (state.tapPut key row).rows = (state'.tapPut key row).rows := by
  simp only [tapPut, hrows]

theorem rows_tapDel_congr (key : Text) : (state.tapDel key).rows = (state'.tapDel key).rows := by
  simp only [tapDel, hrows]

theorem text_congr (key : Text) : state.text key = state'.text key := by rw [text, text, hrows]

/-- From here on the rows written do not depend on the index. -/
theorem rows_writeAll_congr (writes : List OtherWrite) :
    (state.writeAll writes).rows = (state'.writeAll writes).rows := by
  induction writes generalizing state state' with
  | nil => exact hrows
  | cons other writes ih =>
      apply ih
      unfold write
      split
      · exact rows_tapPut_congr hrows _ _
      · exact rows_tapDel_congr hrows _

theorem tapSetListRecord_congr (lengthKey iteratorKey : Text) (row : RouteRow) :
    (state.tapSetListRecord lengthKey iteratorKey row).1 =
        (state'.tapSetListRecord lengthKey iteratorKey row).1 ∧
      (state.tapSetListRecord lengthKey iteratorKey row).2.rows =
        (state'.tapSetListRecord lengthKey iteratorKey row).2.rows := by
  have hlength : state.listLength lengthKey = state'.listLength lengthKey := by
    rw [listLength, listLength, hrows]
  unfold tapSetListRecord
  rw [hlength]
  cases state'.listLength lengthKey with
  | none => exact ⟨rfl, hrows⟩
  | some length => exact ⟨rfl, rows_tapPut_congr (rows_tapPut_congr hrows _ _) _ _⟩

theorem rows_appendRow_congr (lengthKey iteratorKey : Text) (row : RouteRow) :
    (state.appendRow lengthKey iteratorKey row).rows = (state'.appendRow lengthKey iteratorKey row).rows :=
  (tapSetListRecord_congr hrows lengthKey iteratorKey row).2

theorem rows_listRecord_congr (context : TapContext) (number : ℕ) (txid : Txid) (record : BitmapRecord) :
    (state.listRecord context number txid record).rows =
      (state'.listRecord context number txid record).rows := by
  obtain ⟨hlength, hlisted⟩ :=
    tapSetListRecord_congr hrows (bmhlKey number) (bmhliKey number) (.bitmap record)
  unfold listRecord
  rcases hpair : state.tapSetListRecord (bmhlKey number) (bmhliKey number) (.bitmap record) with
    ⟨listLen, next⟩
  rcases hpair' : state'.tapSetListRecord (bmhlKey number) (bmhliKey number) (.bitmap record) with
    ⟨listLen', next'⟩
  rw [hpair, hpair'] at hlength hlisted
  obtain rfl : listLen = listLen' := hlength
  cases listLen with
  | none => exact hlisted
  | some listLen => exact rows_appendRow_congr (rows_appendRow_congr hlisted _ _ _) _ _ _

theorem rows_listHolder_congr (context : TapContext) (tickKey ptr owner : Text) (txid : Txid)
    (id : InscriptionId) :
    (state.listHolder context tickKey ptr owner txid id).rows =
      (state'.listHolder context tickKey ptr owner txid id).rows := by
  unfold listHolder
  apply rows_appendRow_congr
  apply rows_appendRow_congr
  apply rows_appendRow_congr
  apply rows_appendRow_congr
  exact rows_appendRow_congr hrows _ _ _

theorem rows_recordMovedBitmap_congr (context : TapContext) (timestamp : ℕ) (moved : BitmapMoved)
    (number entryNumber : ℕ) (prevOwner : Address) :
    (state.recordMovedBitmap context timestamp moved number entryNumber prevOwner).rows =
      (state'.recordMovedBitmap context timestamp moved number entryNumber prevOwner).rows := by
  apply rows_appendRow_congr
  apply rows_listRecord_congr
  exact rows_tapPut_congr hrows _ _

theorem rows_recordMovedMint_congr (env : TapEnv) (context : TapContext) (timestamp : ℕ)
    (moved : BitmapMoved) (record : DmtMintMetaRecord) (prevOwner : Address) :
    (state.recordMovedMint env context timestamp moved record prevOwner).rows =
      (state'.recordMovedMint env context timestamp moved record prevOwner).rows := by
  unfold recordMovedMint
  dsimp only
  generalize RouteRow.json _ = holder
  have hput := rows_tapPut_congr (rows_tapPut_congr hrows (dmtmhKey moved.inscriptionId) holder)
    (dmtmhoKey moved.inscriptionId) (.text (recordedOwner moved.ownerAddress))
  obtain ⟨hlength, hlisted⟩ := tapSetListRecord_congr hput
    (partsKey "dmtmhl/" [inscriptionText moved.inscriptionId])
    (partsKey "dmtmhli/" [inscriptionText moved.inscriptionId]) holder
  revert hlength hlisted
  generalize RouteState.tapSetListRecord _ _ _ holder = first
  generalize RouteState.tapSetListRecord _ _ _ holder = second
  obtain ⟨listLen, next⟩ := first
  obtain ⟨listLen', next'⟩ := second
  rintro rfl hlisted
  cases listLen with
  | none => exact hlisted
  | some listLen => exact rows_listHolder_congr hlisted _ _ _ _ _ _

theorem rows_indexTokenTransferExecuted_congr (handlers : MovedHandlers) (moved : BitmapMoved) :
    (RouteState.indexTokenTransferExecuted handlers moved state).rows =
      (RouteState.indexTokenTransferExecuted handlers moved state').rows := by
  unfold RouteState.indexTokenTransferExecuted
  dsimp only
  rw [text_congr hrows, hrows]
  split
  · exact hrows
  split
  · exact rows_tapDel_congr (rows_tapPut_congr (rows_writeAll_congr hrows _) _ _) _
  · exact hrows

theorem rows_indexPrivilegeVerifyTransferred_congr (handlers : MovedHandlers) :
    (RouteState.indexPrivilegeVerifyTransferred handlers state).rows =
      (RouteState.indexPrivilegeVerifyTransferred handlers state').rows := by
  unfold RouteState.indexPrivilegeVerifyTransferred
  rw [hrows]
  exact rows_writeAll_congr hrows _

theorem rows_tapExecuteAccumulator_congr (env : TapEnv) (handlers : MovedHandlers) (moved : BitmapMoved) :
    (RouteState.tapExecuteAccumulatorForInscription env handlers moved state).rows =
      (RouteState.tapExecuteAccumulatorForInscription env handlers moved state').rows := by
  unfold RouteState.tapExecuteAccumulatorForInscription
  dsimp only
  rw [hrows]
  split
  · exact hrows
  split
  · exact rows_tapDel_congr hrows _
  split
  · exact rows_tapDel_congr (rows_writeAll_congr hrows _) _
  · exact rows_tapDel_congr (rows_tapDel_congr hrows _) _

end SameRows

end RouteState

end OrdDogecoin.Tap
