/-
Module: OrdDogecoin.Tap.RouteChanges
Purpose: What the handlers of new and of moved inscriptions do to the rows and to the route of their
  inscription.  A creation ends with the route that its rows have; an operation that was kept and a link
  that was used leave no route.
Trusted boundary: none
Main exports: RoutedBy, changedAt_accumulator, changedAt_transferLink
-/
import OrdDogecoin.Tap.RouteFamilies

namespace OrdDogecoin.Tap

open Chain AtomicBatch

/-! ### Routes by the rows -/

/-- No row gives the inscription a route, but that of a kept operation may. -/
structure NoOther (rows : KeyTable Text RouteRow) (id : InscriptionId) : Prop where
  kind : rows.lookup (kindKey id) = none
  bmh : rows.lookup (bmhKey id) = none
  dmtmh : rows.lookup (dmtmhKey id) = none
  prvins : rows.lookup (prvinsKey id) = none
  link : ∀ row, rows.lookup (tlKey id) = some row → row = .text []

inductive RoutedBy (rows : KeyTable Text RouteRow) (id : InscriptionId) : Option TapRoute → Prop
  | idle (noOther : NoOther rows id) (hacc : rows.lookup (accKey id) = none) : RoutedBy rows id none
  | accumulator (noOther : NoOther rows id) (acc : TapAccumulatorEntry)
      (hacc : rows.lookup (accKey id) = some (.accumulator acc)) : RoutedBy rows id (some .accumulator)
  | bitmap (number : ℕ) (hnumber : number < 2 ^ 64)
      (hkind : rows.lookup (kindKey id) = some (.text "bm".toList))
      (hbmh : rows.lookup (bmhKey id) = some (.text (bmKey number))) :
      RoutedBy rows id (some (.bitmap (some number)))
  | dmtMint (hkind : rows.lookup (kindKey id) = some (.text "dmtmh".toList)) :
      RoutedBy rows id (some .dmtMint)
  | privilege (hkind : rows.lookup (kindKey id) = some (.text "prvins".toList)) :
      RoutedBy rows id (some .privilege)
  | transferLink (link : Text) (hlink : link ≠ [])
      (hkind : rows.lookup (kindKey id) = some (.text "tl".toList))
      (htl : rows.lookup (tlKey id) = some (.text link))
      (hbmh : rows.lookup (bmhKey id) = none) (hdmtmh : rows.lookup (dmtmhKey id) = none)
      (hprvins : rows.lookup (prvinsKey id) = none) (hacc : rows.lookup (accKey id) = none) :
      RoutedBy rows id (some .transferLink)

/-- The keys whose rows decide the route, but that of a kept operation. -/
def otherKeys (id : InscriptionId) : List Text :=
  [kindKey id, bmhKey id, dmtmhKey id, prvinsKey id, tlKey id]

/-- The keys whose rows decide the route. -/
def routeKeys (id : InscriptionId) : List Text := accKey id :: otherKeys id

theorem NoOther.congr {rows rows' : KeyTable Text RouteRow} {id : InscriptionId}
    (hsame : ∀ key ∈ otherKeys id, rows'.lookup key = rows.lookup key) (noOther : NoOther rows id) :
    NoOther rows' id where
  kind := (hsame _ (by simp [otherKeys])).trans noOther.kind
  bmh := (hsame _ (by simp [otherKeys])).trans noOther.bmh
  dmtmh := (hsame _ (by simp [otherKeys])).trans noOther.dmtmh
  prvins := (hsame _ (by simp [otherKeys])).trans noOther.prvins
  link row hrow := noOther.link row ((hsame _ (by simp [otherKeys])).symm.trans hrow)

/-- The route depends on these rows only. -/
theorem RoutedBy.congr {rows rows' : KeyTable Text RouteRow} {id : InscriptionId} {route : Option TapRoute}
    (hsame : ∀ key ∈ routeKeys id, rows'.lookup key = rows.lookup key) (routed : RoutedBy rows id route) :
    RoutedBy rows' id route := by
  have hkey : ∀ {key row}, rows.lookup key = row → key ∈ routeKeys id → rows'.lookup key = row :=
    fun hrow hmem => (hsame _ hmem).trans hrow
  have hother : ∀ key ∈ otherKeys id, rows'.lookup key = rows.lookup key :=
    fun key hmem => hsame key (List.mem_cons_of_mem _ hmem)
  cases routed with
  | idle noOther hacc => exact .idle (noOther.congr hother) (hkey hacc (by simp [routeKeys, otherKeys]))
  | accumulator noOther acc hacc =>
      exact .accumulator (noOther.congr hother) acc (hkey hacc (by simp [routeKeys, otherKeys]))
  | bitmap number hnumber hkind hbmh =>
      exact .bitmap number hnumber (hkey hkind (by simp [routeKeys, otherKeys]))
        (hkey hbmh (by simp [routeKeys, otherKeys]))
  | dmtMint hkind => exact .dmtMint (hkey hkind (by simp [routeKeys, otherKeys]))
  | privilege hkind => exact .privilege (hkey hkind (by simp [routeKeys, otherKeys]))
  | transferLink link hlink hkind htl hbmh hdmtmh hprvins hacc =>
      exact .transferLink link hlink (hkey hkind (by simp [routeKeys, otherKeys]))
        (hkey htl (by simp [routeKeys, otherKeys])) (hkey hbmh (by simp [routeKeys, otherKeys]))
        (hkey hdmtmh (by simp [routeKeys, otherKeys])) (hkey hprvins (by simp [routeKeys, otherKeys]))
        (hkey hacc (by simp [routeKeys, otherKeys]))

/-- Without rows there is no route. -/
theorem RoutedBy.none_of_fresh {rows : KeyTable Text RouteRow} {id : InscriptionId} {route : Option TapRoute}
    (routed : RoutedBy rows id route) (fresh : ∀ key ∈ idKeys id, rows.lookup key = none) : route = none := by
  have hnone : ∀ {key row}, key ∈ idKeys id → rows.lookup key ≠ some row := fun hkey hrow => by
    rw [fresh _ hkey] at hrow
    cases hrow
  cases routed with
  | idle noOther hacc => rfl
  | accumulator noOther acc hacc => exact absurd hacc (hnone (by simp [idKeys]))
  | bitmap number hnumber hkind hbmh => exact absurd hkind (hnone (by simp [idKeys]))
  | dmtMint hkind => exact absurd hkind (hnone (by simp [idKeys]))
  | privilege hkind => exact absurd hkind (hnone (by simp [idKeys]))
  | transferLink link hlink hkind htl hbmh hdmtmh hprvins hacc =>
      exact absurd hkind (hnone (by simp [idKeys]))

theorem routeKeys_subset (id : InscriptionId) : routeKeys id ⊆ idKeys id := by
  intro key hkey
  simp only [routeKeys, otherKeys, List.mem_cons, List.not_mem_nil, or_false] at hkey
  rcases hkey with rfl | rfl | rfl | rfl | rfl | rfl <;> simp [idKeys]

namespace RouteState

variable {id : InscriptionId} {before state after : RouteState}

/-! ### Written rows -/

theorem lookup_tapPut (state : RouteState) (key : Text) (row : RouteRow) :
    (state.tapPut key row).rows.lookup key = some row := AList.lookup_insert _

theorem lookup_tapPut_ne {key other : Text} (hne : other ≠ key) (row : RouteRow) :
    (state.tapPut key row).rows.lookup other = state.rows.lookup other := AList.lookup_insert_ne hne

theorem lookup_tapDel (state : RouteState) (key : Text) : (state.tapDel key).rows.lookup key = none :=
  AList.lookup_erase _ _

theorem lookup_tapDel_ne {key other : Text} (hne : other ≠ key) :
    (state.tapDel key).rows.lookup other = state.rows.lookup other := AList.lookup_erase_ne hne

/-! ### Routes by the index -/

/-- The index of routes, when there is one, has this route. -/
def RouteIs (state : RouteState) (id : InscriptionId) (route : Option TapRoute) : Prop :=
  ∀ index, state.routeIndex = some index → index.routes.lookup id = route

namespace RouteIs

variable {route : Option TapRoute}

theorem sameRoutes (routeIs : state.RouteIs id route) (same : SameRoutes state after) :
    after.RouteIs id route := by
  unfold RouteIs
  rw [same.routeIndex]
  exact routeIs

theorem tapPut (routeIs : state.RouteIs id route) {key : Text} {row : RouteRow} {next : Option TapRoute}
    (hobserve : ∀ index : TapRouteIndex, index.routes.lookup id = route →
      (index.observePut key row.asText).routes.lookup id = next) :
    (state.tapPut key row).RouteIs id next := by
  intro index hindex
  obtain ⟨old, hold, rfl⟩ := Option.map_eq_some_iff.1 hindex
  exact hobserve old (routeIs old hold)

theorem tapPut_inserted (routeIs : state.RouteIs id route) {key : Text} {row : RouteRow}
    {inserted : TapRoute}
    (hobserve : ∀ index : TapRouteIndex,
      index.observePut key row.asText = index.insertRoute id inserted) :
    (state.tapPut key row).RouteIs id (some (TapRouteIndex.insertedRoute route inserted)) := by
  apply routeIs.tapPut
  intro index hroute
  rw [hobserve, TapRouteIndex.lookup_insertRoute, hroute]

theorem tapPut_same (routeIs : state.RouteIs id route) {key : Text} {row : RouteRow}
    (hobserve : ∀ index : TapRouteIndex, index.observePut key row.asText = index) :
    (state.tapPut key row).RouteIs id route := by
  apply routeIs.tapPut
  intro index hroute
  rw [hobserve, hroute]

/-- A stored kind inserts its route. -/
theorem tapPut_kind (routeIs : state.RouteIs id route) (valid : ValidId id) {kind : Text}
    {inserted : TapRoute} (hkind : routeOfKind kind = some inserted) :
    (state.tapPut (kindKey id) (.text kind)).RouteIs id
      (some (TapRouteIndex.insertedRoute route inserted)) := by
  apply routeIs.tapPut_inserted
  intro index
  rw [TapRouteIndex.observePut_kindKey valid]
  simp only [TapRouteIndex.observeKind, RouteRow.asText, Option.bind_some, hkind,
    TapRouteIndex.insertAt]

theorem tapDel (routeIs : state.RouteIs id route) {key : Text} {next : Option TapRoute}
    (hobserve : ∀ index : TapRouteIndex, index.routes.lookup id = route →
      (index.observeDel key).routes.lookup id = next) : (state.tapDel key).RouteIs id next := by
  intro index hindex
  obtain ⟨old, hold, rfl⟩ := Option.map_eq_some_iff.1 hindex
  exact hobserve old (routeIs old hold)

end RouteIs

/-! ### Changes at an inscription -/

/-- The mapping of a block that had no record and has one now. -/
def NewClaim (before after : RouteState) (row : RouteRow) : Prop :=
  ∃ number record, number < 2 ^ 64 ∧ row = .text (bmKey number) ∧
    after.rows.lookup (bmKey number) = some (.bitmap record) ∧
    ∀ record, before.rows.lookup (bmKey number) ≠ some (.bitmap record)

/-- The keys of the rows behind the caches. -/
def cachedKeys (id : InscriptionId) : List Text := [bmhKey id, dmtmhmKey id, dmtmhoKey id]

theorem cachedKeys_subset (id : InscriptionId) : cachedKeys id ⊆ idKeys id := by
  intro key hkey
  simp only [cachedKeys, List.mem_cons, List.not_mem_nil, or_false] at hkey
  rcases hkey with rfl | rfl | rfl <;> simp [idKeys]

theorem ne_accKey {key : Text} (hkey : key ∈ otherKeys id ++ cachedKeys id) : key ≠ accKey id := by
  simp only [otherKeys, cachedKeys, List.cons_append, List.nil_append, List.mem_cons, List.not_mem_nil,
    or_false] at hkey
  rcases hkey with rfl | rfl | rfl | rfl | rfl | rfl | rfl | rfl <;>
    exact ne_of_beq_false rfl

/-- The rows of one inscription change, and it has the route that they give it. -/
structure ChangedAt (id : InscriptionId) (before after : RouteState) : Prop where
  only : OnlyAt id before after
  kept : ∀ key ∈ cachedKeys id, before.rows.lookup key ≠ none →
    after.rows.lookup key = before.rows.lookup key
  claim : ∀ row, after.rows.lookup (bmhKey id) = some row →
    before.rows.lookup (bmhKey id) = some row ∨ NewClaim before after row
  routed : ∃ route, after.RouteIs id route ∧ RoutedBy after.rows id route

theorem ChangedAt.sameRoutes (changed : ChangedAt id before state) (same : SameRoutes state after) :
    ChangedAt id before after where
  only := changed.only.sameRoutes same
  kept key hkey hrow :=
    (same.rows key (routed_of_mem_idKeys (cachedKeys_subset id hkey))).trans (changed.kept key hkey hrow)
  claim row hrow := by
    rcases changed.claim row ((same.rows _ rfl).symm.trans hrow) with hold | hnew
    · exact .inl hold
    · obtain ⟨number, record, hnumber, htext, hrecord, hfree⟩ := hnew
      exact .inr ⟨number, record, hnumber, htext, (same.rows _ rfl).trans hrecord, hfree⟩
  routed := by
    obtain ⟨route, routeIs, routed⟩ := changed.routed
    exact ⟨route, routeIs.sameRoutes same, routed.congr fun key hkey =>
      same.rows key (routed_of_mem_idKeys (routeKeys_subset id hkey))⟩

/-- Only a kept operation may give the inscription a route. -/
structure Waiting (id : InscriptionId) (before state : RouteState) : Prop where
  only : OnlyAt id before state
  kept : ∀ key ∈ cachedKeys id, before.rows.lookup key ≠ none →
    state.rows.lookup key = before.rows.lookup key
  noOther : NoOther state.rows id
  waiting : (state.rows.lookup (accKey id) = none ∧ state.RouteIs id none) ∨
    ∃ acc, state.rows.lookup (accKey id) = some (.accumulator acc) ∧ state.RouteIs id (some .accumulator)

namespace Waiting

theorem changed (waits : Waiting id before state) : ChangedAt id before state where
  only := waits.only
  kept := waits.kept
  claim row hrow := by
    rw [waits.noOther.bmh] at hrow
    cases hrow
  routed := by
    rcases waits.waiting with ⟨hacc, routeIs⟩ | ⟨acc, hacc, routeIs⟩
    · exact ⟨none, routeIs, .idle waits.noOther hacc⟩
    · exact ⟨_, routeIs, .accumulator waits.noOther acc hacc⟩

theorem sameRoutes (waits : Waiting id before state) (same : SameRoutes state after) :
    Waiting id before after where
  only := waits.only.sameRoutes same
  kept key hkey hrow :=
    (same.rows key (routed_of_mem_idKeys (cachedKeys_subset id hkey))).trans (waits.kept key hkey hrow)
  noOther := waits.noOther.congr fun key hkey =>
    same.rows key (routed_of_mem_idKeys (routeKeys_subset id (List.mem_cons_of_mem _ hkey)))
  waiting := by
    rw [same.rows (accKey id) rfl]
    rcases waits.waiting with ⟨hacc, routeIs⟩ | ⟨acc, hacc, routeIs⟩
    · exact .inl ⟨hacc, routeIs.sameRoutes same⟩
    · exact .inr ⟨acc, hacc, routeIs.sameRoutes same⟩

/-- The rows of an inscription without any. -/
theorem of_fresh {state : RouteState} (fresh : ∀ key ∈ idKeys id, state.rows.lookup key = none)
    (routeIs : state.RouteIs id none) : Waiting id state state where
  only := .refl id state
  kept _ _ _ := rfl
  noOther :=
    { kind := fresh _ (by simp [idKeys])
      bmh := fresh _ (by simp [idKeys])
      dmtmh := fresh _ (by simp [idKeys])
      prvins := fresh _ (by simp [idKeys])
      link := fun row hrow => by
        rw [fresh _ (by simp [idKeys])] at hrow
        cases hrow }
  waiting := .inl ⟨fresh _ (by simp [idKeys]), routeIs⟩

/-- The row of a kept operation. -/
theorem tapPut_acc (waits : Waiting id before state) (valid : ValidId id) (acc : TapAccumulatorEntry) :
    Waiting id before (state.tapPut (accKey id) (.accumulator acc)) where
  only := waits.only.tapPut valid (by simp [idKeys]) _
  kept key hkey hrow := by
    rw [lookup_tapPut_ne (ne_accKey (List.mem_append_right _ hkey)), waits.kept key hkey hrow]
  noOther := waits.noOther.congr fun key hkey =>
    lookup_tapPut_ne (ne_accKey (List.mem_append_left _ hkey)) _
  waiting := by
    refine .inr ⟨acc, lookup_tapPut _ _ _, ?_⟩
    rcases waits.waiting with ⟨-, routeIs⟩ | ⟨_, -, routeIs⟩
    · exact routeIs.tapPut_inserted fun index => TapRouteIndex.observePut_accKey valid _
    · exact routeIs.tapPut_inserted fun index => TapRouteIndex.observePut_accKey valid _

/-- Without its row, a kept operation gives no route. -/
theorem tapDel_acc (waits : Waiting id before state) (valid : ValidId id) :
    Waiting id before (state.tapDel (accKey id)) where
  only := waits.only.tapDel (by simp [idKeys]) fun index => by
    rw [TapRouteIndex.observeDel_accKey valid]
    exact TapRouteIndex.onlyAt_removeRouteIf _
  kept key hkey hrow := by
    rw [lookup_tapDel_ne (ne_accKey (List.mem_append_right _ hkey)), waits.kept key hkey hrow]
  noOther := waits.noOther.congr fun key hkey =>
    lookup_tapDel_ne (ne_accKey (List.mem_append_left _ hkey))
  waiting := by
    refine .inl ⟨lookup_tapDel _ _, ?_⟩
    rcases waits.waiting with ⟨-, routeIs⟩ | ⟨_, -, routeIs⟩
    · apply routeIs.tapDel
      intro index hroute
      rw [TapRouteIndex.observeDel_accKey valid, TapRouteIndex.removeRouteIf,
        if_neg (by rw [hroute]; exact Option.some_ne_none _ ∘ Eq.symm), hroute]
    · apply routeIs.tapDel
      intro index hroute
      rw [TapRouteIndex.observeDel_accKey valid, TapRouteIndex.lookup_removeRouteIf hroute]

/-- Any other route takes the place of that of a kept operation. -/
theorem route (waits : Waiting id before state) :
    ∃ route, state.RouteIs id route ∧ ∀ inserted, TapRouteIndex.insertedRoute route inserted = inserted := by
  rcases waits.waiting with ⟨-, routeIs⟩ | ⟨_, -, routeIs⟩
  · exact ⟨none, routeIs, fun _ => rfl⟩
  · refine ⟨some .accumulator, routeIs, fun inserted => ?_⟩
    cases inserted <;> rfl

end Waiting

/-! ### New inscriptions -/

/-- Up to rows of other families, the records of a mint are its holder record, -/
theorem recordHolder_same (env : TapEnv) (context : TapContext) (timestamp : ℕ) (created : BitmapCreated)
    (minted : DmtMinted) (state : RouteState) : ∃ holder,
    SameRoutes (state.tapPut (dmtmhKey created.inscriptionId) holder)
      (recordHolder env context timestamp created minted state) := by
  unfold recordHolder
  dsimp only
  generalize holderJson _ _ _ _ _ _ _ _ _ _ _ _ _ _ _ = holder
  refine ⟨.json holder, SameRoutes.tapPut ?_ rfl (.inl rfl)⟩
  apply SameRoutes.listHolder
  apply SameRoutes.beginHistory
  exact (SameRoutes.refl _).tapPut rfl (.inl rfl)

/-- and the rows of its owner. -/
theorem recordMeta_same (env : TapEnv) (created : BitmapCreated) (minted : DmtMinted) (state : RouteState) :
    ∃ record,
    SameRoutes
      (((state.tapPut (dmtmhmKey created.inscriptionId) record).tapPut
          (dmtmhoKey created.inscriptionId) (.text created.ownerAddress)).tapPut
        (kindKey created.inscriptionId) (.text "dmtmh".toList))
      (recordMeta env created minted state) := by
  unfold recordMeta
  dsimp only
  generalize RouteRow.dmtMeta _ = record
  refine ⟨record, ?_⟩
  split
  · exact .refl _
  · exact ((SameRoutes.refl _).appendRow rfl (fun _ => rfl) _).tapPut rfl (.inl rfl)

section Created

variable {env : TapEnv} {context : TapContext} {timestamp : ℕ} {created : BitmapCreated}
  (valid : ValidId created.inscriptionId)
  (fresh : ∀ key ∈ cachedKeys created.inscriptionId, before.rows.lookup key = none)
  (waits : Waiting created.inscriptionId before state)

include valid fresh waits

/-- A claimed block. -/
theorem changedAt_indexBitmapCreated {number : ℕ}
    (hclaimed : claimedNumber context created state = some number) :
    ChangedAt created.inscriptionId before (indexBitmapCreated context timestamp created state) := by
  have hsmall : number < 2 ^ 64 := by
    unfold claimedNumber at hclaimed
    split at hclaimed
    · cases hclaimed
    obtain ⟨body, hbody⟩ := Proc.of_bind hclaimed
    have := (dogemapNumber_spec (Option.filter_eq_some_iff.1 hbody).1).2.1
    omega
  have hfree : ∀ record, state.rows.lookup (bmKey number) ≠ some (.bitmap record) := by
    intro record hrecord
    unfold claimedNumber at hclaimed
    split at hclaimed
    · cases hclaimed
    obtain ⟨body, hbody⟩ := Proc.of_bind hclaimed
    have hnone := (Option.filter_eq_some_iff.1 hbody).2
    rw [hrecord] at hnone
    cases hnone
  obtain ⟨route, routeIs, hinserted⟩ := waits.route
  unfold indexBitmapCreated
  rw [hclaimed]
  dsimp only
  generalize createdRecord _ created number = record
  set first := state.tapPut (bmKey number) (.bitmap record) with hfirst
  set second := first.tapPut (bmhKey created.inscriptionId) (.text (bmKey number)) with hsecond
  have same : SameRoutes second ((second.listRecord context number created.satpoint.outpoint.txid
      record).appendRow (bmlKey created.ownerAddress) (bmliKey created.ownerAddress)
        (.text (inscriptionText created.inscriptionId))) :=
    ((SameRoutes.refl second).listRecord context number _ record).appendRow rfl (fun _ => rfl) _
  revert same
  generalize (second.listRecord context number created.satpoint.outpoint.txid record).appendRow _ _ _ = listed
  intro same
  have only : OnlyAt created.inscriptionId before second :=
    (waits.only.tapPutBitmap hfree _).tapPut valid (by simp [idKeys]) _
  have secondIs : second.RouteIs created.inscriptionId (some (.bitmap (some number))) := by
    have firstIs : first.RouteIs created.inscriptionId route :=
      routeIs.tapPut_same fun index => TapRouteIndex.observePut_bmKey number _
    have hread : (RouteRow.asText (.text (bmKey number))).bind bitmapBlockFromMapping = some number :=
      bitmapBlockFromMapping_bmKey hsmall
    have hput : second.RouteIs created.inscriptionId (some (TapRouteIndex.insertedRoute route
        (.bitmap ((RouteRow.asText (.text (bmKey number))).bind bitmapBlockFromMapping)))) :=
      firstIs.tapPut_inserted fun index => TapRouteIndex.observePut_bmhKey valid _
    rw [hread, hinserted] at hput
    exact hput
  have hbmh : second.rows.lookup (bmhKey created.inscriptionId) = some (.text (bmKey number)) :=
    lookup_tapPut _ _ _
  have hneBmh : bmKey number ≠ bmhKey created.inscriptionId := ne_of_beq_false rfl
  have hbm : second.rows.lookup (bmKey number) = some (.bitmap record) :=
    (lookup_tapPut_ne hneBmh _).trans (lookup_tapPut _ _ _)
  have hlast : (listed.tapPut (kindKey created.inscriptionId) (.text "bm".toList)).rows.lookup
      (bmhKey created.inscriptionId) = some (.text (bmKey number)) := by
    have hne : bmhKey created.inscriptionId ≠ kindKey created.inscriptionId := ne_of_beq_false rfl
    rw [lookup_tapPut_ne hne, same.rows _ rfl, hbmh]
  have hlastBm : (listed.tapPut (kindKey created.inscriptionId) (.text "bm".toList)).rows.lookup
      (bmKey number) = some (.bitmap record) := by
    have hne : bmKey number ≠ kindKey created.inscriptionId := ne_of_beq_false rfl
    rw [lookup_tapPut_ne hne, same.rows _ rfl, hbm]
  refine ⟨(only.sameRoutes same).tapPut valid (by simp [idKeys]) _, ?_, ?_, ?_⟩
  · exact fun key hkey hne => absurd (fresh key hkey) hne
  · intro row hrow
    rw [hlast] at hrow
    cases hrow
    exact .inr ⟨number, record, hsmall, rfl, hlastBm, fun other hother =>
      hfree other (waits.only.bitmaps number other hother)⟩
  · exact ⟨_, (secondIs.sameRoutes same).tapPut_kind valid rfl,
      .bitmap number hsmall (lookup_tapPut _ _ _) hlast⟩

/-- A mint, whose owner has an address unless it fails. -/
theorem changedAt_recordDmtMint {minted : DmtMinted}
    (hmint : minted.fail = false → trimJsWhitespace created.ownerAddress ≠ "-".toList) :
    ChangedAt created.inscriptionId before
      (recordDmtMint env context timestamp created minted state) := by
  unfold recordDmtMint
  dsimp only
  replace waits := waits.sameRoutes ((SameRoutes.refl state).writeAll minted.before)
  generalize state.writeAll minted.before = state at waits
  cases hfail : minted.fail with
  | true =>
      rw [if_pos rfl, if_pos (Bool.or_true _)]
      exact (waits.sameRoutes ((SameRoutes.refl state).writeAll minted.after)).changed
  | false =>
      have howner : decide (trimJsWhitespace created.ownerAddress = "-".toList) = false :=
        decide_eq_false (hmint hfail)
      rw [howner]
      simp only [Bool.or_false, Bool.false_eq_true, if_false]
      obtain ⟨holder, sameHolder⟩ := recordHolder_same env context timestamp created minted state
      generalize recordHolder env context timestamp created minted state = held at sameHolder
      obtain ⟨record, sameMeta⟩ := recordMeta_same env created minted held
      generalize recordMeta env created minted held = owned at sameMeta
      have same := sameMeta.writeAll minted.after
      obtain ⟨route, routeIs, hinserted⟩ := waits.route
      set id := created.inscriptionId with hid
      have heldIs : held.RouteIs id route :=
        (routeIs.tapPut_same fun index => TapRouteIndex.observePut_dmtmhKey id _).sameRoutes sameHolder
      have metaIs : (held.tapPut (dmtmhmKey id) record).RouteIs id (some .dmtMint) := by
        have hput := heldIs.tapPut_inserted fun index =>
          TapRouteIndex.observePut_dmtmhmKey valid record.asText
        rw [hinserted] at hput
        exact hput
      have ownerIs : ((held.tapPut (dmtmhmKey id) record).tapPut (dmtmhoKey id)
          (.text created.ownerAddress)).RouteIs id (some .dmtMint) :=
        metaIs.tapPut_inserted fun index => TapRouteIndex.observePut_dmtmhoKey valid _
      have hbmh : (owned.writeAll minted.after).rows.lookup (bmhKey id) = none := by
        rw [same.rows _ rfl, lookup_tapPut_ne (ne_of_beq_false rfl : bmhKey id ≠ kindKey id),
          lookup_tapPut_ne (ne_of_beq_false rfl : bmhKey id ≠ dmtmhoKey id),
          lookup_tapPut_ne (ne_of_beq_false rfl : bmhKey id ≠ dmtmhmKey id), sameHolder.rows _ rfl,
          lookup_tapPut_ne (ne_of_beq_false rfl : bmhKey id ≠ dmtmhKey id), waits.noOther.bmh]
      have hkind : (owned.writeAll minted.after).rows.lookup (kindKey id) =
          some (.text "dmtmh".toList) := (same.rows _ rfl).trans (lookup_tapPut _ _ _)
      refine ⟨?_, fun key hkey hne => absurd (fresh key hkey) hne, ?_, ?_⟩
      · apply OnlyAt.sameRoutes _ same
        apply OnlyAt.tapPut _ valid (by simp [idKeys])
        apply OnlyAt.tapPut _ valid (by simp [idKeys])
        apply OnlyAt.tapPut _ valid (by simp [idKeys])
        exact (waits.only.tapPut valid (by simp [idKeys]) _).sameRoutes sameHolder
      · intro row hrow
        rw [hbmh] at hrow
        cases hrow
      · exact ⟨_, (ownerIs.tapPut_kind valid (rfl : routeOfKind "dmtmh".toList = some .dmtMint)).sameRoutes same,
          .dmtMint hkind⟩

theorem changedAt_link (hacc : state.rows.lookup (accKey created.inscriptionId) = none) {link : Text}
    (hlink : link ≠ []) :
    ChangedAt created.inscriptionId before ((state.tapPut (tlKey created.inscriptionId) (.text link)).tapPut
      (kindKey created.inscriptionId) (.text "tl".toList)) := by
  obtain ⟨route, routeIs, hinserted⟩ := waits.route
  set id := created.inscriptionId with hid
  have linkIs : (state.tapPut (tlKey id) (.text link)).RouteIs id (some .transferLink) := by
    have hput : (state.tapPut (tlKey id) (.text link)).RouteIs id
        (some (TapRouteIndex.insertedRoute route .transferLink)) := by
      apply routeIs.tapPut_inserted
      intro index
      rw [TapRouteIndex.observePut_tlKey valid]
      simp [TapRouteIndex.observeLink, RouteRow.asText, hlink]
    rw [hinserted] at hput
    exact hput
  have hrow : ∀ key ∈ routeKeys id, key ≠ kindKey id → key ≠ tlKey id →
      ((state.tapPut (tlKey id) (.text link)).tapPut (kindKey id) (.text "tl".toList)).rows.lookup key =
        state.rows.lookup key := fun key _ hkind htl =>
    (lookup_tapPut_ne hkind _).trans (lookup_tapPut_ne htl _)
  have hbmh := (hrow (bmhKey id) (by simp [routeKeys, otherKeys]) (ne_of_beq_false rfl)
    (ne_of_beq_false rfl)).trans waits.noOther.bmh
  refine ⟨(waits.only.tapPut valid (by simp [idKeys]) _).tapPut valid (by simp [idKeys]) _,
    fun key hkey hne => absurd (fresh key hkey) hne, ?_, ?_⟩
  · intro row hclaim
    rw [hbmh] at hclaim
    cases hclaim
  · refine ⟨_, linkIs.tapPut_kind valid (rfl : routeOfKind "tl".toList = some .transferLink),
      .transferLink link hlink (lookup_tapPut _ _ _) ?_ hbmh ?_ ?_ ?_⟩
    · rw [lookup_tapPut_ne (ne_of_beq_false rfl : tlKey id ≠ kindKey id), lookup_tapPut]
    · rw [hrow (dmtmhKey id) (by simp [routeKeys, otherKeys]) (ne_of_beq_false rfl)
        (ne_of_beq_false rfl), waits.noOther.dmtmh]
    · rw [hrow (prvinsKey id) (by simp [routeKeys, otherKeys]) (ne_of_beq_false rfl)
        (ne_of_beq_false rfl), waits.noOther.prvins]
    · rw [hrow (accKey id) (by simp [routeKeys, otherKeys]) (ne_of_beq_false rfl)
        (ne_of_beq_false rfl), hacc]

/-- A verified item, also after its operation was kept. -/
theorem changedAt_privilege {path : Text} (hslash : '/' ∈ path) (first second : RouteRow) :
    ChangedAt created.inscriptionId before (((state.tapPut ("prvins/".toList ++ path) first).tapPut
      (prvinsKey created.inscriptionId) second).tapPut
        (kindKey created.inscriptionId) (.text "prvins".toList)) := by
  obtain ⟨route, routeIs, hinserted⟩ := waits.route
  set id := created.inscriptionId with hid
  have linkIs : ((state.tapPut ("prvins/".toList ++ path) first).tapPut (prvinsKey id) second).RouteIs id
      (some .privilege) := by
    have pathIs : (state.tapPut ("prvins/".toList ++ path) first).RouteIs id route :=
      routeIs.tapPut_same fun index => TapRouteIndex.observePut_path hslash _
    have hput := pathIs.tapPut_inserted fun index => TapRouteIndex.observePut_prvinsKey valid second.asText
    rw [hinserted] at hput
    exact hput
  refine ⟨?_, fun key hkey hne => absurd (fresh key hkey) hne, ?_, ?_⟩
  · apply OnlyAt.tapPut _ valid (by simp [idKeys])
    apply OnlyAt.tapPut _ valid (by simp [idKeys])
    exact waits.only.tapPutPath hslash first
  · intro row hclaim
    rw [lookup_tapPut_ne (ne_of_beq_false rfl : bmhKey id ≠ kindKey id),
      lookup_tapPut_ne (ne_of_beq_false rfl : bmhKey id ≠ prvinsKey id),
      lookup_tapPut_ne (ne_of_beq_false rfl : bmhKey id ≠ "prvins/".toList ++ path), waits.noOther.bmh] at hclaim
    cases hclaim
  · exact ⟨_, linkIs.tapPut_kind valid (rfl : routeOfKind "prvins".toList = some .privilege),
      .privilege (lookup_tapPut _ _ _)⟩

end Created

section Dispatch

variable {env : TapEnv} {context : TapContext} {timestamp : ℕ} {created : BitmapCreated}
  {outcome : CreatedOutcome}

theorem ifOperation_of_ne {α : Type} {op : String} (hop : tapOperation env context created ≠ some op.toList)
    (value : Option α) : ifOperation env context op created value = none := by
  rw [ifOperation, if_neg hop]

theorem ifOperation_eq_some {α : Type} {op : String} {value : Option α} {result : α}
    (hvalue : ifOperation env context op created value = some result) :
    tapOperation env context created = some op.toList ∧ value = some result := by
  unfold ifOperation at hvalue
  split at hvalue
  next hop => exact ⟨hop, hvalue⟩
  next => cases hvalue

/-- The handlers that keep an operation leave a new inscription waiting. -/
theorem Waiting.accumulators (waits : Waiting created.inscriptionId before state)
    (valid : ValidId created.inscriptionId) (env : TapEnv) (context : TapContext)
    (outcome : CreatedOutcome) (ops : List AccumulatedOp) :
    Waiting created.inscriptionId before
      (ops.foldl (indexAccumulatorCreated env context created outcome) state) := by
  induction ops generalizing state with
  | nil => exact waits
  | cons op ops ih =>
      apply ih
      unfold indexAccumulatorCreated
      split
      · exact waits
      · exact waits.tapPut_acc valid _

theorem accumulators_of_ne (hop : ∀ op : AccumulatedOp,
      tapOperation env context created ≠ some op.name.toList) (ops : List AccumulatedOp) :
    ops.foldl (indexAccumulatorCreated env context created outcome) state = state := by
  induction ops generalizing state with
  | nil => rfl
  | cons op ops ih =>
      rw [List.foldl_cons, ih, indexAccumulatorCreated, ifOperation_of_ne (hop op)]

/-- A claim is no document. -/
theorem tapOperation_of_claimed
    (hparse : ∀ height body number, dogemapNumber height body = some number → env.parse body = none)
    {number : ℕ} (hclaimed : claimedNumber context created state = some number) :
    tapOperation env context created = none := by
  unfold claimedNumber at hclaimed
  split at hclaimed
  · cases hclaimed
  obtain ⟨body, hbody, hnumber⟩ := Option.bind_eq_some_iff.1 hclaimed
  have hnone := hparse _ _ _ (Option.filter_eq_some_iff.1 hnumber).1
  unfold tapOperation parseTapJsonValue
  rw [hbody]
  simp [hnone]

/-- The handlers of the operation that a new inscription names. -/
theorem changedAt_operations (valid : ValidId created.inscriptionId)
    (fresh : ∀ key ∈ cachedKeys created.inscriptionId, before.rows.lookup key = none)
    (hmint : ∀ minted, outcome.minted = some minted → minted.fail = false →
      trimJsWhitespace created.ownerAddress ≠ "-".toList)
    (waits : Waiting created.inscriptionId before state)
    (hacc : state.rows.lookup (accKey created.inscriptionId) = none) (ops : List AccumulatedOp) :
    ChangedAt created.inscriptionId before
      (indexPrivilegeVerifyCreated env context created outcome
        (ops.foldl (indexAccumulatorCreated env context created outcome)
          (indexTokenTransferCreated env context created outcome
            (indexDmtMint env context timestamp created outcome state)))) := by
  by_cases hmintOp : tapOperation env context created = some "dmt-mint".toList
  · rw [indexPrivilegeVerifyCreated, ifOperation_of_ne (by rw [hmintOp]; decide),
      accumulators_of_ne (fun op => by rw [hmintOp]; cases op <;> decide), indexTokenTransferCreated,
      ifOperation_of_ne (by rw [hmintOp]; decide)]
    dsimp only
    unfold indexDmtMint
    split
    next => exact waits.changed
    next minted hminted =>
      exact changedAt_recordDmtMint valid fresh waits (hmint minted (ifOperation_eq_some hminted).2)
  rw [indexDmtMint, ifOperation_of_ne hmintOp]
  dsimp only
  by_cases hlinkOp : tapOperation env context created = some "token-transfer".toList
  · rw [indexPrivilegeVerifyCreated, ifOperation_of_ne (by rw [hlinkOp]; decide),
      accumulators_of_ne (fun op => by rw [hlinkOp]; cases op <;> decide)]
    dsimp only
    unfold indexTokenTransferCreated
    split
    next => exact waits.changed
    next owner tickKey position hlinked =>
      exact changedAt_link valid fresh waits hacc (ne_of_beq_false rfl)
  rw [indexTokenTransferCreated, ifOperation_of_ne hlinkOp]
  dsimp only
  have kept := waits.accumulators valid env context outcome ops
  unfold indexPrivilegeVerifyCreated
  split
  next => exact kept.changed
  next fields hverified =>
    have hslash : '/' ∈ fields.path env := List.mem_append_right _ List.mem_cons_self
    exact changedAt_privilege valid fresh kept hslash _ _

/-- A new inscription gets the route that its rows have, when no mint goes to an owner without an
address. -/
theorem changedAt_created
    (hparse : ∀ height body number, dogemapNumber height body = some number → env.parse body = none)
    (valid : ValidId created.inscriptionId)
    (fresh : ∀ key ∈ idKeys created.inscriptionId, state.rows.lookup key = none)
    (routeIs : state.RouteIs created.inscriptionId none)
    (hmint : ∀ minted, outcome.minted = some minted → minted.fail = false →
      trimJsWhitespace created.ownerAddress ≠ "-".toList) :
    ChangedAt created.inscriptionId state
      (tapOnInscriptionCreated env context timestamp created outcome state) := by
  have waits := Waiting.of_fresh fresh routeIs
  have freshCached : ∀ key ∈ cachedKeys created.inscriptionId, state.rows.lookup key = none :=
    fun key hkey => fresh key (cachedKeys_subset _ hkey)
  unfold tapOnInscriptionCreated
  split
  · exact waits.changed
  next henabled =>
    have hstarted : ¬ (!featureEnabled env context .tapStart) = true := henabled
    dsimp only
    rw [if_neg hstarted]
    refine ChangedAt.sameRoutes ?_ ((SameRoutes.refl _).writeAll outcome.later)
    cases hclaimed : claimedNumber context created state with
    | none =>
        have hnone : indexBitmapCreated context timestamp created state = state := by
          rw [indexBitmapCreated, hclaimed]
        have same := (SameRoutes.refl state).writeAll outcome.earlier
        rw [hnone]
        refine changedAt_operations valid freshCached hmint (waits.sameRoutes same) ?_ _
        rw [same.rows _ rfl, fresh _ (by simp [idKeys])]
    | some number =>
        have hop := tapOperation_of_claimed hparse hclaimed
        rw [indexPrivilegeVerifyCreated, ifOperation_of_ne (by rw [hop]; exact ne_of_beq_false rfl),
          accumulators_of_ne (fun op => by rw [hop]; exact ne_of_beq_false rfl), indexTokenTransferCreated,
          ifOperation_of_ne (by rw [hop]; exact ne_of_beq_false rfl), indexDmtMint,
          ifOperation_of_ne (by rw [hop]; exact ne_of_beq_false rfl)]
        exact (changedAt_indexBitmapCreated valid freshCached waits hclaimed).sameRoutes
          ((SameRoutes.refl _).writeAll outcome.earlier)

end Dispatch

/-! ### Moved inscriptions -/

section Moved

variable {env : TapEnv} {handlers : MovedHandlers} {moved : BitmapMoved}

/-- A kept operation has no row and no route after its inscription moves. -/
theorem changedAt_accumulator (valid : ValidId moved.inscriptionId)
    (waits : Waiting moved.inscriptionId state state) :
    ChangedAt moved.inscriptionId state
      (tapExecuteAccumulatorForInscription env handlers moved state) := by
  unfold tapExecuteAccumulatorForInscription
  dsimp only
  split
  · exact waits.changed
  split
  · exact (waits.tapDel_acc valid).changed
  split
  next op hop =>
    have written := waits.sameRoutes ((SameRoutes.refl state).writeAll (handlers.accumulated op state.rows))
    exact (written.tapDel_acc valid).changed
  next => exact ((waits.tapDel_acc valid).tapDel_acc valid).changed

/-- A link that was used is empty, and its inscription has no route. -/
theorem changedAt_transferLink (valid : ValidId moved.inscriptionId)
    (routeIs : state.RouteIs moved.inscriptionId (some .transferLink))
    (routed : RoutedBy state.rows moved.inscriptionId (some .transferLink)) :
    ChangedAt moved.inscriptionId state (indexTokenTransferExecuted handlers moved state) := by
  have unchanged : ChangedAt moved.inscriptionId state state :=
    ⟨.refl _ state, fun _ _ _ => rfl, fun row hrow => .inl hrow, _, routeIs, routed⟩
  unfold indexTokenTransferExecuted
  dsimp only
  split
  · exact unchanged
  split
  next link writes hlink hwrites =>
    set id := moved.inscriptionId with hid
    have same := (SameRoutes.refl state).writeAll writes
    generalize state.writeAll writes = written at same
    have hrow : ∀ key ∈ idKeys id, key ≠ kindKey id → key ≠ tlKey id →
        ((written.tapPut (tlKey id) (.text [])).tapDel (kindKey id)).rows.lookup key =
          state.rows.lookup key := fun key hkey hkind htl => by
      rw [lookup_tapDel_ne hkind, lookup_tapPut_ne htl, same.rows key (routed_of_mem_idKeys hkey)]
    cases routed with
    | transferLink stored hstored hkind htl hbmh hdmtmh hprvins hacc =>
        have emptied : (written.tapPut (tlKey id) (.text [])).RouteIs id none := by
          apply (routeIs.sameRoutes same).tapPut
          intro index hroute
          rw [TapRouteIndex.observePut_tlKey valid]
          exact TapRouteIndex.lookup_removeRouteIf hroute
        apply Waiting.changed
        refine ⟨?_, ?_, ⟨lookup_tapDel _ _, ?_, ?_, ?_, ?_⟩, .inl ⟨?_, ?_⟩⟩
        · exact (((OnlyAt.refl id state).sameRoutes same).tapPut valid (by simp [idKeys]) _).tapDel
            (by simp [idKeys]) fun index => by
              rw [TapRouteIndex.observeDel_kindKey]
              exact .refl id index
        · intro key hkey _
          apply hrow key (cachedKeys_subset id hkey)
          all_goals
            simp only [cachedKeys, List.mem_cons, List.not_mem_nil, or_false] at hkey
            rcases hkey with rfl | rfl | rfl <;> exact ne_of_beq_false rfl
        · rw [hrow (bmhKey id) (by simp [idKeys]) (ne_of_beq_false rfl) (ne_of_beq_false rfl), hbmh]
        · rw [hrow (dmtmhKey id) (by simp [idKeys]) (ne_of_beq_false rfl) (ne_of_beq_false rfl), hdmtmh]
        · rw [hrow (prvinsKey id) (by simp [idKeys]) (ne_of_beq_false rfl)
            (ne_of_beq_false rfl), hprvins]
        · intro row hlookup
          rw [lookup_tapDel_ne (ne_of_beq_false rfl : tlKey id ≠ kindKey id), lookup_tapPut] at hlookup
          exact (Option.some.inj hlookup).symm
        · rw [hrow (accKey id) (by simp [idKeys]) (ne_of_beq_false rfl) (ne_of_beq_false rfl), hacc]
        · apply emptied.tapDel
          intro index hroute
          rw [TapRouteIndex.observeDel_kindKey, hroute]
  next => exact unchanged

end Moved

end RouteState

end OrdDogecoin.Tap
