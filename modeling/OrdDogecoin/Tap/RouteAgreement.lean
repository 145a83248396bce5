/-
Module: OrdDogecoin.Tap.RouteAgreement
Purpose: The index of routes against the rows.  Over every run in which no DMT mint goes to an owner
  without an address, the index has the route of the rows, its caches hold what the rows hold, and a move
  writes the same rows by the index as by the rows.
Trusted boundary: none
Main exports: RouteRun, RoutesAgree, routesAgree_of_reaches
-/
import OrdDogecoin.Tap.RouteChanges
import OrdDogecoin.Tap.DogemapOwnership
import OrdDogecoin.Tap.DmtMints

namespace OrdDogecoin.Tap

open Chain AtomicBatch RouteState
open Option (bind_eq_some_iff map_eq_some_iff bind_some map_some bind_eq_bind)

/-! ### Runs -/

/-- The rows with the index of routes, and the inscriptions created. -/
structure RouteRun where
  state : RouteState
  created : List InscriptionId

/-- No rows, and a new index with caches of this size. -/
def RouteRun.empty (maxHotEntries : ℕ) : RouteRun where
  state := .empty (some (.new maxHotEntries))
  created := []

inductive RouteAction where
  | created (context : TapContext) (timestamp : ℕ) (created : BitmapCreated) (outcome : CreatedOutcome)
  | moved (context : TapContext) (timestamp : ℕ) (verify : Bool) (handlers : MovedHandlers)
      (moved : BitmapMoved)
  | others (writes : List OtherWrite)
  | ready (coverageHeight : ℕ)

def routeStep (env : TapEnv) (run : RouteRun) : RouteAction → Option RouteRun
  | .created context timestamp created outcome =>
      some
        { state := RouteState.tapOnInscriptionCreated env context timestamp created outcome run.state
          created := created.inscriptionId :: run.created }
  | .moved context timestamp verify handlers moved =>
      (RouteState.tapOnInscriptionTransferred env context timestamp verify handlers moved run.state).map
        fun state => { run with state := state }
  | .others writes => some { run with state := run.state.writeAll writes }
  | .ready coverageHeight =>
      some { run with state := run.state.withIndex fun index => index.markReady coverageHeight }

def CreatedOnce (run : RouteRun) : RouteAction → Prop
  | .created _ _ created _ => ValidId created.inscriptionId ∧ created.inscriptionId ∉ run.created
  | _ => True

/-- No DMT mint succeeds for an owner without an address. -/
def MintsOwned : RouteAction → Prop
  | .created _ _ created outcome => ∀ minted ∈ outcome.minted, minted.fail = false →
      trimJsWhitespace created.ownerAddress ≠ "-".toList
  | _ => True

instance (run : RouteRun) (action : RouteAction) : Decidable (CreatedOnce run action) := by
  cases action with
  | created context timestamp created outcome => exact inferInstanceAs (Decidable (_ ∧ _))
  | moved context timestamp verify handlers moved => exact isTrue trivial
  | others writes => exact isTrue trivial
  | ready coverageHeight => exact isTrue trivial

instance (action : RouteAction) : Decidable (MintsOwned action) := by
  cases action with
  | created context timestamp created outcome => exact inferInstanceAs (Decidable (∀ minted ∈ _, _))
  | moved context timestamp verify handlers moved => exact isTrue trivial
  | others writes => exact isTrue trivial
  | ready coverageHeight => exact isTrue trivial

/-- When the index is ready, it has the route by the rows for every inscription, and every move writes the
rows that it writes by the rows alone, without an index or a cache. -/
def RoutesAgree (env : TapEnv) (state : RouteState) : Prop :=
  ∀ index, state.routeIndex = some index → index.ready = true →
    (∀ id, index.routeFor id = tapClassifyTransferRouteSlow id state) ∧
    ∀ context timestamp verify handlers moved,
      (tapDispatchTransfer env context timestamp verify handlers moved state).map RouteState.rows =
        some (RouteState.tapDispatchTransferSlow env context timestamp handlers moved
          { state with routeIndex := none }).rows

/-! ### The invariant -/

/-- The rows of the inscriptions created: a mapped block has a record, and is mapped once. -/
structure RowsKept (created : List InscriptionId) (rows : KeyTable Text RouteRow) : Prop where
  lengths : TextLengths rows
  valid : ∀ id ∈ created, ValidId id
  fresh : ∀ id, id ∉ created → ∀ key ∈ idKeys id, rows.lookup key = none
  claimed : ∀ id row, rows.lookup (bmhKey id) = some row →
    ∃ number record, row = .text (bmKey number) ∧ rows.lookup (bmKey number) = some (.bitmap record)
  unique : ∀ id other row, rows.lookup (bmhKey id) = some row → rows.lookup (bmhKey other) = some row →
    id = other

/-- The routes of the index are those of the rows, and its caches hold rows. -/
structure IndexKept (rows : KeyTable Text RouteRow) (index : TapRouteIndex) : Prop where
  routed : ∀ id, RoutedBy rows id (index.routes.lookup id)
  bitmapHot : ∀ id entry, index.bitmapHot.value id = some entry →
    rows.lookup (bmhKey id) = some (.text (bmKey entry.block)) ∧
      ∃ record, rows.lookup (bmKey entry.block) = some (.bitmap record) ∧ record.ownr = entry.currentOwner
  dmtHot : ∀ id entry, index.dmtHot.value id = some entry →
    rows.lookup (dmtmhmKey id) = some (.dmtMeta entry.record) ∧
      rows.lookup (dmtmhoKey id) = some (.text entry.currentOwner)

structure RoutesKept (run : RouteRun) : Prop where
  rows : RowsKept run.created run.state.rows
  index : ∃ index, run.state.routeIndex = some index ∧ IndexKept run.state.rows index

theorem RoutesKept.empty (maxHotEntries : ℕ) : RoutesKept (.empty maxHotEntries) where
  rows :=
    { lengths := fun key row _ hrow => nomatch hrow
      valid := fun id hid => nomatch hid
      fresh := fun id _ key _ => rfl
      claimed := fun id row hrow => nomatch hrow
      unique := fun id other row hrow => nomatch hrow }
  index := by
    refine ⟨.new maxHotEntries, rfl, ⟨fun id => ?_, fun id entry hentry => ?_, fun id entry hentry => ?_⟩⟩
    · exact .idle ⟨rfl, rfl, rfl, rfl, fun row hrow => nomatch hrow⟩ rfl
    · cases hentry
    · cases hentry

section Steps

variable {run : RouteRun} {created created' : List InscriptionId} {id : InscriptionId}
  {before after : RouteState} {index index' : TapRouteIndex} {rows : KeyTable Text RouteRow}

theorem RowsKept.changedAt (kept : RowsKept created before.rows) (changed : ChangedAt id before after)
    (hsub : created ⊆ created') (hmem : id ∈ created') (hvalid : ∀ id ∈ created', ValidId id) :
    RowsKept created' after.rows where
  lengths := changed.only.lengths kept.lengths
  valid := hvalid
  fresh other hother key hkey := by
    have hne : other ≠ id := fun hsame => hother (hsame ▸ hmem)
    rw [changed.only.rows other hne key hkey]
    exact kept.fresh other (fun hold => hother (hsub hold)) key hkey
  claimed other row hrow := by
    have hclaimed : before.rows.lookup (bmhKey other) = some row →
        ∃ number record, row = .text (bmKey number) ∧
          after.rows.lookup (bmKey number) = some (.bitmap record) := fun hold => by
      obtain ⟨number, record, htext, hrecord⟩ := kept.claimed other row hold
      exact ⟨number, record, htext, changed.only.bitmaps number record hrecord⟩
    by_cases hother : other = id
    · subst hother
      rcases changed.claim row hrow with hold | ⟨number, record, -, htext, hrecord, -⟩
      · exact hclaimed hold
      · exact ⟨number, record, htext, hrecord⟩
    · rw [changed.only.rows other hother _ (by simp [idKeys])] at hrow
      exact hclaimed hrow
  unique := by
    -- A number that is claimed now had no record, so that no inscription was mapped to it.
    have hnew : ∀ row other, NewClaim before after row → before.rows.lookup (bmhKey other) ≠ some row := by
      rintro row other ⟨number, record, -, rfl, -, hfree⟩ hold
      obtain ⟨number', record', htext, hrecord⟩ := kept.claimed other _ hold
      rw [← bmKey_injective (RouteRow.text.inj htext)] at hrecord
      exact hfree record' hrecord
    have hat : ∀ other row, other ≠ id → after.rows.lookup (bmhKey id) = some row →
        after.rows.lookup (bmhKey other) ≠ some row := by
      intro other row hother hrow hrow'
      rw [changed.only.rows other hother _ (by simp [idKeys])] at hrow'
      rcases changed.claim row hrow with hold | hclaim
      · exact hother (kept.unique other id row hrow' hold)
      · exact hnew row other hclaim hrow'
    intro first second row hfirst hsecond
    by_cases hone : first = id
    · by_cases htwo : second = id
      · rw [hone, htwo]
      · exact absurd hsecond (hat second row htwo (hone ▸ hfirst))
    · by_cases htwo : second = id
      · exact absurd hfirst (hat first row hone (htwo ▸ hsecond))
      · rw [changed.only.rows first hone _ (by simp [idKeys])] at hfirst
        rw [changed.only.rows second htwo _ (by simp [idKeys])] at hsecond
        exact kept.unique first second row hfirst hsecond

theorem IndexKept.changedAt (kept : IndexKept before.rows index) (changed : ChangedAt id before after)
    (only : TapRouteIndex.OnlyAt id index index') (hindex' : after.routeIndex = some index') :
    IndexKept after.rows index' where
  routed other := by
    by_cases hother : other = id
    · subst hother
      obtain ⟨route, routeIs, routed⟩ := changed.routed
      rw [routeIs index' hindex']
      exact routed
    · rw [only.routes other hother]
      exact (kept.routed other).congr fun key hkey =>
        changed.only.rows other hother key (routeKeys_subset other hkey)
  bitmapHot other entry hentry := by
    obtain ⟨hbmh, record, hrecord, howner⟩ := kept.bitmapHot other entry (only.bitmapHot other entry hentry)
    refine ⟨?_, record, changed.only.bitmaps _ record hrecord, howner⟩
    rw [← hbmh]
    by_cases hother : other = id
    · subst hother
      exact changed.kept _ (by simp [cachedKeys]) (by rw [hbmh]; exact Option.some_ne_none _)
    · exact changed.only.rows other hother _ (by simp [idKeys])
  dmtHot other entry hentry := by
    obtain ⟨hmeta, howner⟩ := kept.dmtHot other entry (only.dmtHot other entry hentry)
    rw [← hmeta, ← howner]
    by_cases hother : other = id
    · subst hother
      exact ⟨changed.kept _ (by simp [cachedKeys]) (by rw [hmeta]; exact Option.some_ne_none _),
        changed.kept _ (by simp [cachedKeys]) (by rw [howner]; exact Option.some_ne_none _)⟩
    · exact ⟨changed.only.rows other hother _ (by simp [idKeys]),
        changed.only.rows other hother _ (by simp [idKeys])⟩

/-- What changes one inscription keeps the invariant. -/
theorem RoutesKept.changedAt (kept : RoutesKept run) (changed : ChangedAt id run.state after)
    (hsub : run.created ⊆ created') (hmem : id ∈ created') (hvalid : ∀ id ∈ created', ValidId id) :
    RoutesKept { state := after, created := created' } where
  rows := kept.rows.changedAt changed hsub hmem hvalid
  index := by
    obtain ⟨index, hindex, keptIndex⟩ := kept.index
    have hrel := changed.only.routeIndex
    rw [hindex] at hrel
    cases hafter : after.routeIndex with
    | none =>
        rw [hafter] at hrel
        cases hrel
    | some index' =>
        rw [hafter] at hrel
        cases hrel with
        | some only => exact ⟨index', rfl, keptIndex.changedAt changed only hafter⟩

theorem RowsKept.congr {rows rows' : KeyTable Text RouteRow} (kept : RowsKept created rows)
    (hlengths : TextLengths rows') (hfresh : ∀ id, id ∉ created → ∀ key ∈ idKeys id,
      rows'.lookup key = rows.lookup key)
    (hbmh : ∀ id, rows'.lookup (bmhKey id) = rows.lookup (bmhKey id))
    (hbm : ∀ number record, rows.lookup (bmKey number) = some (.bitmap record) →
      ∃ record', rows'.lookup (bmKey number) = some (.bitmap record')) : RowsKept created rows' where
  lengths := hlengths
  valid := kept.valid
  fresh other hother key hkey := (hfresh other hother key hkey).trans (kept.fresh other hother key hkey)
  claimed other row hrow := by
    rw [hbmh] at hrow
    obtain ⟨number, record, htext, hrecord⟩ := kept.claimed other row hrow
    obtain ⟨record', hrecord'⟩ := hbm number record hrecord
    exact ⟨number, record', htext, hrecord'⟩
  unique first second row hfirst hsecond := by
    rw [hbmh] at hfirst hsecond
    exact kept.unique first second row hfirst hsecond

/-- The rows of an inscription behind the index are the same. -/
theorem IndexKept.congr {rows rows' : KeyTable Text RouteRow} (kept : IndexKept rows index)
    (hrows : ∀ id, ∀ key ∈ idKeys id, rows'.lookup key = rows.lookup key)
    (hbm : ∀ number, rows'.lookup (bmKey number) = rows.lookup (bmKey number)) :
    IndexKept rows' index where
  routed other := (kept.routed other).congr fun key hkey => hrows other key (routeKeys_subset other hkey)
  bitmapHot other entry hentry := by
    rw [hrows other _ (by simp [idKeys]), hbm]
    exact kept.bitmapHot other entry hentry
  dmtHot other entry hentry := by
    rw [hrows other _ (by simp [idKeys]), hrows other (dmtmhoKey other) (by simp [idKeys])]
    exact kept.dmtHot other entry hentry

theorem RoutesKept.sameRoutes (kept : RoutesKept run) (same : SameRoutes run.state after) :
    RoutesKept { run with state := after } := by
  have hrows : ∀ id, ∀ key ∈ idKeys id, after.rows.lookup key = run.state.rows.lookup key :=
    fun id key hkey => same.rows key (routed_of_mem_idKeys hkey)
  obtain ⟨index, hindex, keptIndex⟩ := kept.index
  refine ⟨?_, index, same.routeIndex.trans hindex, keptIndex.congr hrows fun number => same.rows _ rfl⟩
  exact kept.rows.congr (same.lengths kept.rows.lengths) (fun id _ => hrows id)
    (fun id => same.rows _ rfl) fun number record hrecord => ⟨record, (same.rows _ rfl).trans hrecord⟩

/-! ### Caches -/

/-- An index with the same routes, whose caches have learned nothing. -/
theorem IndexKept.of_values (kept : IndexKept rows index) (hroutes : index'.routes = index.routes)
    (hbitmap : ∀ id, index'.bitmapHot.value id = index.bitmapHot.value id)
    (hdmt : ∀ id, index'.dmtHot.value id = index.dmtHot.value id) : IndexKept rows index' where
  routed other := hroutes ▸ kept.routed other
  bitmapHot other entry hentry := kept.bitmapHot other entry ((hbitmap other).symm.trans hentry)
  dmtHot other entry hentry := kept.dmtHot other entry ((hdmt other).symm.trans hentry)

theorem IndexKept.touchBitmapHot (kept : IndexKept rows index) (id : InscriptionId) :
    IndexKept rows (index.touchBitmapHot id) := by
  unfold TapRouteIndex.touchBitmapHot
  split
  · exact kept
  · exact kept.of_values rfl (fun other => StampedCache.value_touch id other _ _) fun _ => rfl

theorem routes_touchDmtHot (index : TapRouteIndex) (id : InscriptionId) :
    (index.touchDmtHot id).routes = index.routes := by
  unfold TapRouteIndex.touchDmtHot
  split <;> rfl

theorem IndexKept.touchDmtHot (kept : IndexKept rows index) (id : InscriptionId) :
    IndexKept rows (index.touchDmtHot id) := by
  unfold TapRouteIndex.touchDmtHot
  split
  · exact kept
  · exact kept.of_values rfl (fun _ => rfl) fun other => StampedCache.value_touch id other _ _

variable {env : TapEnv} {context : TapContext} {timestamp : ℕ} {moved : BitmapMoved}
  {handlers : MovedHandlers} {state state' : RouteState}

/-- The cache of blocks has what the rows have for this route. -/
def BitmapCached (state : RouteState) (id : InscriptionId) (route : Option ℕ) : Prop :=
  ∀ index entry, state.routeIndex = some index → index.bitmapHot.value id = some entry →
    storedBitmap id route state = some (entry.block, entry.currentOwner)

def MintCached (state : RouteState) (id : InscriptionId) : Prop :=
  ∀ index entry, state.routeIndex = some index → index.dmtHot.value id = some entry →
    storedMint id state = some (entry.record, entry.currentOwner)

/-- With or without the cache, the stored number and owner decide. -/
theorem indexBitmapTransferred_eq {route : Option ℕ}
    (cached : BitmapCached state moved.inscriptionId route) :
    RouteState.indexBitmapTransferred context timestamp moved route state =
      match storedBitmap moved.inscriptionId route state, moved.entryNumber with
      | some (number, prevOwner), some entryNumber =>
          recordMovedBitmap context timestamp moved number entryNumber prevOwner
            (state.withIndex fun index => index.touchBitmapHot moved.inscriptionId)
      | _, _ => state.withIndex fun index => index.touchBitmapHot moved.inscriptionId := by
  unfold RouteState.indexBitmapTransferred
  dsimp only
  cases hhot : state.routeIndex.bind fun index => index.bitmapHot.value moved.inscriptionId with
  | none => rfl
  | some entry =>
      obtain ⟨index, hindex, hentry⟩ := bind_eq_some_iff.1 hhot
      have hstored := cached index entry hindex hentry
      revert hstored
      generalize storedBitmap moved.inscriptionId route state = stored
      rintro rfl
      rfl

theorem indexDmtMintTransferred_eq (cached : MintCached state moved.inscriptionId) :
    RouteState.indexDmtMintTransferred env context timestamp moved state =
      if moved.newSatpoint.outpoint.txid = moved.inscriptionId.txid then state
      else
        match storedMint moved.inscriptionId state with
        | none => state.withIndex fun index => index.touchDmtHot moved.inscriptionId
        | some (record, prevOwner) =>
            recordMovedMint env context timestamp moved record prevOwner
              (state.withIndex fun index => index.touchDmtHot moved.inscriptionId) := by
  unfold RouteState.indexDmtMintTransferred
  dsimp only
  split
  · rfl
  cases hhot : state.routeIndex.bind fun index => index.dmtHot.value moved.inscriptionId with
  | none => rfl
  | some entry =>
      obtain ⟨index, hindex, hentry⟩ := bind_eq_some_iff.1 hhot
      rw [cached index entry hindex hentry]

theorem storedBitmap_of_routed {block : Option ℕ} {route : Option ℕ}
    (routed : RoutedBy state.rows id (some (.bitmap block))) (hroute : route = none ∨ route = block) :
    storedBitmap id route state = storedBitmap id none state := by
  cases routed with
  | bitmap number hnumber hkind hbmh =>
      rcases hroute with rfl | rfl
      · rfl
      · have hmapped : (state.text (bmhKey id)).bind bitmapBlockFromMapping = some number := by
          rw [RouteState.text, hbmh]
          exact bitmapBlockFromMapping_bmKey hnumber
        unfold storedBitmap
        rw [hmapped]

theorem IndexKept.bitmapCached (kept : IndexKept state.rows index) (hindex : state.routeIndex = some index)
    {block route : Option ℕ} (routed : RoutedBy state.rows id (some (.bitmap block)))
    (hroute : route = none ∨ route = block) : BitmapCached state id route := by
  intro found entry hfound hentry
  obtain rfl : index = found := Option.some.inj (hindex.symm.trans hfound)
  obtain ⟨hbmh, record, hrecord, howner⟩ := kept.bitmapHot id entry hentry
  rw [storedBitmap_of_routed routed hroute]
  cases routed with
  | bitmap number hnumber hkind hstored =>
      have hsame : number = entry.block :=
        bmKey_injective (RouteRow.text.inj (Option.some.inj (hstored.symm.trans hbmh)))
      have hmapped : (state.text (bmhKey id)).bind bitmapBlockFromMapping = some entry.block := by
        rw [RouteState.text, hbmh, ← hsame]
        exact bitmapBlockFromMapping_bmKey hnumber
      unfold storedBitmap
      rw [hmapped]
      simp only [bind_eq_bind, bind_some, hrecord, RouteRow.asBitmap, howner]

theorem IndexKept.mintCached (kept : IndexKept state.rows index) (hindex : state.routeIndex = some index)
    (id : InscriptionId) : MintCached state id := by
  intro found entry hfound hentry
  obtain rfl : index = found := Option.some.inj (hindex.symm.trans hfound)
  obtain ⟨hmeta, howner⟩ := kept.dmtHot id entry hentry
  unfold storedMint RouteState.text
  rw [hmeta, howner]
  rfl

/-! ### Moves of blocks and mints -/

/-- The stored number is the mapped one. -/
theorem bmh_of_storedBitmap {block route : Option ℕ} (routed : RoutedBy state.rows id (some (.bitmap block)))
    (hroute : route = none ∨ route = block) {number : ℕ} {owner : Address}
    (hstored : storedBitmap id route state = some (number, owner)) :
    state.rows.lookup (bmhKey id) = some (.text (bmKey number)) := by
  rw [storedBitmap_of_routed routed hroute] at hstored
  cases routed with
  | bitmap mapped hmapped hkind hbmh =>
      have hread : (state.text (bmhKey id)).bind bitmapBlockFromMapping = some mapped := by
        rw [RouteState.text, hbmh]
        exact bitmapBlockFromMapping_bmKey hmapped
      unfold storedBitmap at hstored
      rw [hread] at hstored
      cases hrecord : (state.rows.lookup (bmKey mapped)).bind RouteRow.asBitmap with
      | none => simp [hrecord] at hstored
      | some record =>
          simp only [bind_eq_bind, bind_some, hrecord, Option.some.injEq,
            Prod.mk.injEq] at hstored
          rw [← hstored.1]
          exact hbmh

theorem RoutesKept.recordMovedBitmap (kept : RoutesKept run) {number entryNumber : ℕ}
    {prevOwner : Address}
    (hbmh : run.state.rows.lookup (bmhKey moved.inscriptionId) = some (.text (bmKey number))) :
    RoutesKept { run with
      state := run.state.recordMovedBitmap context timestamp moved number entryNumber prevOwner } := by
  obtain ⟨index, hindex, keptIndex⟩ := kept.index
  unfold RouteState.recordMovedBitmap
  dsimp only
  have howner : (movedRecord ⟨context.height, timestamp⟩ moved number prevOwner entryNumber).ownr =
      recordedOwner moved.ownerAddress := rfl
  generalize movedRecord _ moved number prevOwner entryNumber = record at howner ⊢
  generalize recordedOwner moved.ownerAddress = owner at howner ⊢
  have same : SameRoutes (run.state.tapPut (bmKey number) (.bitmap record))
      (((run.state.tapPut (bmKey number) (.bitmap record)).listRecord context number
        moved.newSatpoint.outpoint.txid record).appendRow (bmlKey owner) (bmliKey owner)
          (.text (inscriptionText moved.inscriptionId))) :=
    ((SameRoutes.refl _).listRecord context number _ record).appendRow rfl (fun _ => rfl) _
  revert same
  generalize RouteState.appendRow _ (bmlKey owner) (bmliKey owner) _ = listed
  intro same
  have hrows : ∀ id, ∀ key ∈ idKeys id, listed.rows.lookup key = run.state.rows.lookup key :=
    fun id key hkey => by
      have hne : key ≠ bmKey number := fun hsame => bmKey_not_mem_idKeys number id (hsame ▸ hkey)
      rw [same.rows key (routed_of_mem_idKeys hkey), lookup_tapPut_ne hne]
  have hnumber : listed.rows.lookup (bmKey number) = some (.bitmap record) := by
    rw [same.rows _ rfl, lookup_tapPut]
  have hother : ∀ other, other ≠ number →
      listed.rows.lookup (bmKey other) = run.state.rows.lookup (bmKey other) := fun other hne => by
    rw [same.rows _ rfl, lookup_tapPut_ne fun hsame => hne (bmKey_injective hsame)]
  have hlisted : listed.routeIndex = some index := by
    rw [same.routeIndex]
    simp only [RouteState.tapPut, hindex, map_some, TapRouteIndex.observePut_bmKey]
  refine ⟨?_, index.putBitmapHot moved.inscriptionId number owner,
    by simp [RouteState.withIndex, hlisted], ?_⟩
  · refine kept.rows.congr (same.lengths (kept.rows.lengths.insert (.inl rfl))) (fun id _ => hrows id)
      (fun id => hrows id _ (by simp [idKeys])) fun other found hfound => ?_
    by_cases hsame : other = number
    · exact ⟨record, hsame ▸ hnumber⟩
    · exact ⟨found, (hother other hsame).trans hfound⟩
  · refine ⟨fun other => ?_, fun other entry hentry => ?_, fun other entry hentry => ?_⟩
    · exact (keptIndex.routed other).congr fun key hkey => hrows other key (routeKeys_subset other hkey)
    · rcases StampedCache.value_put hentry with ⟨rfl, rfl⟩ | ⟨hne, hold⟩
      · exact ⟨(hrows moved.inscriptionId _ (by simp [idKeys])).trans hbmh, record, hnumber, howner⟩
      · obtain ⟨hmapped, stored, hstored, hstoredOwner⟩ := keptIndex.bitmapHot other entry hold
        have hblock : entry.block ≠ number := fun hsame =>
          hne (kept.rows.unique other moved.inscriptionId _ (hsame ▸ hmapped) hbmh)
        exact ⟨(hrows other _ (by simp [idKeys])).trans hmapped, stored,
          (hother _ hblock).trans hstored, hstoredOwner⟩
    · rw [show (listed.withIndex fun index => index.putBitmapHot moved.inscriptionId number owner).rows =
        listed.rows from rfl, hrows other (dmtmhmKey other) (by simp [idKeys]),
        hrows other (dmtmhoKey other) (by simp [idKeys])]
      exact keptIndex.dmtHot other entry hentry

/-- The history of a mint can be extended. -/
theorem isSome_listLength (lengths : TextLengths state.rows) {key : Text}
    (hkey : historyLength key = true) : (state.listLength key).isSome = true := by
  unfold RouteState.listLength
  cases hrow : state.rows.lookup key with
  | none => rfl
  | some row =>
      obtain ⟨text, htext⟩ := Option.isSome_iff_exists.1 (lengths key row hkey hrow)
      simp [htext]

theorem tapSetListRecord_of_length {lengthKey : Text} {length : ℕ}
    (hlength : state.listLength lengthKey = some length) (iteratorKey : Text) (row : RouteRow) :
    state.tapSetListRecord lengthKey iteratorKey row =
      (some length, (state.tapPut lengthKey (.text (Nat.toDigits 10 length))).tapPut
        (listKey iteratorKey (recordIndex length)) row) := by
  unfold RouteState.tapSetListRecord
  rw [hlength]

/-- Up to rows of other families, the rows of a moved mint are its holder record and its owner, and the
cache has the new owner. -/
theorem recordMovedMint_same (lengths : TextLengths state.rows) (env : TapEnv) (context : TapContext)
    (timestamp : ℕ) (moved : BitmapMoved) (record : DmtMintMetaRecord) (prevOwner : Address) :
    ∃ holder listed,
      SameRoutes ((state.tapPut (dmtmhKey moved.inscriptionId) (.json holder)).tapPut
        (dmtmhoKey moved.inscriptionId) (.text (recordedOwner moved.ownerAddress))) listed ∧
      RouteState.recordMovedMint env context timestamp moved record prevOwner state =
        listed.withIndex fun index =>
          index.putDmtHot moved.inscriptionId record (recordedOwner moved.ownerAddress) := by
  unfold RouteState.recordMovedMint
  dsimp only
  generalize holderJson _ _ _ _ _ _ _ _ _ _ _ _ _ _ _ = holder
  have hput : TextLengths ((state.tapPut (dmtmhKey moved.inscriptionId) (.json holder)).tapPut
      (dmtmhoKey moved.inscriptionId) (.text (recordedOwner moved.ownerAddress))).rows :=
    (lengths.insert (.inl rfl)).insert (.inl rfl)
  generalize hwritten : (state.tapPut (dmtmhKey moved.inscriptionId) (.json holder)).tapPut
    (dmtmhoKey moved.inscriptionId) (.text (recordedOwner moved.ownerAddress)) = written at hput
  obtain ⟨length, hlength⟩ := Option.isSome_iff_exists.1 (isSome_listLength hput
    (rfl : historyLength (partsKey "dmtmhl/" [inscriptionText moved.inscriptionId]) = true))
  rw [tapSetListRecord_of_length hlength]
  refine ⟨holder, _, ?_, rfl⟩
  rw [hwritten]
  apply SameRoutes.listHolder
  exact ((SameRoutes.refl written).tapPut rfl (.inr rfl)).tapPut rfl (.inl rfl)

/-- A moved block has its new owner in its record and in the cache. -/
theorem RoutesKept.movedBitmap (kept : RoutesKept run) {block route : Option ℕ}
    (routed : RoutedBy run.state.rows moved.inscriptionId (some (.bitmap block)))
    (hroute : route = none ∨ route = block) :
    RoutesKept { run with
      state := RouteState.indexBitmapTransferred context timestamp moved route run.state } := by
  obtain ⟨index, hindex, keptIndex⟩ := kept.index
  have cached := keptIndex.bitmapCached hindex routed hroute
  have touched : RoutesKept { run with
      state := run.state.withIndex fun index => index.touchBitmapHot moved.inscriptionId } :=
    ⟨kept.rows, index.touchBitmapHot moved.inscriptionId, by simp [RouteState.withIndex, hindex],
      keptIndex.touchBitmapHot _⟩
  rw [indexBitmapTransferred_eq cached]
  split
  next number prevOwner entryNumber hstored hentry =>
    exact touched.recordMovedBitmap (bmh_of_storedBitmap routed hroute hstored)
  next => exact touched

theorem RoutesKept.recordMovedMint (kept : RoutesKept run) (valid : ValidId moved.inscriptionId)
    (hmem : moved.inscriptionId ∈ run.created)
    (routeIs : run.state.RouteIs moved.inscriptionId (some .dmtMint))
    (hkind : run.state.rows.lookup (kindKey moved.inscriptionId) = some (.text "dmtmh".toList))
    {record : DmtMintMetaRecord} {prevOwner : Address}
    (hmeta : run.state.rows.lookup (dmtmhmKey moved.inscriptionId) = some (.dmtMeta record)) :
    RoutesKept { run with
      state := run.state.recordMovedMint env context timestamp moved record prevOwner } := by
  obtain ⟨index, hindex, keptIndex⟩ := kept.index
  obtain ⟨holder, listed, same, heq⟩ :=
    recordMovedMint_same kept.rows.lengths env context timestamp moved record prevOwner
  rw [heq]
  generalize recordedOwner moved.ownerAddress = owner at same ⊢
  set id := moved.inscriptionId with hid
  have hrows : ∀ key, routed key = true → key ≠ dmtmhKey id → key ≠ dmtmhoKey id →
      listed.rows.lookup key = run.state.rows.lookup key := fun key hkey hholder howner => by
    rw [same.rows key hkey, lookup_tapPut_ne howner, lookup_tapPut_ne hholder]
  have hothers : ∀ other, other ≠ id → ∀ key ∈ idKeys other,
      listed.rows.lookup key = run.state.rows.lookup key := fun other hother key hkey =>
    hrows key (routed_of_mem_idKeys hkey)
      (fun hsame => idKeys_disjoint hother (by simp [idKeys] : dmtmhKey id ∈ idKeys id) (hsame ▸ hkey))
      fun hsame => idKeys_disjoint hother (by simp [idKeys] : dmtmhoKey id ∈ idKeys id) (hsame ▸ hkey)
  have hbmh : ∀ other, listed.rows.lookup (bmhKey other) = run.state.rows.lookup (bmhKey other) :=
    fun other => hrows (bmhKey other) rfl (ne_of_beq_false rfl) (ne_of_beq_false rfl)
  have hbm : ∀ number, listed.rows.lookup (bmKey number) = run.state.rows.lookup (bmKey number) :=
    fun number => hrows (bmKey number) rfl (ne_of_beq_false rfl) (ne_of_beq_false rfl)
  have howner : listed.rows.lookup (dmtmhoKey id) = some (.text owner) := by
    rw [same.rows _ rfl, lookup_tapPut]
  have hlisted : listed.routeIndex = some (index.insertRoute id .dmtMint) := by
    rw [same.routeIndex]
    simp only [RouteState.tapPut, hindex, map_some, TapRouteIndex.observePut_dmtmhKey,
      TapRouteIndex.observePut_dmtmhoKey valid]
  refine ⟨?_, (index.insertRoute id .dmtMint).putDmtHot id record owner,
    by simp [RouteState.withIndex, hlisted], ?_⟩
  · refine kept.rows.congr (same.lengths ((kept.rows.lengths.insert (.inl rfl)).insert (.inl rfl)))
      (fun other hother => hothers other fun hsame => hother (hsame ▸ hmem)) hbmh
      fun number found hfound => ⟨found, (hbm number).trans hfound⟩
  · refine ⟨fun other => ?_, fun other entry hentry => ?_, fun other entry hentry => ?_⟩
    · by_cases hother : other = id
      · have hinserted : (index.insertRoute id .dmtMint).routes.lookup id =
            some (TapRouteIndex.insertedRoute (index.routes.lookup id) .dmtMint) :=
          TapRouteIndex.lookup_insertRoute _
        rw [routeIs index hindex] at hinserted
        rw [hother, show ((index.insertRoute id .dmtMint).putDmtHot id record owner).routes.lookup id =
          some .dmtMint from hinserted]
        exact .dmtMint ((hrows (kindKey id) rfl (ne_of_beq_false rfl) (ne_of_beq_false rfl)).trans hkind)
      · have hold : (index.insertRoute id .dmtMint).routes.lookup other = index.routes.lookup other :=
          AList.lookup_insert_ne hother
        rw [show ((index.insertRoute id .dmtMint).putDmtHot id record owner).routes.lookup other =
          index.routes.lookup other from hold]
        exact (keptIndex.routed other).congr fun key hkey =>
          hothers other hother key (routeKeys_subset other hkey)
    · obtain ⟨hmapped, stored, hstored, hstoredOwner⟩ := keptIndex.bitmapHot other entry hentry
      exact ⟨(hbmh other).trans hmapped, stored, (hbm _).trans hstored, hstoredOwner⟩
    · rcases StampedCache.value_put hentry with ⟨rfl, rfl⟩ | ⟨hne, hold⟩
      · exact ⟨(hrows (dmtmhmKey id) rfl (ne_of_beq_false rfl) (ne_of_beq_false rfl)).trans hmeta, howner⟩
      · obtain ⟨hstored, hstoredOwner⟩ := keptIndex.dmtHot other entry hold
        exact ⟨(hothers other hne _ (by simp [idKeys])).trans hstored,
          (hothers other hne _ (by simp [idKeys])).trans hstoredOwner⟩

/-! ### Dispatch -/

theorem noLink_of_noOther (noOther : NoOther state.rows id) :
    (state.text (tlKey id)).any (fun link => link ≠ []) = false := by
  unfold RouteState.text
  cases hrow : state.rows.lookup (tlKey id) with
  | none => rfl
  | some row => rw [noOther.link row hrow]; rfl

theorem presentRoute_of_noOther (noOther : NoOther state.rows id) : presentRoute id state = none := by
  have hbmh : (state.text (bmhKey id)).isSome = false := by rw [RouteState.text, noOther.bmh]; rfl
  have hdmtmh : present (dmtmhKey id) state = false := by rw [present, noOther.dmtmh]; rfl
  have hprvins : present (prvinsKey id) state = false := by rw [present, noOther.prvins]; rfl
  unfold presentRoute
  rw [hbmh, hdmtmh, hprvins, noLink_of_noOther noOther]
  rfl

/-- The classifier finds the route of the rows. -/
theorem classify_of_routed {route : Option TapRoute} (routed : RoutedBy state.rows id route) :
    tapClassifyTransferRouteSlow id state = route := by
  unfold tapClassifyTransferRouteSlow RouteState.kind RouteState.text
  cases routed with
  | idle noOther hacc =>
      rw [noOther.kind, hacc, Option.bind_none]
      dsimp only
      rw [presentRoute_of_noOther noOther]
      rfl
  | accumulator noOther acc hacc =>
      rw [noOther.kind, hacc, Option.bind_none]
      dsimp only
      rw [presentRoute_of_noOther noOther]
      rfl
  | bitmap number hnumber hkind hbmh =>
      have hmapped : mappedBlock id state = some number := by
        rw [mappedBlock, RouteState.text, hbmh]
        exact bitmapBlockFromMapping_bmKey hnumber
      have hroute : kindRoute id "bm".toList state = some (.bitmap (mappedBlock id state)) := rfl
      rw [hkind]
      simp only [bind_some, RouteRow.asText, hroute, hmapped]
      rfl
  | dmtMint hkind =>
      have hroute : kindRoute id "dmtmh".toList state = some .dmtMint := rfl
      rw [hkind]
      simp only [bind_some, RouteRow.asText, hroute]
      rfl
  | privilege hkind =>
      have hroute : kindRoute id "prvins".toList state = some .privilege := rfl
      rw [hkind]
      simp only [bind_some, RouteRow.asText, hroute]
      rfl
  | transferLink link hlink hkind htl hbmh hdmtmh hprvins hacc =>
      have hroute : kindRoute id "tl".toList state = some .transferLink := rfl
      rw [hkind]
      simp only [bind_some, RouteRow.asText, hroute]
      rfl

/-- The handler that a stored kind stands for. -/
def slowRoute : TapRoute → TapRoute
  | .bitmap _ => .bitmap none
  | route => route

/-- The dispatch by the rows runs the handler of their route. -/
theorem slow_of_routed {route : Option TapRoute} (routed : RoutedBy state.rows moved.inscriptionId route) :
    RouteState.tapDispatchTransferSlow env context timestamp handlers moved state =
      route.elim state fun route =>
        tapDispatchTransferRoute env context timestamp handlers moved state (slowRoute route) := by
  have hother : NoOther state.rows moved.inscriptionId →
      RouteState.tapDispatchTransferSlow env context timestamp handlers moved state =
        tapDispatchTransferRoute env context timestamp handlers moved state .accumulator := by
    intro noOther
    have hkind : RouteState.kind moved.inscriptionId state = none := by
      rw [RouteState.kind, RouteState.text, noOther.kind]
      rfl
    have hbmh : present (bmhKey moved.inscriptionId) state = false := by
      rw [present, noOther.bmh]
      rfl
    have hdmtmh : present (dmtmhKey moved.inscriptionId) state = false := by
      rw [present, noOther.dmtmh]
      rfl
    have hprvins : present (prvinsKey moved.inscriptionId) state = false := by
      rw [present, noOther.prvins]
      rfl
    unfold RouteState.tapDispatchTransferSlow
    dsimp only
    rw [hkind, hbmh, hdmtmh, hprvins, noLink_of_noOther noOther]
    rfl
  have hkinded : ∀ kind inserted,
      state.rows.lookup (kindKey moved.inscriptionId) = some (.text kind) →
      routeOfKind kind = some inserted →
      RouteState.tapDispatchTransferSlow env context timestamp handlers moved state =
        tapDispatchTransferRoute env context timestamp handlers moved state inserted := by
    intro kind inserted hrow hinserted
    have hkind : RouteState.kind moved.inscriptionId state = some kind := by
      rw [RouteState.kind, RouteState.text, hrow]
      rfl
    unfold RouteState.tapDispatchTransferSlow
    dsimp only
    rw [hkind]
    dsimp only
    rw [hinserted]
  cases routed with
  | idle noOther hacc =>
      rw [hother noOther]
      unfold tapDispatchTransferRoute RouteState.tapExecuteAccumulatorForInscription
      dsimp only
      rw [hacc]
      rfl
  | accumulator noOther acc hacc => exact hother noOther
  | bitmap number hnumber hkind hbmh => exact hkinded _ _ hkind rfl
  | dmtMint hkind => exact hkinded _ _ hkind rfl
  | privilege hkind => exact hkinded _ _ hkind rfl
  | transferLink link hlink hkind htl hbmh hdmtmh hprvins hacc => exact hkinded _ _ hkind rfl

/-- With the caches, the handler of a route writes the rows that it writes without an index. -/
theorem rows_tapDispatchTransferRoute {route route' : TapRoute}
    (hroute : route = route' ∨ route = slowRoute route')
    (routed : RoutedBy state.rows moved.inscriptionId (some route')) (hindex : state.routeIndex = some index)
    (kept : IndexKept state.rows index) :
    (tapDispatchTransferRoute env context timestamp handlers moved state route).rows =
      (tapDispatchTransferRoute env context timestamp handlers moved { state with routeIndex := none }
        (slowRoute route')).rows := by
  have hrows : state.rows = { state with routeIndex := none : RouteState }.rows := rfl
  cases route' with
  | bitmap block =>
      obtain ⟨number, rfl, hnumber⟩ : ∃ number, route = .bitmap number ∧ (number = none ∨ number = block) := by
        rcases hroute with rfl | rfl
        · exact ⟨block, rfl, .inr rfl⟩
        · exact ⟨none, rfl, .inl rfl⟩
      unfold tapDispatchTransferRoute slowRoute
      dsimp only
      have cached := kept.bitmapCached hindex routed hnumber
      have bare : BitmapCached { state with routeIndex := none } moved.inscriptionId none := nofun
      have hstored : storedBitmap moved.inscriptionId none { state with routeIndex := none } =
          storedBitmap moved.inscriptionId none state := rfl
      rw [indexBitmapTransferred_eq cached, indexBitmapTransferred_eq bare, hstored,
        storedBitmap_of_routed routed hnumber]
      split
      · apply rows_recordMovedBitmap_congr
        rfl
      · rfl
  | dmtMint =>
      obtain rfl : route = .dmtMint := by simpa [slowRoute] using hroute
      unfold tapDispatchTransferRoute slowRoute
      dsimp only
      have cached := kept.mintCached hindex moved.inscriptionId
      have bare : MintCached { state with routeIndex := none } moved.inscriptionId := nofun
      have hstored : storedMint moved.inscriptionId { state with routeIndex := none } =
          storedMint moved.inscriptionId state := rfl
      rw [indexDmtMintTransferred_eq cached, indexDmtMintTransferred_eq bare, hstored]
      split
      · rfl
      split
      · rfl
      · apply rows_recordMovedMint_congr
        rfl
  | privilege =>
      obtain rfl : route = .privilege := by simpa [slowRoute] using hroute
      exact rows_indexPrivilegeVerifyTransferred_congr hrows handlers
  | transferLink =>
      obtain rfl : route = .transferLink := by simpa [slowRoute] using hroute
      exact rows_indexTokenTransferExecuted_congr hrows handlers moved
  | accumulator =>
      obtain rfl : route = .accumulator := by simpa [slowRoute] using hroute
      exact rows_tapExecuteAccumulator_congr hrows env handlers moved

/-! ### Steps -/

theorem RoutesKept.mem_of_row (kept : RoutesKept run) {key : Text} (hkey : key ∈ idKeys id) {row : RouteRow}
    (hrow : run.state.rows.lookup key = some row) : id ∈ run.created := by
  by_contra hfresh
  rw [kept.rows.fresh id hfresh key hkey] at hrow
  cases hrow

theorem RoutesKept.movedMint (kept : RoutesKept run)
    (routeIs : run.state.RouteIs moved.inscriptionId (some .dmtMint))
    (routed : RoutedBy run.state.rows moved.inscriptionId (some .dmtMint)) :
    RoutesKept { run with
      state := RouteState.indexDmtMintTransferred env context timestamp moved run.state } := by
  obtain ⟨index, hindex, keptIndex⟩ := kept.index
  have touched : RoutesKept { run with
      state := run.state.withIndex fun index => index.touchDmtHot moved.inscriptionId } :=
    ⟨kept.rows, index.touchDmtHot moved.inscriptionId, by simp [RouteState.withIndex, hindex],
      keptIndex.touchDmtHot _⟩
  rw [indexDmtMintTransferred_eq (keptIndex.mintCached hindex _)]
  split
  · exact kept
  split
  next => exact touched
  next record prevOwner hstored =>
    have hkind : run.state.rows.lookup (kindKey moved.inscriptionId) = some (.text "dmtmh".toList) := by
      cases routed with
      | dmtMint hkind => exact hkind
    have hmem : moved.inscriptionId ∈ run.created := kept.mem_of_row (by simp [idKeys]) hkind
    have hmeta : run.state.rows.lookup (dmtmhmKey moved.inscriptionId) = some (.dmtMeta record) := by
      obtain ⟨found, hfound, hrest⟩ := bind_eq_some_iff.1 hstored
      obtain ⟨owner, hpair⟩ := Proc.of_bind hrest
      obtain ⟨row, hrow, hread⟩ := bind_eq_some_iff.1 hfound
      cases hpair
      cases row <;> cases hread
      exact hrow
    have touchedIs : (run.state.withIndex fun index =>
        index.touchDmtHot moved.inscriptionId).RouteIs moved.inscriptionId (some .dmtMint) := by
      intro found hfound
      obtain ⟨old, hold, rfl⟩ := map_eq_some_iff.1 hfound
      rw [routes_touchDmtHot]
      exact routeIs old hold
    exact touched.recordMovedMint (kept.rows.valid _ hmem) hmem touchedIs hkind hmeta

/-- A handler that runs for the route of its inscription keeps the invariant. -/
theorem RoutesKept.dispatchRoute (kept : RoutesKept run) {route route' : TapRoute}
    (hroute : route = route' ∨ route = slowRoute route')
    (routeIs : run.state.RouteIs moved.inscriptionId (some route'))
    (routed : RoutedBy run.state.rows moved.inscriptionId (some route')) :
    RoutesKept { run with
      state := tapDispatchTransferRoute env context timestamp handlers moved run.state route } := by
  have hchanged : ∀ {after : RouteState}, moved.inscriptionId ∈ run.created →
      ChangedAt moved.inscriptionId run.state after → RoutesKept { run with state := after } :=
    fun hmem changed => kept.changedAt changed (List.Subset.refl _) hmem kept.rows.valid
  cases route' with
  | bitmap block =>
      obtain ⟨number, rfl, hnumber⟩ : ∃ number, route = .bitmap number ∧ (number = none ∨ number = block) := by
        rcases hroute with rfl | rfl
        · exact ⟨block, rfl, .inr rfl⟩
        · exact ⟨none, rfl, .inl rfl⟩
      exact kept.movedBitmap routed hnumber
  | dmtMint =>
      obtain rfl : route = .dmtMint := by simpa [slowRoute] using hroute
      exact kept.movedMint routeIs routed
  | privilege =>
      obtain rfl : route = .privilege := by simpa [slowRoute] using hroute
      exact kept.sameRoutes ((SameRoutes.refl _).writeAll _)
  | transferLink =>
      obtain rfl : route = .transferLink := by simpa [slowRoute] using hroute
      have hmem : moved.inscriptionId ∈ run.created := by
        cases routed with
        | transferLink link hlink hkind htl hbmh hdmtmh hprvins hacc =>
            exact kept.mem_of_row (by simp [idKeys]) hkind
      exact hchanged hmem (changedAt_transferLink (kept.rows.valid _ hmem) routeIs routed)
  | accumulator =>
      obtain rfl : route = .accumulator := by simpa [slowRoute] using hroute
      cases routed with
      | accumulator noOther acc hacc =>
          have hmem : moved.inscriptionId ∈ run.created := kept.mem_of_row (by simp [idKeys]) hacc
          have waits : Waiting moved.inscriptionId run.state run.state :=
            ⟨.refl _ _, fun _ _ _ => rfl, noOther, .inr ⟨acc, hacc, routeIs⟩⟩
          exact hchanged hmem (changedAt_accumulator (kept.rows.valid _ hmem) waits)

/-- A dispatched move keeps the invariant. -/
theorem RoutesKept.dispatch (kept : RoutesKept run) {verify : Bool} {next : RouteState}
    (hnext : RouteState.tapDispatchTransfer env context timestamp verify handlers moved run.state =
      some next) : RoutesKept { run with state := next } := by
  obtain ⟨index, hindex, keptIndex⟩ := kept.index
  have routed := keptIndex.routed moved.inscriptionId
  have routeIs : run.state.RouteIs moved.inscriptionId (index.routes.lookup moved.inscriptionId) := by
    intro found hfound
    rw [Option.some.inj (hindex.symm.trans hfound)]
  have hslow : RoutesKept { run with
      state := RouteState.tapDispatchTransferSlow env context timestamp handlers moved run.state } := by
    rw [slow_of_routed routed]
    generalize index.routes.lookup moved.inscriptionId = route at routed routeIs ⊢
    cases route with
    | none => exact kept
    | some route => exact kept.dispatchRoute (.inr rfl) routeIs routed
  unfold RouteState.tapDispatchTransfer at hnext
  dsimp only at hnext
  rw [hindex] at hnext
  dsimp only at hnext
  split at hnext
  · split at hnext
    · cases hnext
      exact hslow
    · cases hnext
  split at hnext
  next route hroute =>
    cases hnext
    have hlookup : index.routes.lookup moved.inscriptionId = some route := by
      unfold TapRouteIndex.routeFor at hroute
      split at hroute
      · exact hroute
      · cases hroute
    rw [hlookup] at routed routeIs
    exact kept.dispatchRoute (.inl rfl) routeIs routed
  next =>
    split at hnext
    · cases hnext
      exact kept
    · cases hnext
      exact hslow

theorem RoutesKept.step
    (hparse : ∀ height body number, dogemapNumber height body = some number → env.parse body = none)
    (kept : RoutesKept run) {action : RouteAction} {next : RouteRun} (hcreated : CreatedOnce run action)
    (howned : MintsOwned action) (hstep : routeStep env run action = some next) : RoutesKept next := by
  obtain ⟨index, hindex, keptIndex⟩ := kept.index
  cases action with
  | created context timestamp created outcome =>
      cases hstep
      have fresh := kept.rows.fresh created.inscriptionId hcreated.2
      have routeIs : run.state.RouteIs created.inscriptionId none := by
        intro found hfound
        rw [Option.some.inj (hindex.symm.trans hfound)] at keptIndex
        exact (keptIndex.routed created.inscriptionId).none_of_fresh fresh
      have changed : ChangedAt created.inscriptionId run.state
          (RouteState.tapOnInscriptionCreated env context timestamp created outcome run.state) :=
        changedAt_created hparse hcreated.1 fresh routeIs fun minted hminted => howned minted hminted
      exact kept.changedAt changed (List.subset_cons_self _ _) List.mem_cons_self fun id hid => by
        rcases List.mem_cons.1 hid with rfl | hold
        · exact hcreated.1
        · exact kept.rows.valid id hold
  | moved context timestamp verify handlers moved =>
      obtain ⟨state, hstate, rfl⟩ := map_eq_some_iff.1 hstep
      unfold RouteState.tapOnInscriptionTransferred at hstate
      split at hstate
      · cases hstate
        exact kept
      next henabled =>
        have hstarted : ¬ (!featureEnabled env context .tapStart) = true := henabled
        rw [if_neg hstarted] at hstate
        exact kept.dispatch hstate
  | others writes =>
      cases hstep
      exact kept.sameRoutes ((SameRoutes.refl _).writeAll writes)
  | ready coverageHeight =>
      cases hstep
      exact ⟨kept.rows, index.markReady coverageHeight, by simp [RouteState.withIndex, hindex],
        keptIndex.of_values rfl (fun _ => rfl) fun _ => rfl⟩

/-! ### Agreement -/

theorem RoutesKept.agree (kept : RoutesKept run) : RoutesAgree env run.state := by
  intro index hindex hready
  obtain ⟨found, hfound, keptIndex⟩ := kept.index
  obtain rfl : index = found := Option.some.inj (hindex.symm.trans hfound)
  have hroute : ∀ id, index.routeFor id = index.routes.lookup id := fun id => by
    rw [TapRouteIndex.routeFor, if_pos hready]
  refine ⟨fun id => ?_, fun context timestamp verify handlers moved => ?_⟩
  · rw [hroute, classify_of_routed (keptIndex.routed id)]
  · have routed := keptIndex.routed moved.inscriptionId
    have bare : RoutedBy { run.state with routeIndex := none : RouteState }.rows moved.inscriptionId
        (index.routes.lookup moved.inscriptionId) := routed
    unfold RouteState.tapDispatchTransfer
    dsimp only
    rw [hindex]
    dsimp only
    rw [hroute, slow_of_routed bare, slow_of_routed routed, classify_of_routed routed, hready, Bool.and_true]
    generalize index.routes.lookup moved.inscriptionId = route at routed bare ⊢
    cases route with
    | none => cases verify <;> rfl
    | some route =>
        cases verify with
        | false =>
            exact congrArg some (rows_tapDispatchTransferRoute (.inl rfl) routed hindex keptIndex)
        | true =>
            rw [if_pos rfl, if_pos rfl]
            exact congrArg some (rows_tapDispatchTransferRoute (.inr rfl) routed hindex keptIndex)

end Steps

/-- In every run in which no DMT mint succeeds for an owner without an address, the index agrees with the
rows, whatever the size of its caches.  A text like `5.dogemap` is no JSON document. -/
theorem routesAgree_of_reaches (env : TapEnv)
    (hparse : ∀ height body number, dogemapNumber height body = some number → env.parse body = none)
    {maxHotEntries : ℕ} {run : RouteRun}
    (reaches : Run.Reaches (routeStep env)
      (fun run action => CreatedOnce run action ∧ MintsOwned action) (.empty maxHotEntries) run) :
    RoutesAgree env run.state := by
  have kept : RoutesKept run := by
    apply reaches.invariant RoutesKept
    · intro run next action kept hallowed hstep
      exact kept.step hparse hallowed.1 hallowed.2 hstep
    · exact .empty maxHotEntries
  exact kept.agree

/-! ### Owners without an address -/

/-- The documents of the mints end with a brace. -/
theorem parse_dogemap {height number : ℕ} {body : List UInt8}
    (hnumber : dogemapNumber height body = some number) : dmtEnv.parse body = none := by
  obtain ⟨-, -, rfl⟩ := dogemapNumber_spec hnumber
  have hlast : ∀ json ∈ [dmtDeployDocument, dmtMintDocument "5", dmtMintDocument "4294967301"],
      json.body.getLast? = some 125 := by decide
  have hbody : (bytesOf (Nat.toDigits 10 number ++ ".dogemap".toList)).getLast? = some 112 := by
    simp [bytesOf]
  apply List.find?_eq_none.2
  intro json hmem hsame
  have hbrace := hlast json hmem
  rw [of_decide_eq_true hsame, hbody] at hbrace
  exact absurd hbrace (by decide)

/-- A mint that passes its checks. -/
def mintOutcome : CreatedOutcome where
  earlier := []
  minted := some
    { tick := "abc".toList
      elem := "abc".toList
      dmtblck := 5
      blckdrp := false
      dep := inscriptionText dmtDeployId
      prts := none
      fail := false
      before := []
      after := [] }
  linked := none
  accumulated := none
  verified := none
  later := []

def mintCreated (owner : String) : RouteAction :=
  .created sampleContext 0 { inscribedText 8 "" owner with body := some (dmtMintDocument "5").body }
    mintOutcome

def noHandlers : MovedHandlers where
  transfer _ := none
  privilege _ := []
  accumulated _ _ := []

/-- A claim of block 5 and a mint for this owner; both move when the index is ready. -/
def mintRun (owner : String) : List RouteAction :=
  [.created sampleContext 0 (inscribedText 7 "5.dogemap" "D1") { mintOutcome with minted := none },
    mintCreated owner, .ready 6000000,
    .moved sampleContext 0 true noHandlers (movedTo 7 9 "D2")]

/-- The routes of the claim and of the mint by the index and by the rows. -/
def routeView (run : RouteRun) : List (Option TapRoute × Option TapRoute) :=
  [7, 8].map fun txid =>
    (run.state.routeIndex.bind fun index => index.routeFor ⟨txid, 0⟩,
      tapClassifyTransferRouteSlow ⟨txid, 0⟩ run.state)

theorem owned_mint_routed : ∃ run, routeView run =
      [(some (.bitmap (some 5)), some (.bitmap (some 5))), (some .dmtMint, some .dmtMint)] ∧
    RoutesAgree dmtEnv run.state := by
  have hexec : (Run.exec (routeStep dmtEnv)
      (fun run action => decide (CreatedOnce run action ∧ MintsOwned action)) (mintRun "D1")
      (.empty 1)).map routeView =
        some [(some (.bitmap (some 5)), some (.bitmap (some 5))), (some .dmtMint, some .dmtMint)] := by
    decide +kernel
  obtain ⟨run, reaches, hview⟩ := Run.exists_reaches_of_exec of_decide_eq_true hexec
  exact ⟨run, hview, routesAgree_of_reaches _ (fun _ _ _ hnumber => parse_dogemap hnumber) reaches⟩

/-- The rows of a mint for the owner `-` give it a route that the index does not have. -/
theorem unowned_mint_unrouted : ¬ ∀ env maxHotEntries run,
    (∀ height body number, dogemapNumber height body = some number → env.parse body = none) →
    Run.Reaches (routeStep env) CreatedOnce (.empty maxHotEntries) run → RoutesAgree env run.state := by
  intro hagree
  have hexec : (Run.exec (routeStep dmtEnv) (fun run action => decide (CreatedOnce run action))
      (mintRun "-") (.empty 1)).map (fun run => (routeView run, run.state.routeIndex.map (·.ready))) =
        some ([(some (.bitmap (some 5)), some (.bitmap (some 5))), (none, some .dmtMint)], some true) := by
    decide +kernel
  obtain ⟨run, reaches, hview⟩ := Run.exists_reaches_of_exec of_decide_eq_true hexec
  obtain ⟨hroutes, hready⟩ := Prod.mk.inj hview
  obtain ⟨index, hindex, hindexReady⟩ := map_eq_some_iff.1 hready
  have hsame := (hagree _ _ run (fun _ _ _ hnumber => parse_dogemap hnumber) reaches index hindex
    hindexReady).1 ⟨8, 0⟩
  simp only [routeView, List.map_cons, List.map_nil, hindex, bind_some, List.cons.injEq,
    Prod.mk.injEq] at hroutes
  rw [hroutes.2.1.1, hroutes.2.1.2] at hsame
  exact absurd hsame (by decide)

end OrdDogecoin.Tap
