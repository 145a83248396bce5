/-
Module: OrdDogecoin.Tap.AmmEffects
Purpose: What the actions on a pool do to the rows: the balances of authorities move at least by what
  the reserves move, whatever the targets are, and the shares of the pool move with those of a holder.
Trusted boundary: none
Main exports: AbMoved, processAmmRemoveLiquidityAction_spec, processAmmSwapAction_spec
-/
import OrdDogecoin.Tap.Settlements

namespace OrdDogecoin.Tap

open Option (bind_eq_some_iff)
open Proc (of_bind of_guard guard_bind_eq_some wp_read wp_bind wp_write_last)

variable {env : ProofEnv} {context : TapContext} {store after : ProofStore} {pool : AmmPoolRecord}
  {action : Json} {link : Option TokenAuthCreateRecord}

/-! ### Balances of authorities -/

/-- Only balances change, and those of authorities do not fall below a shift and not below zero. -/
structure AbMoved (delta : Text × TickKey → ℤ) (store after : ProofStore) : Prop where
  frame : ∃ b ab abli abo, after = { store with b := b, ab := ab, abli := abli, abo := abo }
  atLeast : ∀ key, bigAt store.ab key + delta key ≤ bigAt after.ab key
  nonneg : ∀ key, 0 ≤ bigAt store.ab key → 0 ≤ bigAt after.ab key

namespace AbMoved

theorem refl (store : ProofStore) : AbMoved (fun _ => 0) store store where
  frame := ⟨_, _, _, _, rfl⟩
  atLeast key := by simp
  nonneg key hnonneg := hnonneg

theorem trans {middle : ProofStore} {delta delta' : Text × TickKey → ℤ}
    (first : AbMoved delta store middle) (second : AbMoved delta' middle after) :
    AbMoved (fun key => delta key + delta' key) store after where
  frame := by
    obtain ⟨_, _, _, _, rfl⟩ := first.frame
    obtain ⟨_, _, _, _, rfl⟩ := second.frame
    exact ⟨_, _, _, _, rfl⟩
  atLeast key := by
    have hfirst := first.atLeast key
    have hsecond := second.atLeast key
    linarith
  nonneg key hnonneg := second.nonneg key (first.nonneg key hnonneg)

theorem of_eq {delta delta' : Text × TickKey → ℤ} (moved : AbMoved delta store after)
    (heq : ∀ key, delta' key = delta key) : AbMoved delta' store after := by
  have hsame : delta' = delta := funext heq
  rw [hsame]
  exact moved

/-- Nothing of an authority is touched. -/
theorem putBalance (store : ProofStore) (address : Address) (tick : TickKey) (n : ℤ) :
    AbMoved (fun _ => 0) store (store.putBalance address tick n) where
  frame := ⟨_, _, _, _, rfl⟩
  atLeast key := by simp [ProofStore.putBalance]
  nonneg key hnonneg := hnonneg

theorem putAuthority (env : ProofEnv) (store : ProofStore) (auth : Text) (tick : TickKey) {delta : ℤ}
    (hnonneg : 0 ≤ bigAt store.ab (auth, tick) + delta) :
    AbMoved (fun key => if key = (auth, tick) then delta else 0) store
      (store.putAuthorityBalance env auth tick (bigAt store.ab (auth, tick) + delta)) where
  frame := by
    obtain ⟨abli, abo, hput⟩ := putAuthorityBalance_eq env store auth tick
      (bigAt store.ab (auth, tick) + delta)
    exact ⟨_, _, _, _, hput⟩
  atLeast key := by
    rw [bigAt_putAuthorityBalance]
    split
    next hkey => rw [hkey]
    next => rw [add_zero]
  nonneg key hold := by
    rw [bigAt_putAuthorityBalance]
    split
    · exact hnonneg
    · exact hold

end AbMoved

section Wp

variable {post : Unit → ProofStore → Prop}

theorem wp_addAuthority {auth : Text} {tick : TickKey} {delta : ℤ}
    (hpost : ∀ after, AbMoved (fun key => if key = (auth, tick) then delta else 0) store after →
      post () after) :
    Proc.wp (tapAddAuthorityBalanceBigint env auth tick delta) post (fun _ _ => True) store := by
  apply wp_tapAddAuthorityBalanceBigint
  intro hnonneg
  exact hpost _ (.putAuthority env store auth tick hnonneg)

theorem wp_debitAmmAccount {address : Address} {tick : TickKey} {amount : ℤ}
    (hpost : ∀ after, AbMoved (fun _ => 0) store after → post () after) :
    Proc.wp (debitAmmAccount env context address tick amount) post (fun _ _ => True) store := by
  unfold debitAmmAccount
  apply wp_read
  apply wp_read
  apply ProofHandler.wp_require
  intro _
  apply ProofHandler.wp_require
  intro _
  exact wp_write_last (hpost _ (.putBalance store address tick _))

/-- A credit takes nothing from any authority, also when the target is the pool itself. -/
theorem wp_creditAmmTarget {target : AmmTarget} {tick : TickKey} {amount : ℤ}
    (hpost : ∀ after, AbMoved (fun _ => 0) store after → post () after) :
    Proc.wp (creditAmmTarget env target tick amount) post (fun _ _ => True) store := by
  unfold creditAmmTarget
  split
  · exact Proc.wp_pure (hpost _ (.refl store))
  next hamount =>
    cases target with
    | account address =>
        dsimp only
        apply wp_read
        apply wp_tapPutAddressBalanceBigint
        intro _
        exact hpost _ (.putBalance store address tick _)
    | authority auth =>
        apply wp_tapAddAuthorityBalanceBigint
        intro hnonneg
        have moved := AbMoved.putAuthority env store auth tick hnonneg
        apply hpost
        refine ⟨moved.frame, fun key => ?_, moved.nonneg⟩
        have hkey := moved.atLeast key
        split at hkey
        · omega
        · exact hkey
    | burn => exact Proc.wp_pure (hpost _ (.refl store))

theorem wp_creditProtocolFee {pool : AmmPoolRecord} {tick : TickKey} {fee : ℤ}
    (hpost : ∀ after, AbMoved (fun _ => 0) store after → post () after) :
    Proc.wp (creditProtocolFee env context pool tick fee) post (fun _ _ => True) store := by
  unfold creditProtocolFee
  split
  · apply ProofHandler.wp_get
    intro target _
    apply wp_read
    apply ProofHandler.wp_require
    intro _
    exact wp_creditAmmTarget hpost
  · exact Proc.wp_pure (hpost _ (.refl store))

end Wp

/-! ### Deltas of a pool -/

/-- What the sides of a pool with a ticker sum up to. -/
def AmmPoolRecord.sideSum (env : ProofEnv) (pool : AmmPoolRecord) (amounts : Fin 2 → ℤ)
    (tick : TickKey) : ℤ :=
  (if pool.tickKey env 0 = some tick then amounts 0 else 0) +
    if pool.tickKey env 1 = some tick then amounts 1 else 0

/-- The shift of the balances of a pool when its sides move. -/
def poolDelta (env : ProofEnv) (pid : Text) (pool : AmmPoolRecord) (amounts : Fin 2 → ℤ) :
    Text × TickKey → ℤ :=
  fun key => if key.1 = pid then pool.sideSum env amounts key.2 else 0

/-- Two shifts, one for each side, make up the shift of the pool. -/
theorem poolDelta_eq {pid : Text} {amounts : Fin 2 → ℤ} {tick0 tick1 : TickKey}
    (htick0 : pool.tickKey env 0 = some tick0) (htick1 : pool.tickKey env 1 = some tick1)
    (key : Text × TickKey) :
    poolDelta env pid pool amounts key =
      (if key = (pid, tick0) then amounts 0 else 0) + if key = (pid, tick1) then amounts 1 else 0 := by
  obtain ⟨auth, tick⟩ := key
  unfold poolDelta AmmPoolRecord.sideSum
  rw [htick0, htick1]
  by_cases hauth : auth = pid
  · subst hauth
    simp [eq_comm]
  · simp [hauth]

/-! ### Effects -/

/-- What an action on a pool does: its sides move with its balances, and the shares of a holder with
those of the pool. -/
structure PoolActed (env : ProofEnv) (pid : Text) (pool : AmmPoolRecord) (amounts : Fin 2 → ℤ)
    (shares : ℤ) (ammp : KeyTable (Text × AmmTarget) ℤ) (store after : ProofStore) : Prop where
  found : store.amm.lookup pid = some pool
  tap : pool.assetsAreTap = true
  rows : ∃ middle, AbMoved (poolDelta env pid pool amounts) store middle ∧ after =
    { middle with
      ammp := ammp
      amm := store.amm.insert pid
        { pool with r := fun side => pool.r side + amounts side, sh := shares } }

theorem namedPool_spec {pid : Text} (hnamed : store.namedPool context action = some (pid, pool)) :
    pid = action.text "auth" ∧ store.amm.lookup pid = some pool ∧ pool.assetsAreTap = true := by
  unfold ProofStore.namedPool at hnamed
  obtain ⟨field, hfield, hnamed⟩ := bind_eq_some_iff.1 hnamed
  obtain ⟨text, htext, hnamed⟩ := bind_eq_some_iff.1 hnamed
  replace hnamed := of_guard hnamed
  obtain ⟨found, hfound, hnamed⟩ := bind_eq_some_iff.1 hnamed
  obtain ⟨htap, hnamed⟩ := guard_bind_eq_some.1 hnamed
  cases hnamed
  exact ⟨(Json.text_eq hfield htext).symm, hfound, htap⟩

theorem pairAmounts_pos {values : Json} {tokens : Fin 2 → DeployRecord} {amounts : Fin 2 → ℤ}
    (hamounts : pairAmounts env context values tokens = some amounts) (side : Fin 2) :
    0 < amounts side := by
  unfold pairAmounts at hamounts
  split at hamounts
  · obtain ⟨amount0, hamount0, hamounts⟩ := bind_eq_some_iff.1 hamounts
    obtain ⟨amount1, hamount1, hamounts⟩ := bind_eq_some_iff.1 hamounts
    cases hamounts
    match side with
    | 0 => exact resolveProtocolAmount_pos hamount0
    | 1 => exact resolveProtocolAmount_pos hamount1
  · cases hamounts

theorem parseAmmUintValue_pos {value : Json} {n : ℤ} (hparsed : parseAmmUintValue value false = some n) :
    0 < n := by
  unfold parseAmmUintValue at hparsed
  obtain ⟨text, hparsed⟩ := of_bind hparsed
  unfold parseAmmUintStr at hparsed
  replace hparsed := of_guard hparsed
  obtain ⟨parsed, hparsed⟩ := of_bind hparsed
  obtain ⟨hne, hparsed⟩ := guard_bind_eq_some.1 hparsed
  cases hparsed
  rcases hne with hfalse | hne
  · cases hfalse
  · omega

/-! ### Deposits -/

/-- What `normalize_amm_add_liquidity_action` has checked. -/
structure AddChecked (env : ProofEnv) (context : TapContext) (action : Json) (store : ProofStore)
    (add : AmmAddValidation) : Prop where
  pid_eq : add.pid = action.text "auth"
  found : store.amm.lookup add.pid = some add.pool
  tap : add.pool.assetsAreTap = true
  amounts_pos : ∀ side, 0 < add.amounts side
  minted : ∃ burnMinted, add.pool.mintedShares add.amounts = some (add.minted, burnMinted) ∧
    add.sharesAfter = add.pool.sh + add.minted + burnMinted
  minted_pos : 0 < add.minted

theorem normalizeAmmAddLiquidityAction_spec {add : AmmAddValidation}
    (hvalid : normalizeAmmAddLiquidityAction env context action store = some add) :
    AddChecked env context action store add := by
  unfold normalizeAmmAddLiquidityAction at hvalid
  obtain ⟨⟨pid, pool⟩, hnamed, hvalid⟩ := bind_eq_some_iff.1 hvalid
  replace hvalid := of_guard hvalid
  obtain ⟨_, hvalid⟩ := of_bind hvalid
  obtain ⟨dest, hvalid⟩ := of_bind hvalid
  obtain ⟨tokens, hvalid⟩ := of_bind hvalid
  obtain ⟨_, hvalid⟩ := of_bind hvalid
  obtain ⟨amounts, hamounts, hvalid⟩ := bind_eq_some_iff.1 hvalid
  obtain ⟨_, hvalid⟩ := of_bind hvalid
  obtain ⟨minShares, hvalid⟩ := of_bind hvalid
  obtain ⟨⟨minted, burnMinted⟩, hminted, hvalid⟩ := bind_eq_some_iff.1 hvalid
  obtain ⟨hpos, hvalid⟩ := guard_bind_eq_some.1 hvalid
  cases hvalid
  obtain ⟨hpid, hfound, htap⟩ := namedPool_spec hnamed
  exact
    { pid_eq := hpid
      found := hfound
      tap := htap
      amounts_pos := pairAmounts_pos hamounts
      minted := ⟨burnMinted, hminted, rfl⟩
      minted_pos := hpos.1 }

theorem wp_addAmmLpShares {pid : Text} {target : AmmTarget} {delta : ℤ}
    {post : Unit → ProofStore → Prop}
    (hpost : 0 ≤ store.ammLpShares pid target + delta →
      post ()
        { store with
          ammp := store.ammp.insert (pid, target) (store.ammLpShares pid target + delta) }) :
    Proc.wp (addAmmLpShares pid target delta) post (fun _ _ => True) store := by
  unfold addAmmLpShares
  apply wp_read
  apply ProofHandler.wp_require
  intro hnonneg
  exact wp_write_last (hpost (by simpa using hnonneg))

theorem processAmmAddLiquidityAction_spec :
    Proc.wp (processAmmAddLiquidityAction env context action link)
      (fun _ after => ∃ add, AddChecked env context action store add ∧
        PoolActed env add.pid add.pool add.amounts add.sharesAfter
          (store.ammp.insert (add.pid, add.dest) (store.ammLpShares add.pid add.dest + add.minted))
          store after) (fun _ _ => True) store := by
  unfold processAmmAddLiquidityAction
  apply ProofHandler.wp_get
  intro link _
  apply wp_read
  apply ProofHandler.wp_get
  intro add hvalid
  have checked := normalizeAmmAddLiquidityAction_spec hvalid
  dsimp only
  apply ProofHandler.wp_get
  intro tick0 htick0
  apply ProofHandler.wp_get
  intro tick1 htick1
  apply wp_bind
  apply wp_debitAmmAccount
  intro store1 moved1
  apply wp_bind
  apply wp_debitAmmAccount
  intro store2 moved2
  apply wp_bind
  apply wp_addAuthority
  intro store3 moved3
  apply wp_bind
  apply wp_addAuthority
  intro store4 moved4
  apply wp_bind
  apply wp_addAmmLpShares
  intro _
  apply wp_write_last
  have moved := ((moved1.trans moved2).trans moved3).trans moved4
  refine ⟨add, checked, checked.found, checked.tap, store4, moved.of_eq fun key => ?_, ?_⟩
  · rw [poolDelta_eq htick0 htick1]
    ring
  · obtain ⟨b, ab, abli, abo, hframe⟩ := moved.frame
    have hammp : store4.ammp = store.ammp := by rw [hframe]
    have hamm : store4.amm = store.amm := by rw [hframe]
    unfold ProofStore.ammLpShares
    rw [hammp, hamm]

/-! ### Withdrawals -/

/-- What `normalize_amm_remove_liquidity_action` has checked. -/
structure RemoveChecked (env : ProofEnv) (context : TapContext) (store : ProofStore)
    (remove : AmmRemoveValidation) : Prop where
  found : store.amm.lookup remove.pid = some remove.pool
  tap : remove.pool.assetsAreTap = true
  shares_pos : 0 < remove.shares
  shares_le : remove.shares ≤ store.ammLpShares remove.pid remove.owner
  poolShares_pos : 0 < remove.pool.sh
  outputs_eq : ∀ side, remove.outputs side = (remove.shares * remove.pool.r side).tdiv remove.pool.sh
  covered : store.coverObligationLocks env remove.pid remove.pool
    (fun side => remove.pool.r side - remove.outputs side) = true

theorem normalizeAmmRemoveLiquidityAction_spec {link : TokenAuthCreateRecord}
    {remove : AmmRemoveValidation}
    (hvalid : normalizeAmmRemoveLiquidityAction env context action link store = some remove) :
    RemoveChecked env context store remove := by
  unfold normalizeAmmRemoveLiquidityAction at hvalid
  obtain ⟨⟨pid, pool⟩, hnamed, hvalid⟩ := bind_eq_some_iff.1 hvalid
  obtain ⟨owner, hvalid⟩ := of_bind hvalid
  obtain ⟨_, hvalid⟩ := of_bind hvalid
  obtain ⟨dest, hvalid⟩ := of_bind hvalid
  obtain ⟨tokens, hvalid⟩ := of_bind hvalid
  obtain ⟨_, hvalid⟩ := of_bind hvalid
  obtain ⟨shares, hparsed, hvalid⟩ := bind_eq_some_iff.1 hvalid
  obtain ⟨_, hvalid⟩ := of_bind hvalid
  obtain ⟨minimal, hvalid⟩ := of_bind hvalid
  obtain ⟨hpositive, hvalid⟩ := guard_bind_eq_some.1 hvalid
  obtain ⟨hshares, hvalid⟩ := guard_bind_eq_some.1 hvalid
  replace hvalid := of_guard hvalid
  obtain ⟨hcover, hvalid⟩ := guard_bind_eq_some.1 hvalid
  cases hvalid
  obtain ⟨-, hfound, htap⟩ := namedPool_spec hnamed
  exact
    { found := hfound
      tap := htap
      shares_pos := parseAmmUintValue_pos hparsed
      shares_le := hshares
      poolShares_pos := hpositive.1
      outputs_eq := fun _ => rfl
      covered := hcover }

theorem processAmmRemoveLiquidityAction_spec :
    Proc.wp (processAmmRemoveLiquidityAction env context action link)
      (fun _ after => ∃ remove, RemoveChecked env context store remove ∧
        PoolActed env remove.pid remove.pool (fun side => -remove.outputs side)
          (remove.pool.sh - remove.shares)
          (store.ammp.insert (remove.pid, remove.owner)
            (store.ammLpShares remove.pid remove.owner + -remove.shares))
          store after) (fun _ _ => True) store := by
  unfold processAmmRemoveLiquidityAction
  apply ProofHandler.wp_get
  intro link _
  apply wp_read
  apply ProofHandler.wp_get
  intro remove hvalid
  have checked := normalizeAmmRemoveLiquidityAction_spec hvalid
  dsimp only
  apply ProofHandler.wp_get
  intro tick0 htick0
  apply ProofHandler.wp_get
  intro tick1 htick1
  apply wp_bind
  apply wp_addAmmLpShares
  intro _
  apply wp_bind
  apply wp_addAuthority
  intro store1 moved1
  apply wp_bind
  apply wp_addAuthority
  intro store2 moved2
  apply wp_bind
  apply wp_creditAmmTarget
  intro store3 moved3
  apply wp_bind
  apply wp_creditAmmTarget
  intro store4 moved4
  apply wp_write_last
  have moved := ((moved1.trans moved2).trans moved3).trans moved4
  obtain ⟨b, ab, abli, abo, hframe⟩ := moved.frame
  refine ⟨remove, checked, checked.found, checked.tap, { store4 with ammp := store.ammp }, ?_, ?_⟩
  · constructor
    · rw [hframe]
      exact ⟨_, _, _, _, rfl⟩
    · intro key
      rw [poolDelta_eq htick0 htick1]
      have hkey := moved.atLeast key
      dsimp only at hkey ⊢
      linarith
    · exact moved.nonneg
  · rw [hframe]
    rfl

/-! ### Swaps -/

/-- How a swap moves the sides of its pool. -/
def AmmSwapCalc.amounts (swap : AmmSwapCalc) (side other : Fin 2) : ℤ :=
  if other = side then swap.amountIn - swap.protocolFee else -swap.amountOut

theorem swapped_eq (pool : AmmPoolRecord) (side : Fin 2) (swap : AmmSwapCalc) :
    pool.swapped side swap = fun other => pool.r other + swap.amounts side other := by
  funext other
  unfold AmmPoolRecord.swapped AmmSwapCalc.amounts
  split
  · ring
  · ring

/-- What `normalize_amm_swap_action` has checked. -/
structure SwapChecked (env : ProofEnv) (context : TapContext) (store : ProofStore)
    (swap : AmmSwapValidation) : Prop where
  found : store.amm.lookup swap.pid = some swap.pool
  tap : swap.pool.assetsAreTap = true
  covered : store.coverObligationLocks env swap.pid swap.pool
    (swap.pool.swapped swap.side swap.swap) = true

theorem normalizeAmmSwapAction_spec {swap : AmmSwapValidation}
    (hvalid : normalizeAmmSwapAction env context action store = some swap) :
    SwapChecked env context store swap := by
  unfold normalizeAmmSwapAction at hvalid
  obtain ⟨⟨pid, pool⟩, hnamed, hvalid⟩ := bind_eq_some_iff.1 hvalid
  replace hvalid := of_guard hvalid
  obtain ⟨_, hvalid⟩ := of_bind hvalid
  obtain ⟨side, hvalid⟩ := of_bind hvalid
  obtain ⟨_, hvalid⟩ := of_bind hvalid
  obtain ⟨dest, hvalid⟩ := of_bind hvalid
  obtain ⟨tokens, hvalid⟩ := of_bind hvalid
  obtain ⟨calculated, hvalid⟩ := of_bind hvalid
  replace hvalid := of_guard hvalid
  obtain ⟨hcover, hvalid⟩ := guard_bind_eq_some.1 hvalid
  cases hvalid
  obtain ⟨-, hfound, htap⟩ := namedPool_spec hnamed
  exact { found := hfound, tap := htap, covered := hcover }

/-- The two shifts of a swap make up the shift of its pool. -/
theorem poolDelta_swap {pid : Text} {swap : AmmSwapCalc} {side : Fin 2} {inTick outTick : TickKey}
    (hin : pool.tickKey env side = some inTick) (hout : pool.tickKey env (1 - side) = some outTick)
    (key : Text × TickKey) :
    poolDelta env pid pool (swap.amounts side) key =
      (if key = (pid, inTick) then swap.amountIn - swap.protocolFee else 0) +
        if key = (pid, outTick) then -swap.amountOut else 0 := by
  match side with
  | 0 => exact poolDelta_eq hin hout key
  | 1 =>
      rw [poolDelta_eq hout hin key, add_comm]
      rfl

theorem processAmmSwapAction_spec :
    Proc.wp (processAmmSwapAction env context action link)
      (fun _ after => ∃ swap, SwapChecked env context store swap ∧
        PoolActed env swap.pid swap.pool (swap.swap.amounts swap.side) swap.pool.sh store.ammp
          store after) (fun _ _ => True) store := by
  unfold processAmmSwapAction
  apply ProofHandler.wp_get
  intro link _
  apply wp_read
  apply ProofHandler.wp_get
  intro swap hvalid
  have checked := normalizeAmmSwapAction_spec hvalid
  dsimp only
  apply ProofHandler.wp_get
  intro inTick hin
  apply ProofHandler.wp_get
  intro outTick hout
  apply wp_bind
  apply wp_debitAmmAccount
  intro store1 moved1
  apply wp_bind
  apply wp_addAuthority
  intro store2 moved2
  apply wp_bind
  apply wp_addAuthority
  intro store3 moved3
  apply wp_bind
  apply wp_creditAmmTarget
  intro store4 moved4
  apply wp_bind
  apply wp_creditProtocolFee
  intro store5 moved5
  apply wp_write_last
  have moved := (((moved1.trans moved2).trans moved3).trans moved4).trans moved5
  refine ⟨swap, checked, checked.found, checked.tap, store5, moved.of_eq fun key => ?_, ?_⟩
  · rw [poolDelta_swap hin hout]
    ring
  · obtain ⟨b, ab, abli, abo, hframe⟩ := moved.frame
    rw [hframe, swapped_eq]

/-! ### Creation -/

/-- What a new pool is like. -/
structure ConfigChecked (env : ProofEnv) (place : ActionPlace) (store : ProofStore) (id : Text)
    (pool : AmmPoolRecord) : Prop where
  id_eq : id = tokenProofLockId place
  fresh : store.amm.lookup id = none
  reserves : pool.r = fun _ => 0
  shares : pool.sh = 0
  min_pos : 0 < pool.min
  ticks : ∀ side, pool.assetIsTap side = true → (pool.tickKey env side).isSome

/-- A normalized asset of type `tap` has a ticker. -/
theorem normalizeAmmAsset_tick {value asset : Json} {key : Text}
    (hasset : store.normalizeAmmAsset env value = some (asset, key))
    (htap : (asset.get "ty").bind Json.asStr = some "tap".toList) :
    ((asset.get "tick").bind Json.asStr).isSome := by
  unfold ProofStore.normalizeAmmAsset at hasset
  replace hasset := of_guard hasset
  obtain ⟨_, hasset⟩ := of_bind hasset
  obtain ⟨ty, hasset⟩ := of_bind hasset
  dsimp only at hasset
  split at hasset
  · obtain ⟨_, hasset⟩ := of_bind hasset
    obtain ⟨tick, hasset⟩ := of_bind hasset
    obtain ⟨_, hasset⟩ := of_bind hasset
    cases hasset
    rfl
  split at hasset
  next hext =>
    obtain ⟨ns, hasset⟩ := of_bind hasset
    obtain ⟨cid, hasset⟩ := of_bind hasset
    obtain ⟨aid, hasset⟩ := of_bind hasset
    obtain ⟨_, hasset⟩ := of_bind hasset
    obtain ⟨_, hasset⟩ := of_bind hasset
    obtain ⟨dec, hasset⟩ := of_bind hasset
    replace hasset := of_guard hasset
    replace hasset := of_guard hasset
    cases hasset
    change some (env.toLowercase ty) = _ at htap
    rw [hext] at htap
    cases htap
  · cases hasset

theorem ammAssets_tick {assets : Fin 2 → Json} (hassets : store.ammAssets env action = some assets)
    (side : Fin 2) (htap : ((assets side).get "ty").bind Json.asStr = some "tap".toList) :
    (((assets side).get "tick").bind Json.asStr).isSome := by
  unfold ProofStore.ammAssets at hassets
  obtain ⟨field, hassets⟩ := of_bind hassets
  split at hassets
  · obtain ⟨⟨first, firstKey⟩, hfirst, hassets⟩ := bind_eq_some_iff.1 hassets
    obtain ⟨⟨second, secondKey⟩, hsecond, hassets⟩ := bind_eq_some_iff.1 hassets
    replace hassets := of_guard hassets
    cases hassets
    match side with
    | 0 => exact normalizeAmmAsset_tick hfirst htap
    | 1 => exact normalizeAmmAsset_tick hsecond htap
  · cases hassets

theorem validateAmmConfigAction_spec {place : ActionPlace} {id : Text}
    (hvalid : validateAmmConfigAction env context action link place store = some (id, pool)) :
    ConfigChecked env place store id pool := by
  unfold validateAmmConfigAction at hvalid
  obtain ⟨link, hvalid⟩ := of_bind hvalid
  replace hvalid := of_guard hvalid
  obtain ⟨config, hvalid⟩ := of_bind hvalid
  obtain ⟨control, hvalid⟩ := of_bind hvalid
  obtain ⟨_, hvalid⟩ := of_bind hvalid
  obtain ⟨_, hvalid⟩ := of_bind hvalid
  replace hvalid := of_guard hvalid
  obtain ⟨_, hvalid⟩ := of_bind hvalid
  obtain ⟨pause, hvalid⟩ := of_bind hvalid
  obtain ⟨hfresh, hvalid⟩ := guard_bind_eq_some.1 hvalid
  obtain ⟨assets, hassets, hvalid⟩ := bind_eq_some_iff.1 hvalid
  obtain ⟨_, hvalid⟩ := of_bind hvalid
  obtain ⟨fee, hvalid⟩ := of_bind hvalid
  obtain ⟨pf, hvalid⟩ := of_bind hvalid
  obtain ⟨_, hvalid⟩ := of_bind hvalid
  obtain ⟨min, hmin, hvalid⟩ := bind_eq_some_iff.1 hvalid
  replace hvalid := of_guard hvalid
  obtain ⟨pp, hvalid⟩ := of_bind hvalid
  replace hvalid := of_guard hvalid
  cases hvalid
  exact
    { id_eq := rfl
      fresh := by simpa using hfresh.2
      reserves := rfl
      shares := rfl
      min_pos := parseAmmUintValue_pos hmin
      ticks := by
        intro side htap
        unfold AmmPoolRecord.assetIsTap at htap
        unfold AmmPoolRecord.tickKey
        rw [Option.isSome_map]
        exact ammAssets_tick hassets side (of_decide_eq_true htap) }

theorem processAmmConfigAction_spec {place : ActionPlace} :
    Proc.wp (processAmmConfigAction env context action link place)
      (fun _ after => ∃ pool ah, ConfigChecked env place store (tokenProofLockId place) pool ∧
        after =
          { store with
            amm := store.amm.insert (tokenProofLockId place) pool
            ah := ah }) (fun _ _ => True) store := by
  unfold processAmmConfigAction
  apply wp_read
  apply ProofHandler.wp_get
  rintro ⟨id, pool⟩ hvalid
  have checked := validateAmmConfigAction_spec hvalid
  cases checked.id_eq
  dsimp only
  apply Proc.wp_write
  apply wp_write_last
  exact ⟨pool, _, checked, rfl⟩

end OrdDogecoin.Tap
