/-
Module: OrdDogecoin.Tap.AmmInvariant
Purpose: Runs of actions on pools and obligations.  After every action the balances of a pool back its
  reserves, the reserves cover the obligations of each side, and its shares are those of its holders
  and the ones its first deposit has locked.
Trusted boundary: none
Main exports: AuthLink, PoolSound, pools_sound_of_reaches
-/
import OrdDogecoin.Tap.AmmEffects
import OrdDogecoin.Tap.LockSafety

namespace OrdDogecoin.Tap

open Chain
open ProofHandler

/-! ### Runs -/

/-- The authority that signs an action: its row is written for an inscription. -/
structure AuthLink where
  addr : Address
  auth : List Text
  id : InscriptionId

def AuthLink.record (link : AuthLink) : TokenAuthCreateRecord where
  addr := link.addr
  auth := link.auth
  ins := inscriptionText link.id

/-- The rows, and the pools that have had a deposit. -/
structure PoolRun where
  store : ProofStore
  deposited : List Text

/-- The actions on pools and obligations; the balance of a token authority may become any amount, and
the rows that are not those of pools, obligations and authorities may change in any way. -/
inductive PoolAction where
  | config (context : TapContext) (link : AuthLink) (place : ActionPlace) (action : Json)
  | addLiquidity (context : TapContext) (link : AuthLink) (action : Json)
  | removeLiquidity (context : TapContext) (link : AuthLink) (action : Json)
  | swap (context : TapContext) (link : AuthLink) (action : Json)
  | openObligation (context : TapContext) (link : AuthLink) (place : ActionPlace) (action : Json)
  | settle (context : TapContext) (action : Json)
  | fund (auth : InscriptionId) (tick : TickKey) (amount : ℕ)
  | other (update : ProofStore → ProofStore)

def poolStep (env : ProofEnv) (run : PoolRun) : PoolAction → Option PoolRun
  | .config context link place action =>
      ((processAmmConfigAction env context action (some link.record) place).commit run.store).map
        fun after => { run with store := after }
  | .addLiquidity context link action =>
      ((processAmmAddLiquidityAction env context action (some link.record)).commit run.store).map
        fun after => { store := after, deposited := action.text "auth" :: run.deposited }
  | .removeLiquidity context link action =>
      ((processAmmRemoveLiquidityAction env context action (some link.record)).commit run.store).map
        fun after => { run with store := after }
  | .swap context link action =>
      ((processAmmSwapAction env context action (some link.record)).commit run.store).map
        fun after => { run with store := after }
  | .openObligation context link place action =>
      ((processObligationOpenAction env context action (some link.record) place).commit
        run.store).map fun after => { run with store := after }
  | .settle context action =>
      ((processObligationSettleAction env context action).commit run.store).map
        fun after => { run with store := after }
  | .fund auth tick amount =>
      some { run with store := run.store.putAuthorityBalance env (inscriptionText auth) tick amount }
  | .other update =>
      some
        { run with
          store :=
            { update run.store with
              ab := run.store.ab
              amm := run.store.amm
              ammp := run.store.ammp
              oll := run.store.oll
              ob := run.store.ob } }

/-- A run starts without pools and obligations. -/
def PoolRun.start (store : ProofStore) : PoolRun where
  store := { store with ab := ∅, amm := ∅, ammp := ∅, oll := ∅, ob := ∅ }
  deposited := []

/-! ### Identifiers -/

/-- The identifier of an inscription is never that of a pool. -/
theorem colon_not_mem_inscriptionText (id : InscriptionId) : ':' ∉ inscriptionText id :=
  not_mem_inscriptionText (by decide) (by decide) id

theorem colon_mem_tokenProofLockId (place : ActionPlace) : ':' ∈ tokenProofLockId place := by
  unfold tokenProofLockId
  simp

/-! ### The invariant -/

/-- The shares of all holders of a pool. -/
def lpTotal (pid : Text) (ammp : KeyTable (Text × AmmTarget) ℤ) : ℤ :=
  KeyTable.totalWhere (fun key => key.1 = pid) id ammp

/-- What holds of a pool. -/
structure PoolInvariant (env : ProofEnv) (run : PoolRun) (pid : Text) (pool : AmmPoolRecord) :
    Prop where
  poolId : ':' ∈ pid
  ticks : ∀ side, pool.assetIsTap side = true → (pool.tickKey env side).isSome
  backed : ∀ tick, pool.sideSum env pool.r tick ≤ bigAt run.store.ab (pid, tick)
  covered : ∀ side tick, pool.tickKey env side = some tick →
    bigAt run.store.oll (.pool pid side, tick) ≤ pool.r side
  reserves_nonneg : ∀ side, 0 ≤ pool.r side
  min_pos : 0 < pool.min
  shares : pool.sh = lpTotal pid run.store.ammp + if pid ∈ run.deposited then pool.min else 0
  undeposited : pid ∉ run.deposited → pool.sh = 0

/-- What holds in every state of a run. -/
structure PoolsInvariant (env : ProofEnv) (run : PoolRun) : Prop where
  pools : ∀ {pid pool}, run.store.amm.lookup pid = some pool → PoolInvariant env run pid pool
  ab_nonneg : ∀ key, 0 ≤ bigAt run.store.ab key
  oll_nonneg : ∀ key, 0 ≤ bigAt run.store.oll key
  lp_nonneg : ∀ {key row}, run.store.ammp.lookup key = some row → 0 ≤ row
  fresh : ∀ {pid}, run.store.amm.lookup pid = none →
    (∀ side tick, bigAt run.store.oll (.pool pid side, tick) = 0) ∧
      lpTotal pid run.store.ammp = 0 ∧ pid ∉ run.deposited
  sources : ∀ {id obligation}, run.store.ob.lookup id = some obligation →
    ∀ {auth}, obligation.src = .authority auth → ':' ∉ auth

theorem lpTotal_nonneg {env : ProofEnv} {run : PoolRun} (inv : PoolsInvariant env run) (pid : Text) :
    0 ≤ lpTotal pid run.store.ammp :=
  KeyTable.totalWhere_nonneg _ _ fun _ _ hrow => inv.lp_nonneg hrow

/-- Adding to the shares of one holder. -/
theorem lpTotal_insert (pid other : Text) (target : AmmTarget) (ammp : KeyTable (Text × AmmTarget) ℤ)
    (delta : ℤ) :
    lpTotal other (ammp.insert (pid, target) (bigAt ammp (pid, target) + delta)) =
      lpTotal other ammp + if other = pid then delta else 0 := by
  unfold lpTotal
  by_cases hother : other = pid
  · subst hother
    have haccount := KeyTable.totalWhere_insert (fun key : Text × AmmTarget => key.1 = other) id
      (other, target) rfl ammp (bigAt ammp (other, target) + delta)
    have hvalue : KeyTable.valueAt id ammp (other, target) = bigAt ammp (other, target) := by
      unfold KeyTable.valueAt bigAt
      rw [Option.map_id]
      rfl
    rw [hvalue] at haccount
    rw [if_pos rfl]
    simp only [id_eq] at haccount
    linarith
  · rw [if_neg hother, add_zero]
    exact KeyTable.totalWhere_insert_of_not _ _ (pid, target) (fun heq => hother heq.symm) _ _

/-! ### Steps -/

def ObligationTarget.poolId : ObligationTarget → Option Text
  | .pool pid _ => some pid
  | _ => none

theorem ObligationTarget.authorityId_of_poolId {target : ObligationTarget} {pid : Text}
    (htarget : target.poolId = some pid) : target.authorityId = some pid := by
  cases target with
  | pool other side => exact htarget
  | account address => cases htarget
  | authority auth => cases htarget
  | burn => cases htarget

section Steps

variable {env : ProofEnv} {context : TapContext} {after : ProofStore} {run : PoolRun}

namespace PoolsInvariant

theorem start (store : ProofStore) : PoolsInvariant env (PoolRun.start store) where
  pools hrow := by cases hrow
  ab_nonneg key := le_refl 0
  oll_nonneg key := le_refl 0
  lp_nonneg hrow := by cases hrow
  fresh _ := ⟨fun _ _ => rfl, rfl, List.not_mem_nil⟩
  sources hrow := by cases hrow

/-- What touches only rows that the invariant does not speak of. -/
theorem frame (inv : PoolsInvariant env run) (next : ProofStore) (hab : next.ab = run.store.ab)
    (hamm : next.amm = run.store.amm) (hammp : next.ammp = run.store.ammp)
    (holl : next.oll = run.store.oll) (hob : next.ob = run.store.ob) :
    PoolsInvariant env { run with store := next } where
  pools := by
    intro pid pool hrow
    have old := inv.pools (hamm ▸ hrow)
    exact
      { poolId := old.poolId
        ticks := old.ticks
        backed := by
          dsimp only
          rw [hab]
          exact old.backed
        covered := by
          dsimp only
          rw [holl]
          exact old.covered
        reserves_nonneg := old.reserves_nonneg
        min_pos := old.min_pos
        shares := by
          dsimp only
          rw [hammp]
          exact old.shares
        undeposited := old.undeposited }
  ab_nonneg := by
    dsimp only
    rw [hab]
    exact inv.ab_nonneg
  oll_nonneg := by
    dsimp only
    rw [holl]
    exact inv.oll_nonneg
  lp_nonneg := by
    dsimp only
    rw [hammp]
    exact inv.lp_nonneg
  fresh := by
    dsimp only
    rw [hamm, holl, hammp]
    exact inv.fresh
  sources := by
    dsimp only
    rw [hob]
    exact inv.sources

variable {pool : AmmPoolRecord} {obligation : TokenObligationRecord}

/-- A new pool: nothing of it is reserved, owed or held. -/
theorem config (inv : PoolsInvariant env run) {place : ActionPlace}
    {ah : KeyTable Text AuthorityConfigRecord}
    (checked : ConfigChecked env place run.store (tokenProofLockId place) pool) :
    PoolsInvariant env
      { run with
        store :=
          { run.store with amm := run.store.amm.insert (tokenProofLockId place) pool, ah := ah } } where
  pools := by
    intro pid row hrow
    obtain ⟨rfl, rfl⟩ | ⟨-, hold⟩ := KeyTable.lookup_insert_cases hrow
    · obtain ⟨holl, hlp, hdeposited⟩ := inv.fresh checked.fresh
      exact
        { poolId := colon_mem_tokenProofLockId place
          ticks := checked.ticks
          backed := by
            intro tick
            rw [checked.reserves]
            unfold AmmPoolRecord.sideSum
            simpa using inv.ab_nonneg (tokenProofLockId place, tick)
          covered := by
            intro side tick _
            rw [checked.reserves]
            exact (holl side tick).le
          reserves_nonneg := by
            intro side
            rw [checked.reserves]
          min_pos := checked.min_pos
          shares := by
            rw [checked.shares, if_neg hdeposited]
            change 0 = lpTotal _ run.store.ammp + 0
            rw [hlp]
            rfl
          undeposited := fun _ => checked.shares }
    · have old := inv.pools hold
      exact
        { poolId := old.poolId
          ticks := old.ticks
          backed := old.backed
          covered := old.covered
          reserves_nonneg := old.reserves_nonneg
          min_pos := old.min_pos
          shares := old.shares
          undeposited := old.undeposited }
  ab_nonneg := inv.ab_nonneg
  oll_nonneg := inv.oll_nonneg
  lp_nonneg := inv.lp_nonneg
  fresh := by
    intro pid hnone
    apply inv.fresh
    dsimp only at hnone
    rw [KeyTable.lookup_insert_ite] at hnone
    split at hnone
    · cases hnone
    · exact hnone
  sources := inv.sources

theorem sideSum_add (pool : AmmPoolRecord) (first second : Fin 2 → ℤ) (tick : TickKey) :
    pool.sideSum env (fun side => first side + second side) tick =
      pool.sideSum env first tick + pool.sideSum env second tick := by
  unfold AmmPoolRecord.sideSum
  split <;> split <;> ring

variable {pid : Text}

/-- An action on a pool keeps the invariant when the reserves it leaves cover the obligations, and the
shares it leaves are those of the holders and the locked ones. -/
theorem acted (inv : PoolsInvariant env run) {amounts : Fin 2 → ℤ}
    {shares : ℤ} {ammp : KeyTable (Text × AmmTarget) ℤ} {deposited : List Text}
    (hacted : PoolActed env pid pool amounts shares ammp run.store after)
    (hcovered : ∀ side tick, pool.tickKey env side = some tick →
      bigAt run.store.oll (.pool pid side, tick) ≤ pool.r side + amounts side)
    (hlp : ∀ {key row}, ammp.lookup key = some row → 0 ≤ row)
    (hlpOther : ∀ other, other ≠ pid → lpTotal other ammp = lpTotal other run.store.ammp)
    (hdeposited : ∀ other, other ≠ pid → (other ∈ deposited ↔ other ∈ run.deposited))
    (hshares : shares = lpTotal pid ammp + if pid ∈ deposited then pool.min else 0)
    (hundeposited : pid ∉ deposited → shares = 0) :
    PoolsInvariant env { store := after, deposited := deposited } := by
  obtain ⟨middle, moved, rfl⟩ := hacted.rows
  obtain ⟨b, ab, abli, abo, hframe⟩ := moved.frame
  have holl : middle.oll = run.store.oll := by rw [hframe]
  have hob : middle.ob = run.store.ob := by rw [hframe]
  have old := inv.pools hacted.found
  have hticks : ∀ side, (pool.tickKey env side).isSome := by
    intro side
    apply old.ticks
    have htap := hacted.tap
    unfold AmmPoolRecord.assetsAreTap at htap
    rw [Bool.and_eq_true] at htap
    match side with
    | 0 => exact htap.1
    | 1 => exact htap.2
  refine ⟨?_, ?_, ?_, hlp, ?_, ?_⟩
  · intro other row hrow
    obtain ⟨rfl, rfl⟩ | ⟨hne, hold⟩ := KeyTable.lookup_insert_cases hrow
    · refine ⟨old.poolId, old.ticks, ?_, ?_, ?_, old.min_pos, hshares, hundeposited⟩
      · intro tick
        change pool.sideSum env (fun side => pool.r side + amounts side) tick ≤
          bigAt middle.ab (other, tick)
        rw [sideSum_add]
        have hbacked := old.backed tick
        have hmoved := moved.atLeast (other, tick)
        unfold poolDelta at hmoved
        rw [if_pos rfl] at hmoved
        dsimp only at hmoved
        linarith
      · intro side tick htick
        dsimp only
        rw [holl]
        exact hcovered side tick htick
      · intro side
        obtain ⟨tick, htick⟩ := Option.isSome_iff_exists.1 (hticks side)
        exact (inv.oll_nonneg _).trans (hcovered side tick htick)
    · have hrest := inv.pools hold
      refine ⟨hrest.poolId, hrest.ticks, ?_, ?_, hrest.reserves_nonneg, hrest.min_pos, ?_, ?_⟩
      · intro tick
        have hbacked := hrest.backed tick
        have hmoved := moved.atLeast (other, tick)
        unfold poolDelta at hmoved
        rw [if_neg hne, add_zero] at hmoved
        exact hbacked.trans hmoved
      · dsimp only
        rw [holl]
        exact hrest.covered
      · dsimp only
        rw [hlpOther other hne, hrest.shares]
        simp only [hdeposited other hne]
      · intro hnot
        exact hrest.undeposited fun hmem => hnot ((hdeposited other hne).2 hmem)
  · exact fun key => moved.nonneg key (inv.ab_nonneg key)
  · dsimp only
    rw [holl]
    exact inv.oll_nonneg
  · intro other hnone
    dsimp only at hnone ⊢
    rw [KeyTable.lookup_insert_ite] at hnone
    split at hnone
    · cases hnone
    next hne =>
      obtain ⟨hoblig, hlpZero, hnot⟩ := inv.fresh hnone
      rw [holl, hlpOther other hne]
      exact ⟨hoblig, hlpZero, fun hmem => hnot ((hdeposited other hne).1 hmem)⟩
  · dsimp only
    rw [hob]
    exact inv.sources

theorem lp_nonneg_insert (inv : PoolsInvariant env run) {target : AmmTarget} {n : ℤ}
    (hnonneg : 0 ≤ n) {key : Text × AmmTarget} {row : ℤ}
    (hrow : (run.store.ammp.insert (pid, target) n).lookup key = some row) : 0 ≤ row := by
  obtain ⟨-, rfl⟩ | ⟨-, hold⟩ := KeyTable.lookup_insert_cases hrow
  · exact hnonneg
  · exact inv.lp_nonneg hold

theorem ammLpShares_nonneg (inv : PoolsInvariant env run) (pid : Text) (target : AmmTarget) :
    0 ≤ run.store.ammLpShares pid target := by
  unfold ProofStore.ammLpShares bigAt
  cases hrow : run.store.ammp.lookup (pid, target) with
  | none => exact le_refl 0
  | some row => exact inv.lp_nonneg hrow

/-- A deposit; the first one of a pool locks the minimum liquidity. -/
theorem addLiquidity (inv : PoolsInvariant env run) {action : Json} {add : AmmAddValidation}
    (checked : AddChecked env context action run.store add)
    (hacted : PoolActed env add.pid add.pool add.amounts add.sharesAfter
      (run.store.ammp.insert (add.pid, add.dest)
        (run.store.ammLpShares add.pid add.dest + add.minted)) run.store after) :
    PoolsInvariant env { store := after, deposited := action.text "auth" :: run.deposited } := by
  have old := inv.pools checked.found
  obtain ⟨burnMinted, hminted, hafter⟩ := checked.minted
  have hmem : add.pid ∈ action.text "auth" :: run.deposited := by
    rw [checked.pid_eq]
    exact List.mem_cons_self
  apply inv.acted hacted
  · intro side tick htick
    have hcovered := old.covered side tick htick
    have hpos := checked.amounts_pos side
    omega
  · intro key row hrow
    have hshares := inv.ammLpShares_nonneg add.pid add.dest
    have hpos := checked.minted_pos
    exact inv.lp_nonneg_insert (by omega) hrow
  · intro other hne
    unfold ProofStore.ammLpShares
    rw [lpTotal_insert, if_neg hne, add_zero]
  · intro other hne
    rw [List.mem_cons, ← checked.pid_eq]
    simp [hne]
  · unfold ProofStore.ammLpShares
    rw [lpTotal_insert, if_pos rfl, if_pos hmem, hafter]
    unfold AmmPoolRecord.mintedShares at hminted
    have hshares := old.shares
    have htotal := lpTotal_nonneg inv add.pid
    have hmin := old.min_pos
    split at hminted
    next hzero =>
      obtain ⟨root, hminted⟩ := Proc.of_bind hminted
      replace hminted := Proc.of_guard hminted
      obtain ⟨-, rfl⟩ := Prod.mk.inj (Option.some.inj hminted)
      split at hshares
      · omega
      · omega
    next hne =>
      replace hminted := Proc.of_guard hminted
      obtain ⟨-, rfl⟩ := Prod.mk.inj (Option.some.inj hminted)
      split at hshares
      · omega
      next hnot => exact absurd (old.undeposited hnot) hne
  · exact fun hnot => absurd hmem hnot

theorem covered_of_cover {reserves : Fin 2 → ℤ} (htap : pool.assetsAreTap = true)
    (hcover : run.store.coverObligationLocks env pid pool reserves = true) (side : Fin 2)
    (tick : TickKey) (htick : pool.tickKey env side = some tick) :
    bigAt run.store.oll (.pool pid side, tick) ≤ reserves side := by
  unfold ProofStore.coverObligationLocks at hcover
  unfold AmmPoolRecord.assetsAreTap at htap
  rw [Bool.and_eq_true] at htap
  have hside : pool.assetIsTap side = true := by
    match side with
    | 0 => exact htap.1
    | 1 => exact htap.2
  have hmem : side ∈ [(0 : Fin 2), 1] := by
    match side with
    | 0 => exact List.mem_cons_self
    | 1 => exact List.mem_cons_of_mem _ (List.mem_singleton.2 rfl)
  have hone := List.all_eq_true.1 hcover side hmem
  rw [hside, htick] at hone
  simpa using hone

theorem removeLiquidity (inv : PoolsInvariant env run) {remove : AmmRemoveValidation}
    (checked : RemoveChecked env context run.store remove)
    (hacted : PoolActed env remove.pid remove.pool (fun side => -remove.outputs side)
      (remove.pool.sh - remove.shares)
      (run.store.ammp.insert (remove.pid, remove.owner)
        (run.store.ammLpShares remove.pid remove.owner + -remove.shares)) run.store after) :
    PoolsInvariant env { run with store := after } := by
  have old := inv.pools checked.found
  have hle := checked.shares_le
  have hshares := old.shares
  apply inv.acted hacted
  · intro side tick htick
    rw [← sub_eq_add_neg]
    exact covered_of_cover checked.tap checked.covered side tick htick
  · intro key row hrow
    exact inv.lp_nonneg_insert (by omega) hrow
  · intro other hne
    unfold ProofStore.ammLpShares
    rw [lpTotal_insert, if_neg hne, add_zero]
  · exact fun other _ => Iff.rfl
  · unfold ProofStore.ammLpShares
    rw [lpTotal_insert, if_pos rfl]
    omega
  · intro hnot
    -- a pool without a deposit has no shares, so none can have been redeemed
    have hzero := old.undeposited hnot
    have htotal : lpTotal remove.pid run.store.ammp = 0 := by
      rw [if_neg hnot] at hshares
      omega
    have hholder : run.store.ammLpShares remove.pid remove.owner ≤
        lpTotal remove.pid run.store.ammp := by
      have hle := KeyTable.valueAt_le_totalWhere (fun key : Text × AmmTarget => key.1 = remove.pid) id
        (remove.pid, remove.owner) rfl fun _ _ hrow => inv.lp_nonneg hrow
      unfold KeyTable.valueAt at hle
      rw [Option.map_id] at hle
      exact hle
    have hpositive := checked.shares_pos
    omega

theorem swap (inv : PoolsInvariant env run) {swap : AmmSwapValidation}
    (checked : SwapChecked env context run.store swap)
    (hacted : PoolActed env swap.pid swap.pool (swap.swap.amounts swap.side) swap.pool.sh
      run.store.ammp run.store after) :
    PoolsInvariant env { run with store := after } := by
  have old := inv.pools checked.found
  apply inv.acted hacted
  · intro side tick htick
    have hcover := checked.covered
    rw [swapped_eq] at hcover
    exact covered_of_cover checked.tap hcover side tick htick
  · exact inv.lp_nonneg
  · exact fun _ _ => rfl
  · exact fun other _ => Iff.rfl
  · exact old.shares
  · exact old.undeposited

/-- Only the balance of one token authority changes, which is no pool. -/
theorem fund (inv : PoolsInvariant env run) (auth : InscriptionId) (tick : TickKey) (amount : ℕ) :
    PoolsInvariant env
      { run with
        store := run.store.putAuthorityBalance env (inscriptionText auth) tick amount } := by
  obtain ⟨abli, abo, hput⟩ := putAuthorityBalance_eq env run.store (inscriptionText auth) tick amount
  have hframe := inv.frame
    { run.store.putAuthorityBalance env (inscriptionText auth) tick amount with ab := run.store.ab } rfl
    (by rw [hput]) (by rw [hput]) (by rw [hput]) (by rw [hput])
  refine ⟨?_, ?_, hframe.oll_nonneg, hframe.lp_nonneg, hframe.fresh, hframe.sources⟩
  · intro pid pool hrow
    have old := hframe.pools hrow
    refine ⟨old.poolId, old.ticks, ?_, old.covered, old.reserves_nonneg, old.min_pos, old.shares,
      old.undeposited⟩
    intro asked
    rw [bigAt_putAuthorityBalance, if_neg]
    · exact old.backed asked
    · intro hkey
      apply colon_not_mem_inscriptionText auth
      rw [← (Prod.mk.inj hkey).1]
      exact old.poolId
  · intro key
    dsimp only
    rw [bigAt_putAuthorityBalance]
    split
    · exact Int.natCast_nonneg amount
    · exact inv.ab_nonneg key

theorem openObligation (inv : PoolsInvariant env run) {link : AuthLink} {place : ActionPlace}
    {tick : TickKey}
    (checked : OpenChecked env context (some link.record) place run.store (tokenProofLockId place) tick
      obligation)
    (opened : Opened env (tokenProofLockId place) obligation tick run.store after) :
    PoolsInvariant env { run with store := after } := by
  obtain ⟨oll, hafter⟩ := opened.frame
  obtain ⟨source, ctx, hash, hsource⟩ := checked.source
  have hframe := inv.frame { after with oll := run.store.oll, ob := run.store.ob } (by rw [hafter])
    (by rw [hafter]) (by rw [hafter]) rfl rfl
  have hpos := opened.amount_pos
  -- the amount was free in the reserve of its pool
  have hpool : ∀ pid side, obligation.src = .pool pid side →
      ∃ pool, run.store.amm.lookup pid = some pool ∧ pool.tickKey env side = some tick ∧
        obligation.amt ≤ pool.r side - bigAt run.store.oll (.pool pid side, tick) := by
    intro pid side hsrc
    obtain ⟨signer, -, ⟨hsame, -⟩ | ⟨hsame, -⟩ | ⟨pid', side', hsame, found⟩⟩ :=
      normalizeObligationSource_cases hsource
    · rw [hsrc] at hsame
      cases hsame
    · rw [hsrc] at hsame
      cases hsame
    · rw [hsrc] at hsame
      cases hsame
      obtain ⟨pool, hlookup, hkey, -, hle⟩ := found.pool
      exact ⟨pool, hlookup, hkey, hle⟩
  have hamm : after.amm = run.store.amm := by rw [hafter]
  refine ⟨?_, hframe.ab_nonneg, ?_, hframe.lp_nonneg, ?_, ?_⟩
  · intro pid pool hrow
    have old := hframe.pools hrow
    refine ⟨old.poolId, old.ticks, old.backed, ?_, old.reserves_nonneg, old.min_pos, old.shares,
      old.undeposited⟩
    intro side asked hasked
    dsimp only
    rw [opened.reserved]
    split
    next hsame =>
      obtain ⟨found, hfound, -, hle⟩ := hpool pid side hsame.1.symm
      have hsamePool : found = pool := by
        rw [← hamm] at hfound
        exact Option.some.inj (hfound.symm.trans hrow)
      subst hsamePool
      rw [hsame.2]
      omega
    next =>
      rw [add_zero]
      exact old.covered side asked hasked
  · rintro ⟨source, asked⟩
    dsimp only
    rw [opened.reserved]
    have hold := inv.oll_nonneg (source, asked)
    split
    · omega
    · omega
  · intro pid hnone
    obtain ⟨holl, hrest⟩ := hframe.fresh hnone
    refine ⟨?_, hrest⟩
    intro side asked
    dsimp only
    rw [opened.reserved, if_neg, add_zero]
    · exact holl side asked
    · rintro ⟨hsame, -⟩
      obtain ⟨found, hfound, -⟩ := hpool pid side hsame.symm
      rw [← hamm] at hfound
      exact absurd (hfound.symm.trans hnone) (by simp)
  · intro id row hrow auth hsrc
    dsimp only at hrow
    rw [hafter] at hrow
    obtain ⟨-, rfl⟩ | ⟨-, hold⟩ := KeyTable.lookup_insert_cases hrow
    · obtain ⟨signer, hsigner, ⟨hsame, -⟩ | ⟨hsame, -⟩ | ⟨pid', side', hsame, -⟩⟩ :=
        normalizeObligationSource_cases hsource
      · rw [hsrc] at hsame
        cases hsame
      · rw [hsrc] at hsame
        cases hsame
        cases hsigner
        exact colon_not_mem_inscriptionText link.id
      · rw [hsrc] at hsame
        cases hsame
    · exact inv.sources hold hsrc

/-- What moving on one side of a pool adds up to. -/
theorem sideSum_target {target : ObligationTarget} {key : TickKey}
    (hasset : ∀ side, target = .pool pid side → pool.tickKey env side = some key) (amount : ℤ)
    (tick : TickKey) :
    pool.sideSum env (fun side => if target = .pool pid side then amount else 0) tick =
      if target.poolId = some pid ∧ tick = key then amount else 0 := by
  unfold AmmPoolRecord.sideSum
  cases target with
  | account address => simp [ObligationTarget.poolId]
  | authority auth => simp [ObligationTarget.poolId]
  | burn => simp [ObligationTarget.poolId]
  | pool other side =>
      by_cases hother : other = pid
      · subst hother
        have hkey := hasset side rfl
        match side with
        | 0 => simp [ObligationTarget.poolId, hkey, eq_comm]
        | 1 => simp [ObligationTarget.poolId, hkey, eq_comm]
      · simp [ObligationTarget.poolId, hother]

theorem source_tickKey {target : ObligationTarget}
    (settled : Settled env obligation target run.store after)
    (hpool : run.store.amm.lookup pid = some pool) {side : Fin 2}
    (hsrc : obligation.src = .pool pid side) :
    pool.tickKey env side = some (obligation.tickKey env) := by
  obtain ⟨found, hfound, hkey⟩ := settled.sourceAsset pid side hsrc
  cases hfound.symm.trans hpool
  exact hkey

theorem target_tickKey {target : ObligationTarget}
    (settled : Settled env obligation target run.store after)
    (hpool : run.store.amm.lookup pid = some pool) {side : Fin 2}
    (htarget : target = .pool pid side) :
    pool.tickKey env side = some (obligation.tickKey env) := by
  obtain ⟨found, hfound, hkey⟩ := settled.targetAsset pid side htarget
  cases hfound.symm.trans hpool
  exact hkey

section Settle

variable {action : Json} {settle : ObligationSettleValidation} {pid : Text} {pool : AmmPoolRecord}

/-- The identifier of an authority is not that of a pool, so a pool alone pays from its balances. -/
theorem source_authorityId (inv : PoolsInvariant env run)
    (checked : SettleChecked env context action run.store settle) (hpid : ':' ∈ pid) :
    settle.obligation.src.authorityId = some pid ↔ settle.obligation.src.poolId = some pid := by
  constructor
  · intro hauthority
    cases hsrc : settle.obligation.src with
    | authority auth =>
        rw [hsrc] at hauthority
        cases hauthority
        exact absurd hpid (inv.sources checked.created hsrc)
    | account address =>
        rw [hsrc] at hauthority
        cases hauthority
    | pool other side =>
        rw [hsrc] at hauthority
        exact hauthority
    | burn =>
        rw [hsrc] at hauthority
        cases hauthority
  · exact ObligationTarget.authorityId_of_poolId

theorem settle_oll_nonneg (inv : PoolsInvariant env run)
    (settled : Settled env settle.obligation settle.target run.store after)
    (key : ObligationTarget × TickKey) : 0 ≤ bigAt after.oll key := by
  obtain ⟨source, asked⟩ := key
  by_cases hsame : source = settle.obligation.src ∧ asked = settle.obligation.tickKey env
  · rw [hsame.1, hsame.2]
    exact settled.enough
  · rw [settled.freed, if_neg hsame, sub_zero]
    exact inv.oll_nonneg _

/-- What a settlement frees on a side of a pool it takes from the reserve of this side. -/
theorem settle_covered (inv : PoolsInvariant env run)
    (settled : Settled env settle.obligation settle.target run.store after)
    (hpos : 0 < settle.obligation.amt) (hpool : run.store.amm.lookup pid = some pool) (side : Fin 2)
    (tick : TickKey) (htick : pool.tickKey env side = some tick) :
    bigAt after.oll (.pool pid side, tick) ≤ pool.r side +
      (if settle.obligation.src = .pool pid side then -settle.obligation.amt else 0) +
      if settle.target = .pool pid side then settle.obligation.amt else 0 := by
  have hold := (inv.pools hpool).covered side tick htick
  rw [settled.freed]
  by_cases hsrc : settle.obligation.src = .pool pid side
  · have hkey := source_tickKey settled hpool hsrc
    rw [htick] at hkey
    cases hkey
    rw [if_pos ⟨hsrc.symm, rfl⟩, if_pos hsrc]
    split
    · omega
    · omega
  · rw [if_neg fun hsame => hsrc hsame.1.symm, if_neg hsrc]
    split
    · omega
    · omega

/-- The balances of a pool change by what its sides change by, or by more. -/
theorem settle_backed (inv : PoolsInvariant env run)
    (checked : SettleChecked env context action run.store settle)
    (settled : Settled env settle.obligation settle.target run.store after)
    (hpool : run.store.amm.lookup pid = some pool) (tick : TickKey) :
    pool.sideSum env (fun side => pool.r side +
        (if settle.obligation.src = .pool pid side then -settle.obligation.amt else 0) +
        if settle.target = .pool pid side then settle.obligation.amt else 0) tick ≤
      bigAt after.ab (pid, tick) := by
  have hpos := checked.amount_pos
  have old := inv.pools hpool
  have hbacked := old.backed tick
  rw [sideSum_add, sideSum_add, sideSum_target fun _ hsrc => source_tickKey settled hpool hsrc,
    sideSum_target fun _ htarget => target_tickKey settled hpool htarget, settled.authorities]
  simp only [source_authorityId inv checked old.poolId]
  by_cases hcredit : settle.target.poolId = some pid ∧ tick = settle.obligation.tickKey env
  · have hauthority : settle.target.authorityId = some pid ∧ tick = settle.obligation.tickKey env :=
      ⟨ObligationTarget.authorityId_of_poolId hcredit.1, hcredit.2⟩
    rw [if_pos hcredit, if_pos hauthority]
    split
    · omega
    · omega
  · rw [if_neg hcredit]
    split
    · split
      · omega
      · omega
    · split
      · omega
      · omega

theorem settle_pool (inv : PoolsInvariant env run)
    (checked : SettleChecked env context action run.store settle)
    (settled : Settled env settle.obligation settle.target run.store after)
    (hammp : after.ammp = run.store.ammp) (hpool : run.store.amm.lookup pid = some pool) :
    PoolInvariant env { run with store := after } pid
      ((pool.moved pid settle.obligation.src (-settle.obligation.amt)).moved pid settle.target
        settle.obligation.amt) := by
  have old := inv.pools hpool
  have hcovered := inv.settle_covered settled checked.amount_pos hpool
  refine ⟨old.poolId, old.ticks, inv.settle_backed checked settled hpool, hcovered, ?_, old.min_pos, ?_,
    old.undeposited⟩
  · intro side
    by_cases hsrc : settle.obligation.src = .pool pid side
    · exact (inv.settle_oll_nonneg settled _).trans
        (hcovered side _ (source_tickKey settled hpool hsrc))
    · change 0 ≤ pool.r side +
        (if settle.obligation.src = .pool pid side then -settle.obligation.amt else 0) +
        if settle.target = .pool pid side then settle.obligation.amt else 0
      have hnonneg := old.reserves_nonneg side
      have hpos := checked.amount_pos
      rw [if_neg hsrc]
      split
      · omega
      · omega
  · change pool.sh = lpTotal pid after.ammp + _
    rw [hammp]
    exact old.shares

end Settle

theorem settle (inv : PoolsInvariant env run) {action : Json} {settle : ObligationSettleValidation}
    (checked : SettleChecked env context action run.store settle)
    (settled : Settled env settle.obligation settle.target run.store after)
    (hafter : SettleFrame context settle run.store after) :
    PoolsInvariant env { run with store := after } := by
  obtain ⟨b, oll, ab, abli, abo, amm, hafter⟩ := hafter
  have hammp : after.ammp = run.store.ammp := by rw [hafter]
  refine ⟨?_, ?_, inv.settle_oll_nonneg settled, ?_, ?_, ?_⟩
  · intro pid row hrow
    dsimp only at hrow
    rw [settled.pools] at hrow
    obtain ⟨pool, hpool, rfl⟩ := Option.map_eq_some_iff.1 hrow
    exact inv.settle_pool checked settled hammp hpool
  · exact fun key => settled.nonneg key (inv.ab_nonneg key)
  · dsimp only
    rw [hammp]
    exact inv.lp_nonneg
  · intro pid hnone
    dsimp only at hnone ⊢
    rw [settled.pools, Option.map_eq_none_iff] at hnone
    obtain ⟨holl, hlp, hnot⟩ := inv.fresh hnone
    rw [hammp]
    refine ⟨?_, hlp, hnot⟩
    intro side asked
    rw [settled.freed, if_neg, sub_zero]
    · exact holl side asked
    · rintro ⟨hsame, -⟩
      obtain ⟨found, hfound, -⟩ := settled.sourceAsset pid side hsame.symm
      rw [hnone] at hfound
      cases hfound
  · intro id row hrow auth hsrc
    dsimp only at hrow
    rw [hafter] at hrow
    obtain ⟨-, rfl⟩ | ⟨-, hold⟩ := KeyTable.lookup_insert_cases hrow
    · exact inv.sources checked.created hsrc
    · exact inv.sources hold hsrc

/-- Every action keeps the invariant. -/
theorem step (inv : PoolsInvariant env run) {action : PoolAction} {next : PoolRun}
    (hstep : poolStep env run action = some next) : PoolsInvariant env next := by
  cases action with
  | config context link place action =>
      obtain ⟨after, hcommit, rfl⟩ := Option.map_eq_some_iff.1 hstep
      obtain ⟨pool, ah, checked, rfl⟩ := of_commit processAmmConfigAction_spec hcommit
      exact inv.config checked
  | addLiquidity context link action =>
      obtain ⟨after, hcommit, rfl⟩ := Option.map_eq_some_iff.1 hstep
      obtain ⟨add, checked, hacted⟩ := of_commit processAmmAddLiquidityAction_spec hcommit
      exact inv.addLiquidity checked hacted
  | removeLiquidity context link action =>
      obtain ⟨after, hcommit, rfl⟩ := Option.map_eq_some_iff.1 hstep
      obtain ⟨remove, checked, hacted⟩ := of_commit processAmmRemoveLiquidityAction_spec hcommit
      exact inv.removeLiquidity checked hacted
  | swap context link action =>
      obtain ⟨after, hcommit, rfl⟩ := Option.map_eq_some_iff.1 hstep
      obtain ⟨swap, checked, hacted⟩ := of_commit processAmmSwapAction_spec hcommit
      exact inv.swap checked hacted
  | openObligation context link place action =>
      obtain ⟨after, hcommit, rfl⟩ := Option.map_eq_some_iff.1 hstep
      obtain ⟨obligation, tick, checked, opened⟩ :=
        of_commit processObligationOpenAction_spec hcommit
      exact inv.openObligation checked opened
  | settle context action =>
      obtain ⟨after, hcommit, rfl⟩ := Option.map_eq_some_iff.1 hstep
      obtain ⟨settle, checked, settled, hframe⟩ :=
        of_commit processObligationSettleAction_spec hcommit
      exact inv.settle checked settled hframe
  | fund auth tick amount =>
      cases hstep
      exact inv.fund auth tick amount
  | other update =>
      cases hstep
      exact inv.frame _ rfl rfl rfl rfl rfl

end PoolsInvariant

end Steps

/-! ### Every run -/

/-- What the actions on a pool of two TAP assets keep. -/
structure PoolSound (env : ProofEnv) (run : PoolRun) (pid : Text) (pool : AmmPoolRecord) : Prop where
  sides : ∀ side, ∃ tick, pool.tickKey env side = some tick ∧
    pool.r side ≤ bigAt run.store.ab (pid, tick) ∧
    bigAt run.store.oll (.pool pid side, tick) ≤ pool.r side
  shares : pool.sh = lpTotal pid run.store.ammp + if pid ∈ run.deposited then pool.min else 0

/-- In every run the pools of two TAP assets are sound. -/
theorem pools_sound_of_reaches {env : ProofEnv} {store : ProofStore} {run : PoolRun}
    (hreaches : Run.Reaches (poolStep env) (fun _ _ => True) (PoolRun.start store) run) {pid : Text}
    {pool : AmmPoolRecord} (hpool : run.store.amm.lookup pid = some pool)
    (htap : pool.assetsAreTap = true) : PoolSound env run pid pool := by
  have inv : PoolsInvariant env run := by
    apply hreaches.invariant (PoolsInvariant env)
    · intro run next action inv _ hstep
      exact inv.step hstep
    · exact .start store
  have sound := inv.pools hpool
  unfold AmmPoolRecord.assetsAreTap at htap
  rw [Bool.and_eq_true] at htap
  refine ⟨?_, sound.shares⟩
  intro side
  have hside : pool.assetIsTap side = true := by
    match side with
    | 0 => exact htap.1
    | 1 => exact htap.2
  obtain ⟨tick, htick⟩ := Option.isSome_iff_exists.1 (sound.ticks side hside)
  refine ⟨tick, htick, ?_, sound.covered side tick htick⟩
  -- both sides are not negative, so one of them is backed also when the two share a ticker
  have hbacked := sound.backed tick
  have hnonneg0 := sound.reserves_nonneg 0
  have hnonneg1 := sound.reserves_nonneg 1
  unfold AmmPoolRecord.sideSum at hbacked
  match side with
  | 0 =>
      rw [if_pos htick] at hbacked
      split at hbacked
      · omega
      · omega
  | 1 =>
      rw [if_pos htick] at hbacked
      split at hbacked
      · omega
      · omega

/-! ### A pool with an obligation -/

def poolLink : AuthLink where
  addr := "n1".toList
  auth := []
  id := { txid := 0, index := 0 }

/-- Two deployed tickers, an account with some of both, and an active authority. -/
def poolStart : ProofStore :=
  let deployed (tick : String) : DeployRecord :=
    { tick := tick.toList, max := 1000, lim := 0, dec := 0, ins := [], dmt := false, elem := none,
      prj := none, dim := none, dt := none, prv := none }
  { tenTokens with
    d := (tenTokens.d.insert dogKey (deployed "dog")).insert catKey (deployed "cat")
    b := tenTokens.b.insert ("n1".toList, catKey) 10
    tains := (∅ : KeyTable Text Unit).insert (inscriptionText poolLink.id) () }

/-- A pool is created, gets a deposit, trades, and has an obligation claimed. -/
def poolActions : List PoolAction :=
  let account (address : String) : Json := textObject [("tt", "a"), ("to", address)]
  let side : Json := textObject [("tt", "amm"), ("pid", "p:0"), ("i", "0")]
  [.config plainContext poolLink { inscription := "p".toList, index := 0 }
      (.object [("op".toList, .string "auth-cfg".toList), ("k".toList, .string "amm".toList),
        ("c".toList, .object [("ty".toList, .string "cpmm".toList), ("pause".toList, .bool false),
          ("fee".toList, .string "30".toList), ("min".toList, .string "1".toList)]),
        ("ctl".toList, .object [("ty".toList, .string "ta".toList),
          ("auth".toList, .string (inscriptionText poolLink.id))]),
        ("a".toList, .array [textObject [("ty", "tap"), ("tick", "dog")],
          textObject [("ty", "tap"), ("tick", "cat")]])]),
    .addLiquidity plainContext poolLink
      (.object [("auth".toList, .string "p:0".toList), ("min".toList, .string "1".toList),
        ("amts".toList, .array [.string "4".toList, .string "9".toList]),
        ("to".toList, account "n1"), ("exp".toList, .string "200".toList)]),
    .swap plainContext poolLink
      (.object [("auth".toList, .string "p:0".toList), ("m".toList, .string "xin".toList),
        ("i".toList, .string "0".toList), ("amt".toList, .string "2".toList),
        ("min".toList, .string "1".toList), ("to".toList, account "n2"),
        ("exp".toList, .string "200".toList)]),
    .openObligation plainContext poolLink { inscription := "p".toList, index := 1 }
      (.object [("src".toList, side), ("amt".toList, .string "2".toList), ("cl".toList, account "n2"),
        ("rf".toList, side), ("cond".toList, textObject [("ty", "hash"), ("h", secretHash)]),
        ("ra".toList, .string "150".toList), ("exp".toList, .string "150".toList)]),
    .settle plainContext (textObject [("op", "ob-claim"), ("ob", "p:1"), ("preimage", "secret")])]

/-- The reserves and the shares of the pool, and the balance of the second account. -/
def poolView (run : PoolRun) : Option (ℤ × ℤ × ℤ) × ℤ × Bool :=
  ((run.store.amm.lookup "p:0".toList).map fun pool => (pool.r 0, pool.r 1, pool.sh),
    bigAt run.store.b ("n2".toList, dogKey),
    (run.store.amm.lookup "p:0".toList).any AmmPoolRecord.assetsAreTap)

theorem poolWithObligation_sound :
    ∃ run pool, Run.Reaches (poolStep plainEnv) (fun _ _ => True) (PoolRun.start poolStart) run ∧
      run.store.amm.lookup "p:0".toList = some pool ∧ poolView run = (some (4, 6, 6), 2, true) ∧
      PoolSound plainEnv run "p:0".toList pool := by
  have hexec : (Run.exec (poolStep plainEnv) (fun _ _ => true) poolActions
      (PoolRun.start poolStart)).map poolView = some (some (4, 6, 6), 2, true) := by decide
  have hrun : ∃ run, Run.Reaches (poolStep plainEnv) (fun _ _ => True) (PoolRun.start poolStart) run ∧
      poolView run = (some (4, 6, 6), 2, true) :=
    Run.exists_reaches_of_exec (fun _ => trivial) hexec
  obtain ⟨run, hreaches, hview⟩ := hrun
  have htap : (run.store.amm.lookup "p:0".toList).any AmmPoolRecord.assetsAreTap = true :=
    congrArg (fun view => view.2.2) hview
  cases hpool : run.store.amm.lookup "p:0".toList with
  | none =>
      rw [hpool] at htap
      cases htap
  | some pool =>
      rw [hpool] at htap
      exact ⟨run, pool, hreaches, hpool, hview, pools_sound_of_reaches hreaches hpool htap⟩

end OrdDogecoin.Tap
