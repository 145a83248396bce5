/-
Module: OrdDogecoin.Tap.AmmPricing
Purpose: What the rounding of the pools costs a trader or a depositor and never the pool: the product
  of the reserves under swaps, and the reserves behind a share under deposits and withdrawals.
Trusted boundary: none
Main exports: SwapPriced, AmmPoolRecord.depth, amm_pricing_keeps_value
-/
import OrdDogecoin.Tap.AmmInvariant
import Mathlib.Algebra.Order.Field.Rat
import Mathlib.Tactic.FieldSimp

namespace OrdDogecoin.Tap

/-! ### Rounding -/

/-- Where a division rounds down. -/
theorem tdiv_bounds {numerator denominator : ℤ} (hnumerator : 0 ≤ numerator)
    (hdenominator : 0 < denominator) :
    0 ≤ numerator.tdiv denominator ∧ numerator.tdiv denominator * denominator ≤ numerator ∧
      numerator < (numerator.tdiv denominator + 1) * denominator := by
  rw [Int.tdiv_eq_ediv_of_nonneg hnumerator]
  exact ⟨Int.ediv_nonneg hnumerator hdenominator.le, Int.ediv_mul_le _ hdenominator.ne',
    Int.lt_ediv_add_one_mul_self _ hdenominator⟩

/-- Where a division rounds up. -/
theorem le_divCeil_mul {numerator denominator result : ℤ} (hnumerator : 0 ≤ numerator)
    (hresult : divCeil numerator denominator = some result) :
    0 < denominator ∧ numerator ≤ result * denominator := by
  unfold divCeil at hresult
  split at hresult
  next => cases hresult
  next hpositive =>
    cases hresult
    have hdenominator : 0 < denominator := not_le.1 hpositive
    have hsum : 0 ≤ numerator + denominator - 1 := by omega
    obtain ⟨-, -, hlt⟩ := tdiv_bounds hsum hdenominator
    refine ⟨hdenominator, ?_⟩
    linarith

/-! ### Swaps -/

/-- A swap that takes nothing from the pool: the fees stay below the amount paid, something stays in
the reserve, and the product of the reserves does not fall. -/
structure SwapPriced (reserveIn reserveOut : ℤ) (swap : AmmSwapCalc) : Prop where
  protocolFee_nonneg : 0 ≤ swap.protocolFee
  protocolFee_le : swap.protocolFee ≤ swap.grossFee
  grossFee_lt : swap.grossFee < swap.amountIn
  amountOut_lt : swap.amountOut < reserveOut
  product_le : reserveIn * reserveOut ≤
    (reserveIn + swap.amountIn - swap.protocolFee) * (reserveOut - swap.amountOut)

section Swaps

variable {amount reserveIn reserveOut feeBps shareBps : ℤ} {swap : AmmSwapCalc}

/-- What the fee leaves of the amount paid. -/
theorem grossFee_bounds {amountIn : ℤ} (hamount : 0 < amountIn) (hfee : 0 ≤ feeBps)
    (hfeeMax : feeBps ≤ 1000) :
    0 ≤ (amountIn * feeBps).tdiv 10000 ∧ (amountIn * feeBps).tdiv 10000 < amountIn ∧
      amountIn * (10000 - feeBps) ≤ (amountIn - (amountIn * feeBps).tdiv 10000) * 10000 := by
  obtain ⟨hnonneg, hle, -⟩ := tdiv_bounds (mul_nonneg hamount.le hfee) (by norm_num : (0 : ℤ) < 10000)
  refine ⟨hnonneg, ?_, by linarith⟩
  have hpart : amountIn * feeBps ≤ amountIn * 1000 := mul_le_mul_of_nonneg_left hfeeMax hamount.le
  omega

/-- The protocol gets a part of the fee. -/
theorem ammProtocolFee_bounds {grossFee : ℤ} (hgross : 0 ≤ grossFee) (hshare : 0 ≤ shareBps)
    (hshareMax : shareBps ≤ 10000) :
    0 ≤ ammProtocolFee grossFee shareBps ∧ ammProtocolFee grossFee shareBps ≤ grossFee := by
  obtain ⟨hnonneg, hle, -⟩ := tdiv_bounds (mul_nonneg hgross hshare) (by norm_num : (0 : ℤ) < 10000)
  have hpart : grossFee * shareBps ≤ grossFee * 10000 := mul_le_mul_of_nonneg_left hshareMax hgross
  refine ⟨hnonneg, ?_⟩
  unfold ammProtocolFee
  omega

/-- An amount out that the amount `paid` after fees covers keeps the product, also when only a part of
the fee stays in the pool. -/
theorem product_le_of_paid {amountIn amountOut paid protocolFee : ℤ}
    (hout : amountOut ≤ reserveOut) (hpaid : paid ≤ amountIn - protocolFee)
    (hcovered : amountOut * (reserveIn + paid) ≤ paid * reserveOut) :
    reserveIn * reserveOut ≤ (reserveIn + amountIn - protocolFee) * (reserveOut - amountOut) := by
  have hrest : 0 ≤ reserveOut - amountOut := sub_nonneg.2 hout
  calc reserveIn * reserveOut
      ≤ (reserveIn + paid) * (reserveOut - amountOut) := by linarith
    _ ≤ (reserveIn + amountIn - protocolFee) * (reserveOut - amountOut) :=
        mul_le_mul_of_nonneg_right (by linarith) hrest

/-- What `calculate_amm_exact_in` returns. -/
theorem calculateAmmExactIn_eq_some
    (hswap : calculateAmmExactIn amount reserveIn reserveOut feeBps shareBps = some swap) :
    0 < amount ∧ 0 < reserveIn ∧ 0 < reserveOut ∧
      0 < amount - (amount * feeBps).tdiv 10000 ∧
      swap =
        { amountIn := amount
          amountOut := ((amount - (amount * feeBps).tdiv 10000) * reserveOut).tdiv
            (reserveIn + (amount - (amount * feeBps).tdiv 10000))
          grossFee := (amount * feeBps).tdiv 10000
          protocolFee := ammProtocolFee ((amount * feeBps).tdiv 10000) shareBps } := by
  unfold calculateAmmExactIn at hswap
  obtain ⟨⟨hamount, hin, hout⟩, hswap⟩ := Proc.guard_bind_eq_some.1 hswap
  obtain ⟨hafter, hswap⟩ := Proc.guard_bind_eq_some.1 hswap
  cases hswap
  exact ⟨hamount, hin, hout, hafter, rfl⟩

theorem swapPriced_exactIn (hfee : 0 ≤ feeBps) (hfeeMax : feeBps ≤ 1000) (hshare : 0 ≤ shareBps)
    (hshareMax : shareBps ≤ 10000)
    (hswap : calculateAmmExactIn amount reserveIn reserveOut feeBps shareBps = some swap) :
    SwapPriced reserveIn reserveOut swap := by
  obtain ⟨hamount, hin, hout, hafter, rfl⟩ := calculateAmmExactIn_eq_some hswap
  obtain ⟨hgross, hlt, -⟩ := grossFee_bounds hamount hfee hfeeMax
  obtain ⟨hnonneg, hle⟩ := ammProtocolFee_bounds hgross hshare hshareMax
  generalize (amount * feeBps).tdiv 10000 = grossFee at hgross hlt hnonneg hle hafter ⊢
  generalize hpaid : amount - grossFee = paid at hafter ⊢
  obtain ⟨-, hfloor, -⟩ := tdiv_bounds (mul_nonneg hafter.le hout.le) (by omega : 0 < reserveIn + paid)
  generalize (paid * reserveOut).tdiv (reserveIn + paid) = amountOut at hfloor ⊢
  have hbelow : amountOut < reserveOut := by
    by_contra hge
    have hproduct := mul_le_mul_of_nonneg_right (not_lt.1 hge) (by omega : 0 ≤ reserveIn + paid)
    have hpositive := mul_pos hout hin
    linarith
  exact
    { protocolFee_nonneg := hnonneg
      protocolFee_le := hle
      grossFee_lt := hlt
      amountOut_lt := hbelow
      product_le := product_le_of_paid hbelow.le (by dsimp only; omega) hfloor }

/-- What `calculate_amm_exact_out` returns: the amount paid covers the amount out after the fee. -/
theorem calculateAmmExactOut_spec (hfee : 0 ≤ feeBps) (hfeeMax : feeBps ≤ 1000)
    (hswap : calculateAmmExactOut amount reserveIn reserveOut feeBps shareBps = some swap) :
    0 < amount ∧ 0 < reserveIn ∧ amount < reserveOut ∧ swap.amountOut = amount ∧
      0 < swap.amountIn ∧ swap.grossFee = (swap.amountIn * feeBps).tdiv 10000 ∧
      swap.protocolFee = ammProtocolFee swap.grossFee shareBps ∧
      amount * (reserveIn + (swap.amountIn - swap.grossFee)) ≤
        (swap.amountIn - swap.grossFee) * reserveOut := by
  unfold calculateAmmExactOut at hswap
  obtain ⟨⟨hamount, hin, hout⟩, hswap⟩ := Proc.guard_bind_eq_some.1 hswap
  obtain ⟨paid, hpaid, hswap⟩ := Option.bind_eq_some_iff.1 hswap
  obtain ⟨⟨hpositive, -⟩, hswap⟩ := Proc.guard_bind_eq_some.1 hswap
  obtain ⟨amountIn, hamountIn, hswap⟩ := Option.bind_eq_some_iff.1 hswap
  cases hswap
  obtain ⟨-, hcovers⟩ := le_divCeil_mul (mul_nonneg hin.le hamount.le) hpaid
  obtain ⟨hrate, hgives⟩ := le_divCeil_mul (by omega : 0 ≤ paid * 10000) hamountIn
  have hamountPos : 0 < amountIn := by
    by_contra hle
    have hnonpos := mul_nonpos_of_nonpos_of_nonneg (not_lt.1 hle) hrate.le
    omega
  obtain ⟨-, -, hkept⟩ := grossFee_bounds hamountPos hfee hfeeMax
  dsimp only
  refine ⟨hamount, hin, hout, rfl, hamountPos, rfl, rfl, ?_⟩
  generalize (amountIn * feeBps).tdiv 10000 = grossFee at hkept ⊢
  have hle : paid ≤ amountIn - grossFee := by omega
  have hscaled := mul_le_mul_of_nonneg_right hle (by omega : 0 ≤ reserveOut - amount)
  linarith

theorem swapPriced_exactOut (hfee : 0 ≤ feeBps) (hfeeMax : feeBps ≤ 1000) (hshare : 0 ≤ shareBps)
    (hshareMax : shareBps ≤ 10000)
    (hswap : calculateAmmExactOut amount reserveIn reserveOut feeBps shareBps = some swap) :
    SwapPriced reserveIn reserveOut swap := by
  obtain ⟨hamount, hin, hout, hsame, hpaid, hgrossEq, hprotocol, hcovered⟩ :=
    calculateAmmExactOut_spec hfee hfeeMax hswap
  obtain ⟨hgross, hlt, -⟩ := grossFee_bounds hpaid hfee hfeeMax
  rw [← hgrossEq] at hgross hlt
  obtain ⟨hnonneg, hle⟩ := ammProtocolFee_bounds hgross hshare hshareMax
  rw [← hprotocol] at hnonneg hle
  rw [← hsame] at hout hcovered
  exact
    { protocolFee_nonneg := hnonneg
      protocolFee_le := hle
      grossFee_lt := hlt
      amountOut_lt := hout
      product_le := product_le_of_paid hout.le (by omega) hcovered }

/-- Paying what an exact amount out costs buys at least that amount. -/
theorem exactIn_of_exactOut (hfee : 0 ≤ feeBps) (hfeeMax : feeBps ≤ 1000)
    (hswap : calculateAmmExactOut amount reserveIn reserveOut feeBps shareBps = some swap) :
    ∃ back, calculateAmmExactIn swap.amountIn reserveIn reserveOut feeBps shareBps = some back ∧
      amount ≤ back.amountOut := by
  obtain ⟨hamount, hin, hout, -, hpaid, hgrossEq, -, hcovered⟩ :=
    calculateAmmExactOut_spec hfee hfeeMax hswap
  obtain ⟨-, hlt, -⟩ := grossFee_bounds hpaid hfee hfeeMax
  rw [hgrossEq] at hcovered
  generalize hpaidIn : swap.amountIn = amountIn at hpaid hlt hcovered ⊢
  have hafter : 0 < amountIn - (amountIn * feeBps).tdiv 10000 := by omega
  have hsome : ∃ back,
      calculateAmmExactIn amountIn reserveIn reserveOut feeBps shareBps = some back := by
    unfold calculateAmmExactIn
    exact ⟨_, Proc.guard_bind_eq_some.2
      ⟨⟨hpaid, hin, by omega⟩, Proc.guard_bind_eq_some.2 ⟨hafter, rfl⟩⟩⟩
  obtain ⟨back, hback⟩ := hsome
  refine ⟨back, hback, ?_⟩
  obtain ⟨-, -, -, -, rfl⟩ := calculateAmmExactIn_eq_some hback
  dsimp only
  generalize amountIn - (amountIn * feeBps).tdiv 10000 = paid at hafter hcovered ⊢
  rw [Int.tdiv_eq_ediv_of_nonneg (mul_nonneg hafter.le (by omega))]
  exact Int.le_ediv_of_mul_le (by omega) hcovered

end Swaps

/-! ### Liquidity -/

/-- The product of the reserves for each share squared: `r0 * r1 / shares ^ 2`. -/
def AmmPoolRecord.depth (pool : AmmPoolRecord) : ℚ :=
  (pool.r 0 : ℚ) * pool.r 1 / (pool.sh : ℚ) ^ 2

/-- Each reserve, share for share, does not fall. -/
theorem depth_le_depth {pool : AmmPoolRecord} {reserves : Fin 2 → ℤ} {shares : ℤ}
    (hreserves : ∀ side, 0 ≤ pool.r side) (hshares : 0 < pool.sh) (hafter : 0 < shares)
    (hsides : ∀ side, pool.r side * shares ≤ reserves side * pool.sh) :
    pool.depth ≤ ({ pool with r := reserves, sh := shares } : AmmPoolRecord).depth := by
  have hproduct : (pool.r 0 * shares) * (pool.r 1 * shares) ≤
      (reserves 0 * pool.sh) * (reserves 1 * pool.sh) := by
    apply mul_le_mul (hsides 0) (hsides 1) (mul_nonneg (hreserves 1) hafter.le)
    exact (mul_nonneg (hreserves 0) hafter.le).trans (hsides 0)
  have hcast : ((pool.r 0 : ℚ) * shares) * (pool.r 1 * shares) ≤
      (reserves 0 * pool.sh) * (reserves 1 * pool.sh) := by exact_mod_cast hproduct
  have hbefore : (0 : ℚ) < (pool.sh : ℚ) ^ 2 := by positivity
  have hlater : (0 : ℚ) < (shares : ℚ) ^ 2 := by positivity
  unfold AmmPoolRecord.depth
  rw [div_le_div_iff₀ hbefore hlater]
  linarith

/-- A pool without shares has no depth. -/
theorem depth_of_no_shares {pool : AmmPoolRecord} (hshares : pool.sh = 0) : pool.depth = 0 := by
  simp [AmmPoolRecord.depth, hshares]

theorem depth_nonneg {pool : AmmPoolRecord} (hreserves : ∀ side, 0 ≤ pool.r side) :
    0 ≤ pool.depth := by
  have h0 : (0 : ℚ) ≤ pool.r 0 := by exact_mod_cast hreserves 0
  have h1 : (0 : ℚ) ≤ pool.r 1 := by exact_mod_cast hreserves 1
  exact div_nonneg (mul_nonneg h0 h1) (sq_nonneg _)

section Liquidity

variable {env : ProofEnv} {context : TapContext} {run : PoolRun} {after : ProofStore}

/-- A holder has no more than all holders together. -/
theorem ammLpShares_le_lpTotal (inv : PoolsInvariant env run) (pid : Text) (target : AmmTarget) :
    run.store.ammLpShares pid target ≤ lpTotal pid run.store.ammp := by
  have hle := KeyTable.valueAt_le_totalWhere (fun key : Text × AmmTarget => key.1 = pid) id
    (pid, target) rfl fun _ _ hrow => inv.lp_nonneg hrow
  unfold KeyTable.valueAt at hle
  rw [Option.map_id] at hle
  exact hle

/-- Only one pool changes in an action on it. -/
theorem depth_acted {pid : Text} {pool : AmmPoolRecord} {amounts : Fin 2 → ℤ} {shares : ℤ}
    {ammp : KeyTable (Text × AmmTarget) ℤ}
    (hacted : PoolActed env pid pool amounts shares ammp run.store after)
    (hdepth : pool.depth ≤ ({ pool with
      r := fun side => pool.r side + amounts side, sh := shares } : AmmPoolRecord).depth)
    {other : Text} {found : AmmPoolRecord} (hfound : run.store.amm.lookup other = some found) :
    ∃ next, after.amm.lookup other = some next ∧ found.depth ≤ next.depth := by
  obtain ⟨middle, -, rfl⟩ := hacted.rows
  dsimp only
  rw [KeyTable.lookup_insert_ite]
  split
  next hsame =>
    subst hsame
    obtain rfl := Option.some.inj (hacted.found.symm.trans hfound)
    exact ⟨_, rfl, hdepth⟩
  next => exact ⟨found, hfound, le_rfl⟩

theorem depth_addLiquidity (inv : PoolsInvariant env run) {action : Json} {add : AmmAddValidation}
    (checked : AddChecked env context action run.store add) :
    add.pool.depth ≤ ({ add.pool with
      r := fun side => add.pool.r side + add.amounts side, sh := add.sharesAfter } :
        AmmPoolRecord).depth := by
  have old := inv.pools checked.found
  obtain ⟨burnMinted, hminted, hafter⟩ := checked.minted
  unfold AmmPoolRecord.mintedShares at hminted
  split at hminted
  next hzero =>
    rw [depth_of_no_shares hzero]
    apply depth_nonneg
    intro side
    exact add_nonneg (old.reserves_nonneg side) (checked.amounts_pos side).le
  next hne =>
    obtain ⟨⟨hreserve0, hreserve1⟩, hminted⟩ := Proc.guard_bind_eq_some.1 hminted
    obtain ⟨hmintedEq, rfl⟩ := Prod.mk.inj (Option.some.inj hminted)
    rw [add_zero] at hafter
    have hshares : 0 < add.pool.sh := by
      have hnonneg : 0 ≤ add.pool.sh := by
        rw [old.shares]
        have htotal := lpTotal_nonneg inv add.pid
        have hmin := old.min_pos
        split
        · omega
        · omega
      omega
    obtain ⟨-, hfloor0, -⟩ := tdiv_bounds (mul_nonneg (checked.amounts_pos 0).le hshares.le) hreserve0
    obtain ⟨-, hfloor1, -⟩ := tdiv_bounds (mul_nonneg (checked.amounts_pos 1).le hshares.le) hreserve1
    have hminted0 : add.minted ≤ (add.amounts 0 * add.pool.sh).tdiv (add.pool.r 0) := by
      rw [← hmintedEq]
      split
      · exact le_rfl
      next hge => exact not_lt.1 hge
    have hminted1 : add.minted ≤ (add.amounts 1 * add.pool.sh).tdiv (add.pool.r 1) := by
      rw [← hmintedEq]
      split
      next hlt => exact hlt.le
      · exact le_rfl
    have hpositive := checked.minted_pos
    rw [hafter]
    apply depth_le_depth old.reserves_nonneg hshares (by omega)
    intro side
    match side with
    | 0 =>
        have hscaled := mul_le_mul_of_nonneg_right hminted0 hreserve0.le
        linarith
    | 1 =>
        have hscaled := mul_le_mul_of_nonneg_right hminted1 hreserve1.le
        linarith

theorem depth_removeLiquidity (inv : PoolsInvariant env run) {remove : AmmRemoveValidation}
    (checked : RemoveChecked env context run.store remove) :
    remove.pool.depth ≤ ({ remove.pool with
      r := fun side => remove.pool.r side + -remove.outputs side
      sh := remove.pool.sh - remove.shares } : AmmPoolRecord).depth := by
  have old := inv.pools checked.found
  have hshares := checked.poolShares_pos
  have hredeemed := checked.shares_pos
  -- the locked shares are nobody's, so some are left
  have hleft : remove.shares < remove.pool.sh := by
    have hholder := checked.shares_le.trans (ammLpShares_le_lpTotal inv remove.pid remove.owner)
    have htotal := old.shares
    have hmin := old.min_pos
    split at htotal
    · omega
    next hnot =>
      have hzero := old.undeposited hnot
      omega
  apply depth_le_depth old.reserves_nonneg hshares (by omega)
  intro side
  rw [checked.outputs_eq side]
  obtain ⟨-, hfloor, -⟩ :=
    tdiv_bounds (mul_nonneg hredeemed.le (old.reserves_nonneg side)) hshares
  linarith

/-- The actions that deposit or withdraw liquidity. -/
def PoolAction.isLiquidity : PoolAction → Bool
  | .addLiquidity _ _ _ => true
  | .removeLiquidity _ _ _ => true
  | _ => false

/-- No deposit and no withdrawal lowers the depth of a pool. -/
theorem depth_liquidity (inv : PoolsInvariant env run) {action : PoolAction} {next : PoolRun}
    (hliquidity : action.isLiquidity = true) (hstep : poolStep env run action = some next) {pid : Text}
    {pool : AmmPoolRecord} (hpool : run.store.amm.lookup pid = some pool) :
    ∃ pool', next.store.amm.lookup pid = some pool' ∧ pool.depth ≤ pool'.depth := by
  cases action with
  | addLiquidity context link action =>
      obtain ⟨after, hcommit, rfl⟩ := Option.map_eq_some_iff.1 hstep
      obtain ⟨add, checked, hacted⟩ :=
        ProofHandler.of_commit processAmmAddLiquidityAction_spec hcommit
      exact depth_acted hacted (depth_addLiquidity inv checked) hpool
  | removeLiquidity context link action =>
      obtain ⟨after, hcommit, rfl⟩ := Option.map_eq_some_iff.1 hstep
      obtain ⟨remove, checked, hacted⟩ :=
        ProofHandler.of_commit processAmmRemoveLiquidityAction_spec hcommit
      exact depth_acted hacted (depth_removeLiquidity inv checked) hpool
  | _ => cases hliquidity

end Liquidity

/-! ### Every swap and every run -/

/-- The rates that `validate_amm_authority_config_action` accepts. -/
structure RatesValid (feeBps shareBps : ℤ) : Prop where
  fee_nonneg : 0 ≤ feeBps
  fee_le : feeBps ≤ 1000
  share_nonneg : 0 ≤ shareBps
  share_le : shareBps ≤ 10000

/-- For all reserves, rates and amounts a swap is priced in favour of the pool, and paying the price of
an exact amount out buys at least that amount; in every run deposits and withdrawals do not lower
`r0 * r1 / shares ^ 2` of any pool. -/
theorem amm_pricing_keeps_value {reserveIn reserveOut feeBps shareBps : ℤ}
    (rates : RatesValid feeBps shareBps) (env : ProofEnv) {start : ProofStore} {run : PoolRun}
    (reaches : Run.Reaches (poolStep env) (fun _ _ => True) (PoolRun.start start) run) :
    (∀ amount swap, calculateAmmExactIn amount reserveIn reserveOut feeBps shareBps = some swap →
      SwapPriced reserveIn reserveOut swap) ∧
    (∀ amount swap, calculateAmmExactOut amount reserveIn reserveOut feeBps shareBps = some swap →
      SwapPriced reserveIn reserveOut swap ∧
        ∃ back, calculateAmmExactIn swap.amountIn reserveIn reserveOut feeBps shareBps = some back ∧
          amount ≤ back.amountOut) ∧
    ∀ action next, action.isLiquidity = true → poolStep env run action = some next →
      ∀ pid pool, run.store.amm.lookup pid = some pool →
        ∃ pool', next.store.amm.lookup pid = some pool' ∧ pool.depth ≤ pool'.depth := by
  have inv : PoolsInvariant env run := by
    apply reaches.invariant (PoolsInvariant env)
    · intro run next action inv _ hstep
      exact inv.step hstep
    · exact .start start
  refine ⟨?_, ?_, ?_⟩
  · intro amount swap hswap
    exact swapPriced_exactIn rates.fee_nonneg rates.fee_le rates.share_nonneg rates.share_le hswap
  · intro amount swap hswap
    exact ⟨swapPriced_exactOut rates.fee_nonneg rates.fee_le rates.share_nonneg rates.share_le hswap,
      exactIn_of_exactOut rates.fee_nonneg rates.fee_le hswap⟩
  · intro action next hliquidity hstep pid pool hpool
    exact depth_liquidity inv hliquidity hstep hpool

/-- Two of the five shares that the depositor of `poolActions` holds, out of six. -/
def withdrawAction : PoolAction :=
  .removeLiquidity plainContext poolLink
    (.object [("auth".toList, .string "p:0".toList), ("sh".toList, .string "2".toList),
      ("min".toList, .array [.string "1".toList, .string "3".toList]),
      ("to".toList, textObject [("tt", "a"), ("to", "n1")]), ("exp".toList, .string "200".toList)])

/-- The depth of the pool before and after the withdrawal. -/
def withdrawView (run : PoolRun) : Option ℚ × Option ℚ :=
  ((run.store.amm.lookup "p:0".toList).map AmmPoolRecord.depth,
    (poolStep plainEnv run withdrawAction).bind fun next =>
      (next.store.amm.lookup "p:0".toList).map AmmPoolRecord.depth)

/-- A swap for five of nine, and a withdrawal that leaves 3 and 6 behind four shares. -/
theorem smallPool_keeps_value :
    (∃ swap, calculateAmmExactOut 5 4 9 30 5000 = some swap ∧ SwapPriced 4 9 swap) ∧
      ∃ run, Run.Reaches (poolStep plainEnv) (fun _ _ => True) (PoolRun.start poolStart) run ∧
        withdrawView run = (some 1, some (9 / 8)) ∧
        ∀ next, poolStep plainEnv run withdrawAction = some next →
          ∀ pid pool, run.store.amm.lookup pid = some pool →
            ∃ pool', next.store.amm.lookup pid = some pool' ∧ pool.depth ≤ pool'.depth := by
  have rates : RatesValid 30 5000 := by constructor <;> norm_num
  have hexec : (Run.exec (poolStep plainEnv) (fun _ _ => true) (poolActions.take 2)
      (PoolRun.start poolStart)).map withdrawView = some (some 1, some (9 / 8)) := by decide +kernel
  have hrun : ∃ run, Run.Reaches (poolStep plainEnv) (fun _ _ => True) (PoolRun.start poolStart) run ∧
      withdrawView run = (some 1, some (9 / 8)) :=
    Run.exists_reaches_of_exec (fun _ => trivial) hexec
  obtain ⟨run, reaches, hview⟩ := hrun
  have hkept := @amm_pricing_keeps_value 4 9 30 5000 rates plainEnv poolStart run reaches
  refine ⟨⟨⟨6, 5, 0, 0⟩, by decide, ?_⟩, run, reaches, hview, ?_⟩
  · exact (hkept.2.1 5 _ (by decide)).1
  · exact fun next hstep => hkept.2.2 withdrawAction next rfl hstep

end OrdDogecoin.Tap
