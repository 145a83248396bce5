/-
Module: OrdDogecoin.Tap.StakingSolvency
Purpose: When a staking authority is solvent.  As long as no division of an allocation or of a new
  position's debt leaves a rest, what was paid, what is pending and what is carried never exceed what
  was allocated, and the principal is covered.  A rest is paid twice: it stays in the accumulator and
  in the carry.
Trusted boundary: `LawfulText` states what the text functions are relied on for
Main exports: Solvent, RoundsExactly, rewards_solvent_of_exact
-/
import OrdDogecoin.Tap.Staking
import OrdDogecoin.Lib.Run

namespace OrdDogecoin.Tap

open KeyTable
open ProofHandler
open Proc (of_bind of_guard wp_read wp_bind wp_write wp_write_last)

/-! ### Sums over the open positions -/

def StakePositionRecord.debtOf (position : StakePositionRecord) (rewardTick : Text) : ℤ :=
  (position.debt.lookup rewardTick).getD 0

def StakePositionRecord.OpenAt (auth : Text) (position : StakePositionRecord) : Prop :=
  position.auth = auth ∧ position.status = .opened

instance (auth : Text) (position : StakePositionRecord) : Decidable (position.OpenAt auth) :=
  inferInstanceAs (Decidable (_ ∧ _))

/-- The sum of a value over the open positions of an authority. -/
def openTotal (auth : Text) (value : StakePositionRecord → ℤ)
    (positions : KeyTable Text StakePositionRecord) : ℤ :=
  total (fun _ position => if position.OpenAt auth then value position else 0) positions

section OpenTotal

variable {auth : Text} {value value' : StakePositionRecord → ℤ}
  {positions : KeyTable Text StakePositionRecord} {id : Text} {old new : StakePositionRecord}

theorem openTotal_insert_new (hnew : positions.lookup id = none) :
    openTotal auth value (positions.insert id new) =
      openTotal auth value positions + if new.OpenAt auth then value new else 0 := by
  have haccount := total_insert
    (fun _ position => if position.OpenAt auth then value position else 0) positions id new
  simpa [weightAt, hnew, openTotal] using haccount

theorem openTotal_replace (auth : Text) (value : StakePositionRecord → ℤ) (new : StakePositionRecord)
    (hold : positions.lookup id = some old) :
    openTotal auth value (positions.insert id new) + (if old.OpenAt auth then value old else 0) =
      openTotal auth value positions + if new.OpenAt auth then value new else 0 := by
  have haccount := total_insert
    (fun _ position => if position.OpenAt auth then value position else 0) positions id new
  simpa [weightAt, hold, openTotal] using haccount

theorem openTotal_le
    (hle : ∀ {id position}, positions.lookup id = some position → position.OpenAt auth →
      value position ≤ value' position) :
    openTotal auth value positions ≤ openTotal auth value' positions := by
  apply total_le_total
  intro id position hrow
  by_cases hopen : position.OpenAt auth
  · rw [if_pos hopen, if_pos hopen]
    exact hle hrow hopen
  · rw [if_neg hopen, if_neg hopen]

theorem openTotal_add_mul (factor : ℤ) (auth : Text) (value value' : StakePositionRecord → ℤ)
    (positions : KeyTable Text StakePositionRecord) :
    openTotal auth (fun position => value position + factor * value' position) positions =
      openTotal auth value positions + factor * openTotal auth value' positions := by
  unfold openTotal
  rw [← total_add_mul]
  congr 1
  funext _ position
  split
  · rfl
  · simp

theorem openTotal_zero (auth : Text) (positions : KeyTable Text StakePositionRecord) :
    openTotal auth (fun _ => 0) positions = 0 := by
  unfold openTotal total
  simp

theorem openTotal_nonneg
    (hnonneg : ∀ {id position}, positions.lookup id = some position → position.OpenAt auth →
      0 ≤ value position) : 0 ≤ openTotal auth value positions := by
  rw [← openTotal_zero auth positions]
  exact openTotal_le fun hrow hopen => hnonneg hrow hopen

/-- One open position is part of a sum of values that are not negative. -/
theorem le_openTotal (value : StakePositionRecord → ℤ) (hrow : positions.lookup id = some old)
    (hopen : old.OpenAt auth)
    (hnonneg : ∀ {id position}, positions.lookup id = some position → position.OpenAt auth →
      0 ≤ value position) : value old ≤ openTotal auth value positions := by
  have haccount := total_erase
    (fun _ position => if position.OpenAt auth then value position else 0) positions id
  have hrest : 0 ≤ openTotal auth value (positions.erase id) :=
    openTotal_nonneg fun hfound hopen => hnonneg (lookup_erase_cases hfound).2 hopen
  simp only [weightAt, hrow, Option.map_some, Option.getD_some, if_pos hopen] at haccount
  unfold openTotal at hrest ⊢
  omega

end OpenTotal

def paidTotal (auth rewardTick : Text) (claims : List RewardClaimRecord) : ℤ :=
  (claims.map fun claim => if claim.auth = auth ∧ claim.rt = rewardTick then claim.amt else 0).sum

theorem paidTotal_append (auth rewardTick : Text) (claims : List RewardClaimRecord)
    (claim : RewardClaimRecord) :
    paidTotal auth rewardTick (claims ++ [claim]) = paidTotal auth rewardTick claims +
      if claim.auth = auth ∧ claim.rt = rewardTick then claim.amt else 0 := by
  simp [paidTotal]

/-! ### The divisions -/

/-- What a position may still claim, in the units of the accumulator. -/
def owed (rewardTick : Text) (acc : ℤ) (position : StakePositionRecord) : ℤ :=
  position.shares * acc - authorityRewardPrecision * position.debtOf rewardTick

theorem debtOf_insert (position : StakePositionRecord) (rewardTick asked : Text) (debt : ℤ) :
    ({ position with debt := position.debt.insert rewardTick debt } : StakePositionRecord).debtOf asked =
      if asked = rewardTick then debt else position.debtOf asked := by
  unfold StakePositionRecord.debtOf
  rw [lookup_insert_ite]
  split <;> rfl

/-- A higher debt is owed that much less. -/
theorem owed_insert (position : StakePositionRecord) (rewardTick asked : Text) (debt acc : ℤ) :
    owed asked acc { position with debt := position.debt.insert rewardTick debt } =
      owed asked acc position -
        authorityRewardPrecision * if asked = rewardTick then debt - position.debtOf rewardTick else 0 := by
  unfold owed
  rw [debtOf_insert]
  split
  next hsame =>
    subst hsame
    ring
  next => ring

theorem precision_mul_debt_le {shares acc : ℤ} (hshares : 0 ≤ shares) (hacc : 0 ≤ acc) :
    authorityRewardPrecision * authorityRewardDebt shares acc ≤ shares * acc := by
  unfold authorityRewardDebt
  rw [Int.tdiv_eq_ediv_of_nonneg (Int.mul_nonneg hshares hacc)]
  exact Int.mul_ediv_self_le (by decide)

/-- The pending reward is at most what is owed. -/
theorem precision_mul_pending_le {shares acc paid : ℤ} (hshares : 0 ≤ shares) (hacc : 0 ≤ acc)
    (howed : 0 ≤ shares * acc - authorityRewardPrecision * paid) :
    authorityRewardPrecision * authorityRewardPending shares acc paid ≤
      shares * acc - authorityRewardPrecision * paid := by
  have hdebt := precision_mul_debt_le hshares hacc
  unfold authorityRewardPending
  dsimp only
  split
  · simpa using howed
  · cases hread : readI128 (authorityRewardDebt shares acc - paid) with
    | none => simpa using howed
    | some value =>
        obtain ⟨rfl, -⟩ := readI128_eq_some hread
        rw [Option.getD_some, Int.mul_sub]
        omega

/-- A positive pending reward is the whole difference to the debt. -/
theorem pending_eq_of_pos {shares acc paid : ℤ} (hpos : 0 < authorityRewardPending shares acc paid) :
    authorityRewardPending shares acc paid = authorityRewardDebt shares acc - paid := by
  unfold authorityRewardPending at hpos ⊢
  dsimp only at hpos ⊢
  split at hpos
  · exact absurd hpos (lt_irrefl 0)
  · rename_i hvalue
    rw [if_neg hvalue]
    cases hread : readI128 (authorityRewardDebt shares acc - paid) with
    | none => simp [hread] at hpos
    | some value =>
        obtain ⟨rfl, -⟩ := readI128_eq_some hread
        rfl

/-- An allocation that leaves no rest takes off the carry what it adds for all shares together. -/
theorem rewardSplit_exact {distributable shares delta distributed : ℤ}
    (hsplit : rewardSplit distributable shares = some (delta, distributed))
    (hexact : authorityRewardPrecision ∣ delta * shares) :
    0 < delta ∧ 0 < distributed ∧ distributed ≤ distributable ∧
      delta * shares = authorityRewardPrecision * distributed := by
  unfold rewardSplit at hsplit
  dsimp only at hsplit
  split_ifs at hsplit with hzero hdelta hrange
  cases hsplit
  rw [not_or] at hrange
  refine ⟨by omega, by omega, by omega, ?_⟩
  rw [Int.mul_comm authorityRewardPrecision, Int.tdiv_mul_cancel hexact]

/-! ### The invariant -/

/-- An authority is solvent: the sums over its open positions agree with its rows, and what was paid,
is owed and is carried was allocated. -/
structure Solvent (env : ProofEnv) (auth : Text) (store : ProofStore) (allocated : TickKey → ℤ) :
    Prop where
  position_ok : ∀ {id position}, store.sp.lookup id = some position → position.OpenAt auth →
    0 < position.shares ∧ 0 < position.amt ∧ env.jsToLowercase position.tick = position.tick
  shares_eq : store.totalShares auth = openTotal auth StakePositionRecord.shares store.sp
  acc_nonneg : ∀ tick, 0 ≤ store.accReward auth tick
  carry_nonneg : ∀ tick, 0 ≤ store.rewardCarry auth tick
  listed : store.Listed env auth
  debtTicks : ∀ {rewardTick config}, env.jsToLowercase rewardTick = rewardTick →
    store.ah.lookup auth = some config →
    store.accReward auth (jsonStringifyLower env rewardTick) ≠ 0 →
    rewardTick ∈ store.rewardDebtTicks env auth config
  owed_nonneg : ∀ {id position rewardTick}, env.jsToLowercase rewardTick = rewardTick →
    store.sp.lookup id = some position → position.OpenAt auth →
    0 ≤ owed rewardTick (store.accReward auth (jsonStringifyLower env rewardTick)) position
  backed : ∀ {rewardTick}, env.jsToLowercase rewardTick = rewardTick →
    authorityRewardPrecision * paidTotal auth rewardTick store.rcli +
        openTotal auth
          (owed rewardTick (store.accReward auth (jsonStringifyLower env rewardTick)))
          store.sp ≤
      authorityRewardPrecision * (allocated (jsonStringifyLower env rewardTick) -
        store.rewardCarry auth (jsonStringifyLower env rewardTick))
  balance_eq : ∀ {rewardTick}, env.jsToLowercase rewardTick = rewardTick →
    store.authorityBalance auth (jsonStringifyLower env rewardTick) =
      openTotal auth (fun position => if position.tick = rewardTick then position.amt else 0)
          store.sp +
        allocated (jsonStringifyLower env rewardTick) -
          paidTotal auth rewardTick store.rcli

namespace Solvent

variable {env : ProofEnv} {auth : Text} {store after : ProofStore} {allocated : TickKey → ℤ}
  {config : AuthorityConfigRecord} {position : StakePositionRecord}

/-- What is carried was allocated and not paid. -/
theorem carry_le (solvent : Solvent env auth store allocated) {rewardTick : Text}
    (hlower : env.jsToLowercase rewardTick = rewardTick) :
    store.rewardCarry auth (jsonStringifyLower env rewardTick) +
        paidTotal auth rewardTick store.rcli ≤
      allocated (jsonStringifyLower env rewardTick) := by
  have hbacked := solvent.backed hlower
  have howed : 0 ≤ openTotal auth (owed rewardTick _) store.sp :=
    openTotal_nonneg fun hrow hopen => solvent.owed_nonneg hlower hrow hopen
  unfold authorityRewardPrecision at hbacked
  omega

/-- The principal of an authority is not negative. -/
theorem principal_nonneg (solvent : Solvent env auth store allocated) (tick : Text) :
    0 ≤ openTotal auth (fun position => if position.tick = tick then position.amt else 0)
      store.sp := by
  apply openTotal_nonneg
  intro id position hrow hopen
  split
  · exact (solvent.position_ok hrow hopen).2.1.le
  · exact le_rfl

/-- What an authority holds covers the principal and what is carried. -/
theorem carry_add_principal_le (solvent : Solvent env auth store allocated) {rewardTick : Text}
    (hlower : env.jsToLowercase rewardTick = rewardTick) :
    store.rewardCarry auth (jsonStringifyLower env rewardTick) +
        openTotal auth (fun position => if position.tick = rewardTick then position.amt else 0)
          store.sp ≤
      store.authorityBalance auth (jsonStringifyLower env rewardTick) := by
  have hcarry := solvent.carry_le hlower
  have hbalance := solvent.balance_eq hlower
  omega

theorem mem_rewardDebtTicks_of_labels {rewardTick : Text}
    (hlabels : ∀ label ∈ store.labels auth, label ∈ after.labels auth)
    (hmem : rewardTick ∈ store.rewardDebtTicks env auth config) :
    rewardTick ∈ after.rewardDebtTicks env auth config := by
  unfold ProofStore.rewardDebtTicks at hmem ⊢
  split at hmem
  next hnamed =>
    rw [if_pos hnamed]
    exact hmem
  next hnone =>
    rw [if_neg hnone]
    obtain ⟨label, hlabel, hread⟩ := List.mem_filterMap.1 hmem
    exact List.mem_filterMap.2 ⟨label, hlabels label hlabel, hread⟩

/-- The configuration, the rates and the marks of an authority are kept. -/
structure RatesKept (env : ProofEnv) (auth : Text) (store after : ProofStore) : Prop where
  config : after.ah = store.ah
  acc : ∀ asked, after.accReward auth asked = store.accReward auth asked
  carry : ∀ asked, after.rewardCarry auth asked = store.rewardCarry auth asked
  listed : after.Listed env auth
  labels : ∀ label ∈ store.labels auth, label ∈ after.labels auth

/-- Under rates that are kept, what is left is about the positions, the claims and the balances. -/
theorem of_ratesKept (solvent : Solvent env auth store allocated)
    (kept : RatesKept env auth store after)
    (hposition : ∀ {id position}, after.sp.lookup id = some position → position.OpenAt auth →
      0 < position.shares ∧ 0 < position.amt ∧ env.jsToLowercase position.tick = position.tick)
    (hshares : after.totalShares auth = openTotal auth StakePositionRecord.shares after.sp)
    (howed : ∀ {id position rewardTick}, env.jsToLowercase rewardTick = rewardTick →
      after.sp.lookup id = some position → position.OpenAt auth →
      0 ≤ owed rewardTick (store.accReward auth (jsonStringifyLower env rewardTick)) position)
    (hbacked : ∀ {rewardTick}, env.jsToLowercase rewardTick = rewardTick →
      authorityRewardPrecision * paidTotal auth rewardTick after.rcli +
          openTotal auth
            (owed rewardTick (store.accReward auth (jsonStringifyLower env rewardTick)))
            after.sp ≤
        authorityRewardPrecision * (allocated (jsonStringifyLower env rewardTick) -
          store.rewardCarry auth (jsonStringifyLower env rewardTick)))
    (hbalance : ∀ {rewardTick}, env.jsToLowercase rewardTick = rewardTick →
      after.authorityBalance auth (jsonStringifyLower env rewardTick) =
        openTotal auth (fun position => if position.tick = rewardTick then position.amt else 0)
            after.sp +
          allocated (jsonStringifyLower env rewardTick) -
            paidTotal auth rewardTick after.rcli) :
    Solvent env auth after allocated := by
  refine ⟨hposition, hshares, ?_, ?_, kept.listed, ?_, ?_, ?_, hbalance⟩
  · intro asked
    rw [kept.acc]
    exact solvent.acc_nonneg asked
  · intro asked
    rw [kept.carry]
    exact solvent.carry_nonneg asked
  · intro rewardTick config hlower hconfig hmoved
    rw [kept.config] at hconfig
    rw [kept.acc] at hmoved
    exact mem_rewardDebtTicks_of_labels kept.labels (solvent.debtTicks hlower hconfig hmoved)
  · intro id position rewardTick hlower hrow hopen
    rw [kept.acc]
    exact howed hlower hrow hopen
  · intro rewardTick hlower
    rw [kept.acc, kept.carry]
    exact hbacked hlower

/-- A ticker that a configuration allows and that is listed with its balance gets a debt in new positions;
its bare row must read back. -/
theorem mem_rewardDebtTicks_of_allowed (lawful : LawfulText env)
    {tick : Text} (hallowed : rewardTickAllowed env config (jsonStringifyLower env tick) = true)
    (hreads : config.rt.isEmpty → env.strings.read (env.jsToLowercase tick) = some (env.jsToLowercase tick))
    (hmem : env.jsToLowercase tick ∈ after.labels auth) :
    env.jsToLowercase tick ∈ after.rewardDebtTicks env auth config := by
  unfold ProofStore.rewardDebtTicks
  unfold rewardTickAllowed at hallowed
  split
  next hnamed =>
    have hsome : config.rt.isEmpty = false := by simpa using hnamed
    have hcontains : jsonStringifyLower env tick ∈
        config.rt.map (jsonStringifyLower env) := by
      rw [hsome, Bool.false_or] at hallowed
      exact List.contains_iff_mem.1 hallowed
    obtain ⟨named, hnamed', heq⟩ := List.mem_map.1 hcontains
    rw [← lawful.lower_eq heq]
    exact List.mem_map.2 ⟨named, hnamed', rfl⟩
  next hempty =>
    refine List.mem_filterMap.2 ⟨env.jsToLowercase tick, hmem, ?_⟩
    rw [hreads (by simpa using hempty), Option.map_some, lawful.lower_lower]

/-- A higher rate is owed to all shares. -/
theorem openTotal_owed_add (solvent : Solvent env auth store allocated) (rewardTick : Text) (acc step : ℤ) :
    openTotal auth (owed rewardTick (acc + step)) store.sp =
      openTotal auth (owed rewardTick acc) store.sp + step * store.totalShares auth := by
  rw [solvent.shares_eq, ← openTotal_add_mul]
  congr 1
  funext position
  unfold owed
  ring

/-- An allocation of `amount` that moves the accumulator by `delta` and takes `distributed` off the
carry keeps an authority solvent when both agree over all shares. -/
theorem allocate (lawful : LawfulText env) (solvent : Solvent env auth store allocated) {tick : Text}
    {amount delta distributed : ℤ}
    (hconfig : store.ah.lookup auth = some config)
    (hallowed : rewardTickAllowed env config (jsonStringifyLower env tick) = true)
    (hreads : config.rt.isEmpty → env.strings.read (env.jsToLowercase tick) = some (env.jsToLowercase tick))
    (hdelta : 0 ≤ delta) (hzero : delta ≠ 0 → 0 < distributed)
    (hdistributed : distributed ≤
      store.rewardCarry auth (jsonStringifyLower env tick) + amount)
    (hexact : delta * store.totalShares auth = authorityRewardPrecision * distributed)
    (hsp : after.sp = store.sp) (hah : after.ah = store.ah) (hrcli : after.rcli = store.rcli)
    (hshares : after.totalShares auth = store.totalShares auth)
    (hacc : ∀ asked, after.accReward auth asked = store.accReward auth asked +
      if asked = jsonStringifyLower env tick then delta else 0)
    (hcarry : ∀ asked, after.rewardCarry auth asked = store.rewardCarry auth asked +
      if asked = jsonStringifyLower env tick then amount - distributed else 0)
    (hbalance : ∀ asked, after.authorityBalance auth asked = store.authorityBalance auth asked +
      if asked = jsonStringifyLower env tick then amount else 0)
    (hlisted : after.Listed env auth)
    (hlabels : ∀ label ∈ store.labels auth, label ∈ after.labels auth)
    (hlabel : 0 < after.authorityBalance auth (jsonStringifyLower env tick) →
      tickLabel env (jsonStringifyLower env tick) ∈ after.labels auth) :
    Solvent env auth after (fun asked => allocated asked +
      if asked = jsonStringifyLower env tick then amount else 0) := by
  constructor
  · rw [hsp]
    exact solvent.position_ok
  · rw [hsp, hshares]
    exact solvent.shares_eq
  · intro asked
    have hold := solvent.acc_nonneg asked
    rw [hacc]
    split <;> omega
  · intro asked
    have hold := solvent.carry_nonneg asked
    rw [hcarry]
    split
    next hsame =>
      subst hsame
      omega
    next => omega
  · exact hlisted
  · intro rewardTick other hlower hother hmoved
    rw [hah, hconfig] at hother
    cases hother
    rw [hacc] at hmoved
    by_cases hsame : jsonStringifyLower env rewardTick = jsonStringifyLower env tick
    · -- the ticker of the allocation is allowed, and listed with its balance
      by_cases hstill : store.accReward auth (jsonStringifyLower env rewardTick) ≠ 0
      · exact mem_rewardDebtTicks_of_labels hlabels (solvent.debtTicks hlower hconfig hstill)
      · have hpos : 0 < distributed := by
          apply hzero
          intro hnone
          rw [if_pos hsame, hnone] at hmoved
          omega
        have hheld := solvent.carry_add_principal_le hlower
        have hprincipal := solvent.principal_nonneg rewardTick
        have hafter := hbalance (jsonStringifyLower env tick)
        rw [if_pos rfl, ← hsame] at hafter
        rw [← hsame] at hdistributed hlabel
        have hmem := hlabel (by omega)
        rw [lawful.tickLabel_eq, lawful.lower_eq hsame] at hmem
        rw [← hlower, lawful.lower_eq hsame]
        exact mem_rewardDebtTicks_of_allowed lawful hallowed hreads hmem
    · rw [if_neg hsame, add_zero] at hmoved
      exact mem_rewardDebtTicks_of_labels hlabels (solvent.debtTicks hlower hconfig hmoved)
  · intro id position rewardTick hlower hrow hopen
    rw [hsp] at hrow
    have hold := solvent.owed_nonneg hlower hrow hopen
    have hpos := (solvent.position_ok hrow hopen).1
    rw [hacc]
    unfold owed at hold ⊢
    have hgrow : 0 ≤ position.shares *
        (if jsonStringifyLower env rewardTick = jsonStringifyLower env tick then
          delta else 0) := by
      apply Int.mul_nonneg hpos.le
      split
      · exact hdelta
      · exact le_rfl
    rw [Int.mul_add]
    omega
  · intro rewardTick hlower
    have hold := solvent.backed hlower
    rw [hrcli, hsp, hacc, hcarry, solvent.openTotal_owed_add]
    by_cases hsame : jsonStringifyLower env rewardTick = jsonStringifyLower env tick
    · simp only [if_pos hsame]
      rw [hexact]
      unfold authorityRewardPrecision at hold ⊢
      omega
    · simp only [if_neg hsame]
      simpa using hold
  · intro rewardTick hlower
    have hold := solvent.balance_eq hlower
    rw [hrcli, hsp, hbalance, hold]
    omega

/-- Rows of an authority that nothing touched leave it solvent. -/
theorem frame (solvent : Solvent env auth store allocated) (kept : RatesKept env auth store after)
    (hsp : after.sp = store.sp) (hrcli : after.rcli = store.rcli)
    (hshares : after.totalShares auth = store.totalShares auth)
    (hbalance : ∀ asked, after.authorityBalance auth asked = store.authorityBalance auth asked) :
    Solvent env auth after allocated := by
  refine solvent.of_ratesKept kept ?_ ?_ ?_ ?_ ?_
  · rw [hsp]
    exact solvent.position_ok
  · rw [hsp, hshares]
    exact solvent.shares_eq
  · rw [hsp]
    exact solvent.owed_nonneg
  · rw [hrcli, hsp]
    exact solvent.backed
  · intro rewardTick hlower
    rw [hrcli, hsp, hbalance]
    exact solvent.balance_eq hlower

/-- Accounts have nothing to do with the solvency of an authority. -/
theorem putBalance (solvent : Solvent env auth store allocated) (address : Address) (tick : TickKey)
    (n : ℤ) : Solvent env auth (store.putBalance address tick n) allocated :=
  solvent.frame ⟨rfl, fun _ => rfl, fun _ => rfl, solvent.listed, fun _ hlabel => hlabel⟩ rfl rfl rfl
    fun _ => rfl

/-- A new position to which nothing is owed yet. -/
theorem stake (lawful : LawfulText env) (solvent : Solvent env auth store allocated) {id : Text}
    (hnew : store.sp.lookup id = none)
    (hstatus : position.status = .opened) (hpositive : 0 < position.shares) (hamt : 0 < position.amt)
    (htick : env.jsToLowercase position.tick = position.tick)
    (howed : position.auth = auth → ∀ {rewardTick}, env.jsToLowercase rewardTick = rewardTick →
      owed rewardTick (store.accReward auth (jsonStringifyLower env rewardTick))
        position = 0)
    (kept : RatesKept env auth store after) (hsp : after.sp = store.sp.insert id position)
    (hrcli : after.rcli = store.rcli)
    (hshares : after.totalShares auth = store.totalShares auth +
      if position.auth = auth then position.shares else 0)
    (hbalance : ∀ asked, after.authorityBalance auth asked = store.authorityBalance auth asked +
      if position.auth = auth ∧ asked = jsonStringifyLower env position.tick then
        position.amt else 0) :
    Solvent env auth after allocated := by
  have hopenIff : position.OpenAt auth ↔ position.auth = auth := by
    unfold StakePositionRecord.OpenAt
    rw [hstatus]
    simp
  refine solvent.of_ratesKept kept ?_ ?_ ?_ ?_ ?_
  · intro other found hrow hopen
    rw [hsp] at hrow
    rcases lookup_insert_cases hrow with ⟨-, rfl⟩ | ⟨-, hold⟩
    · exact ⟨hpositive, hamt, htick⟩
    · exact solvent.position_ok hold hopen
  · rw [hsp, hshares, solvent.shares_eq, openTotal_insert_new hnew]
    simp only [hopenIff]
  · intro other found rewardTick hlower hrow hopen
    rw [hsp] at hrow
    rcases lookup_insert_cases hrow with ⟨-, rfl⟩ | ⟨-, hold⟩
    · exact (howed hopen.1 hlower).ge
    · exact solvent.owed_nonneg hlower hold hopen
  · intro rewardTick hlower
    have hnone : (if position.OpenAt auth then
        owed rewardTick (store.accReward auth (jsonStringifyLower env rewardTick)) position
          else 0) = 0 := by
      split
      next hopen => exact howed hopen.1 hlower
      next => rfl
    rw [hrcli, hsp, openTotal_insert_new hnew, hnone, add_zero]
    exact solvent.backed hlower
  · intro rewardTick hlower
    rw [hrcli, hsp, hbalance, solvent.balance_eq hlower, openTotal_insert_new hnew]
    have hsame : (if position.auth = auth ∧ jsonStringifyLower env rewardTick =
          jsonStringifyLower env position.tick then position.amt else 0) =
        if position.OpenAt auth then (if position.tick = rewardTick then position.amt else 0)
          else 0 := by
      by_cases hauth : position.auth = auth
      · rw [if_pos (hopenIff.2 hauth)]
        simp only [hauth, true_and, lawful.key_eq_iff hlower htick, eq_comm]
      · rw [if_neg (mt hopenIff.1 hauth), if_neg fun hboth => hauth hboth.1]
    rw [hsame]
    omega

/-- A claim pays the difference between what the shares have earned and the debt, and makes the former
the debt. -/
theorem claim (lawful : LawfulText env) (solvent : Solvent env auth store allocated)
    (paid : RewardClaimRecord) {id target rewardTick : Text}
    (hlower : env.jsToLowercase rewardTick = rewardTick)
    (hrow : store.sp.lookup id = some position) (hopen : position.OpenAt target)
    (hauth : paid.auth = target) (hrt : paid.rt = rewardTick)
    (hamt : paid.amt = authorityRewardDebt position.shares
      (store.accReward target (jsonStringifyLower env rewardTick)) -
        position.debtOf rewardTick)
    (hsp : after.sp = store.sp.insert id { position with
      debt := position.debt.insert rewardTick (authorityRewardDebt position.shares
        (store.accReward target (jsonStringifyLower env rewardTick))) })
    (kept : RatesKept env auth store after) (hrcli : after.rcli = store.rcli ++ [paid])
    (hshares : after.totalShares auth = store.totalShares auth)
    (hbalance : ∀ asked, after.authorityBalance auth asked = store.authorityBalance auth asked -
      if target = auth ∧ asked = jsonStringifyLower env rewardTick then paid.amt else 0) :
    Solvent env auth after allocated := by
  set claimed : StakePositionRecord := { position with
    debt := position.debt.insert rewardTick (authorityRewardDebt position.shares
      (store.accReward target (jsonStringifyLower env rewardTick))) } with hclaimed
  have hsameOpen : claimed.OpenAt auth ↔ position.OpenAt auth := Iff.rfl
  have howed : ∀ asked acc, owed asked acc claimed = owed asked acc position -
      authorityRewardPrecision * if asked = rewardTick then paid.amt else 0 := by
    intro asked acc
    rw [hclaimed, owed_insert, hamt]
  refine solvent.of_ratesKept kept ?_ ?_ ?_ ?_ ?_
  · intro other found hfound hopen'
    rw [hsp] at hfound
    rcases lookup_insert_cases hfound with ⟨-, rfl⟩ | ⟨-, hold⟩
    · obtain ⟨hpositive, hprincipal, htick⟩ := solvent.position_ok hrow (hsameOpen.1 hopen')
      exact ⟨hpositive, hprincipal, htick⟩
    · exact solvent.position_ok hold hopen'
  · have hsum := openTotal_replace auth StakePositionRecord.shares claimed hrow
    simp only [hsameOpen] at hsum
    rw [hsp, hshares, solvent.shares_eq]
    change openTotal auth StakePositionRecord.shares store.sp = _
    have hvalue : claimed.shares = position.shares := rfl
    rw [hvalue] at hsum
    omega
  · intro other found asked hasked hfound hopen'
    rw [hsp] at hfound
    rcases lookup_insert_cases hfound with ⟨-, rfl⟩ | ⟨-, hold⟩
    · have hopenOld := hsameOpen.1 hopen'
      have hpositive := (solvent.position_ok hrow hopenOld).1
      unfold owed
      rw [hclaimed, debtOf_insert]
      split
      next hsame =>
        subst hsame
        have htarget : target = auth := hopen.1.symm.trans hopenOld.1
        subst htarget
        have hle := precision_mul_debt_le hpositive.le
          (solvent.acc_nonneg (jsonStringifyLower env asked))
        change 0 ≤ position.shares * _ - _
        omega
      next => exact solvent.owed_nonneg hasked hrow hopenOld
    · exact solvent.owed_nonneg hasked hold hopen'
  · intro asked hasked
    have hold := solvent.backed hasked
    have hsum := openTotal_replace auth
      (owed asked (store.accReward auth (jsonStringifyLower env asked))) claimed hrow
    simp only [hsameOpen, howed] at hsum
    rw [hrcli, hsp, paidTotal_append, hauth, hrt]
    by_cases htarget : target = auth
    · have hopenAt : position.OpenAt auth := htarget ▸ hopen
      simp only [if_pos hopenAt] at hsum
      by_cases hsame : asked = rewardTick
      · simp only [if_pos hsame] at hsum
        rw [if_pos ⟨htarget, hsame.symm⟩]
        unfold authorityRewardPrecision at hold hsum ⊢
        omega
      · simp only [if_neg hsame] at hsum
        rw [if_neg fun hboth => hsame hboth.2.symm, add_zero]
        omega
    · have hnotOpen : ¬ position.OpenAt auth := fun hopenAt =>
        htarget (hopen.1.symm.trans hopenAt.1)
      simp only [if_neg hnotOpen] at hsum
      rw [if_neg fun hboth => htarget hboth.1, add_zero]
      omega
  · intro asked hasked
    have hsum := openTotal_replace auth
      (fun position => if position.tick = asked then position.amt else 0) claimed hrow
    have hsamePrincipal : openTotal auth
        (fun position => if position.tick = asked then position.amt else 0)
          (store.sp.insert id claimed) =
        openTotal auth (fun position => if position.tick = asked then position.amt else 0)
          store.sp := by
      have hvalue : claimed.tick = position.tick ∧ claimed.amt = position.amt := ⟨rfl, rfl⟩
      simp only [hsameOpen, hvalue] at hsum
      omega
    rw [hrcli, hsp, hbalance, solvent.balance_eq hasked, paidTotal_append, hauth, hrt,
      hsamePrincipal]
    simp only [lawful.key_eq_iff hasked hlower, @eq_comm _ rewardTick]
    omega

/-- Closing a position takes its shares and its principal out; what is still owed to it is dropped. -/
theorem close (lawful : LawfulText env) (solvent : Solvent env auth store allocated)
    {id target : Text}
    (hrow : store.sp.lookup id = some position) (hopen : position.OpenAt target)
    (hsp : after.sp = store.sp.insert id { position with status := .closed })
    (kept : RatesKept env auth store after) (hrcli : after.rcli = store.rcli)
    (hshares : after.totalShares auth = store.totalShares auth -
      if target = auth then position.shares else 0)
    (hbalance : ∀ asked, after.authorityBalance auth asked = store.authorityBalance auth asked -
      if target = auth ∧ asked = jsonStringifyLower env position.tick then position.amt
        else 0) :
    Solvent env auth after allocated := by
  have hclosed : ¬ ({ position with status := .closed } : StakePositionRecord).OpenAt auth := by
    rintro ⟨-, hstatus⟩
    cases hstatus
  have hopenIff : position.OpenAt auth ↔ target = auth :=
    ⟨fun hopenAt => hopen.1.symm.trans hopenAt.1, fun heq => heq ▸ hopen⟩
  have hsum : ∀ value : StakePositionRecord → ℤ,
      openTotal auth value after.sp + (if target = auth then value position else 0) =
        openTotal auth value store.sp := by
    intro value
    have haccount := openTotal_replace auth value { position with status := .closed } hrow
    simp only [hopenIff] at haccount
    rw [if_neg hclosed, add_zero] at haccount
    rw [hsp]
    exact haccount
  refine solvent.of_ratesKept kept ?_ ?_ ?_ ?_ ?_
  · intro other found hfound hopen'
    rw [hsp] at hfound
    rcases lookup_insert_cases hfound with ⟨-, rfl⟩ | ⟨-, hold⟩
    · exact absurd hopen' hclosed
    · exact solvent.position_ok hold hopen'
  · have haccount := hsum StakePositionRecord.shares
    rw [hshares, solvent.shares_eq]
    omega
  · intro other found asked hasked hfound hopen'
    rw [hsp] at hfound
    rcases lookup_insert_cases hfound with ⟨-, rfl⟩ | ⟨-, hold⟩
    · exact absurd hopen' hclosed
    · exact solvent.owed_nonneg hasked hold hopen'
  · intro asked hasked
    have hold := solvent.backed hasked
    have haccount := hsum (owed asked (store.accReward auth (jsonStringifyLower env asked)))
    have hdropped : 0 ≤ if target = auth then
        owed asked (store.accReward auth (jsonStringifyLower env asked)) position else 0 := by
      split
      next htarget => exact solvent.owed_nonneg hasked hrow (hopenIff.2 htarget)
      next => exact le_rfl
    rw [hrcli]
    omega
  · intro asked hasked
    have haccount := hsum fun position => if position.tick = asked then position.amt else 0
    have hpart : (if target = auth ∧ jsonStringifyLower env asked =
          jsonStringifyLower env position.tick then position.amt else 0) =
        if target = auth then (if position.tick = asked then position.amt else 0) else 0 := by
      by_cases hsame : position.tick = asked
      · simp only [hsame, and_true, if_true]
      · rw [if_neg hsame, ite_self, if_neg]
        rintro ⟨htarget, hkey⟩
        have htick := (solvent.position_ok hrow (hopenIff.2 htarget)).2.2
        exact hsame (lawful.key_injective hasked htick hkey).symm
    rw [hrcli, hbalance, solvent.balance_eq hasked, hpart]
    omega

end Solvent

/-! ### The actions -/

section Actions

variable {env : ProofEnv} {auth : Text} {store : ProofStore} {allocated : TickKey → ℤ}
  {link : Option TokenAuthCreateRecord} {position : StakePositionRecord}

section Put

variable {target : Text} {tick : TickKey} {n : ℤ}

theorem totalShares_put :
    (store.putAuthorityBalance env target tick n).totalShares auth = store.totalShares auth :=
  congrArg (fun rows => (rows.lookup auth).getD 0) putAuthorityBalance_ahs

theorem accReward_put (asked : TickKey) :
    (store.putAuthorityBalance env target tick n).accReward auth asked = store.accReward auth asked :=
  congrArg (fun rows => (rows.lookup (auth, asked)).getD 0) putAuthorityBalance_ahrps

theorem rewardCarry_put (asked : TickKey) :
    (store.putAuthorityBalance env target tick n).rewardCarry auth asked =
      store.rewardCarry auth asked :=
  congrArg (fun rows => (rows.lookup (auth, asked)).getD 0) putAuthorityBalance_ahrc

variable {post : Unit → ProofStore → Prop}

theorem wp_setAuthorityTotalShares
    (hpost : 0 ≤ n → post () { store with ahs := store.ahs.insert target n }) :
    Proc.wp (setAuthorityTotalShares target n) post (fun _ _ => True) store := by
  unfold setAuthorityTotalShares
  apply wp_require
  intro hnonneg
  exact wp_write_last (hpost (by simpa using hnonneg))

theorem wp_setAuthorityAccReward
    (hpost : 0 ≤ n → post () { store with ahrps := store.ahrps.insert (target, tick) n }) :
    Proc.wp (setAuthorityAccReward target tick n) post (fun _ _ => True) store := by
  unfold setAuthorityAccReward
  apply wp_require
  intro hnonneg
  exact wp_write_last (hpost (by simpa using hnonneg))

theorem wp_setAuthorityRewardCarry
    (hpost : 0 ≤ n → post () { store with ahrc := store.ahrc.insert (target, tick) n }) :
    Proc.wp (setAuthorityRewardCarry target tick n) post (fun _ _ => True) store := by
  unfold setAuthorityRewardCarry
  apply wp_require
  intro hnonneg
  exact wp_write_last (hpost (by simpa using hnonneg))

theorem ratesKept_put (hlisted : store.Listed env auth) :
    Solvent.RatesKept env auth store (store.putAuthorityBalance env target tick n) where
  config := putAuthorityBalance_ah
  acc := accReward_put
  carry := rewardCarry_put
  listed := (listed_putAuthorityBalance _ _ _ hlisted).1
  labels _ := labels_putAuthorityBalance auth

/-- A number of an authority and a ticker, after it has been written. -/
theorem getD_lookup_insert (rows : KeyTable (Text × TickKey) ℤ) (delta : ℤ) (asked : TickKey)
    (hn : n = (rows.lookup (target, tick)).getD 0 + delta) :
    ((rows.insert (target, tick) n).lookup (auth, asked)).getD 0 =
      (rows.lookup (auth, asked)).getD 0 + if auth = target ∧ asked = tick then delta else 0 := by
  rw [lookup_insert_ite]
  by_cases hsame : auth = target ∧ asked = tick
  · rw [if_pos (by rw [hsame.1, hsame.2]), if_pos hsame, hsame.1, hsame.2, ← hn]
    rfl
  · rw [if_neg fun heq => hsame (Prod.mk.injEq _ _ _ _ ▸ heq), if_neg hsame, add_zero]

end Put

/-- An authority that names no reward tickers reads a ticker back from the row it lists it in. -/
def LabelReads (env : ProofEnv) (store : ProofStore) (auth tick : Text) : Prop :=
  ∀ config ∈ store.ah.lookup auth, config.rt.isEmpty →
    env.strings.read (env.jsToLowercase tick) = some (env.jsToLowercase tick)

/-- No division of the action leaves a rest: neither the share of an allocation, nor the debt of a new
position in a reward ticker; and the ticker of an allocation is read back. -/
def RoundsExactly (env : ProofEnv) (run : StakingRun) : StakingAction → Prop
  | .allocate auth tick amount => LabelReads env run.store auth tick ∧
      ∀ split ∈ rewardSplit
        (run.store.rewardCarry auth (jsonStringifyLower env tick) + amount)
        (run.store.totalShares auth),
        authorityRewardPrecision ∣ split.1 * run.store.totalShares auth
  | .stake context link place action =>
      ∀ validated ∈ validateStakeAction env context action link place run.store,
        ∀ rewardTick ∈ validated.2.2.debt.keys,
          authorityRewardPrecision ∣ validated.2.2.shares *
            run.store.accReward validated.2.2.auth (jsonStringifyLower env rewardTick)
  | .claimReward _ => True
  | .unstake _ _ _ => True

instance RoundsExactly.decidable (env : ProofEnv) (run : StakingRun) :
    ∀ action, Decidable (RoundsExactly env run action)
  | .allocate _ _ _ => inferInstanceAs (Decidable ((∀ config ∈ run.store.ah.lookup _, _ → _ = _) ∧
      ∀ split ∈ rewardSplit _ _, _ ∣ _))
  | .stake _ _ _ _ => inferInstanceAs (Decidable (∀ validated ∈ validateStakeAction _ _ _ _ _ _,
      ∀ rewardTick ∈ validated.2.2.debt.keys, _ ∣ _))
  | .claimReward _ => instDecidableTrue
  | .unstake _ _ _ => instDecidableTrue

/-- An allocation credits the authority, moves its accumulator by `delta` and takes `distributed` off
the carry. -/
theorem solvent_allocation (lawful : LawfulText env) (solvent : Solvent env auth store allocated)
    {target tick : Text} {amount delta distributed : ℤ} {config : AuthorityConfigRecord}
    {ahrps ahrc : KeyTable (Text × TickKey) ℤ} (hconfig : store.ah.lookup target = some config)
    (hallowed : rewardTickAllowed env config (jsonStringifyLower env tick) = true)
    (hreads : config.rt.isEmpty → env.strings.read (env.jsToLowercase tick) = some (env.jsToLowercase tick))
    (hnonneg : 0 ≤ store.authorityBalance target (jsonStringifyLower env tick) + amount)
    (hhigh : store.authorityBalance target (jsonStringifyLower env tick) + amount < 2 ^ 127)
    (hdelta : 0 ≤ delta) (hzero : delta ≠ 0 → 0 < distributed)
    (hdistributed : distributed ≤
      store.rewardCarry target (jsonStringifyLower env tick) + amount)
    (hexact : delta * store.totalShares target = authorityRewardPrecision * distributed)
    (hacc : ∀ asked auth, (ahrps.lookup (auth, asked)).getD 0 = store.accReward auth asked +
      if auth = target ∧ asked = jsonStringifyLower env tick then delta else 0)
    (hcarry : ∀ asked auth, (ahrc.lookup (auth, asked)).getD 0 = store.rewardCarry auth asked +
      if auth = target ∧ asked = jsonStringifyLower env tick then amount - distributed
        else 0) :
    Solvent env auth
      { store.putAuthorityBalance env target (jsonStringifyLower env tick)
          (store.authorityBalance target (jsonStringifyLower env tick) + amount) with
        ahrps := ahrps, ahrc := ahrc }
      fun asked => allocated asked +
        if auth = target ∧ asked = jsonStringifyLower env tick then amount else 0 := by
  obtain ⟨hlisted, hlabel⟩ := listed_putAuthorityBalance target (jsonStringifyLower env tick)
    (store.authorityBalance target (jsonStringifyLower env tick) + amount) solvent.listed
  have hread := authorityBalance_put env store auth target (jsonStringifyLower env tick)
    hnonneg hhigh
  by_cases hsame : auth = target
  · subst hsame
    simp only [true_and] at hread ⊢
    apply solvent.allocate lawful hconfig hallowed hreads hdelta hzero hdistributed hexact
    · exact putAuthorityBalance_sp
    · exact putAuthorityBalance_ah
    · exact putAuthorityBalance_rcli
    · exact totalShares_put
    · exact fun asked => (hacc asked auth).trans (by simp only [true_and])
    · exact fun asked => (hcarry asked auth).trans (by simp only [true_and])
    · exact hread
    · exact hlisted
    · exact fun label => labels_putAuthorityBalance auth
    · intro hpos
      apply hlabel rfl
      have hnew := hread (jsonStringifyLower env tick)
      rw [if_pos rfl] at hnew
      exact hnew ▸ hpos
  · simp only [hsame, Ne.symm hsame, false_and, if_false, add_zero] at hread ⊢
    apply solvent.frame
    · exact
        { ratesKept_put solvent.listed with
          acc := fun asked => (hacc asked auth).trans (by simp [hsame])
          carry := fun asked => (hcarry asked auth).trans (by simp [hsame]) }
    · exact putAuthorityBalance_sp
    · exact putAuthorityBalance_rcli
    · exact totalShares_put
    · exact hread

theorem solvent_applyStakingReward (lawful : LawfulText env)
    (solvent : Solvent env auth store allocated) {target tick : Text} {amount : ℤ}
    (hreads : LabelReads env store target tick)
    (hexact : ∀ split ∈ rewardSplit
        (store.rewardCarry target (jsonStringifyLower env tick) + amount)
        (store.totalShares target),
      authorityRewardPrecision ∣ split.1 * store.totalShares target) :
    Proc.wp (applyStakingReward env target tick amount)
      (fun _ after => Solvent env auth after fun asked => allocated asked +
        if auth = target ∧ asked = jsonStringifyLower env tick then amount else 0)
      (fun _ _ => True) store := by
  unfold applyStakingReward
  apply wp_read
  apply wp_get
  intro config hconfig
  apply wp_require
  intro hallowed
  apply wp_bind
  apply wp_tapAddAuthorityBalance
  intro hnonneg hhigh
  unfold applyAuthorityRewardAllocation
  apply wp_read
  apply wp_get
  intro _ _
  apply wp_require
  intro _
  apply wp_read
  apply wp_read
  apply wp_read
  rw [totalShares_put, rewardCarry_put, accReward_put]
  dsimp only
  cases hsplit : rewardSplit (store.rewardCarry target (jsonStringifyLower env tick) + amount)
      (store.totalShares target) with
  | none =>
      apply wp_setAuthorityRewardCarry
      intro hcarried
      apply solvent_allocation lawful solvent hconfig hallowed (hreads _ hconfig) hnonneg hhigh le_rfl
        (fun hmoved => absurd rfl hmoved) hcarried (by simp)
      · intro asked other
        rw [putAuthorityBalance_ahrps, ite_self, add_zero]
        rfl
      · intro asked other
        rw [putAuthorityBalance_ahrc]
        apply getD_lookup_insert
        unfold ProofStore.rewardCarry
        omega
  | some split =>
      obtain ⟨delta, distributed⟩ := split
      obtain ⟨hdelta, hpositive, hle, hsum⟩ := rewardSplit_exact hsplit (hexact _ hsplit)
      apply wp_bind
      apply wp_setAuthorityAccReward
      intro _
      apply wp_setAuthorityRewardCarry
      intro hcarried
      apply solvent_allocation lawful solvent hconfig hallowed (hreads _ hconfig) hnonneg hhigh hdelta.le
        (fun _ => hpositive) hle hsum
      · intro asked other
        rw [putAuthorityBalance_ahrps]
        exact getD_lookup_insert _ _ _ rfl
      · intro asked other
        rw [putAuthorityBalance_ahrc]
        apply getD_lookup_insert
        unfold ProofStore.rewardCarry
        omega

/-- What a validated stake has: positive amounts, a lower-case ticker, and the debt of the present
accumulator in every reward ticker of its authority. -/
theorem validateStakeAction_spec (lawful : LawfulText env) {context : TapContext} {action : Json}
    {place : ActionPlace} {id : Text} {addr : Address}
    (hvalid : validateStakeAction env context action link place store = some (id, addr, position)) :
    0 < position.shares ∧ 0 < position.amt ∧ position.amt < 2 ^ 127 ∧ position.status = .opened ∧
      env.jsToLowercase position.tick = position.tick ∧
      ∃ config, store.ah.lookup position.auth = some config ∧
        ∀ rewardTick,
          (rewardTick ∈ store.rewardDebtTicks env position.auth config →
            position.debt.lookup rewardTick = some (authorityRewardDebt position.shares
              (store.accReward position.auth (jsonStringifyLower env rewardTick)))) ∧
          (rewardTick ∉ store.rewardDebtTicks env position.auth config →
            position.debt.lookup rewardTick = none) := by
  unfold validateStakeAction at hvalid
  obtain ⟨link, hvalid⟩ := of_bind hvalid
  obtain ⟨_, hvalid⟩ := of_bind hvalid
  obtain ⟨auth, hvalid⟩ := of_bind hvalid
  obtain ⟨_, hvalid⟩ := of_bind hvalid
  obtain ⟨tick, hvalid⟩ := of_bind hvalid
  obtain ⟨amt, hvalid⟩ := of_bind hvalid
  replace hvalid := of_guard hvalid
  obtain ⟨_, hvalid⟩ := of_bind hvalid
  obtain ⟨tierId, hvalid⟩ := of_bind hvalid
  obtain ⟨_, hvalid⟩ := of_bind hvalid
  obtain ⟨claim, hvalid⟩ := of_bind hvalid
  replace hvalid := of_guard hvalid
  obtain ⟨config, hconfig, hvalid⟩ := Option.bind_eq_some_iff.1 hvalid
  replace hvalid := of_guard hvalid
  obtain ⟨tier, hvalid⟩ := of_bind hvalid
  obtain ⟨dur, hvalid⟩ := of_bind hvalid
  obtain ⟨_, hvalid⟩ := of_bind hvalid
  obtain ⟨weight, hvalid⟩ := of_bind hvalid
  replace hvalid := of_guard hvalid
  obtain ⟨deployed, hvalid⟩ := of_bind hvalid
  obtain ⟨amount, hamount, hvalid⟩ := Option.bind_eq_some_iff.1 hvalid
  obtain ⟨⟨hpositive, hshares⟩, hvalid⟩ := Proc.guard_bind_eq_some.1 hvalid
  replace hvalid := of_guard hvalid
  obtain ⟨_, hvalid⟩ := of_bind hvalid
  replace hvalid := of_guard hvalid
  cases hvalid
  have hdebt := fun rewardTick => lookup_foldl_keys (fun rewardTick => authorityRewardDebt
    ((amount : ℤ) * weight) (store.accReward auth (jsonStringifyLower env rewardTick)))
    rewardTick (store.rewardDebtTicks env auth config) ∅
  dsimp only
  refine ⟨hshares, by exact_mod_cast hpositive, ?_, rfl, lawful.lower_lower tick, config, hconfig, ?_⟩
  · exact_mod_cast lt_of_resolvedI128 hamount
  · intro rewardTick
    constructor
    · intro hmem
      rw [hdebt, if_pos hmem]
    · intro hmem
      rw [hdebt, if_neg hmem]
      rfl

/-- A stake whose debt is exact keeps an authority solvent. -/
theorem solvent_processStakeAction (lawful : LawfulText env)
    (solvent : Solvent env auth store allocated) {context : TapContext} {action : Json} {place : ActionPlace}
    (hexact : ∀ validated ∈ validateStakeAction env context action link place store,
      ∀ rewardTick ∈ validated.2.2.debt.keys,
        authorityRewardPrecision ∣ validated.2.2.shares *
          store.accReward validated.2.2.auth (jsonStringifyLower env rewardTick)) :
    Proc.wp (processStakeAction env context action link place)
      (fun _ after => Solvent env auth after allocated) (fun _ _ => True) store := by
  unfold processStakeAction
  apply wp_read
  apply wp_get
  rintro ⟨id, addr, position⟩ hvalid
  obtain ⟨hshares, hamt, hamtHigh, hstatus, htick, config, hconfig, hdebt⟩ :=
    validateStakeAction_spec lawful hvalid
  replace hexact := hexact _ hvalid
  apply wp_read
  apply wp_require
  intro hnew
  apply wp_read
  apply wp_require
  intro _
  apply wp_write
  -- nothing is owed yet: the debt is exact where the accumulator has moved
  have howed : position.auth = auth → ∀ {rewardTick}, env.jsToLowercase rewardTick = rewardTick →
      owed rewardTick (store.accReward auth (jsonStringifyLower env rewardTick))
        position = 0 := by
    rintro rfl rewardTick hlower
    unfold owed StakePositionRecord.debtOf
    by_cases hmem : rewardTick ∈ store.rewardDebtTicks env position.auth config
    · have hfound := (hdebt rewardTick).1 hmem
      have hkey : rewardTick ∈ position.debt.keys := by
        rw [← AList.mem_keys, ← AList.lookup_isSome, hfound]
        rfl
      rw [hfound, Option.getD_some, authorityRewardDebt, Int.mul_comm authorityRewardPrecision,
        Int.tdiv_mul_cancel (hexact rewardTick hkey), Int.sub_self]
    · have hstill : store.accReward position.auth
          (jsonStringifyLower env rewardTick) = 0 := by
        by_contra hmoved
        exact hmem (solvent.debtTicks hlower hconfig hmoved)
      rw [(hdebt rewardTick).2 hmem, hstill]
      simp
  have solvent' := solvent.putBalance addr (jsonStringifyLower env position.tick)
    (wrapI128 (i128At store.b addr (jsonStringifyLower env position.tick) - position.amt))
  apply wp_bind
  apply wp_tapAddAuthorityBalance
  intro hnonneg hhigh
  apply wp_read
  apply wp_bind
  apply wp_setAuthorityTotalShares
  intro _
  apply wp_write_last
  have hread := authorityBalance_put env _ auth position.auth
    (jsonStringifyLower env position.tick) hnonneg hhigh
  have hnew : store.sp.lookup id = none := by simpa using hnew
  apply solvent'.stake lawful hnew hstatus hshares hamt htick howed
  · exact { ratesKept_put solvent'.listed with }
  · exact congrArg (fun rows => rows.insert id position) putAuthorityBalance_sp
  · exact putAuthorityBalance_rcli
  · rw [totalShares_put, putAuthorityBalance_ahs]
    unfold ProofStore.totalShares
    rw [lookup_insert_ite]
    split
    next hsame =>
      rw [if_pos hsame.symm, hsame]
      rfl
    next hother => rw [if_neg (Ne.symm hother), add_zero]
  · exact hread

/-- A claim keeps an authority solvent, and the position open. -/
theorem solvent_claimReward (lawful : LawfulText env) (solvent : Solvent env auth store allocated)
    {target posId rewardTick : Text} (hlower : env.jsToLowercase rewardTick = rewardTick) :
    Proc.wp (claimReward env target posId rewardTick)
      (fun _ after => Solvent env auth after allocated ∧
        ∃ position debt, store.sp.lookup posId = some position ∧ position.OpenAt target ∧
          after.sp.lookup posId = some { position with debt := debt })
      (fun _ _ => True) store := by
  unfold claimReward
  apply wp_read
  apply wp_get
  intro position hrow
  apply wp_require
  intro hopen
  have hopen : position.OpenAt target := of_decide_eq_true hopen
  apply wp_read
  apply wp_require
  intro hpositive
  have hpositive := of_decide_eq_true hpositive
  apply wp_read
  apply wp_require
  intro hcovered
  have hcovered := of_decide_eq_true hcovered
  have hpending := pending_eq_of_pos hpositive
  have hrange := i128At_range store.ab target (jsonStringifyLower env rewardTick)
  rw [hopen.1] at hpending
  generalize hpaid : store.pendingStakeReward env position rewardTick = pending at *
  have hpaid : pending = authorityRewardDebt position.shares
      (store.accReward target (jsonStringifyLower env rewardTick)) -
        position.debtOf rewardTick := by
    rw [← hpaid, ProofStore.pendingStakeReward, hopen.1]
    exact hpending
  apply wp_bind
  apply wp_tapCreditAddressBalance
  intro _ _
  have solvent' := solvent.putBalance position.claim (jsonStringifyLower env rewardTick)
    (i128At store.b position.claim (jsonStringifyLower env rewardTick) + pending)
  apply wp_bind
  apply wp_tapSetAuthorityBalance
  intro hnonneg
  apply wp_read
  rw [accReward_put]
  apply wp_write
  apply wp_write_last
  rw [Int.sub_eq_add_neg] at hnonneg ⊢
  have hhigh : store.authorityBalance target (jsonStringifyLower env rewardTick) +
      -pending < 2 ^ 127 := by
    unfold ProofStore.authorityBalance
    omega
  have hread := authorityBalance_put env (store.putBalance position.claim
    (jsonStringifyLower env rewardTick)
    (i128At store.b position.claim (jsonStringifyLower env rewardTick) + pending)) auth target
    (jsonStringifyLower env rewardTick) hnonneg hhigh
  constructor
  · apply solvent'.claim lawful ⟨target, posId, rewardTick, position.claim, pending⟩ hlower hrow hopen
    · rfl
    · rfl
    · exact hpaid
    · exact congrArg (fun rows => AList.insert posId _ rows) putAuthorityBalance_sp
    · exact { ratesKept_put solvent'.listed with }
    · exact congrArg (fun rows => rows ++ [_]) putAuthorityBalance_rcli
    · exact totalShares_put
    · intro asked
      refine (hread asked).trans ?_
      split
      · rfl
      · rfl
  · exact ⟨position, _, hrow, hopen, AList.lookup_insert _⟩

theorem solvent_closePosition (lawful : LawfulText env) (solvent : Solvent env auth store allocated)
    {target posId : Text} (hrow : store.sp.lookup posId = some position)
    (hopen : position.OpenAt target) :
    Proc.wp (closePosition env posId position) (fun _ after => Solvent env auth after allocated)
      (fun _ _ => True) store := by
  obtain ⟨rfl, -⟩ := id hopen
  unfold closePosition
  apply wp_read
  apply wp_require
  intro hcovered
  have hcovered := of_decide_eq_true hcovered
  have hrange := i128At_range store.ab position.auth (jsonStringifyLower env position.tick)
  apply wp_bind
  apply wp_tapCreditAddressBalance
  intro _ _
  have solvent' := solvent.putBalance position.claim (jsonStringifyLower env position.tick)
    (i128At store.b position.claim (jsonStringifyLower env position.tick) + position.amt)
  apply wp_bind
  apply wp_tapSetAuthorityBalance
  intro hnonneg
  apply wp_read
  apply wp_bind
  apply wp_setAuthorityTotalShares
  intro _
  apply wp_write_last
  rw [Int.sub_eq_add_neg] at hnonneg ⊢
  have hhigh : store.authorityBalance position.auth (jsonStringifyLower env position.tick) +
      -position.amt < 2 ^ 127 := by
    unfold ProofStore.authorityBalance
    omega
  have hread := authorityBalance_put env (store.putBalance position.claim
    (jsonStringifyLower env position.tick)
    (i128At store.b position.claim (jsonStringifyLower env position.tick) + position.amt))
    auth position.auth (jsonStringifyLower env position.tick) hnonneg hhigh
  apply solvent'.close lawful hrow hopen
  · exact congrArg (fun rows => AList.insert posId _ rows) putAuthorityBalance_sp
  · exact { ratesKept_put solvent'.listed with }
  · exact putAuthorityBalance_rcli
  · rw [totalShares_put, putAuthorityBalance_ahs]
    unfold ProofStore.totalShares
    rw [lookup_insert_ite]
    split
    next hsame =>
      rw [if_pos hsame.symm, hsame]
      rfl
    next hother => rw [if_neg (Ne.symm hother), Int.sub_zero]
  · intro asked
    refine (hread asked).trans ?_
    split
    · rfl
    · rfl

theorem solvent_unstakeReward (lawful : LawfulText env) (solvent : Solvent env auth store allocated)
    {target posId rewardTick : Text} (hrow : store.sp.lookup posId = some position)
    (hlower : env.jsToLowercase rewardTick = rewardTick) :
    Proc.wp (unstakeReward env target posId position rewardTick)
      (fun _ after => Solvent env auth after allocated ∧
        ∃ debt, after.sp.lookup posId = some { position with debt := debt })
      (fun _ _ => True) store := by
  unfold unstakeReward
  apply wp_read
  split
  · apply wp_read
    apply wp_require
    intro _
    apply wp_require
    intro _
    apply Proc.wp_mono (solvent_claimReward lawful solvent hlower)
    rintro _ after ⟨hafter, claimed, debt, hclaimed, -, hrow'⟩
    cases hclaimed.symm.trans hrow
    exact ⟨hafter, debt, hrow'⟩
  · apply Proc.wp_pure
    exact ⟨solvent, position.debt, hrow⟩

theorem solvent_processUnstakeAction (lawful : LawfulText env)
    (solvent : Solvent env auth store allocated) {context : TapContext} {action : Json} :
    Proc.wp (processUnstakeAction env context action link)
      (fun _ after => Solvent env auth after allocated) (fun _ _ => True) store := by
  unfold processUnstakeAction
  apply wp_get
  intro target _
  apply wp_get
  intro posId _
  apply wp_read
  apply wp_get
  intro position hrow
  apply wp_require
  intro hchecks
  obtain ⟨hauth, hstatus, -⟩ := of_decide_eq_true hchecks
  apply wp_require
  intro _
  cases (action.get "rt").bind Json.asStr with
  | none => exact solvent_closePosition lawful solvent hrow ⟨hauth, hstatus⟩
  | some rewardTick =>
      apply wp_bind
      apply Proc.wp_mono (solvent_unstakeReward lawful solvent hrow (lawful.lower_lower rewardTick))
      rintro _ claimed ⟨solvent', debt, hrow'⟩
      apply wp_read
      apply wp_get
      intro found hfound
      cases hfound.symm.trans hrow'
      exact solvent_closePosition lawful solvent' hrow' ⟨hauth, hstatus⟩

end Actions

/-! ### Runs -/

section Runs

variable {env : ProofEnv} {auth : Text}

/-- A successful action whose divisions leave no rest keeps an authority solvent. -/
theorem solvent_stakingStep (lawful : LawfulText env) {run next : StakingRun} {action : StakingAction}
    (solvent : Solvent env auth run.store (run.allocated auth))
    (hexact : RoundsExactly env run action) (hstep : stakingStep env run action = some next) :
    Solvent env auth next.store (next.allocated auth) := by
  obtain ⟨after, hcommit, rfl⟩ := Option.map_eq_some_iff.1 hstep
  cases action with
  | allocate target tick amount =>
      exact of_commit (solvent_applyStakingReward lawful solvent hexact.1 hexact.2) hcommit
  | stake context link place action =>
      simp only [StakingAction.allocates, add_zero]
      exact of_commit (solvent_processStakeAction lawful solvent hexact) hcommit
  | claimReward action =>
      have hclaim : Proc.wp (processClaimRewardAction env action)
          (fun _ after => Solvent env auth after (run.allocated auth)) (fun _ _ => True)
          run.store := by
        unfold processClaimRewardAction
        apply wp_get
        intro target _
        apply wp_get
        intro posId _
        apply wp_get
        intro rewardTick _
        apply Proc.wp_mono (solvent_claimReward lawful solvent (lawful.lower_lower rewardTick))
        exact fun _ _ hafter => hafter.1
      simp only [StakingAction.allocates, add_zero]
      exact of_commit hclaim hcommit
  | unstake context link action =>
      simp only [StakingAction.allocates, add_zero]
      exact of_commit (solvent_processUnstakeAction lawful solvent) hcommit

/-- Nothing has happened to the authority yet. -/
structure FreshAuthority (auth : Text) (store : ProofStore) : Prop where
  no_position : ∀ {id position}, store.sp.lookup id = some position → position.auth ≠ auth
  no_claim : ∀ claim ∈ store.rcli, claim.auth ≠ auth
  no_shares : store.ahs.lookup auth = none
  no_acc : ∀ tick, store.ahrps.lookup (auth, tick) = none
  no_carry : ∀ tick, store.ahrc.lookup (auth, tick) = none
  no_balance : ∀ tick, store.ab.lookup (auth, tick) = none
  no_mark : ∀ tick, store.abo.lookup (auth, tick) = none

theorem FreshAuthority.solvent {store : ProofStore} (fresh : FreshAuthority auth store) :
    Solvent env auth store fun _ => 0 := by
  have hsum : ∀ value, openTotal auth value store.sp = 0 := by
    intro value
    unfold openTotal total
    apply List.sum_eq_zero
    intro weight hmem
    obtain ⟨row, hrow, rfl⟩ := List.mem_map.1 hmem
    exact if_neg fun hopen => fresh.no_position (AList.mem_lookup_iff.2 hrow) hopen.1
  have hpaid : ∀ rewardTick, paidTotal auth rewardTick store.rcli = 0 := by
    intro rewardTick
    unfold paidTotal
    apply List.sum_eq_zero
    intro weight hmem
    obtain ⟨claim, hclaim, rfl⟩ := List.mem_map.1 hmem
    exact if_neg fun hboth => fresh.no_claim claim hclaim hboth.1
  have hacc : ∀ tick, store.accReward auth tick = 0 := by
    intro tick
    rw [ProofStore.accReward, fresh.no_acc]
    rfl
  have hcarry : ∀ tick, store.rewardCarry auth tick = 0 := by
    intro tick
    rw [ProofStore.rewardCarry, fresh.no_carry]
    rfl
  constructor
  · intro id position hrow hopen
    exact absurd hopen.1 (fresh.no_position hrow)
  · rw [hsum, ProofStore.totalShares, fresh.no_shares]
    rfl
  · exact fun tick => (hacc tick).ge
  · exact fun tick => (hcarry tick).ge
  · intro tick hmarked
    rw [fresh.no_mark] at hmarked
    cases hmarked
  · intro rewardTick config _ _ hmoved
    exact absurd (hacc _) hmoved
  · intro id position rewardTick _ hrow hopen
    exact absurd hopen.1 (fresh.no_position hrow)
  · intro rewardTick _
    rw [hsum, hpaid, hcarry]
    simp
  · intro rewardTick _
    rw [hsum, hpaid, ProofStore.authorityBalance, i128At, fresh.no_balance]
    rfl

/-- What was paid, is pending and is carried was allocated; the principal is there, and every matured
position gets it back.  The last condition of `unstakes` only keeps the account of the receiver inside
`i128`. -/
structure RewardsSolvent (env : ProofEnv) (auth : Text) (run : StakingRun) : Prop where
  rewards_le : ∀ {rewardTick}, env.jsToLowercase rewardTick = rewardTick →
    paidTotal auth rewardTick run.store.rcli +
        openTotal auth (fun position => run.store.pendingStakeReward env position rewardTick)
          run.store.sp +
        run.store.rewardCarry auth (jsonStringifyLower env rewardTick) ≤
      run.allocated auth (jsonStringifyLower env rewardTick)
  principal_le : ∀ {tick}, env.jsToLowercase tick = tick →
    openTotal auth (fun position => if position.tick = tick then position.amt else 0) run.store.sp ≤
      run.store.authorityBalance auth (jsonStringifyLower env tick)
  unstakes : ∀ {id position} (context : TapContext) (link : Option TokenAuthCreateRecord),
    run.store.sp.lookup id = some position → position.OpenAt auth → position.uh ≤ context.height →
    link.all (fun link => link.addr = position.claim) = true →
    i128At run.store.b position.claim (jsonStringifyLower env position.tick) +
      position.amt < 2 ^ 127 →
    ∃ after,
      (processUnstakeAction env context
        (.object [("auth".toList, .string auth), ("pos".toList, .string id)]) link).commit run.store =
          some after ∧
      i128At after.b position.claim (jsonStringifyLower env position.tick) =
        i128At run.store.b position.claim (jsonStringifyLower env position.tick) +
          position.amt

/-- A solvent authority pays out a matured position. -/
theorem Solvent.unstakes {store : ProofStore} {allocated : TickKey → ℤ}
    (solvent : Solvent env auth store allocated) {id : Text} {position : StakePositionRecord}
    (context : TapContext) (link : Option TokenAuthCreateRecord)
    (hrow : store.sp.lookup id = some position) (hopen : position.OpenAt auth)
    (hmatured : position.uh ≤ context.height)
    (hlink : link.all (fun link => link.addr = position.claim) = true)
    (hfits : i128At store.b position.claim (jsonStringifyLower env position.tick) +
      position.amt < 2 ^ 127) :
    ∃ after,
      (processUnstakeAction env context
        (.object [("auth".toList, .string auth), ("pos".toList, .string id)]) link).commit store =
          some after ∧
      i128At after.b position.claim (jsonStringifyLower env position.tick) =
        i128At store.b position.claim (jsonStringifyLower env position.tick) +
          position.amt := by
  have hauth : position.auth = auth := hopen.1
  obtain ⟨hshares, hamt, htick⟩ := solvent.position_ok hrow hopen
  have hheld := solvent.carry_add_principal_le htick
  have hcarry := solvent.carry_nonneg (jsonStringifyLower env position.tick)
  have hprincipal : position.amt ≤ openTotal auth
      (fun other => if other.tick = position.tick then other.amt else 0) store.sp := by
    have hpart := le_openTotal (fun other => if other.tick = position.tick then other.amt else 0) hrow
      hopen fun hother hotherOpen => by
        split
        · exact (solvent.position_ok hother hotherOpen).2.1.le
        · exact le_rfl
    rw [if_pos rfl] at hpart
    exact hpart
  have htotal : position.shares ≤ store.totalShares auth := by
    rw [solvent.shares_eq]
    exact le_openTotal StakePositionRecord.shares hrow hopen fun hother hotherOpen =>
      (solvent.position_ok hother hotherOpen).1.le
  have hbalance := i128At_range store.b position.claim (jsonStringifyLower env position.tick)
  apply exists_commit
  unfold processUnstakeAction
  apply wp_get_of rfl
  apply wp_get_of rfl
  apply wp_read
  apply wp_get_of hrow
  apply wp_require_of (decide_eq_true ⟨hauth, hopen.2, hmatured⟩)
  apply wp_require_of hlink
  change Proc.wp (closePosition env _ position) _ _ _
  unfold closePosition
  rw [hauth]
  apply wp_read
  apply wp_require_of (decide_eq_true ⟨hamt, by omega⟩)
  apply wp_bind
  unfold tapCreditAddressBalance
  apply wp_require_of (decide_eq_true hamt.le)
  apply wp_read
  apply wp_get_of (readI128_of_range (by omega) hfits)
  apply wp_write_last
  apply wp_bind
  unfold tapSetAuthorityBalance
  apply wp_require_of (decide_eq_true (by omega))
  apply wp_write_last
  apply wp_read
  rw [totalShares_put]
  apply wp_bind
  unfold setAuthorityTotalShares
  apply wp_require_of (decide_eq_true (sub_nonneg.2 htotal))
  apply wp_write_last
  apply wp_write_last
  rw [putAuthorityBalance_toTapStore]
  exact (i128At_insert _ _ _ _ _ (by omega) hfits).trans (if_pos ⟨rfl, rfl⟩)

/-- In every run whose divisions all leave no rest, a staking authority that starts with nothing stays
solvent in every reward ticker. -/
theorem rewards_solvent_of_exact (lawful : LawfulText env) {start : ProofStore}
    (fresh : FreshAuthority auth start) {run : StakingRun}
    (hreaches : Run.Reaches (stakingStep env) (RoundsExactly env)
      { store := start, allocated := fun _ _ => 0 } run) :
    RewardsSolvent env auth run := by
  have solvent : Solvent env auth run.store (run.allocated auth) := by
    apply hreaches.invariant fun run => Solvent env auth run.store (run.allocated auth)
    · exact fun solvent hexact hstep => solvent_stakingStep lawful solvent hexact hstep
    · exact fresh.solvent
  constructor
  · intro rewardTick hlower
    have hbacked := solvent.backed hlower
    have hpending : authorityRewardPrecision * openTotal auth
          (fun position => run.store.pendingStakeReward env position rewardTick) run.store.sp ≤
        openTotal auth (owed rewardTick
          (run.store.accReward auth (jsonStringifyLower env rewardTick))) run.store.sp := by
      have hscaled := openTotal_add_mul authorityRewardPrecision auth (fun _ => 0)
        (fun position => run.store.pendingStakeReward env position rewardTick) run.store.sp
      rw [openTotal_zero, zero_add] at hscaled
      rw [← hscaled]
      apply openTotal_le
      intro id position hrow hopen
      have howed := solvent.owed_nonneg hlower hrow hopen
      have hshares := (solvent.position_ok hrow hopen).1
      rw [zero_add, ProofStore.pendingStakeReward, hopen.1]
      exact precision_mul_pending_le hshares.le (solvent.acc_nonneg _) howed
    unfold authorityRewardPrecision at hbacked hpending
    omega
  · intro tick hlower
    have hheld := solvent.carry_add_principal_le hlower
    have hcarry := solvent.carry_nonneg (jsonStringifyLower env tick)
    omega
  · intro id position context link hrow hopen hmatured hlink hfits
    exact solvent.unstakes context link hrow hopen hmatured hlink hfits

end Runs

/-! ### A staker of three shares -/

/-- An authority on which `dog` is staked for `dog`, and an account with ten of it. -/
def stakingStart : ProofStore where
  toTapStore := { TapStore.empty with
    d := (∅ : KeyTable TickKey DeployRecord).insert dogKey
      { tick := "dog".toList, max := 1000, lim := 0, dec := 0, ins := [], dmt := false, elem := none,
        prj := none, dim := none, dt := none, prv := none }
    b := (∅ : KeyTable (Address × TickKey) ℤ).insert ("n1".toList, dogKey) 10 }
  ll := ∅
  oll := ∅
  ah := (∅ : KeyTable Text AuthorityConfigRecord).insert "a".toList
    { k := "stk".toList
      stk := "dog".toList
      rt := []
      r := .object [("tr".toList, .array
        [textObject [("id", "t"), ("dur", "1"), ("w", "1")]])] }
  ab := ∅
  abli := ∅
  abo := ∅
  ahs := ∅
  ahrps := ∅
  ahrc := ∅
  sp := ∅
  rcli := []

theorem stakingStart_fresh : FreshAuthority "a".toList stakingStart where
  no_position hrow := by cases hrow
  no_claim claim hclaim := by cases hclaim
  no_shares := rfl
  no_acc _ := rfl
  no_carry _ := rfl
  no_balance _ := rfl
  no_mark _ := rfl

/-- Stake, take allocations, and claim. -/
def stakingActions (amount : String) (allocations : List ℤ) : List StakingAction :=
  [.stake plainContext (some { addr := "n1".toList, auth := [], ins := "l".toList })
    { inscription := "p".toList, index := 0 }
    (textObject [("auth", "a"), ("tick", "dog"), ("amt", amount), ("tier", "t"), ("claim", "n1")])] ++
  allocations.map (fun allocation => .allocate "a".toList "dog".toList allocation) ++
  [.claimReward (textObject [("auth", "a"), ("pos", "p:0"), ("rt", "dog")])]

/-- What was paid, what is carried, what was allocated, and what the authority holds. -/
def stakingView (run : StakingRun) : ℤ × ℤ × ℤ × ℤ :=
  (paidTotal "a".toList "dog".toList run.store.rcli, run.store.rewardCarry "a".toList dogKey,
    run.allocated "a".toList dogKey, run.store.authorityBalance "a".toList dogKey)

/-- Two shares divide the rewards without a rest. -/
theorem twoShares_solvent :
    ∃ run, Run.Reaches (stakingStep plainEnv) (RoundsExactly plainEnv)
        { store := stakingStart, allocated := fun _ _ => 0 } run ∧
      stakingView run = (10, 0, 10, 2) ∧ RewardsSolvent plainEnv "a".toList run := by
  have hexec : (Run.exec (stakingStep plainEnv)
      (fun run action => decide (RoundsExactly plainEnv run action))
      (stakingActions "2" [4, 3, 3]) { store := stakingStart, allocated := fun _ _ => 0 }).map
        stakingView = some (10, 0, 10, 2) := by decide
  have hrun : ∃ run, Run.Reaches (stakingStep plainEnv) (RoundsExactly plainEnv)
      { store := stakingStart, allocated := fun _ _ => 0 } run ∧ stakingView run = (10, 0, 10, 2) :=
    Run.exists_reaches_of_exec of_decide_eq_true hexec
  obtain ⟨run, hreaches, hview⟩ := hrun
  exact ⟨run, hreaches, hview, rewards_solvent_of_exact plainEnv_lawful stakingStart_fresh hreaches⟩

/-- With three shares every allocation of the run leaves a rest, which is carried and distributed
again: eleven are paid of ten, and only two of the three staked tokens are left. -/
theorem threeShares_not_solvent :
    ∃ run, Run.Reaches (stakingStep plainEnv) (fun _ _ => True)
        { store := stakingStart, allocated := fun _ _ => 0 } run ∧
      stakingView run = (11, 1, 10, 2) ∧ ¬ RewardsSolvent plainEnv "a".toList run := by
  have hexec : (Run.exec (stakingStep plainEnv) (fun _ _ => true) (stakingActions "3" [4, 3, 3])
      { store := stakingStart, allocated := fun _ _ => 0 }).map
        (fun run => (stakingView run, openTotal "a".toList
          (fun position => if position.tick = "dog".toList then position.amt else 0) run.store.sp)) =
      some ((11, 1, 10, 2), 3) := by decide
  have hrun : ∃ run, Run.Reaches (stakingStep plainEnv) (fun _ _ => True)
      { store := stakingStart, allocated := fun _ _ => 0 } run ∧
      (stakingView run, openTotal "a".toList
        (fun position => if position.tick = "dog".toList then position.amt else 0) run.store.sp) =
      ((11, 1, 10, 2), 3) :=
    Run.exists_reaches_of_exec (fun _ => trivial) hexec
  obtain ⟨run, hreaches, hview⟩ := hrun
  obtain ⟨hview, hprincipal⟩ := Prod.mk.inj hview
  refine ⟨run, hreaches, hview, fun solvent => ?_⟩
  have hheld : run.store.authorityBalance "a".toList dogKey = 2 :=
    congrArg (fun view => view.2.2.2) hview
  have hlower : plainEnv.jsToLowercase "dog".toList = "dog".toList := rfl
  have hle : openTotal "a".toList _ run.store.sp ≤ run.store.authorityBalance "a".toList dogKey :=
    solvent.principal_le hlower
  rw [hprincipal, hheld] at hle
  exact absurd hle (by decide)

end OrdDogecoin.Tap
