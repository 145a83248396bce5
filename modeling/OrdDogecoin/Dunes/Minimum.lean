/-
Module: OrdDogecoin.Dunes.Minimum
Purpose: The smallest dune that may be etched at a height: names of twelve lengths unlock one interval after
  another, and inside an interval the minimum falls from the shortest name of one length to that of the next.
Trusted boundary: the halving interval of the bitcoin crate is 210000; an operation that leaves its type, or
  an index outside the table, is `none`
Main exports: Dune.minimumAtHeight, Dune.minimumAtHeight_falls
-/
import OrdDogecoin.Dunes.DuneUpdater
import OrdDogecoin.Dunes.Names

namespace OrdDogecoin.Dunes.Dune

/-- `SUBSIDY_HALVING_INTERVAL_10X`. -/
def subsidyHalvingInterval10X : ℕ := 210000 * 10

inductive Chain where
  | mainnet
  | regtest
  | signet
  | testnet
deriving DecidableEq, Repr

def Chain.firstDuneHeight : Chain → ℕ
  | mainnet => 5084000
  | regtest => 0
  | signet => 0
  | testnet => 4250000

def steps : List ℕ :=
  [0,
    26,
    702,
    18278,
    475254,
    12356630,
    321272406,
    8353082582,
    217180147158,
    5646683826134,
    146813779479510,
    3817158266467286,
    99246114928149462,
    2580398988131886038,
    67090373691429037014,
    1744349715977154962390,
    45353092615406029022166,
    1179180408000556754576342,
    30658690608014475618984918,
    797125955808376366093607894,
    20725274851017785518433805270,
    538857146126462423479278937046,
    14010285799288023010461252363222,
    364267430781488598271992561443798,
    9470953200318703555071806597538774,
    246244783208286292431866971536008150,
    6402364363415443603228541259936211926,
    166461473448801533683942072758341510102]

def interval : ℕ := subsidyHalvingInterval10X / 12

def maxU32 : ℕ := 2 ^ 32 - 1

/-- The result of an operation in a type with this largest value. -/
def within (largest n : ℕ) : Option ℕ := if n ≤ largest then some n else none

def minimumAtHeight (chain : Chain) (height : ℕ) : Option ℕ := do
  let offset := min (height + 1) maxU32
  let start := chain.firstDuneHeight
  let stop ← within maxU32 (start + subsidyHalvingInterval10X)
  if offset < start then steps[12]?
  else if stop ≤ offset then some 0
  else
    let progress := offset - start
    let length := 12 - progress / interval
    let shorter ← checkedSub length 1
    let low ← steps[shorter]?
    let high ← steps[length]?
    let gap ← checkedSub high low
    let product ← within maxU128 (gap * (progress % interval))
    checkedSub high (product / interval)

/-! ### Steps -/

/-- The first name of a length, as a number. -/
def step (i : ℕ) : ℕ := steps.getD i 0

theorem getElem?_steps {i : ℕ} (hi : i ≤ 12) : steps[i]? = some (step i) := by
  have hlength : i < steps.length := lt_of_le_of_lt hi (by decide)
  rw [step, List.getD_eq_getElem?_getD, List.getElem?_eq_getElem hlength]
  rfl

theorem step_le_succ : ∀ i < 12, step i ≤ step (i + 1) := by decide

/-- Neighbouring steps. -/
theorem step_pred_le (i : ℕ) : step (11 - i) ≤ step (12 - i) := by
  by_cases hi : i < 12
  · have hsucc : 12 - i = 11 - i + 1 := by omega
    rw [hsucc]
    exact step_le_succ _ (by omega)
  · have hsame : 12 - i = 11 - i := by omega
    rw [hsame]

theorem step_mono {i j : ℕ} (hij : i ≤ j) (hj : j ≤ 12) : step i ≤ step j := by
  induction j, hij using Nat.le_induction with
  | base => exact le_rfl
  | succ j _ ih => exact (ih (by omega)).trans (step_le_succ j (by omega))

/-! ### Interpolation -/

/-- The value between two steps. -/
def between (low high remainder : ℕ) : ℕ := high - (high - low) * remainder / interval

theorem interpolated_le {low high remainder : ℕ} (hremainder : remainder ≤ interval) :
    (high - low) * remainder / interval ≤ high - low := by
  apply Nat.div_le_of_le_mul
  rw [Nat.mul_comm interval]
  exact Nat.mul_le_mul_left _ hremainder

theorem le_between {low high remainder : ℕ} (hstep : low ≤ high) (hremainder : remainder ≤ interval) :
    low ≤ between low high remainder := by
  have hgap := @interpolated_le low high remainder hremainder
  unfold between
  omega

theorem between_le (low high remainder : ℕ) : between low high remainder ≤ high := Nat.sub_le _ _

theorem between_anti (low high : ℕ) {remainder later : ℕ} (hle : remainder ≤ later) :
    between low high later ≤ between low high remainder :=
  Nat.sub_le_sub_left (Nat.div_le_div_right (Nat.mul_le_mul_left _ hle)) high

/-- The minimum after this many blocks of the unlock period. -/
def minimumAt (progress : ℕ) : ℕ :=
  between (step (11 - progress / interval)) (step (12 - progress / interval)) (progress % interval)

theorem div_interval_lt {progress : ℕ} (hprogress : progress < subsidyHalvingInterval10X) :
    progress / interval < 12 := by
  have hwhole : subsidyHalvingInterval10X = 12 * interval := by decide
  exact Nat.div_lt_of_lt_mul (by rwa [Nat.mul_comm, ← hwhole])

theorem mod_interval_lt (progress : ℕ) : progress % interval < interval := Nat.mod_lt _ (by decide)

/-- Inside the period the minimum lies between neighbouring steps. -/
theorem minimumAt_bounds (progress : ℕ) : step (11 - progress / interval) ≤ minimumAt progress ∧
    minimumAt progress ≤ step (12 - progress / interval) :=
  ⟨le_between (step_pred_le _) (mod_interval_lt progress).le, between_le _ _ _⟩

/-- The minimum falls within an interval and from each interval to the next. -/
theorem minimumAt_anti {progress later : ℕ} (hle : progress ≤ later) :
    minimumAt later ≤ minimumAt progress := by
  have hdiv : progress / interval ≤ later / interval := Nat.div_le_div_right hle
  rcases hdiv.eq_or_lt with hsame | hless
  · have hrest : progress % interval ≤ later % interval := by
      have hfirst := Nat.div_add_mod progress interval
      have hsecond := Nat.div_add_mod later interval
      rw [hsame] at hfirst
      omega
    unfold minimumAt
    rw [hsame]
    exact between_anti _ _ hrest
  · have hsteps : ∀ {i j : ℕ}, i < j → 12 - j ≤ 11 - i ∧ 11 - i ≤ 12 := by omega
    calc minimumAt later
        ≤ step (12 - later / interval) := (minimumAt_bounds later).2
      _ ≤ step (11 - progress / interval) := step_mono (hsteps hless).1 (hsteps hless).2
      _ ≤ minimumAt progress := (minimumAt_bounds progress).1

/-! ### Heights -/

theorem stop_le (chain : Chain) : chain.firstDuneHeight + subsidyHalvingInterval10X ≤ maxU32 := by
  cases chain <;> decide

/-- The largest product fits. -/
theorem product_le {high low progress : ℕ} (hhigh : high ≤ step 12) :
    (high - low) * (progress % interval) ≤ maxU128 :=
  calc (high - low) * (progress % interval)
      ≤ step 12 * interval :=
        Nat.mul_le_mul ((Nat.sub_le _ _).trans hhigh) (mod_interval_lt progress).le
    _ ≤ maxU128 := by decide

/-- No operation leaves its type: before the period, in it and after it. -/
theorem minimumAtHeight_eq (chain : Chain) (height : ℕ) :
    minimumAtHeight chain height =
      let offset := min (height + 1) maxU32
      some (if offset < chain.firstDuneHeight then step 12
        else if chain.firstDuneHeight + subsidyHalvingInterval10X ≤ offset then 0
        else minimumAt (offset - chain.firstDuneHeight)) := by
  unfold minimumAtHeight
  dsimp only
  rw [within, if_pos (stop_le chain), Option.bind_eq_bind, Option.bind_some]
  split
  next => exact getElem?_steps le_rfl
  next hstarted =>
    split
    next => rfl
    next hrunning =>
      have hprogress : min (height + 1) maxU32 - chain.firstDuneHeight < subsidyHalvingInterval10X := by
        omega
      generalize min (height + 1) maxU32 - chain.firstDuneHeight = progress at hprogress ⊢
      have hlt := div_interval_lt hprogress
      unfold minimumAt between
      have hgap := @interpolated_le (step (11 - progress / interval)) (step (12 - progress / interval))
        (progress % interval) (mod_interval_lt progress).le
      generalize progress / interval = index at hlt hgap ⊢
      have hshorter : checkedSub (12 - index) 1 = some (11 - index) := by
        rw [checkedSub, if_pos (by omega)]
        congr 1
        omega
      have hmono := step_pred_le index
      have hproduct := @product_le (step (12 - index)) (step (11 - index)) progress
        (step_mono (by omega) le_rfl)
      rw [hshorter, Option.bind_some, getElem?_steps (by omega), Option.bind_some,
        getElem?_steps (by omega), Option.bind_some, checkedSub, if_pos hmono, Option.bind_some, within,
        if_pos hproduct, Option.bind_some, checkedSub, if_pos (hgap.trans (Nat.sub_le _ _))]

/-- At every height of every chain the minimum is defined, at most the first name of thirteen letters, zero
from the end of the unlock period on, and no smaller than at later heights. -/
theorem minimumAtHeight_falls (chain : Chain) (height : ℕ) :
    ∃ minimum, minimumAtHeight chain height = some minimum ∧ minimum ≤ step 12 ∧
      (chain.firstDuneHeight + subsidyHalvingInterval10X ≤ height + 1 → minimum = 0) ∧
      ∀ later, height ≤ later →
        ∃ next, minimumAtHeight chain later = some next ∧ next ≤ minimum := by
  have hoffset : ∀ {h : ℕ}, chain.firstDuneHeight + subsidyHalvingInterval10X ≤ h + 1 →
      ¬ min (h + 1) maxU32 < chain.firstDuneHeight ∧
        chain.firstDuneHeight + subsidyHalvingInterval10X ≤ min (h + 1) maxU32 := by
    have := stop_le chain
    omega
  refine ⟨_, minimumAtHeight_eq chain height, ?_, ?_, ?_⟩
  · split
    · exact le_rfl
    · split
      · exact Nat.zero_le _
      · exact (minimumAt_bounds _).2.trans (step_mono (Nat.sub_le _ _) le_rfl)
  · intro hdone
    rw [if_neg (hoffset hdone).1, if_pos (hoffset hdone).2]
  · intro later hle
    refine ⟨_, minimumAtHeight_eq chain later, ?_⟩
    -- The later height is in the same phase as the earlier one, or in a phase after it.
    split
    next hbefore => rw [if_pos (by omega)]
    next hstarted =>
      split
      next => exact Nat.zero_le _
      next hrunning =>
        split
        next => exact (minimumAt_bounds _).2.trans (step_mono (Nat.sub_le _ _) le_rfl)
        next =>
          rw [if_neg (by omega)]
          exact minimumAt_anti (by omega)

end OrdDogecoin.Dunes.Dune
