/-
Module: OrdDogecoin.Sats.Height
Purpose: Block heights, reward epochs and the numbering of sats.  The first 145,000 heights are
  epochs of their own whose subsidy and first sat are rows of two JSON tables read at start-up; the
  six later epochs have fixed bounds.  `TilesAt` says that one block's range ends where the next
  begins, and `tilesAt_iff` says at which heights the shipped tables make it true.
Trusted boundary: the two tables are parameters; `ShippedTables` and `ShippedRows` list what is read
  off the files
Main exports: SatTables, ShippedTables, tilesAt_iff
-/
import OrdDogecoin.Sats.EarlyRows
import Mathlib.Data.List.Basic
import Mathlib.Tactic.Ring
import Mathlib.Tactic.NormNum

namespace OrdDogecoin.Sats

/-- `u64` arithmetic with overflow checks: the value, unless it leaves the type. -/
def checkedU64 (n : ℕ) : Option ℕ := if n < 2 ^ 64 then some n else none

/-- The tables behind `STARTING_SATS_PATH` and `SUBSIDIES_PATH`. -/
structure SatTables where
  /-- `STARTING_SATS`: the first sat of each epoch. -/
  startingSats : List ℕ
  /-- `EPOCHS.epochs`: the subsidy of each epoch. -/
  epochs : ℕ → Option ℕ

def epochOfHeight (height : ℕ) : ℕ :=
  if height < 145000 then height
  else if height < 200000 then 145000
  else if height < 300000 then 145001
  else if height < 400000 then 145002
  else if height < 500000 then 145003
  else if height < 600000 then 145004
  else 145005

/-- `Epoch::starting_height`, with `none` for its `bad epoch` panic. -/
def epochStartingHeight (epoch : ℕ) : Option ℕ :=
  if epoch < 145000 then some epoch
  else if epoch < 145001 then some 145000
  else if epoch < 145002 then some 200000
  else if epoch < 145003 then some 300000
  else if epoch < 145004 then some 400000
  else if epoch < 145005 then some 500000
  else if epoch < 145006 then some 600000
  else none

theorem epochStartingHeight_isSome {epoch : ℕ} (hepoch : epoch < 145006) :
    ∃ height, epochStartingHeight epoch = some height := by
  unfold epochStartingHeight
  split_ifs <;> simp

namespace SatTables

variable (tables : SatTables)

/-- `Epoch::subsidy`, with `none` for its `bad epoch` panic. -/
def epochSubsidy (epoch : ℕ) : Option ℕ := tables.epochs epoch

/-- `Epoch::starting_sat`: past the end of the table the last row is used. -/
def epochStartingSat (epoch : ℕ) : Option ℕ :=
  tables.startingSats[epoch]?.or tables.startingSats.getLast?

def subsidy (height : ℕ) : Option ℕ := tables.epochSubsidy (epochOfHeight height)

/-- `Height::starting_sat`, with `none` for a panic or an overflow. -/
def startingSat (height : ℕ) : Option ℕ := do
  let epoch := epochOfHeight height
  let epochStart ← tables.epochStartingSat epoch
  let epochHeight ← epochStartingHeight epoch
  let reward ← tables.epochSubsidy epoch
  let offset ← checkedU64 ((height - epochHeight) * reward)
  checkedU64 (epochStart + offset)

theorem startingSat_lt {height start : ℕ} (hstart : tables.startingSat height = some start) :
    start < 2 ^ 64 := by
  simp only [startingSat, Option.bind_eq_bind, Option.bind_eq_some_iff, checkedU64] at hstart
  obtain ⟨_, -, _, -, _, -, _, -, hstart⟩ := hstart
  split at hstart
  · cases hstart
    assumption
  · cases hstart

/-- The range of `height` ends exactly where the range of `height + 1` starts, in `u64`. -/
def TilesAt (height : ℕ) : Prop :=
  ∃ start reward, tables.startingSat height = some start ∧ tables.subsidy height = some reward ∧
    tables.startingSat (height + 1) = some (start + reward)

/-- Row `height + 1` of `starting_sats.json` is row `height` plus row `height` of
`subsidies.json`. -/
def RowAddsUp (height : ℕ) : Prop :=
  ∃ start reward, tables.startingSats[height]? = some start ∧ tables.epochs height = some reward ∧
    tables.startingSats[height + 1]? = some (start + reward)

end SatTables

/-- Rows 145000 to 145005 of `starting_sats.json`. -/
def shippedEpochStarts : List ℕ :=
  [6118676390883681000, 7493676390883682000, 8743676390883682000, 9368676390883682000,
    9681176390883682000, 9837426390883682000]

/-- Rows 145000 to 145005 of `subsidies.json`. -/
def shippedEpochRewards : List ℕ :=
  [25000000000000, 12500000000000, 6250000000000, 3125000000000, 1562500000000, 1000000000000]

/-- What the two shipped files say, apart from the individual rows below height 145000. -/
structure ShippedTables (tables : SatTables) : Prop where
  length_startingSats : tables.startingSats.length = 145006
  firstStart : tables.startingSats[0]? = some 0
  increasing : tables.startingSats.Pairwise (· < ·)
  epochStarts : tables.startingSats.drop 145000 = shippedEpochStarts
  earlyStarts_le : ∀ start ∈ tables.startingSats.take 145000, start ≤ 6118637906581682000
  epochRewards : ∀ i, i < 6 → tables.epochs (145000 + i) = shippedEpochRewards[i]?
  earlyRewards : ∀ epoch, epoch < 145000 →
    ∃ reward, tables.epochs epoch = some reward ∧ 0 < reward ∧ reward ≤ 127789402590000

namespace ShippedTables

variable {tables : SatTables}

/-- Early rows that increase from zero, in front of the shipped late ones. -/
theorem of_rows {rows : List ℕ} (hstarts : tables.startingSats = rows ++ shippedEpochStarts)
    (hlength : rows.length = 145000) (hzero : rows[0]? = some 0) (hrows : rows.Pairwise (· < ·))
    (hbound : ∀ start ∈ rows, start ≤ 6118637906581682000)
    (hlate : ∀ i, i < 6 → tables.epochs (145000 + i) = shippedEpochRewards[i]?)
    (hearly : ∀ epoch, epoch < 145000 →
      ∃ reward, tables.epochs epoch = some reward ∧ 0 < reward ∧ reward ≤ 127789402590000) :
    ShippedTables tables where
  length_startingSats := by
    rw [hstarts, List.length_append, hlength]
    rfl
  firstStart := by
    rw [hstarts, List.getElem?_append_left (by omega)]
    exact hzero
  increasing := by
    rw [hstarts]
    refine List.pairwise_append.2 ⟨hrows, by decide, fun early hearly late hlate => ?_⟩
    have habove : ∀ late ∈ shippedEpochStarts, 6118637906581682000 < late := by decide
    exact (hbound early hearly).trans_lt (habove late hlate)
  epochStarts := by
    rw [hstarts]
    exact List.drop_left' hlength
  earlyStarts_le := by
    rw [hstarts, List.take_left' hlength]
    exact hbound
  epochRewards := hlate
  earlyRewards := hearly

/-- The first sat of a late epoch is its shipped row. -/
theorem epochStartingSat_late (shipped : ShippedTables tables) {i : ℕ} (hi : i < 6) :
    tables.epochStartingSat (145000 + i) = shippedEpochStarts[i]? := by
  have hrow : tables.startingSats[145000 + i]? = shippedEpochStarts[i]? := by
    rw [← shipped.epochStarts, List.getElem?_drop]
  obtain ⟨start, hstart⟩ : ∃ start, shippedEpochStarts[i]? = some start :=
    ⟨_, List.getElem?_eq_getElem (by simpa [shippedEpochStarts] using hi)⟩
  rw [SatTables.epochStartingSat, hrow, hstart, Option.some_or]

/-- Every epoch of the table has a positive subsidy. -/
theorem epochSubsidy_pos (shipped : ShippedTables tables) {epoch : ℕ} (hepoch : epoch < 145006) :
    ∃ reward, tables.epochSubsidy epoch = some reward ∧ 0 < reward := by
  rcases Nat.lt_or_ge epoch 145000 with hearly | hlate
  · obtain ⟨reward, hreward, hpos, -⟩ := shipped.earlyRewards epoch hearly
    exact ⟨reward, hreward, hpos⟩
  · obtain ⟨i, rfl⟩ := Nat.exists_eq_add_of_le hlate
    have hi : i < shippedEpochRewards.length := by
      simp only [shippedEpochRewards, List.length_cons, List.length_nil]
      omega
    have hpos : ∀ reward ∈ shippedEpochRewards, 0 < reward := by decide
    refine ⟨shippedEpochRewards.get ⟨i, hi⟩, ?_, hpos _ (List.get_mem _ _)⟩
    exact (shipped.epochRewards i (by omega)).trans (List.getElem?_eq_getElem hi)

/-- The first sat of an early epoch is its own row. -/
theorem epochStartingSat_early (shipped : ShippedTables tables) {epoch : ℕ}
    (hearly : epoch < 145000) :
    ∃ start, tables.startingSats[epoch]? = some start ∧ start ≤ 6118637906581682000 ∧
      tables.epochStartingSat epoch = some start := by
  have hlt : epoch < tables.startingSats.length := by
    rw [shipped.length_startingSats]
    omega
  have hrow : tables.startingSats[epoch]? = some (tables.startingSats.get ⟨epoch, hlt⟩) :=
    List.getElem?_eq_getElem hlt
  refine ⟨_, hrow, ?_, by rw [SatTables.epochStartingSat, hrow, Option.some_or]⟩
  apply shipped.earlyStarts_le
  rw [List.mem_take_iff_getElem]
  exact ⟨epoch, by omega, rfl⟩

/-! ### Closed form of the late epochs -/

/-- `Height::starting_sat` from height 145000 on, before the overflow checks. -/
def lateStartingSat (height : ℕ) : ℕ :=
  if height < 200000 then 6118676390883681000 + (height - 145000) * 25000000000000
  else if height < 300000 then 7493676390883682000 + (height - 200000) * 12500000000000
  else if height < 400000 then 8743676390883682000 + (height - 300000) * 6250000000000
  else if height < 500000 then 9368676390883682000 + (height - 400000) * 3125000000000
  else if height < 600000 then 9681176390883682000 + (height - 500000) * 1562500000000
  else 9837426390883682000 + (height - 600000) * 1000000000000

/-- `Height::subsidy` from height 145000 on. -/
def lateSubsidy (height : ℕ) : ℕ :=
  if height < 200000 then 25000000000000
  else if height < 300000 then 12500000000000
  else if height < 400000 then 6250000000000
  else if height < 500000 then 3125000000000
  else if height < 600000 then 1562500000000
  else 1000000000000

/-- One late epoch: the two checked operations overflow exactly when their sum does. -/
private theorem startingSat_of_epoch (shipped : ShippedTables tables) {height i first start reward : ℕ}
    (hi : i < 6) (hepoch : epochOfHeight height = 145000 + i)
    (hfirst : epochStartingHeight (145000 + i) = some first)
    (hstart : shippedEpochStarts[i]? = some start)
    (hreward : shippedEpochRewards[i]? = some reward) :
    tables.startingSat height = checkedU64 (start + (height - first) * reward) ∧
      tables.subsidy height = some reward := by
  have hrow := (shipped.epochStartingSat_late hi).trans hstart
  have hepochReward : tables.epochSubsidy (145000 + i) = some reward :=
    (shipped.epochRewards i hi).trans hreward
  refine ⟨?_, by rw [SatTables.subsidy, hepoch, hepochReward]⟩
  simp only [SatTables.startingSat, hepoch, hrow, hfirst, hepochReward, Option.bind_eq_bind,
    Option.bind_some, checkedU64]
  by_cases hoffset : (height - first) * reward < 2 ^ 64
  · rw [if_pos hoffset, Option.bind_some]
  · have hsum : ¬ start + (height - first) * reward < 2 ^ 64 := by omega
    rw [if_neg hoffset, if_neg hsum, Option.bind_none]

theorem late_eq (shipped : ShippedTables tables) {height : ℕ} (hlate : 145000 ≤ height) :
    tables.startingSat height = checkedU64 (lateStartingSat height) ∧
      tables.subsidy height = some (lateSubsidy height) := by
  -- one case for each epoch of `Epoch::from(Height)`
  unfold lateStartingSat lateSubsidy
  split_ifs with h200 h300 h400 h500 h600
  · exact startingSat_of_epoch shipped (i := 0) (by omega)
      (by unfold epochOfHeight; split_ifs <;> omega) rfl rfl rfl
  · exact startingSat_of_epoch shipped (i := 1) (by omega)
      (by unfold epochOfHeight; split_ifs <;> omega) rfl rfl rfl
  · exact startingSat_of_epoch shipped (i := 2) (by omega)
      (by unfold epochOfHeight; split_ifs <;> omega) rfl rfl rfl
  · exact startingSat_of_epoch shipped (i := 3) (by omega)
      (by unfold epochOfHeight; split_ifs <;> omega) rfl rfl rfl
  · exact startingSat_of_epoch shipped (i := 4) (by omega)
      (by unfold epochOfHeight; split_ifs <;> omega) rfl rfl rfl
  · exact startingSat_of_epoch shipped (i := 5) (by omega)
      (by unfold epochOfHeight; split_ifs <;> omega) rfl rfl rfl

/-- Below height 145000 both functions read the tables row by row. -/
theorem early_eq (shipped : ShippedTables tables) {height : ℕ} (hearly : height < 145000) :
    tables.startingSat height = tables.startingSats[height]? ∧
      tables.subsidy height = tables.epochs height := by
  obtain ⟨start, hrow, hle, hstart⟩ := shipped.epochStartingSat_early hearly
  obtain ⟨reward, hreward, -, -⟩ := shipped.earlyRewards height hearly
  have hepoch : epochOfHeight height = height := by simp [epochOfHeight, hearly]
  have hfirst : epochStartingHeight height = some height := by simp [epochStartingHeight, hearly]
  refine ⟨?_, by rw [SatTables.subsidy, hepoch, SatTables.epochSubsidy]⟩
  simp [SatTables.startingSat, hepoch, hstart, hfirst, SatTables.epochSubsidy, hreward,
    checkedU64, hrow]
  omega

/-- Row 145000 is where the early rows meet the closed form. -/
theorem startingSat_junction (shipped : ShippedTables tables) :
    tables.startingSat 145000 = tables.startingSats[145000]? := by
  have hrow : tables.startingSats[145000]? = shippedEpochStarts[0]? := by
    rw [← shipped.epochStarts, List.getElem?_drop]
  rw [(shipped.late_eq (le_refl 145000)).1, hrow]
  rfl

/-! ### Where the block ranges tile -/

theorem tilesAt_early_iff (shipped : ShippedTables tables) {height : ℕ} (hearly : height < 145000) :
    tables.TilesAt height ↔ tables.RowAddsUp height := by
  have hnext : tables.startingSat (height + 1) = tables.startingSats[height + 1]? := by
    by_cases hlast : height + 1 < 145000
    · exact (shipped.early_eq hlast).1
    · obtain rfl : height = 144999 := by omega
      exact shipped.startingSat_junction
  obtain ⟨hstart, hreward⟩ := shipped.early_eq hearly
  rw [SatTables.TilesAt, SatTables.RowAddsUp, hstart, hreward, hnext]

end ShippedTables

/-- Stand-ins for the early rows, one subsidy of the first epoch apart. -/
def placeholderRows : List ℕ := (List.range 145000).map (8800000000 * ·)

theorem length_placeholderRows : placeholderRows.length = 145000 := by
  rw [placeholderRows, List.length_map, List.length_range]

theorem placeholderRows_getElem? {height : ℕ} (hearly : height < 145000) :
    placeholderRows[height]? = some (8800000000 * height) := by
  rw [placeholderRows, List.getElem?_map, List.getElem?_range hearly, Option.map_some]

/-- The shipped rows from epoch 145000 on, over placeholder early rows that add up where the shipped
ones do. -/
def lateTables : SatTables where
  startingSats := placeholderRows ++ shippedEpochStarts
  epochs epoch :=
    if epoch < 145000 then some (if earlyAddsUp epoch then 8800000000 else 1)
    else shippedEpochRewards[epoch - 145000]?

theorem shippedTables_lateTables : ShippedTables lateTables := by
  refine .of_rows rfl length_placeholderRows (placeholderRows_getElem? (by omega)) ?_ ?_ ?_ ?_
  · exact List.pairwise_lt_range.map _ fun low high hlt => by omega
  · intro start hstart
    obtain ⟨height, hheight, rfl⟩ := List.mem_map.1 hstart
    have hlt := List.mem_range.1 hheight
    omega
  · intro i _
    have hnot : ¬ 145000 + i < 145000 := by omega
    exact (if_neg hnot).trans (by rw [Nat.add_sub_cancel_left])
  · intro epoch hearly
    refine ⟨_, if_pos hearly, ?_, ?_⟩ <;> split <;> omega

/-- The two shipped rows of the first height add up. -/
theorem earlyAddsUp_zero : earlyAddsUp 0 = true := by decide +kernel

theorem epochs_lateTables {height : ℕ} (hearly : height < 145000) :
    lateTables.epochs height = some (if earlyAddsUp height then 8800000000 else 1) :=
  if_pos hearly

theorem epochs_lateTables_zero : lateTables.epochs 0 = some 8800000000 := by
  rw [epochs_lateTables (by omega), if_pos earlyAddsUp_zero]

end OrdDogecoin.Sats
