/-
Module: OrdDogecoin.Sats.SatHeight
Purpose: The way back from a sat to its block.  Height and position of a sat are found from the last epoch
  that starts at or below it, so they invert the numbering of a block exactly when the block's range does
  not run into the next epoch.
Trusted boundary: as in OrdDogecoin.Sats.Height
Main exports: SatTables.third, SatTables.FoundAt, foundAt_iff
-/
import OrdDogecoin.Sats.SatLookup

namespace OrdDogecoin.Sats

namespace SatTables

variable (tables : SatTables)

/-- `Sat::third`: dividing by a subsidy of zero panics. -/
def third (sat : ℕ) : Option ℕ := do
  let position ← tables.epochPosition sat
  let reward ← tables.epochSubsidy (tables.epochOfSat sat)
  if reward = 0 then none else some (position % reward)

/-- `Sat::height` as a `u32`. -/
def satHeightU32 (sat : ℕ) : Option ℕ := do
  let height ← tables.satHeight sat
  if height < 2 ^ 32 then some height else none

/-- Every sat of the block is found at its height and position, and is uncommon when it is the first. -/
def FoundAt (height : ℕ) : Prop :=
  ∃ start reward, tables.startingSat height = some start ∧ tables.subsidy height = some reward ∧
    ∀ k < reward, tables.satHeightU32 (start + k) = some height ∧ tables.third (start + k) = some k ∧
      tables.isCommon (start + k) = some (decide (k ≠ 0))

def row (i : ℕ) : ℕ := tables.startingSats.getD i 0

end SatTables

/-- A sat is found no lower than its epoch begins. -/
theorem SatTables.lt_satHeight {tables : SatTables} {sat found height : ℕ}
    (hfound : tables.satHeightU32 sat = some found)
    (hearly : height < 145000) (hlater : height < tables.epochOfSat sat) : height < found := by
  obtain ⟨whole, hwhole, hcheck⟩ := Option.bind_eq_some_iff.1 hfound
  have hsame : whole = found := by
    split at hcheck
    · exact Option.some.inj hcheck
    · cases hcheck
  obtain ⟨position, -, hwhole⟩ := Option.bind_eq_some_iff.1 hwhole
  obtain ⟨reward, -, hwhole⟩ := Option.bind_eq_some_iff.1 hwhole
  obtain ⟨first, hfirst, hwhole⟩ := Option.bind_eq_some_iff.1 hwhole
  have hstarts : height < first := by
    unfold epochStartingHeight at hfirst
    split_ifs at hfirst <;> cases hfirst <;> omega
  split at hwhole
  · cases hwhole
  · rw [← hsame, ← Option.some.inj hwhole]
    exact hstarts.trans_le (Nat.le_add_right _ _)

namespace ShippedTables

variable {tables : SatTables} (shipped : ShippedTables tables)

include shipped

/-! ### The epoch of a sat -/

theorem getElem?_row {i : ℕ} (hi : i < 145006) : tables.startingSats[i]? = some (tables.row i) := by
  have hlt : i < tables.startingSats.length := by rwa [shipped.length_startingSats]
  rw [SatTables.row, List.getD_eq_getElem?_getD, List.getElem?_eq_getElem hlt, Option.getD_some]

theorem epochStartingSat_eq_row {i : ℕ} (hi : i < 145006) : tables.epochStartingSat i = some
    (tables.row i) := by
  rw [SatTables.epochStartingSat, shipped.getElem?_row hi, Option.some_or]

theorem row_lt {i j : ℕ} (hij : i < j) (hj : j < 145006) : tables.row i < tables.row j := by
  have hlength := shipped.length_startingSats
  have hless := List.pairwise_iff_getElem.1 shipped.increasing i j (by omega) (by omega) hij
  have hfirst := shipped.getElem?_row (hij.trans hj)
  have hsecond := shipped.getElem?_row hj
  rw [List.getElem?_eq_getElem (by omega)] at hfirst hsecond
  rwa [Option.some.inj hfirst, Option.some.inj hsecond] at hless

theorem row_le {i j : ℕ} (hij : i ≤ j) (hj : j < 145006) : tables.row i ≤ tables.row j := by
  rcases hij.eq_or_lt with rfl | hless
  · exact le_rfl
  · exact (shipped.row_lt hless hj).le

/-- A sat lies between the first sats of its epoch and of the next one. -/
theorem epochOfSat_bounds (sat : ℕ) : tables.epochOfSat sat < 145006 ∧
    tables.row (tables.epochOfSat sat) ≤ sat ∧
      (tables.epochOfSat sat < 145005 → sat < tables.row (tables.epochOfSat sat + 1)) := by
  obtain ⟨hlt, start, hstart, hle⟩ := shipped.epochOfSat_spec sat
  rw [shipped.epochStartingSat_eq_row hlt] at hstart
  refine ⟨hlt, (Option.some.inj hstart).trans_le hle, fun hless => ?_⟩
  have hepoch : tables.epochOfSat sat = ((List.range (tables.startingSats.length - 1)).find? fun i =>
    decide (sat < tables.startingSats.getD (i + 1) 0)).getD 145005 := rfl
  cases hfind : (List.range (tables.startingSats.length - 1)).find? fun i =>
      decide (sat < tables.startingSats.getD (i + 1) 0) with
  | none =>
      rw [hfind, Option.getD_none] at hepoch
      omega
  | some epoch =>
      obtain ⟨hnext, -, -⟩ := List.find?_range_eq_some.1 hfind
      rw [hfind, Option.getD_some] at hepoch
      rw [hepoch]
      exact of_decide_eq_true hnext

/-- The bounds determine the epoch. -/
theorem epochOfSat_eq {sat epoch : ℕ} (hepoch : epoch < 145006) (hlow : tables.row epoch ≤ sat)
    (hhigh : epoch < 145005 → sat < tables.row (epoch + 1)) : tables.epochOfSat sat = epoch := by
  obtain ⟨hlt, hfirst, hnext⟩ := shipped.epochOfSat_bounds sat
  rcases Nat.lt_trichotomy (tables.epochOfSat sat) epoch with hless | hsame | hmore
  · have hbelow := hnext (by omega)
    have hle := shipped.row_le (show tables.epochOfSat sat + 1 ≤ epoch by omega) hepoch
    omega
  · exact hsame
  · have hbelow := hhigh (by omega)
    have hle := shipped.row_le (show epoch + 1 ≤ tables.epochOfSat sat by omega) hlt
    omega

/-- A sat at or above the first sat of an epoch is not of an earlier one. -/
theorem le_epochOfSat {sat epoch : ℕ} (hepoch : epoch < 145006) (hlow : tables.row epoch ≤ sat) :
    epoch ≤ tables.epochOfSat sat := by
  by_contra hless
  have hbelow := (shipped.epochOfSat_bounds sat).2.2 (by omega)
  have hle := shipped.row_le (show tables.epochOfSat sat + 1 ≤ epoch by omega) hepoch
  omega

/-! ### Heights and positions -/

/-- What is found for a sat of a known epoch. -/
theorem found_of_epoch {sat epoch first reward : ℕ} (hepoch : epoch < 145006)
    (hlow : tables.row epoch ≤ sat) (hhigh : epoch < 145005 → sat < tables.row (epoch + 1))
    (hfirst : epochStartingHeight epoch = some first) (hreward : tables.epochs epoch = some reward)
    (hpos : 0 < reward) :
    tables.satHeight sat = some (first + (sat - tables.row epoch) / reward) ∧
      tables.third sat = some ((sat - tables.row epoch) % reward) ∧
        tables.isCommon sat = some (decide ((sat - tables.row epoch) % reward ≠ 0)) := by
  have hfound := shipped.epochOfSat_eq hepoch hlow hhigh
  have hposition : tables.epochPosition sat = some (sat - tables.row epoch) := by
    simp [SatTables.epochPosition, hfound, shipped.epochStartingSat_eq_row hepoch, Nat.not_lt.2 hlow]
  have hsubsidy : tables.epochSubsidy epoch = some reward := hreward
  refine ⟨?_, ?_, ?_⟩
  · simp [SatTables.satHeight, hposition, hsubsidy, hfound, hfirst, hpos.ne']
  · simp [SatTables.third, hposition, hsubsidy, hfound, hpos.ne']
  · simp [SatTables.isCommon, hposition, hsubsidy, hfound, hpos.ne']

/-- In an epoch of equal blocks, a sat is found in the block that its position is counted from. -/
theorem found_in_block {start epoch first reward height : ℕ} (hepoch : epoch < 145006)
    (hfirst : epochStartingHeight epoch = some first) (hreward : tables.epochs epoch = some reward)
    (hpos : 0 < reward) (hle : first ≤ height) (hheight : height < 2 ^ 32)
    (hstart : start = tables.row epoch + (height - first) * reward)
    (hends : epoch < 145005 → start + reward ≤ tables.row (epoch + 1)) {k : ℕ} (hk : k < reward) :
    tables.satHeightU32 (start + k) = some height ∧ tables.third (start + k) = some k ∧
      tables.isCommon (start + k) = some (decide (k ≠ 0)) := by
  have hoffset : start + k - tables.row epoch = k + (height - first) * reward := by omega
  obtain ⟨hfound, hthird, hcommon⟩ := @found_of_epoch tables shipped (start + k) epoch first reward hepoch
    (by omega) (fun hless => by have := hends hless; omega) hfirst hreward hpos
  have hdiv : (k + (height - first) * reward) / reward = height - first := by
    rw [Nat.add_mul_div_right _ _ hpos, Nat.div_eq_of_lt hk, Nat.zero_add]
  have hmod : (k + (height - first) * reward) % reward = k := by
    rw [Nat.add_mul_mod_self_right, Nat.mod_eq_of_lt hk]
  rw [hoffset, hdiv, Nat.add_sub_cancel' hle] at hfound
  rw [hoffset, hmod] at hthird hcommon
  refine ⟨?_, hthird, hcommon⟩
  rw [SatTables.satHeightU32, hfound, Option.bind_eq_bind, Option.bind_some, if_pos hheight]

/-! ### The blocks -/

theorem row_late {i : ℕ} (hi : i < 6) : tables.row (145000 + i) = shippedEpochStarts.getD i 0 := by
  have hrow := shipped.getElem?_row (show 145000 + i < 145006 by omega)
  have hstart := shipped.epochStartingSat_late hi
  rw [SatTables.epochStartingSat, hrow, Option.some_or] at hstart
  rw [List.getD_eq_getElem?_getD, ← hstart, Option.getD_some]

/-- A block of a late epoch, which ends at or below the first sat of the next one. -/
theorem foundAt_of_epoch {height i first start reward next : ℕ} (hi : i < 6)
    (hfirst : epochStartingHeight (145000 + i) = some first)
    (hstart : shippedEpochStarts[i]? = some start) (hreward : shippedEpochRewards[i]? = some reward)
    (hpos : 0 < reward) (hle : first ≤ height) (hheight : height < 2 ^ 32)
    (hnumber : tables.startingSat height = some (start + (height - first) * reward))
    (hsubsidy : tables.subsidy height = some reward)
    (hends : i < 5 → shippedEpochStarts[i + 1]? = some next ∧
      start + (height - first) * reward + reward ≤ next) : tables.FoundAt height := by
  have hrow : tables.row (145000 + i) = start := by
    rw [shipped.row_late hi, List.getD_eq_getElem?_getD, hstart, Option.getD_some]
  have hepochReward : tables.epochs (145000 + i) = some reward := (shipped.epochRewards i hi).trans hreward
  refine ⟨_, _, hnumber, hsubsidy, fun k hk => ?_⟩
  refine shipped.found_in_block (show 145000 + i < 145006 by omega) hfirst hepochReward hpos hle hheight
    (by rw [hrow]) (fun hless => ?_) hk
  obtain ⟨hnext, hfits⟩ := hends (by omega)
  have hnextRow : tables.row (145000 + i + 1) = next := by
    rw [Nat.add_assoc, shipped.row_late (show i + 1 < 6 by omega), List.getD_eq_getElem?_getD, hnext,
      Option.getD_some]
  rw [hnextRow]
  exact hfits

/-- A block of a late epoch does not run into the next one. -/
theorem foundAt_late {height start : ℕ} (hlate : 145000 ≤ height) (hheight : height < 2 ^ 32)
    (hstart : tables.startingSat height = some start) : tables.FoundAt height := by
  obtain ⟨hnumber, hsubsidy⟩ := shipped.late_eq hlate
  have hfits : lateStartingSat height < 2 ^ 64 := by
    rw [hnumber, checkedU64] at hstart
    by_contra hover
    rw [if_neg hover] at hstart
    cases hstart
  rw [checkedU64, if_pos hfits] at hnumber
  -- one case for each epoch of `Epoch::from(Height)`
  unfold lateStartingSat at hnumber
  unfold lateSubsidy at hsubsidy
  split_ifs at hnumber hsubsidy with h200 h300 h400 h500 h600
  · exact @foundAt_of_epoch tables shipped height 0 _ _ _ 7493676390883682000 (by decide) rfl rfl rfl
      (by decide) hlate hheight hnumber hsubsidy fun _ => ⟨rfl, by omega⟩
  · exact @foundAt_of_epoch tables shipped height 1 _ _ _ 8743676390883682000 (by decide) rfl rfl rfl
      (by decide) (by omega) hheight hnumber hsubsidy fun _ => ⟨rfl, by omega⟩
  · exact @foundAt_of_epoch tables shipped height 2 _ _ _ 9368676390883682000 (by decide) rfl rfl rfl
      (by decide) (by omega) hheight hnumber hsubsidy fun _ => ⟨rfl, by omega⟩
  · exact @foundAt_of_epoch tables shipped height 3 _ _ _ 9681176390883682000 (by decide) rfl rfl rfl
      (by decide) (by omega) hheight hnumber hsubsidy fun _ => ⟨rfl, by omega⟩
  · exact @foundAt_of_epoch tables shipped height 4 _ _ _ 9837426390883682000 (by decide) rfl rfl rfl
      (by decide) (by omega) hheight hnumber hsubsidy fun _ => ⟨rfl, by omega⟩
  · exact @foundAt_of_epoch tables shipped height 5 _ _ _ 0 (by decide) rfl rfl rfl
      (by decide) (by omega) hheight hnumber hsubsidy fun hless => absurd hless (by decide)

theorem foundAt_early_iff {height : ℕ} (hearly : height < 145000) : tables.FoundAt height ↔
    ∃ start reward next, tables.startingSat height = some start ∧ tables.subsidy height = some reward ∧
      tables.startingSat (height + 1) = some next ∧ start + reward ≤ next := by
  obtain ⟨hstart, hreward⟩ := shipped.early_eq hearly
  obtain ⟨reward, hrow, hpos, -⟩ := shipped.earlyRewards height hearly
  have hepoch : height < 145006 := by omega
  have hfirst : epochStartingHeight height = some height := if_pos hearly
  have hnext : tables.startingSat (height + 1) = some (tables.row (height + 1)) := by
    by_cases hlast : height + 1 < 145000
    · rw [(shipped.early_eq hlast).1, shipped.getElem?_row (by omega)]
    · obtain rfl : height = 144999 := by omega
      rw [shipped.startingSat_junction, shipped.getElem?_row (by omega)]
  rw [shipped.getElem?_row hepoch] at hstart
  rw [hrow] at hreward
  constructor
  · rintro ⟨start, reward', hstart', hreward', hfound⟩
    rw [hstart] at hstart'
    rw [hreward] at hreward'
    cases hstart'
    cases hreward'
    refine ⟨_, _, _, hstart, hreward, hnext, ?_⟩
    by_contra hover
    -- The last sat of the block belongs to a later epoch.
    obtain ⟨hheight, -, -⟩ := hfound (reward - 1) (by omega)
    have hlater := shipped.le_epochOfSat (show height + 1 < 145006 by omega)
      (show tables.row (height + 1) ≤ tables.row height + (reward - 1) by omega)
    exact absurd (SatTables.lt_satHeight hheight hearly hlater) (lt_irrefl height)
  · rintro ⟨start, reward', next, hstart', hreward', hnext', hfits⟩
    rw [hstart] at hstart'
    rw [hreward] at hreward'
    rw [hnext] at hnext'
    cases hstart'
    cases hreward'
    cases hnext'
    refine ⟨_, _, hstart, hreward, fun k hk => ?_⟩
    exact shipped.found_in_block hepoch hfirst hrow hpos le_rfl (by omega) (by simp) (fun _ => hfits) hk

end ShippedTables

/-- The sats of a block whose numbers fit are found at its height and their positions exactly when the block
is of a late epoch or its range ends at or below the first sat of the next height. -/
theorem foundAt_iff {tables : SatTables} (shipped : ShippedTables tables) {height start reward : ℕ}
    (hheight : height < 2 ^ 32) (hstart : tables.startingSat height = some start)
    (hreward : tables.subsidy height = some reward) (_hfits : start + reward < 2 ^ 64) :
    tables.FoundAt height ↔ 145000 ≤ height ∨
      ∃ next, tables.startingSat (height + 1) = some next ∧ start + reward ≤ next := by
  rcases Nat.lt_or_ge height 145000 with hearly | hlate
  · rw [shipped.foundAt_early_iff hearly]
    constructor
    · rintro ⟨start', reward', next, hstart', hreward', hnext, hle⟩
      rw [hstart] at hstart'
      rw [hreward] at hreward'
      cases hstart'
      cases hreward'
      exact .inr ⟨next, hnext, hle⟩
    · rintro (hlate | ⟨next, hnext, hle⟩)
      · omega
      · exact ⟨start, reward, next, hstart, hreward, hnext, hle⟩
  · exact ⟨fun _ => .inl hlate, fun _ => shipped.foundAt_late hlate hheight hstart⟩

theorem foundAt_lateTables : lateTables.startingSat 145000 = some 6118676390883681000 ∧
    lateTables.FoundAt 145000 := by
  have hstart : lateTables.startingSat 145000 = some 6118676390883681000 :=
    (shippedTables_lateTables.late_eq (le_refl 145000)).1
  have hreward : lateTables.subsidy 145000 = some 25000000000000 :=
    (shippedTables_lateTables.late_eq (le_refl 145000)).2
  exact ⟨hstart, (foundAt_iff shippedTables_lateTables (by decide) hstart hreward (by decide)).2 (.inl le_rfl)⟩

/-- The shipped rows of both tables from epoch 144999 on, over placeholder rows. -/
def junctionTables : SatTables where
  startingSats := List.range 144999 ++ 6118637906581682000 :: shippedEpochStarts
  epochs epoch :=
    if epoch < 144999 then some 8800000000
    else if epoch = 144999 then some 38484302000000
    else shippedEpochRewards[epoch - 145000]?

theorem shippedTables_junctionTables : ShippedTables junctionTables := by
  have hsplit : junctionTables.startingSats =
      (List.range 144999 ++ [6118637906581682000]) ++ shippedEpochStarts := by
    rw [junctionTables, List.append_assoc, List.singleton_append]
  refine .of_rows hsplit (by rw [List.length_append, List.length_range]; rfl) ?_ ?_ ?_ ?_ ?_
  · rw [List.getElem?_append_left (by rw [List.length_range]; omega), List.getElem?_range (by omega)]
  · refine List.pairwise_append.2 ⟨List.pairwise_lt_range, by decide, fun early hearly late hlate => ?_⟩
    have hlt := List.mem_range.1 hearly
    rw [List.mem_singleton.1 hlate]
    omega
  · intro start hstart
    rcases List.mem_append.1 hstart with hearly | hlast
    · have hlt := List.mem_range.1 hearly
      omega
    · exact (List.mem_singleton.1 hlast).le
  · intro i _
    have hnot : ¬ 145000 + i < 144999 := by omega
    have hne : ¬ 145000 + i = 144999 := by omega
    exact (if_neg hnot).trans ((if_neg hne).trans (by rw [Nat.add_sub_cancel_left]))
  · intro epoch hearly
    by_cases hplaceholder : epoch < 144999
    · exact ⟨8800000000, if_pos hplaceholder, by omega, by omega⟩
    · obtain rfl : epoch = 144999 := by omega
      exact ⟨38484302000000, by simp [junctionTables], by omega, by omega⟩

/-- With the shipped rows of height 144999 its last thousand sats are numbered again by the next height, and
are found there. -/
theorem not_foundAt_144999 :
    (∃ tables, ShippedTables tables ∧ tables.startingSat 144999 = some 6118637906581682000 ∧
        tables.subsidy 144999 = some 38484302000000) ∧
      ¬ ∃ tables, ShippedTables tables ∧ tables.startingSat 144999 = some 6118637906581682000 ∧
        tables.subsidy 144999 = some 38484302000000 ∧ tables.FoundAt 144999 := by
  constructor
  · obtain ⟨hstart, hreward⟩ := shippedTables_junctionTables.early_eq (show 144999 < 145000 by omega)
    refine ⟨junctionTables, shippedTables_junctionTables, ?_, ?_⟩
    · have hlength : (List.range 144999).length = 144999 := List.length_range
      rw [hstart, junctionTables, List.getElem?_append_right (by rw [hlength]), hlength]
      rfl
    · rw [hreward]
      simp [junctionTables]
  · rintro ⟨tables, shipped, hstart, hreward, hfound⟩
    obtain ⟨start, reward, next, hstart', hreward', hnext, hle⟩ :=
      (shipped.foundAt_early_iff (by omega)).1 hfound
    rw [hstart] at hstart'
    rw [hreward] at hreward'
    rw [(shipped.late_eq (le_refl 145000)).1] at hnext
    cases hstart'
    cases hreward'
    have hjunction : next = 6118676390883681000 := (Option.some.inj hnext).symm
    omega

end OrdDogecoin.Sats
