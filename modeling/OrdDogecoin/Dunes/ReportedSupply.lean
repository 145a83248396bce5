/-
Module: OrdDogecoin.Dunes.ReportedSupply
Purpose: `DuneEntry::supply`, the total that is reported for a dune.  What is issued of a dune, its premine
  and its counted supply, is all that is held or burned; the reported total adds the burned amount to it
  once more, so it is right exactly for a dune of which nothing is burned.
Trusted boundary: none
Main exports: DuneEntry.supplyTotal, SupplyRight, supplyTotal_right_iff
-/
import OrdDogecoin.Dunes.MintTerms

namespace OrdDogecoin.Dunes

/-- `DuneEntry::supply`, in a build that panics on overflow or wraps. -/
def DuneEntry.supplyTotal (overflow : Overflow) (entry : DuneEntry) : Option ℕ := do
  let issued ← overflow.add entry.premine entry.supply
  overflow.add issued entry.burned

/-- The reported total of an entry does not overflow, and it is what the unspent outputs hold of the dune
and what is burned of it. -/
def SupplyRight (overflow : Overflow) (tables : DuneTables) (id : ℕ) (entry : DuneEntry) : Prop :=
  entry.premine + entry.supply + entry.burned ≤ maxU128 ∧
    entry.supplyTotal overflow = some (held tables.outpointToBalances id + entry.burned)

instance (overflow : Overflow) (tables : DuneTables) (id : ℕ) (entry : DuneEntry) :
    Decidable (SupplyRight overflow tables id entry) :=
  inferInstanceAs (Decidable (_ ∧ _))

theorem supplyTotal_eq (overflow : Overflow) {entry : DuneEntry}
    (hfits : entry.premine + entry.supply + entry.burned ≤ maxU128) :
    entry.supplyTotal overflow = some (entry.premine + entry.supply + entry.burned) := by
  have hissued : entry.premine + entry.supply ≤ maxU128 := Nat.le_of_add_right_le hfits
  rw [DuneEntry.supplyTotal, overflow.add_of_le hissued]
  exact overflow.add_of_le hfits

/-- Beside a conserved entry, the total counts what is burned twice. -/
theorem supplyRight_iff_of_conserved (overflow : Overflow) {tables : DuneTables} {id : ℕ}
    {entry : DuneEntry} (hissued : entry.premine + entry.supply ≤ maxU128)
    (hconserved : held tables.outpointToBalances id + entry.burned = entry.premine + entry.supply) :
    SupplyRight overflow tables id entry ↔ entry.burned = 0 := by
  constructor
  · intro hright
    have htotal := supplyTotal_eq overflow hright.1
    rw [hright.2, hconserved] at htotal
    have hsum : entry.premine + entry.supply + 0 = entry.premine + entry.supply + entry.burned :=
      Option.some.inj htotal
    exact (Nat.add_left_cancel hsum).symm
  · intro hburned
    have hfits : entry.premine + entry.supply + entry.burned ≤ maxU128 := by rwa [hburned]
    refine ⟨hfits, ?_⟩
    rw [supplyTotal_eq overflow hfits, hconserved, hburned, Nat.add_zero]

/-- In every state of a run whose transactions request amounts that fit, the reported total of an entry is
right exactly when nothing of its dune is burned. -/
theorem supplyTotal_right_iff (overflow : Overflow) (block : BlockInfo) {s : DuneIndex}
    (reaches : Run.Reaches DuneIndex.step RequestsFit (DuneIndex.initial block) s) :
    ∀ id entry, s.tables.idToEntry.lookup id = some entry →
      (SupplyRight overflow s.tables id entry ↔ entry.burned = 0) := by
  intro id entry hentry
  have valid : s.Valid := reaches.invariant DuneIndex.Valid step_valid (DuneIndex.initial_valid block)
  have hbalance := valid.conserved.balance id
  have hissued := valid.conserved.fits id
  rw [issued, KeyTable.valueAt_of_lookup _ hentry] at hbalance hissued
  rw [burnedOf, KeyTable.valueAt_of_lookup _ hentry] at hbalance
  exact supplyRight_iff_of_conserved overflow hissued hbalance

theorem sampleRun_supplyRight :
    ∃ s, Run.Reaches DuneIndex.step RequestsFit (DuneIndex.initial sampleBlock) s ∧
      ∃ entry, s.tables.idToEntry.lookup (2 <<< 16) = some entry ∧ entry.burned = 0 ∧
        SupplyRight .panics s.tables (2 <<< 16) entry := by
  have hexec : (Run.exec DuneIndex.step stepFits sampleRun (DuneIndex.initial sampleBlock)).map
      (fun s => (s.tables.idToEntry.lookup (2 <<< 16)).map DuneEntry.burned) = some (some 0) := by
    decide
  obtain ⟨s, reaches, hview⟩ := Run.exists_reaches_of_exec requestsFit_of_stepFits hexec
  obtain ⟨entry, hentry, hburned⟩ := Option.map_eq_some_iff.1 hview
  exact ⟨s, reaches, entry, hentry, hburned,
    (supplyTotal_right_iff .panics sampleBlock reaches _ entry hentry).mpr hburned⟩

/-- An etching that allocates 100 to its first output, which the next transaction spends without an output
that could hold a dune. -/
def burnRun : List DuneAction :=
  [.transaction
      { txid := 1, input := [], output := [⟨1, []⟩, dunestoneOutput [2, 3, 6, 10, 20, 5, 0, 0, 100, 0]] },
    .transaction { txid := 2, input := [⟨⟨1, 0⟩, []⟩], output := [⟨0, [0x6a]⟩] }]

/-- The 100 burned units are reported as 200. -/
theorem burnRun_reported :
    ∃ s, Run.Reaches DuneIndex.step RequestsFit (DuneIndex.initial sampleBlock) s ∧
      ∃ entry, s.tables.idToEntry.lookup (2 <<< 16) = some entry ∧
        entry.supplyTotal .panics = some 200 ∧
        held s.tables.outpointToBalances (2 <<< 16) + entry.burned = 100 ∧
        ¬SupplyRight .panics s.tables (2 <<< 16) entry := by
  have hexec : (Run.exec DuneIndex.step stepFits burnRun (DuneIndex.initial sampleBlock)).map
      (fun s => (s.tables.idToEntry.lookup (2 <<< 16)).map fun entry =>
        (entry.supplyTotal .panics, held s.tables.outpointToBalances (2 <<< 16) + entry.burned,
          decide (SupplyRight .panics s.tables (2 <<< 16) entry))) =
      some (some (some 200, 100, false)) := by
    decide
  obtain ⟨s, reaches, hview⟩ := Run.exists_reaches_of_exec requestsFit_of_stepFits hexec
  obtain ⟨entry, hentry, hamounts⟩ := Option.map_eq_some_iff.1 hview
  simp only [Prod.mk.injEq, decide_eq_false_iff_not] at hamounts
  exact ⟨s, reaches, entry, hentry, hamounts.1, hamounts.2.1, hamounts.2.2⟩

end OrdDogecoin.Dunes
