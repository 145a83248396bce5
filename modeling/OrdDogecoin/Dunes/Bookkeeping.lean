/-
Module: OrdDogecoin.Dunes.Bookkeeping
Purpose: The reads and writes of the dune tables around the edict loop: balances taken from the
  inputs, mints and burns counted in the entries, leftovers settled and rows written.
Trusted boundary: none
Main exports: held, settleUnallocated_spec, writeOutputs_spec
-/
import OrdDogecoin.Dunes.Amounts

namespace OrdDogecoin.Dunes

open KeyTable Chain
open Option (bind_some bind_eq_bind)

/-- What the outputs of the chain hold of a dune. -/
def held (balances : KeyTable OutPoint BalanceRow) (id : ℕ) : ℕ :=
  total (fun _ row => pairsAmount id row) balances

def issued (entries : KeyTable ℕ DuneEntry) (id : ℕ) : ℕ :=
  valueAt (fun entry => entry.premine + entry.supply) entries id

def burnedOf (entries : KeyTable ℕ DuneEntry) (id : ℕ) : ℕ :=
  valueAt DuneEntry.burned entries id

def HasEntry (entries : KeyTable ℕ DuneEntry) (id : ℕ) : Prop := (entries.lookup id).isSome

/-- Every row only holds dunes among `ids`. -/
def RowsWithin (ids : ℕ → Prop) (balances : KeyTable OutPoint BalanceRow) : Prop :=
  ∀ outpoint row, balances.lookup outpoint = some row → ∀ pair ∈ row, ids pair.1

/-! ### Inputs -/

theorem held_erase (balances : KeyTable OutPoint BalanceRow) (outpoint : OutPoint) (id : ℕ) :
    held (balances.erase outpoint) id + pairsAmount id ((balances.lookup outpoint).getD []) =
      held balances id := by
  have haccount := total_erase (fun _ row => pairsAmount id row) balances outpoint
  have hweight : weightAt (fun _ row => pairsAmount id row) balances outpoint =
      pairsAmount id ((balances.lookup outpoint).getD []) := by
    unfold weightAt
    cases balances.lookup outpoint <;> rfl
  rw [hweight] at haccount
  exact haccount

theorem held_insert {balances : KeyTable OutPoint BalanceRow} {outpoint : OutPoint}
    (hfresh : balances.lookup outpoint = none) (row : BalanceRow) (id : ℕ) :
    held (balances.insert outpoint row) id = held balances id + pairsAmount id row := by
  have haccount := total_insert (fun _ row => pairsAmount id row) balances outpoint row
  have hweight : weightAt (fun _ row => pairsAmount id row) balances outpoint = 0 := by
    rw [weightAt, hfresh]
    rfl
  rw [hweight, Nat.add_zero] at haccount
  exact haccount

/-- What taking the inputs has done to the rows and to the unallocated amounts. -/
structure InputsTaken (ids : ℕ → Prop) (balances after : KeyTable OutPoint BalanceRow)
    (unallocated taken : Amounts) : Prop where
  flow : ∀ id, held after id + amountAt taken id = held balances id + amountAt unallocated id
  within : Within ids taken
  rows : ∀ outpoint row, after.lookup outpoint = some row → balances.lookup outpoint = some row

variable {ids : ℕ → Prop}

/-- The balances of the inputs move to the unallocated amounts. -/
theorem takeInputs_spec (inputs : List TxIn) :
    ∀ {balances : KeyTable OutPoint BalanceRow} {unallocated : Amounts},
      RowsWithin ids balances → Within ids unallocated →
      (∀ id, held balances id + amountAt unallocated id ≤ maxU128) →
      ∃ after taken, takeInputs inputs balances unallocated = some (after, taken) ∧
        InputsTaken ids balances after unallocated taken := by
  induction inputs with
  | nil =>
      intro balances unallocated _ within _
      exact ⟨balances, unallocated, rfl, fun _ => rfl, within, fun _ _ hrow => hrow⟩
  | cons input inputs ih =>
      intro balances unallocated hrows within hbound
      have herase : ∀ id, held (balances.erase input.previousOutput) id +
          pairsAmount id ((balances.lookup input.previousOutput).getD []) = held balances id :=
        held_erase balances input.previousOutput
      have hids : ∀ pair ∈ (balances.lookup input.previousOutput).getD [], ids pair.1 := by
        cases hrow : balances.lookup input.previousOutput with
        | none => simp
        | some row => exact hrows _ _ hrow
      obtain ⟨credited, hcredited, hwithin, hamounts⟩ := creditAll_spec _ within hids (fun id => by
        have hid := hbound id
        have hrow := herase id
        omega)
      have hrest : ∀ id, held (balances.erase input.previousOutput) id + amountAt credited id ≤
          maxU128 := by
        intro id
        have hid := hbound id
        have hrow := herase id
        rw [hamounts]
        omega
      obtain ⟨after, taken, htaken, hspec⟩ :=
        ih (fun _ _ hrow => hrows _ _ (lookup_erase_cases hrow).2) hwithin hrest
      refine ⟨after, taken, ?_, fun id => ?_, hspec.within, fun _ _ hrow =>
        (lookup_erase_cases (hspec.rows _ _ hrow)).2⟩
      · rw [takeInputs]
        simp only [hcredited, bind_eq_bind, bind_some]
        exact htaken
      · have hflow := hspec.flow id
        have hrow := herase id
        rw [hamounts] at hflow
        omega

/-! ### Entries -/

/-- Entries whose supplies have grown by `minted` and whose burns have grown by `burned`. -/
structure Grown (minted burned : ℕ → ℕ) (before after : KeyTable ℕ DuneEntry) : Prop where
  keys : ∀ id, HasEntry after id ↔ HasEntry before id
  entry : ∀ id new, after.lookup id = some new → ∃ old, before.lookup id = some old ∧
    new.premine = old.premine ∧ new.terms = old.terms ∧ new.supply = old.supply + minted id ∧
    new.burned = old.burned + burned id

theorem Grown.refl (entries : KeyTable ℕ DuneEntry) :
    Grown (fun _ => 0) (fun _ => 0) entries entries where
  keys _ := Iff.rfl
  entry _ new hnew := ⟨new, hnew, rfl, rfl, rfl, rfl⟩

theorem Grown.trans {minted burned minted' burned' : ℕ → ℕ}
    {before middle after : KeyTable ℕ DuneEntry} (first : Grown minted burned before middle)
    (second : Grown minted' burned' middle after) :
    Grown (fun id => minted id + minted' id) (fun id => burned id + burned' id) before after where
  keys id := (second.keys id).trans (first.keys id)
  entry id new hnew := by
    obtain ⟨mid, hmid, hpremine, hterms, hsupply, hburned⟩ := second.entry id new hnew
    obtain ⟨old, hold, hpremine', hterms', hsupply', hburned'⟩ := first.entry id mid hmid
    refine ⟨old, hold, hpremine.trans hpremine', hterms.trans hterms', ?_, ?_⟩
    · rw [hsupply, hsupply', Nat.add_assoc]
    · rw [hburned, hburned', Nat.add_assoc]

/-- One entry rewritten with more supply and more burned. -/
theorem Grown.insert {entries : KeyTable ℕ DuneEntry} {id : ℕ} {old new : DuneEntry}
    {minted burned : ℕ} (hold : entries.lookup id = some old) (hpremine : new.premine = old.premine)
    (hterms : new.terms = old.terms) (hsupply : new.supply = old.supply + minted)
    (hburned : new.burned = old.burned + burned) :
    Grown (fun other => if id = other then minted else 0)
      (fun other => if id = other then burned else 0) entries (entries.insert id new) where
  keys other := by
    unfold HasEntry
    rw [lookup_insert_ite]
    split
    next heq => rw [heq, hold]; simp
    next => exact Iff.rfl
  entry other found hfound := by
    rcases lookup_insert_cases hfound with ⟨rfl, rfl⟩ | ⟨hne, hrow⟩
    · exact ⟨old, hold, hpremine, hterms, by simpa using hsupply, by simpa using hburned⟩
    · exact ⟨found, hrow, rfl, rfl, by simp [Ne.symm hne], by simp [Ne.symm hne]⟩

variable {before after : KeyTable ℕ DuneEntry}

theorem Grown.congr {minted burned minted' burned' : ℕ → ℕ}
    (grown : Grown minted burned before after) (hminted : ∀ id, minted id = minted' id)
    (hburned : ∀ id, burned id = burned' id) : Grown minted' burned' before after := by
  rwa [← funext hminted, ← funext hburned]

theorem Grown.issued {minted burned : ℕ → ℕ} (grown : Grown minted burned before after) {id : ℕ}
    (hentry : HasEntry before id) :
    issued after id = issued before id + minted id := by
  obtain ⟨new, hnew⟩ := Option.isSome_iff_exists.1 ((grown.keys id).2 hentry)
  obtain ⟨old, hold, hpremine, -, hsupply, -⟩ := grown.entry id new hnew
  rw [Dunes.issued, Dunes.issued, valueAt_of_lookup _ hnew, valueAt_of_lookup _ hold, hpremine,
    hsupply, Nat.add_assoc]

theorem Grown.burnedOf {minted burned : ℕ → ℕ} (grown : Grown minted burned before after) {id : ℕ}
    (hentry : HasEntry before id) :
    burnedOf after id = burnedOf before id + burned id := by
  obtain ⟨new, hnew⟩ := Option.isSome_iff_exists.1 ((grown.keys id).2 hentry)
  obtain ⟨old, hold, -, -, -, hburned⟩ := grown.entry id new hnew
  rw [Dunes.burnedOf, Dunes.burnedOf, valueAt_of_lookup _ hnew, valueAt_of_lookup _ hold, hburned]

/-- What a list of remaining amounts says was minted of a dune. -/
def mintedOf (limits : Amounts) (remaining : List (ℕ × ℕ)) (id : ℕ) : ℕ :=
  (remaining.map fun pair => if pair.1 = id then amountAt limits id - pair.2 else 0).sum

theorem mintedOf_cons (limits : Amounts) (pair : ℕ × ℕ) (remaining : List (ℕ × ℕ)) (id : ℕ) :
    mintedOf limits (pair :: remaining) id =
      (if pair.1 = id then amountAt limits pair.1 - pair.2 else 0) + mintedOf limits remaining id := by
  rw [mintedOf, List.map_cons, List.sum_cons]
  by_cases h : pair.1 = id
  · rw [if_pos h, if_pos h, h]
    rfl
  · rw [if_neg h, if_neg h]
    rfl

/-- What remains of the mintable amounts, as a map. -/
theorem mintedOf_pairs (limits after : Amounts) (id : ℕ) :
    mintedOf limits (pairs after) id =
      if (after.lookup id).isSome then amountAt limits id - amountAt after id else 0 := by
  have hvalue := totalWhere_eq_valueAt (fun rest : ℕ => amountAt limits id - rest) after id
  have hmap : mintedOf limits (pairs after) id =
      valueAt (fun rest : ℕ => amountAt limits id - rest) after id := by
    rw [← hvalue, mintedOf, pairs, List.map_map]
    rfl
  rw [hmap, valueAt, amountAt, amountAt]
  cases after.lookup id <;> rfl

/-- Each mint grows the supply of its entry; a mint needs room in the supply and in the count. -/
theorem recordMints_spec (limits : Amounts) (remaining : List (ℕ × ℕ)) :
    ∀ {entries : KeyTable ℕ DuneEntry}, (remaining.map Prod.fst).Nodup →
      (∀ pair ∈ remaining, pair.2 ≤ amountAt limits pair.1) →
      (∀ pair ∈ remaining, ∃ entry, entries.lookup pair.1 = some entry ∧
        entry.supply + (amountAt limits pair.1 - pair.2) ≤ maxU128 ∧ entry.mints + 1 ≤ maxU128) →
      ∃ after, recordMints limits remaining entries = some after ∧
        Grown (mintedOf limits remaining) (fun _ => 0) entries after := by
  induction remaining with
  | nil => exact fun {entries} _ _ _ => ⟨entries, rfl, Grown.refl entries⟩
  | cons pair remaining ih =>
      intro entries hnodup hle hroom
      obtain ⟨id, rest⟩ := pair
      have hrest := List.nodup_cons.1 hnodup
      have hsub : checkedSub ((limits.lookup id).getD 0) rest = some (amountAt limits id - rest) :=
        if_pos (hle (id, rest) List.mem_cons_self)
      have htail : ∀ pair ∈ remaining, pair.2 ≤ amountAt limits pair.1 :=
        fun pair hmem => hle pair (List.mem_cons_of_mem _ hmem)
      obtain ⟨entry, hentry, hsupply, hmints⟩ := hroom (id, rest) List.mem_cons_self
      dsimp only at hentry hsupply
      by_cases hpos : 0 < amountAt limits id - rest
      · have hadd : checkedAdd entry.supply (amountAt limits id - rest) =
            some (entry.supply + (amountAt limits id - rest)) := if_pos hsupply
        have hcount : checkedAdd entry.mints 1 = some (entry.mints + 1) := if_pos hmints
        have hgrow : Grown (fun other => if id = other then amountAt limits id - rest else 0)
            (fun other => if id = other then 0 else 0) entries
            (entries.insert id { entry with
              supply := entry.supply + (amountAt limits id - rest)
              mints := entry.mints + 1 }) :=
          Grown.insert hentry rfl rfl rfl rfl
        obtain ⟨after, hafter, hgrown⟩ := ih hrest.2 htail (fun pair hmem => by
          obtain ⟨other, hother, hspec⟩ := hroom pair (List.mem_cons_of_mem _ hmem)
          have hne : pair.1 ≠ id := by
            intro heq
            have hmem' : pair.1 ∈ remaining.map Prod.fst := List.mem_map_of_mem hmem
            exact hrest.1 (heq ▸ hmem')
          exact ⟨other, (lookup_insert_ite entries id pair.1
            { entry with
              supply := entry.supply + (amountAt limits id - rest)
              mints := entry.mints + 1 }).trans ((if_neg hne).trans hother), hspec⟩)
        refine ⟨after, ?_, (hgrow.trans hgrown).congr (fun other => ?_) (fun other => ?_)⟩
        · rw [recordMints, hsub]
          simp only [bind_eq_bind, bind_some, if_pos hpos, hentry, hadd, hcount]
          exact hafter
        · rw [mintedOf_cons]
        · simp
      · obtain ⟨after, hafter, hgrown⟩ := ih hrest.2 htail
          (fun pair hmem => hroom pair (List.mem_cons_of_mem _ hmem))
        refine ⟨after, ?_, hgrown.congr (fun other => ?_) (fun _ => rfl)⟩
        · rw [recordMints, hsub]
          simp only [bind_eq_bind, bind_some, if_neg hpos]
          exact hafter
        · have hzero : amountAt limits id - rest = 0 := by omega
          rw [mintedOf_cons, hzero]
          simp

/-- Burns grow the burned amounts of their entries. -/
theorem recordBurns_spec (burned : List (ℕ × ℕ)) :
    ∀ {entries : KeyTable ℕ DuneEntry}, (∀ pair ∈ burned, HasEntry entries pair.1) →
      (∀ id, burnedOf entries id + pairsAmount id burned ≤ maxU128) →
      ∃ after, recordBurns burned entries = some after ∧
        Grown (fun _ => 0) (fun id => pairsAmount id burned) entries after := by
  induction burned with
  | nil => exact fun {entries} _ _ => ⟨entries, rfl, Grown.refl entries⟩
  | cons pair burned ih =>
      intro entries hids hbound
      obtain ⟨id, amount⟩ := pair
      have hid : HasEntry entries id := hids (id, amount) List.mem_cons_self
      obtain ⟨entry, hentry⟩ := Option.isSome_iff_exists.1 hid
      have hadd : checkedAdd entry.burned amount = some (entry.burned + amount) := by
        have hroom := hbound id
        rw [burnedOf, valueAt_of_lookup _ hentry, pairsAmount_cons, if_pos rfl] at hroom
        exact if_pos (by dsimp only at hroom; omega)
      have hgrow : Grown (fun other => if id = other then 0 else 0)
          (fun other => if id = other then amount else 0) entries
          (entries.insert id { entry with burned := entry.burned + amount }) :=
        Grown.insert hentry rfl rfl rfl rfl
      obtain ⟨after, hafter, hgrown⟩ := ih
        (fun pair hmem => (hgrow.keys pair.1).2 (hids pair (List.mem_cons_of_mem _ hmem)))
        (fun other => by
          have hother := hbound other
          rw [pairsAmount_cons] at hother
          by_cases hne : id = other
          · subst hne
            rw [hgrow.burnedOf hid, if_pos rfl]
            rw [if_pos rfl] at hother
            dsimp only at hother
            omega
          · rw [if_neg hne] at hother
            rw [burnedOf, valueAt_insert_ite, if_neg (Ne.symm hne)]
            change burnedOf entries other + _ ≤ _
            omega)
      refine ⟨after, ?_, (hgrow.trans hgrown).congr (fun other => by simp) fun other => ?_⟩
      · rw [recordBurns, hentry]
        simp only [bind_eq_bind, bind_some, hadd]
        exact hafter
      · rw [pairsAmount_cons]

/-! ### Outputs -/

theorem defaultOutput_lt {outputs : List TxOut} {pointer : Option ℕ} {vout : ℕ}
    (hdefault : defaultOutput outputs pointer = some vout) : vout < outputs.length := by
  rw [defaultOutput, Option.or_eq_some_iff] at hdefault
  rcases hdefault with hpointer | ⟨-, hfind⟩
  · simpa using (Option.filter_eq_some_iff.1 hpointer).2
  · exact (List.findIdx?_eq_some_iff_findIdx_eq.1 hfind).1

theorem Within.positive {amounts : Amounts} (within : Within ids amounts) :
    ∀ pair ∈ positive amounts, ids pair.1 :=
  fun _ hmem => within.pairs (List.mem_of_mem_filter hmem)

/-- What is left over stays in the outputs or is burned. -/
theorem settleUnallocated_spec {outputs : List TxOut} (pointer : Option ℕ) (cenotaph : Bool)
    {unallocated : Amounts} {allocated : List Amounts} (hlength : allocated.length = outputs.length)
    (hunallocated : Within ids unallocated) (hallocated : AllWithin ids allocated)
    (hbound : ∀ id, amountAt unallocated id + allocatedTotal allocated id ≤ maxU128) :
    ∃ settled burned, settleUnallocated outputs pointer cenotaph unallocated allocated =
        some (settled, burned) ∧
      settled.length = outputs.length ∧ AllWithin ids settled ∧ Within ids burned ∧
      ∀ id, allocatedTotal settled id + amountAt burned id =
        amountAt unallocated id + allocatedTotal allocated id := by
  -- a list of the unallocated amounts, credited to an empty map of burns
  have hburn : ∀ list : List (ℕ × ℕ), (∀ pair ∈ list, ids pair.1) →
      (∀ id, pairsAmount id list = amountAt unallocated id) →
      ∃ burned, creditAll ∅ list = some burned ∧ Within ids burned ∧
        ∀ id, amountAt burned id = amountAt unallocated id := by
    intro list hids hamount
    obtain ⟨burned, hburned, hwithin, hamounts⟩ :=
      creditAll_spec list (Within.empty ids) hids (fun id => by
        have hid := hbound id
        rw [amountAt_empty, hamount]
        omega)
    exact ⟨burned, hburned, hwithin, fun id => by rw [hamounts, amountAt_empty, hamount]; omega⟩
  cases cenotaph with
  | true =>
      obtain ⟨burned, hburned, hwithin, hamounts⟩ := hburn (pairs unallocated)
        (fun _ hmem => hunallocated.pairs hmem) (pairsAmount_pairs unallocated)
      refine ⟨allocated, burned, ?_, hlength, hallocated, hwithin, fun id => ?_⟩
      · rw [settleUnallocated, if_pos rfl, hburned]
        rfl
      · rw [hamounts, Nat.add_comm]
  | false =>
      cases hdefault : defaultOutput outputs pointer with
      | none =>
          obtain ⟨burned, hburned, hwithin, hamounts⟩ := hburn (positive unallocated)
            hunallocated.positive (pairsAmount_positive unallocated)
          refine ⟨allocated, burned, ?_, hlength, hallocated, hwithin, fun id => ?_⟩
          · rw [settleUnallocated, hdefault, hburned]
            rfl
          · rw [hamounts, Nat.add_comm]
      | some vout =>
          have hvout : vout < allocated.length := hlength ▸ defaultOutput_lt hdefault
          have hget : allocated[vout]? = some allocated[vout] := List.getElem?_eq_getElem hvout
          obtain ⟨credited, hcredited, hwithin, hamounts⟩ :=
            creditAll_spec (positive unallocated) (hallocated _ (List.getElem_mem hvout))
              hunallocated.positive (fun id => by
                have hid := hbound id
                have hle := amountAt_le_allocatedTotal hget id
                rw [pairsAmount_positive]
                omega)
          refine ⟨allocated.set vout credited, ∅, ?_, ?_, hallocated.set hwithin,
            Within.empty ids, fun id => ?_⟩
          · rw [settleUnallocated, hdefault]
            simp only [Bool.false_eq_true, if_false, hget, bind_eq_bind, bind_some,
              hcredited]
          · rw [List.length_set, hlength]
          · have hset := allocatedTotal_set hget credited id
            rw [hamounts, pairsAmount_positive] at hset
            rw [amountAt_empty]
            omega

/-- What writing the outputs has done to the rows and to the burned amounts. -/
structure OutputsWritten (ids : ℕ → Prop) (written : ℕ → ℕ)
    (balances after : KeyTable OutPoint BalanceRow) (burned total : Amounts) : Prop where
  flow : ∀ id, held after id + amountAt total id =
    held balances id + amountAt burned id + written id
  rows : RowsWithin ids after
  within : Within ids total

theorem amountAt_of_isEmpty {amounts : Amounts} (hempty : amounts.entries.isEmpty) (id : ℕ) :
    amountAt amounts id = 0 := by
  have hamounts : amounts = ∅ := AList.ext (List.isEmpty_iff.1 hempty)
  rw [hamounts, amountAt_empty]

/-- Every output writes its row under a fresh key or is burned. -/
theorem writeOutputs_spec (txid : Txid) (outputs : List (TxOut × Amounts)) :
    ∀ {vout : ℕ} {balances : KeyTable OutPoint BalanceRow} {burned : Amounts},
      RowsWithin ids balances → Within ids burned →
      AllWithin ids (outputs.map Prod.snd) →
      (∀ number, vout ≤ number → balances.lookup ⟨txid, number⟩ = none) →
      (∀ id, amountAt burned id + allocatedTotal (outputs.map Prod.snd) id ≤ maxU128) →
      ∃ after total, writeOutputs txid vout outputs balances burned = some (after, total) ∧
        OutputsWritten ids (allocatedTotal (outputs.map Prod.snd)) balances after burned total := by
  induction outputs with
  | nil =>
      intro vout balances burned hrows hwithin _ _ _
      exact ⟨balances, burned, rfl, fun _ => rfl, hrows, hwithin⟩
  | cons output outputs ih =>
      intro vout balances burned hrows hwithin hall hfresh hbound
      obtain ⟨txOut, amounts⟩ := output
      have htotal : ∀ id, allocatedTotal (((txOut, amounts) :: outputs).map Prod.snd) id =
          amountAt amounts id + allocatedTotal (outputs.map Prod.snd) id := fun _ => rfl
      have hamounts : Within ids amounts := hall _ List.mem_cons_self
      have hrest : AllWithin ids (outputs.map Prod.snd) :=
        fun _ hmem => hall _ (List.mem_cons_of_mem _ hmem)
      have hnext : ∀ number, vout + 1 ≤ number → balances.lookup ⟨txid, number⟩ = none :=
        fun number hle => hfresh number (by omega)
      by_cases hempty : amounts.entries.isEmpty
      · have hzero := amountAt_of_isEmpty hempty
        obtain ⟨after, total, hwrite, hspec⟩ := ih hrows hwithin hrest hnext (fun id => by
          have hid := hbound id
          rw [htotal] at hid
          omega)
        refine ⟨after, total, ?_, fun id => ?_, hspec.rows, hspec.within⟩
        · rw [writeOutputs, if_pos hempty, hwrite]
        · rw [hspec.flow, htotal, hzero]
          omega
      · by_cases hreturn : isOpReturn txOut.scriptPubkey
        · obtain ⟨credited, hcredited, hcwithin, hcamounts⟩ :=
            creditAll_spec (pairs amounts) hwithin (fun _ hmem => hamounts.pairs hmem) (fun id => by
              have hid := hbound id
              rw [htotal] at hid
              rw [pairsAmount_pairs]
              omega)
          obtain ⟨after, total, hwrite, hspec⟩ := ih hrows hcwithin hrest hnext (fun id => by
            have hid := hbound id
            rw [htotal] at hid
            rw [hcamounts, pairsAmount_pairs]
            omega)
          refine ⟨after, total, ?_, fun id => ?_, hspec.rows, hspec.within⟩
          · rw [writeOutputs, if_neg hempty, if_pos hreturn, hcredited]
            exact hwrite
          · rw [hspec.flow, htotal, hcamounts, pairsAmount_pairs]
            omega
        · have hrow : ∀ pair ∈ balanceRow amounts, ids pair.1 := fun pair hmem =>
            hamounts.pairs ((List.mem_insertionSort _).1 hmem)
          have hrows' : RowsWithin ids (balances.insert ⟨txid, vout⟩ (balanceRow amounts)) := by
            intro outpoint row hlookup
            rcases lookup_insert_cases hlookup with ⟨-, rfl⟩ | ⟨-, hold⟩
            · exact hrow
            · exact hrows _ _ hold
          have hfresh' : ∀ number, vout + 1 ≤ number →
              (balances.insert ⟨txid, vout⟩ (balanceRow amounts)).lookup ⟨txid, number⟩ = none := by
            intro number hle
            have hne : (⟨txid, number⟩ : OutPoint) ≠ ⟨txid, vout⟩ := by
              intro heq
              cases heq
              omega
            rw [AList.lookup_insert_ne hne, hnext number hle]
          obtain ⟨after, total, hwrite, hspec⟩ := ih hrows' hwithin hrest hfresh' (fun id => by
            have hid := hbound id
            rw [htotal] at hid
            omega)
          refine ⟨after, total, ?_, fun id => ?_, hspec.rows, hspec.within⟩
          · rw [writeOutputs, if_neg hempty, if_neg hreturn, hwrite]
          · rw [hspec.flow, htotal, held_insert (hfresh vout (Nat.le_refl _)),
              pairsAmount_balanceRow]
            omega

end OrdDogecoin.Dunes
