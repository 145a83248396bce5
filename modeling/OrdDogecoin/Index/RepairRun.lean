/-
Module: OrdDogecoin.Index.RepairRun
Purpose: The repair over whole runs.  A round moves the cursor behind the addresses of its batch and keeps
  the invariant; a call that is not interrupted returns after at most as many rounds as addresses are left,
  with both address tables right.  Blocks, commits and interrupted calls may come in any order before it.
Trusted boundary: as in OrdDogecoin.Index.AddressRepair
Main exports: RowsWritten, RepairState.KeepsUnspent, repair_completes
-/
import OrdDogecoin.Index.AddressRepair
import OrdDogecoin.Lib.Pages

namespace OrdDogecoin.Index

open Chain
open KeyTable
open scoped RepairOrder

/-- An address that is still to be scanned. -/
def Pending (cursor : Option AddressBytes) (address : AddressBytes) : Prop :=
  ∀ last ∈ cursor, last < address

/-! ### What a round reads -/

section Read

variable {tables : AddressTables} {cursor : Option AddressBytes} {address : AddressBytes}

theorem mem_addressesAfter : address ∈ tables.addressesAfter cursor ↔
    (∃ outpoint, (address, outpoint) ∈ tables.addressToOutpoint) ∧ Pending cursor address := by
  unfold AddressTables.addressesAfter Pending
  rw [List.mem_filter, Finset.mem_sort, Finset.mem_image, Option.all_eq_true]
  refine and_congr ⟨?_, ?_⟩ (by simp)
  · rintro ⟨⟨text, outpoint⟩, hmem, rfl⟩
    exact ⟨outpoint, hmem⟩
  · rintro ⟨outpoint, hmem⟩
    exact ⟨(address, outpoint), hmem, rfl⟩

theorem pairwise_addressesAfter : (tables.addressesAfter cursor).Pairwise (· < ·) :=
  (Finset.sortedLT_sort _).pairwise.filter _

theorem length_addressesAfter_le :
    (tables.addressesAfter cursor).length ≤ tables.addressToOutpoint.card := by
  unfold AddressTables.addressesAfter
  refine (List.length_filter_le _ _).trans ?_
  rw [Finset.length_sort]
  exact Finset.card_image_le

theorem mem_outpointsUnder {outpoint : OutPoint} :
    outpoint ∈ tables.outpointsUnder address ↔ (address, outpoint) ∈ tables.addressToOutpoint := by
  unfold AddressTables.outpointsUnder
  rw [Finset.mem_sort, Finset.mem_image]
  constructor
  · rintro ⟨⟨text, other⟩, hmem, rfl⟩
    obtain ⟨hrow, hsame⟩ := Finset.mem_filter.1 hmem
    change text = address at hsame
    subst hsame
    exact hrow
  · exact fun hmem => ⟨(address, outpoint), Finset.mem_filter.2 ⟨hmem, rfl⟩, rfl⟩

theorem mem_unspentOutputs {outpoint : OutPoint} :
    outpoint ∈ tables.unspentOutputs ↔ (tables.outpointToValue.lookup outpoint).isSome := by
  unfold AddressTables.unspentOutputs
  rw [List.mem_toFinset, ← AList.mem_keys, AList.lookup_isSome]

end Read

/-! ### What a round writes -/

/-- What writing some rows does to the tables. -/
structure RowsWritten (tables : AddressTables) (rows : List RepairRow) (tables' : AddressTables) :
    Prop where
  cache : tables'.valueCache = tables.valueCache
  values : tables'.outpointToValue = tables.outpointToValue
  transactions : tables'.transactions = tables.transactions
  listed : ∀ address outpoint, (address, outpoint) ∈ tables'.addressToOutpoint ↔
    (address, outpoint) ∈ tables.addressToOutpoint ∧
      ∀ row ∈ rows, row.address = address → outpoint ∉ row.stale
  address : ∀ outpoint, (∃ row ∈ rows, outpoint ∈ row.live ∧
      tables'.outpointToAddress.lookup outpoint = some row.address) ∨
    (∀ row ∈ rows, outpoint ∉ row.live) ∧
      tables'.outpointToAddress.lookup outpoint = tables.outpointToAddress.lookup outpoint

section Write

variable {tables : AddressTables}

theorem mem_foldl_erase {address text : AddressBytes} {outpoint : OutPoint} (stale : List OutPoint) :
    ∀ listed : Finset (AddressBytes × OutPoint),
      (text, outpoint) ∈ stale.foldl (fun listed other => listed.erase (address, other)) listed ↔
        (text, outpoint) ∈ listed ∧ (address = text → outpoint ∉ stale) := by
  induction stale with
  | nil => simp
  | cons other stale ih =>
      intro listed
      rw [List.foldl_cons, ih, Finset.mem_erase, Ne, Prod.mk.injEq, List.mem_cons]
      constructor
      · rintro ⟨⟨hne, hmem⟩, hrest⟩
        refine ⟨hmem, fun hsame => ?_⟩
        rintro (hhead | htail)
        · exact hne ⟨hsame.symm, hhead⟩
        · exact hrest hsame htail
      · rintro ⟨hmem, hrest⟩
        exact ⟨⟨fun ⟨htext, hhead⟩ => hrest htext.symm (.inl hhead), hmem⟩,
          fun hsame htail => hrest hsame (.inr htail)⟩

theorem rowsWritten_writeRow (row : RepairRow) : RowsWritten tables [row] (tables.writeRow row) where
  cache := rfl
  values := rfl
  transactions := rfl
  listed address outpoint := by
    rw [List.forall_mem_singleton]
    exact mem_foldl_erase row.stale tables.addressToOutpoint
  address outpoint := by
    have hlookup := lookup_foldl_keys (fun _ => row.address) outpoint row.live tables.outpointToAddress
    by_cases hlive : outpoint ∈ row.live
    · rw [if_pos hlive] at hlookup
      exact .inl ⟨row, List.mem_singleton_self row, hlive, hlookup⟩
    · rw [if_neg hlive] at hlookup
      exact .inr ⟨List.forall_mem_singleton.2 hlive, hlookup⟩

/-- The rows of a batch, one after the other. -/
theorem rowsWritten_foldl (rows : List RepairRow) :
    ∀ tables : AddressTables, RowsWritten tables rows (rows.foldl AddressTables.writeRow tables) := by
  induction rows with
  | nil => exact fun tables => ⟨rfl, rfl, rfl, by simp, by simp⟩
  | cons row rows ih =>
      intro tables
      have first := @rowsWritten_writeRow tables row
      have rest := ih (tables.writeRow row)
      refine ⟨rest.cache.trans first.cache, rest.values.trans first.values,
        rest.transactions.trans first.transactions, fun address outpoint => ?_, fun outpoint => ?_⟩
      · rw [List.foldl_cons, rest.listed, first.listed, List.forall_mem_singleton, List.forall_mem_cons]
        exact and_assoc
      · rw [List.foldl_cons]
        rcases rest.address outpoint with ⟨other, hmem, hlive, hlookup⟩ | ⟨hnone, hsame⟩
        · exact .inl ⟨other, List.mem_cons_of_mem _ hmem, hlive, hlookup⟩
        · rcases first.address outpoint with ⟨other, hmem, hlive, hlookup⟩ | ⟨hfirst, hlookup⟩
          · obtain rfl := List.mem_singleton.1 hmem
            exact .inl ⟨other, List.mem_cons_self, hlive, hsame.trans hlookup⟩
          · exact .inr ⟨List.forall_mem_cons.2 ⟨hfirst row List.mem_cons_self, hnone⟩,
              hsame.trans hlookup⟩

end Write

/-! ### One round -/

section Round

variable {env : AddressEnv} {state : RepairState} {batchSize : ℕ}

/-- The invariant of a run. -/
structure RepairState.Sound (env : AddressEnv) (state : RepairState) : Prop where
  known : state.index.chain.Known
  seen : ∀ tx ∈ state.index.indexed, tx.txid ∈ state.index.chain.seen
  unindexed : state.index.height ≤ env.firstInscriptionHeight → state.index.indexed = []
  tracked : Tracked env state.index.tables (Pending state.cursor) state.index.chain.seen
    state.index.chain.utxo state.index.indexed

/-- What a call leaves as it is; of the listing, the rows of the unspent outputs. -/
structure RepairState.KeepsUnspent (state state' : RepairState) : Prop where
  chain : state'.index.chain = state.index.chain
  height : state'.index.height = state.index.height
  indexed : state'.index.indexed = state.index.indexed
  cache : state'.index.tables.valueCache = state.index.tables.valueCache
  values : state'.index.tables.outpointToValue = state.index.tables.outpointToValue
  kept : ∀ address outpoint, (address, outpoint) ∈ state.index.tables.addressToOutpoint →
    (state.index.unspentOutput outpoint).isSome →
      (address, outpoint) ∈ state'.index.tables.addressToOutpoint

theorem RepairState.KeepsUnspent.trans {first second third : RepairState}
    (keeps : first.KeepsUnspent second) (keeps' : second.KeepsUnspent third) :
    first.KeepsUnspent third where
  chain := keeps'.chain.trans keeps.chain
  height := keeps'.height.trans keeps.height
  indexed := keeps'.indexed.trans keeps.indexed
  cache := keeps'.cache.trans keeps.cache
  values := keeps'.values.trans keeps.values
  kept address outpoint hmem hunspent := by
    refine keeps'.kept address outpoint (keeps.kept address outpoint hmem hunspent) ?_
    unfold AddressState.unspentOutput
    rw [keeps.chain, keeps.indexed]
    exact hunspent

/-- The rows of a round are the addresses of the batch. -/
theorem map_address_nextRows (unspent : Finset OutPoint) :
    (state.nextRows batchSize unspent).map RepairRow.address =
      (state.index.tables.addressesAfter state.cursor).take batchSize := by
  rw [RepairState.nextRows, List.map_map]
  exact List.map_id _

/-- The outpoints of a row are split by the unspent set. -/
theorem mem_of_mem_nextRows {unspent : Finset OutPoint} {row : RepairRow}
    (hrow : row ∈ state.nextRows batchSize unspent) (outpoint : OutPoint) :
    (outpoint ∈ row.live ↔
      (row.address, outpoint) ∈ state.index.tables.addressToOutpoint ∧ outpoint ∈ unspent) ∧
    (outpoint ∈ row.stale ↔
      (row.address, outpoint) ∈ state.index.tables.addressToOutpoint ∧ outpoint ∉ unspent) := by
  obtain ⟨address, -, rfl⟩ := List.mem_map.1 hrow
  simp only [List.mem_filter, decide_eq_true_eq, mem_outpointsUnder, and_self]

/-- An unspent output in the tables is in the unspent set, any other outpoint is not. -/
theorem mem_unspentOutputs_iff (sound : state.Sound env)
    (hcache : state.index.tables.valueCache.keys = []) (outpoint : OutPoint) :
    outpoint ∈ state.index.tables.unspentOutputs ↔ (state.index.unspentOutput outpoint).isSome := by
  rw [mem_unspentOutputs]
  have hrows := sound.tracked.rows outpoint
  change PendingRows env _ _ _ outpoint (state.index.unspentOutput outpoint) at hrows
  have hempty : state.index.tables.valueCache.lookup outpoint = none := by
    rw [AList.lookup_eq_none, AList.mem_keys, hcache]
    exact List.not_mem_nil
  cases hfound : state.index.unspentOutput outpoint with
  | none =>
      rw [hfound] at hrows
      rw [SpentRows.value hrows]
      rfl
  | some output =>
      rw [hfound] at hrows
      rcases hrows with hcached | hstored
      · rw [hcached.cache_eq] at hempty
        cases hempty
      · rw [hstored.value]
        rfl

variable {rows : List RepairRow}

/-- A round changes only what it may. -/
theorem keepsUnspent_writeBatch (sound : state.Sound env)
    (hcache : state.index.tables.valueCache.keys = []) :
    state.KeepsUnspent
      (state.writeBatch (state.nextRows batchSize state.index.tables.unspentOutputs)) := by
  have written := rowsWritten_foldl (state.nextRows batchSize state.index.tables.unspentOutputs)
    state.index.tables
  refine ⟨rfl, rfl, rfl, written.cache, written.values, fun address outpoint hmem hunspent => ?_⟩
  refine (written.listed address outpoint).2 ⟨hmem, fun row hrow _ hstale => ?_⟩
  exact ((mem_of_mem_nextRows hrow outpoint).2.1 hstale).2
    ((mem_unspentOutputs_iff sound hcache outpoint).2 hunspent)

/-- What is listed after a round was listed before. -/
theorem listed_of_listed_writeBatch {address : AddressBytes} {outpoint : OutPoint}
    (hmem : (address, outpoint) ∈ (state.writeBatch rows).index.tables.addressToOutpoint) :
    (address, outpoint) ∈ state.index.tables.addressToOutpoint :=
  (((rowsWritten_foldl rows state.index.tables).listed address outpoint).1 hmem).1

/-- A pending address of the listing is in the batch or stays pending. -/
theorem mem_or_pending {unspent : Finset OutPoint} {address : AddressBytes} {outpoint : OutPoint}
    (hmem : (address, outpoint) ∈ state.index.tables.addressToOutpoint)
    (hpending : Pending state.cursor address) :
    (∃ row ∈ state.nextRows batchSize unspent, row.address = address) ∨
      Pending (state.writeBatch (state.nextRows batchSize unspent)).cursor address := by
  have hafter := mem_addressesAfter.2 ⟨⟨outpoint, hmem⟩, hpending⟩
  rcases Pages.mem_take_or_behind pairwise_addressesAfter batchSize hafter with hfirst | hbehind
  · rw [← map_address_nextRows unspent] at hfirst
    exact .inl (List.mem_map.1 hfirst)
  · refine .inr fun last hlast => hbehind last ?_
    rw [← map_address_nextRows unspent]
    obtain ⟨row, hrow, rfl⟩ := Option.mem_map.1 hlast
    exact List.mem_map_of_mem (List.mem_of_getLast? hrow)

/-- The rows of an outpoint after a round. -/
theorem PendingRows.writeBatch (sound : state.Sound env)
    (hcache : state.index.tables.valueCache.keys = []) (outpoint : OutPoint) :
    let next := state.writeBatch (state.nextRows batchSize state.index.tables.unspentOutputs)
    PendingRows env next.index.tables (Pending next.cursor) state.index.chain.seen outpoint
      (state.index.unspentOutput outpoint) := by
  intro next
  have written : RowsWritten state.index.tables _ next.index.tables :=
    rowsWritten_foldl _ state.index.tables
  have hrows := sound.tracked.rows outpoint
  change PendingRows env _ _ _ outpoint (state.index.unspentOutput outpoint) at hrows
  have hmem := mem_unspentOutputs_iff sound hcache outpoint
  have hempty : state.index.tables.valueCache.lookup outpoint = none := by
    rw [AList.lookup_eq_none, AList.mem_keys, hcache]
    exact List.not_mem_nil
  cases hfound : state.index.unspentOutput outpoint with
  | none =>
      rw [hfound] at hrows hmem
      have hspent : SpentRows state.index.tables (Pending state.cursor) state.index.chain.seen outpoint := hrows
      have hunspent : outpoint ∉ state.index.tables.unspentOutputs := by simp [hmem]
      refine ⟨by rw [written.cache]; exact hspent.cache, by rw [written.values]; exact hspent.value,
        ?_, fun text htext => ?_⟩
      · rcases written.address outpoint with ⟨row, hrow, hlive, -⟩ | ⟨-, hsame⟩
        · exact absurd ((mem_of_mem_nextRows hrow outpoint).1.1 hlive).2 hunspent
        · exact hsame.trans hspent.address
      · -- a stale row of the batch is removed
        obtain ⟨hlisted, hkept⟩ := (written.listed text outpoint).1 htext
        obtain ⟨hpending, hseen⟩ := hspent.stale text hlisted
        refine ⟨?_, hseen⟩
        rcases mem_or_pending hlisted hpending with ⟨row, hrow, rfl⟩ | hstill
        · exact absurd ((mem_of_mem_nextRows hrow outpoint).2.2 ⟨hlisted, hunspent⟩)
            (hkept row hrow rfl)
        · exact hstill
  | some output =>
      rw [hfound] at hrows hmem
      have hunspent : outpoint ∈ state.index.tables.unspentOutputs := hmem.2 rfl
      rcases hrows with hcached | hstored
      · rw [hcached.cache_eq] at hempty
        cases hempty
      · have hlisted : ∀ text, (text, outpoint) ∈ next.index.tables.addressToOutpoint ↔
            (text, outpoint) ∈ state.index.tables.addressToOutpoint := by
          intro text
          rw [written.listed]
          refine and_iff_left fun row hrow _ hstale => ?_
          exact ((mem_of_mem_nextRows hrow outpoint).2.1 hstale).2 hunspent
        refine .inr ⟨by rw [written.cache]; exact hstored.cache,
          by rw [written.values]; exact hstored.value,
          fun text => (hlisted text).trans (hstored.listed text), ?_⟩
        rcases written.address outpoint with ⟨row, hrow, hlive, hlookup⟩ | ⟨hnone, hsame⟩
        · -- recorded by the batch, under the address it is listed at
          left
          rw [hlookup]
          exact ((hstored.listed row.address).1 ((mem_of_mem_nextRows hrow outpoint).1.1 hlive).1).symm
        · rw [hsame]
          refine hstored.address.imp_right fun ⟨hlookup, hpending⟩ => ⟨hlookup, fun text htext => ?_⟩
          have hmem := (hstored.listed text).2 htext
          rcases mem_or_pending hmem (hpending text htext) with ⟨row, hrow, rfl⟩ | hstill
          · exact absurd ((mem_of_mem_nextRows hrow outpoint).1.2 ⟨hmem, hunspent⟩) (hnone row hrow)
          · exact hstill

theorem RepairState.Sound.writeBatch (sound : state.Sound env)
    (hcache : state.index.tables.valueCache.keys = []) :
    (state.writeBatch
      (state.nextRows batchSize state.index.tables.unspentOutputs)).Sound env where
  known := sound.known
  seen := sound.seen
  unindexed := sound.unindexed
  tracked :=
    { rows := PendingRows.writeBatch sound hcache
      stored := fun txid tx htx => by
        have written := rowsWritten_foldl
          (state.nextRows batchSize state.index.tables.unspentOutputs) state.index.tables
        change (List.foldl AddressTables.writeRow _ _).transactions.lookup txid = some tx at htx
        rw [written.transactions] at htx
        exact sound.tracked.stored txid tx htx }

/-- Fewer addresses are left after a round. -/
theorem length_addressesAfter_writeBatch {unspent : Finset OutPoint}
    (hrows : state.nextRows batchSize unspent ≠ []) :
    let next := state.writeBatch (state.nextRows batchSize unspent)
    (next.index.tables.addressesAfter next.cursor).length <
      (state.index.tables.addressesAfter state.cursor).length := by
  intro next
  have hlast := List.getLast?_eq_getLast_of_ne_nil hrows
  generalize (state.nextRows batchSize unspent).getLast hrows = row at hlast
  have hcursor : next.cursor = some row.address := by
    change (List.getLast? _).map RepairRow.address = _
    rw [hlast]
    rfl
  have hfirst : row.address ∈ state.index.tables.addressesAfter state.cursor := by
    suffices hmem : row.address ∈ (state.index.tables.addressesAfter state.cursor).take batchSize from
      List.mem_of_mem_take hmem
    rw [← map_address_nextRows unspent]
    exact List.mem_map_of_mem (List.mem_of_getLast? hlast)
  have hbehind : ∀ address ∈ next.index.tables.addressesAfter next.cursor, row.address < address :=
    fun address hmem => (mem_addressesAfter.1 hmem).2 _ hcursor
  have hnodup : (row.address :: next.index.tables.addressesAfter next.cursor).Nodup :=
    List.nodup_cons.2 ⟨fun hmem => lt_irrefl _ (hbehind _ hmem),
      pairwise_addressesAfter.imp fun hless => hless.ne⟩
  have hsubset : row.address :: next.index.tables.addressesAfter next.cursor ⊆
      state.index.tables.addressesAfter state.cursor := by
    refine List.cons_subset.2 ⟨hfirst, fun address hmem => ?_⟩
    obtain ⟨outpoint, hlisted⟩ := (mem_addressesAfter.1 hmem).1
    refine mem_addressesAfter.2 ⟨⟨outpoint, listed_of_listed_writeBatch hlisted⟩, fun last hlast => ?_⟩
    exact ((mem_addressesAfter.1 hfirst).2 last hlast).trans (hbehind address hmem)
  exact (List.subperm_of_subset hnodup hsubset).length_le

end Round

/-! ### Calls -/

section Call

variable {env : AddressEnv} {state : RepairState} {batchSize : ℕ}

/-- Without a cursor every address is pending. -/
theorem RepairState.Sound.clear (sound : state.Sound env) :
    ({ state with cursor := none } : RepairState).Sound env := by
  have hpending : ∀ text, Pending none text := fun text => nofun
  refine { sound with tracked := ⟨fun outpoint => ?_, sound.tracked.stored⟩ }
  have hrows := sound.tracked.rows outpoint
  change PendingRows env _ _ _ outpoint (state.index.unspentOutput outpoint) at hrows ⊢
  cases hfound : state.index.unspentOutput outpoint with
  | none =>
      rw [hfound] at hrows
      have hspent : SpentRows state.index.tables (Pending state.cursor) state.index.chain.seen outpoint := hrows
      exact { hspent with stale := fun text hmem => ⟨hpending text, (hspent.stale text hmem).2⟩ }
  | some output =>
      rw [hfound] at hrows
      refine hrows.imp_right fun hstored => { hstored with address := ?_ }
      exact hstored.address.imp_right fun h => ⟨h.1, fun text _ => hpending text⟩

/-- When no address is left behind the cursor, both tables are right. -/
theorem RepairState.Sound.repaired (sound : state.Sound env)
    (hcache : state.index.tables.valueCache.keys = [])
    (hdone : state.index.tables.addressesAfter state.cursor = []) :
    ({ state with cursor := none } : RepairState).Repaired env := by
  have hscanned : ∀ address outpoint, (address, outpoint) ∈ state.index.tables.addressToOutpoint →
      ¬ Pending state.cursor address := by
    intro address outpoint hmem hpending
    have hafter := mem_addressesAfter.2 ⟨⟨outpoint, hmem⟩, hpending⟩
    rw [hdone] at hafter
    cases hafter
  have hrows : ∀ outpoint, (state.index.unspentOutput outpoint).elim
      (SpentRows state.index.tables (Pending state.cursor) state.index.chain.seen outpoint)
      (StoredRows env state.index.tables (Pending state.cursor) outpoint) := by
    intro outpoint
    have hrows := sound.tracked.rows outpoint
    change PendingRows env _ _ _ outpoint (state.index.unspentOutput outpoint) at hrows
    cases hfound : state.index.unspentOutput outpoint with
    | none =>
        rw [hfound] at hrows
        exact hrows
    | some output =>
        rw [hfound] at hrows
        refine hrows.resolve_left fun hcached => ?_
        have hkey : outpoint ∈ state.index.tables.valueCache.keys := by
          rw [← AList.mem_keys, ← AList.lookup_isSome, hcached.cache_eq]
          rfl
        rw [hcache] at hkey
        cases hkey
  refine ⟨fun address outpoint => ?_, fun address outpoint => ?_, rfl⟩
  · have hrow := hrows outpoint
    change (address, outpoint) ∈ state.index.tables.addressToOutpoint ↔
      ∃ output, state.index.unspentOutput outpoint = some output ∧ _
    cases hfound : state.index.unspentOutput outpoint with
    | none =>
        rw [hfound] at hrow
        refine iff_of_false (fun hmem => hscanned address outpoint hmem (hrow.stale address hmem).1) ?_
        rintro ⟨output, hnone, -⟩
        cases hnone
    | some output =>
        rw [hfound] at hrow
        simp [hrow.listed address]
  · have hrow := hrows outpoint
    change state.index.tables.outpointToAddress.lookup outpoint = some address ↔
      (address, outpoint) ∈ state.index.tables.addressToOutpoint
    cases hfound : state.index.unspentOutput outpoint with
    | none =>
        rw [hfound] at hrow
        rw [hrow.address]
        exact iff_of_false nofun fun hmem => hscanned address outpoint hmem (hrow.stale address hmem).1
    | some output =>
        rw [hfound] at hrow
        rw [hrow.listed address]
        rcases hrow.address with hlookup | ⟨hlookup, hpending⟩
        · rw [hlookup]
        · rw [hlookup]
          refine iff_of_false nofun fun haddress => ?_
          exact hscanned address outpoint ((hrow.listed address).2 haddress) (hpending address haddress)

/-- What is known of a call that was made, whether it was interrupted or not. -/
def CallResult (env : AddressEnv) (state : RepairState) : RepairOutcome → Prop
  | .refused => False
  | .interrupted final => final.Sound env ∧ state.KeepsUnspent final
  | .returned final => final.Sound env ∧ state.KeepsUnspent final ∧ final.Repaired env

theorem CallResult.of_keeps {next : RepairState} {outcome : RepairOutcome}
    (keeps : state.KeepsUnspent next) (result : CallResult env next outcome) :
    CallResult env state outcome := by
  cases outcome with
  | refused => exact result
  | interrupted final => exact ⟨result.1, keeps.trans result.2⟩
  | returned final => exact ⟨result.1, keeps.trans result.2.1, result.2.2⟩

theorem nextRows_eq_nil {unspent : Finset OutPoint} (hbatch : 0 < batchSize)
    (hrows : state.nextRows batchSize unspent = []) :
    state.index.tables.addressesAfter state.cursor = [] := by
  rw [RepairState.nextRows, List.map_eq_nil_iff, List.take_eq_nil_iff] at hrows
  exact hrows.resolve_left hbatch.ne'

/-- The rounds of a call, by induction on their number: each keeps the invariant. -/
theorem callResult_repairRounds (hbatch : 0 < batchSize) (unspent : Finset OutPoint) (rounds : ℕ) :
    ∀ state : RepairState, state.Sound env → state.index.tables.valueCache.keys = [] →
      unspent = state.index.tables.unspentOutputs →
      CallResult env state (state.repairRounds batchSize unspent rounds) := by
  induction rounds with
  | zero =>
      exact fun state sound _ _ => ⟨sound, rfl, rfl, rfl, rfl, rfl, fun _ _ hmem _ => hmem⟩
  | succ rounds ih =>
      intro state sound hcache hunspent
      subst hunspent
      unfold RepairState.repairRounds
      have hnext := @RepairState.Sound.writeBatch env state batchSize sound hcache
      have hkeeps := @keepsUnspent_writeBatch env state batchSize sound hcache
      cases hrows : state.nextRows batchSize state.index.tables.unspentOutputs with
      | nil =>
          exact ⟨sound.clear, ⟨rfl, rfl, rfl, rfl, rfl, fun _ _ hmem _ => hmem⟩,
            sound.repaired hcache (nextRows_eq_nil hbatch hrows)⟩
      | cons row rows =>
          rw [hrows] at hnext hkeeps
          refine (ih _ hnext ?_ ?_).of_keeps hkeeps
          · rw [hkeeps.cache]
            exact hcache
          · unfold AddressTables.unspentOutputs
            rw [hkeeps.values]

/-- A call returns when more rounds than addresses are left to it. -/
theorem returned_repairRounds (unspent : Finset OutPoint) (rounds : ℕ) :
    ∀ state : RepairState, (state.index.tables.addressesAfter state.cursor).length < rounds →
      ∃ final, state.repairRounds batchSize unspent rounds = .returned final := by
  induction rounds with
  | zero => exact fun state hlength => absurd hlength (Nat.not_lt_zero _)
  | succ rounds ih =>
      intro state hlength
      unfold RepairState.repairRounds
      have hshorter := @length_addressesAfter_writeBatch state batchSize unspent
      cases hrows : state.nextRows batchSize unspent with
      | nil => exact ⟨_, rfl⟩
      | cons row rows =>
          rw [hrows] at hshorter
          have hless := hshorter (List.cons_ne_nil _ _)
          exact ih _ (by omega)

end Call

/-! ### Runs -/

section Run

variable {env : AddressEnv} {state state' : RepairState}

theorem RepairState.Repairable.sound (repairable : state.Repairable env) : state.Sound env where
  known := repairable.known
  seen := repairable.seen
  unindexed := repairable.unindexed
  tracked :=
    { rows := fun outpoint => by
        change PendingRows env _ _ _ outpoint (state.index.unspentOutput outpoint)
        have hpending : ∀ text, Pending state.cursor text := by
          rw [repairable.notBegun]
          exact fun text => nofun
        have hcache : state.index.tables.valueCache.lookup outpoint = none := by
          rw [AList.lookup_eq_none, AList.mem_keys, repairable.committed]
          exact List.not_mem_nil
        have hvalue := repairable.values outpoint
        cases hfound : state.index.unspentOutput outpoint with
        | none =>
            rw [hfound] at hvalue
            refine ⟨hcache, hvalue, ?_, fun text hmem =>
              ⟨hpending text, repairable.stale outpoint hfound text hmem⟩⟩
            refine Option.eq_none_iff_forall_ne_some.2 fun address haddress => ?_
            obtain ⟨output, hsome, -⟩ := repairable.addresses outpoint address haddress
            rw [hfound] at hsome
            cases hsome
        | some output =>
            rw [hfound] at hvalue
            refine .inr ⟨hcache, hvalue, repairable.listed outpoint output hfound, ?_⟩
            cases hlookup : state.index.tables.outpointToAddress.lookup outpoint with
            | none => exact .inr ⟨rfl, fun text _ => hpending text⟩
            | some address =>
                obtain ⟨other, hsome, haddress⟩ := repairable.addresses outpoint address hlookup
                rw [hfound] at hsome
                cases hsome
                exact .inl haddress.symm
      stored := repairable.stored }

/-- Every valid block is indexed in the middle of a repair. -/
theorem RepairState.Sound.block (sound : state.Sound env) {block : BlockData} {chain : ChainState}
    (hvalid : state.index.chain.applyBlock (env.subsidy state.index.height) block = some chain) :
    ∃ state', state.step env (.index (.block block)) = some state' ∧ state'.Sound env := by
  have applied := blockApplied_of_applyBlock hvalid
  obtain ⟨-, -, final, -, -, -, hfold, rfl⟩ := applyBlock_cases hvalid
  obtain ⟨known, hindexed⟩ := known_of_foldlM sound.known sound.seen hfold
  obtain ⟨tables, htables, tracked⟩ :=
    sound.tracked.indexTransactions sound.known sound.seen hfold
  have hseen : ∀ txid ∈ state.index.chain.seen, txid ∈ final.1.seen :=
    fun txid hmem => (applied.seen txid).2 (.inr hmem)
  unfold RepairState.step AddressState.step
  simp only [hvalid, Option.bind_eq_bind, Option.bind_some]
  by_cases hheight : env.firstInscriptionHeight ≤ state.index.height
  · rw [if_pos hheight, htables]
    refine ⟨_, rfl, known, hindexed, fun hbelow => absurd hbelow ?_, tracked⟩
    change ¬ state.index.height + 1 ≤ env.firstInscriptionHeight
    omega
  · rw [if_neg hheight]
    have hnil := sound.unindexed (by omega)
    refine ⟨_, rfl, known, fun tx hmem => hseen _ (sound.seen tx hmem),
      fun _ => hnil, fun outpoint => ?_, sound.tracked.stored⟩
    -- below the first inscription height nothing is indexed
    have hrows := sound.tracked.rows outpoint
    have hnone : ∀ utxo : UtxoSet, unspentIn utxo state.index.indexed outpoint = none := by
      intro utxo
      rw [hnil]
      exact ite_self none
    rw [hnone] at hrows ⊢
    exact hrows.mono hseen

theorem RepairState.Sound.step (sound : state.Sound env) {action : RepairAction}
    (hstep : state.step env action = some state') : state'.Sound env := by
  cases action with
  | index action =>
      cases action with
      | block block =>
          obtain ⟨index, hindex, -⟩ := Option.map_eq_some_iff.1 hstep
          obtain ⟨chain, hvalid, -⟩ := Option.bind_eq_some_iff.1 hindex
          obtain ⟨next, hnext, sound⟩ := sound.block hvalid
          rw [hnext] at hstep
          cases hstep
          exact sound
      | commit =>
          cases hstep
          exact { sound with tracked := sound.tracked.commit }
  | repair batchSize rounds =>
      unfold RepairState.step at hstep
      dsimp only at hstep
      split at hstep
      next hcache =>
        unfold RepairState.repair at hstep
        by_cases hbatch : batchSize = 0
        · rw [if_pos hbatch] at hstep
          cases hstep
          exact sound
        · rw [if_neg hbatch] at hstep
          have result := callResult_repairRounds (Nat.pos_of_ne_zero hbatch)
            state.index.tables.unspentOutputs rounds state sound hcache rfl
          split at hstep
          next heq =>
            rw [heq] at result
            exact result.elim
          next final heq =>
            rw [heq] at result
            cases hstep
            exact result.1
          next final heq =>
            rw [heq] at result
            cases hstep
            exact result.1
      next => cases hstep

/-- From a database that the repair is for, after any blocks, commits and calls, interrupted or not: a call
at a committed state returns after finitely many rounds.  Whenever it is interrupted before, and when it
returns, no row of an unspent output is removed; when it returns, both address tables are right and the
cursor is cleared. -/
theorem repair_completes {start : RepairState} (repairable : start.Repairable env)
    (reaches : Run.Reaches (RepairState.step env) (fun _ _ => True) start state)
    (hcommitted : state.index.tables.valueCache.keys = []) {batchSize : ℕ} (hbatch : 0 < batchSize) :
    (∀ rounds, (state.index.tables.addressesAfter state.cursor).length < rounds →
      ∃ final, state.repair batchSize rounds = .returned final) ∧
    ∀ rounds final,
      (state.repair batchSize rounds = .interrupted final → state.KeepsUnspent final) ∧
      (state.repair batchSize rounds = .returned final →
        state.KeepsUnspent final ∧ final.Repaired env) := by
  have sound : state.Sound env :=
    reaches.invariant (RepairState.Sound env) (fun sound _ hstep => sound.step hstep) repairable.sound
  have hrepair : ∀ rounds, state.repair batchSize rounds =
      state.repairRounds batchSize state.index.tables.unspentOutputs rounds :=
    fun rounds => if_neg hbatch.ne'
  refine ⟨fun rounds hrounds => ?_, fun rounds final => ?_⟩
  · rw [hrepair]
    exact returned_repairRounds _ rounds state hrounds
  · rw [hrepair]
    have result := callResult_repairRounds hbatch state.index.tables.unspentOutputs rounds state sound
      hcommitted rfl
    constructor
    · intro heq
      rw [heq] at result
      exact result.2
    · intro heq
      rw [heq] at result
      exact result.2

/-- A coinbase whose output is listed, without its row in `OUTPOINT_TO_ADDRESS`, next to a stale row. -/
def unrecordedState : RepairState where
  index :=
    { tables :=
        { AddressTables.empty with
          outpointToValue := AList.insert ⟨2, 0⟩ 100 ∅
          addressToOutpoint := {(asciiBytes "mfWxJ45yp2SFn7UciZyNpvDKrzbhyfKrY8", ⟨2, 0⟩),
            (asciiBytes "mfWxJ45yp2SFn7UciZyNpvDKrzbhyfKrY8", ⟨2, 1⟩)} }
      chain := { utxo := AList.insert ⟨2, 0⟩ 100 ∅, seen := [2] }
      height := 1
      indexed := [{ payingCoinbase zeroPubkeyHash with txid := 2 }] }
  cursor := none

theorem unspentOutput_unrecordedState (outpoint : OutPoint) :
    unrecordedState.index.unspentOutput outpoint =
      if outpoint = ⟨2, 0⟩ then some { value := 100, scriptPubkey := zeroPubkeyHash } else none := by
  unfold AddressState.unspentOutput unspentIn
  by_cases hsame : outpoint = ⟨2, 0⟩
  · rw [hsame]
    rfl
  · rw [if_neg hsame, if_neg]
    change ¬ ((AList.insert ⟨2, 0⟩ 100 (∅ : UtxoSet)).lookup outpoint).isSome
    rw [lookup_insert_ite, if_neg hsame, AList.lookup_empty]
    exact Bool.false_ne_true

theorem unrecordedState_repairable : unrecordedState.Repairable regtestAddressEnv where
  known := by
    refine ⟨by decide, fun outpoint value hvalue => ?_⟩
    rcases lookup_insert_cases hvalue with ⟨rfl, -⟩ | ⟨-, hnone⟩
    · decide
    · rw [AList.lookup_empty] at hnone
      cases hnone
  seen := by decide
  unindexed := fun hheight => absurd hheight (by decide)
  stored := fun txid tx htx => by
    change (∅ : KeyTable Txid Transaction).lookup txid = some tx at htx
    rw [AList.lookup_empty] at htx
    cases htx
  committed := rfl
  values outpoint := by
    rw [unspentOutput_unrecordedState]
    change (AList.insert ⟨2, 0⟩ 100 (∅ : KeyTable OutPoint ℕ)).lookup outpoint = _
    rw [lookup_insert_ite]
    split <;> rfl
  listed outpoint output houtput address := by
    rw [unspentOutput_unrecordedState] at houtput
    split at houtput
    next hsame =>
      cases houtput
      have haddress : regtestAddressEnv.storedAddress zeroPubkeyHash =
          some (asciiBytes "mfWxJ45yp2SFn7UciZyNpvDKrzbhyfKrY8") := by decide
      rw [haddress, hsame]
      simp [unrecordedState, eq_comm]
    next => cases houtput
  stale outpoint _ address hmem := by
    change (address, outpoint) ∈ ({_, _} : Finset (AddressBytes × OutPoint)) at hmem
    rw [Finset.mem_insert, Finset.mem_singleton, Prod.mk.injEq, Prod.mk.injEq] at hmem
    rcases hmem with ⟨-, rfl⟩ | ⟨-, rfl⟩ <;> decide
  addresses outpoint address haddress := by
    change (∅ : KeyTable OutPoint AddressBytes).lookup outpoint = some address at haddress
    rw [AList.lookup_empty] at haddress
    cases haddress
  notBegun := rfl

/-- A block is indexed and committed, then the repair is called. -/
theorem repair_unrecordedState :
    ∃ state final : RepairState,
      Run.Reaches (RepairState.step regtestAddressEnv) (fun _ _ => True) unrecordedState state ∧
      state.index.height = 2 ∧ state.repair 1 4 = .returned final ∧
      final.Repaired regtestAddressEnv := by
  have reaches : Run.Reaches (RepairState.step regtestAddressEnv) (fun _ _ => True) unrecordedState _ :=
    .tail (.index .commit) (.tail (.index (payingBlock zeroPubkeyHash)) .refl trivial rfl) trivial rfl
  obtain ⟨hreturns, hcall⟩ :=
    repair_completes unrecordedState_repairable reaches rfl Nat.one_pos
  obtain ⟨final, hfinal⟩ := hreturns 4 (length_addressesAfter_le.trans_lt (by decide))
  exact ⟨_, final, reaches, rfl, hfinal, ((hcall 4 final).2 hfinal).2⟩

end Run

end OrdDogecoin.Index
