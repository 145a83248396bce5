/-
Module: OrdDogecoin.Dunes.Conservation
Purpose: The dune updater over whole runs of blocks and transactions: when the requests of every
  transaction fit, no arithmetic fails and every dune is held or burned to the amount its entry
  records as issued.
Trusted boundary: none
Main exports: DuneIndex, Conserved, dunes_conserved_of_requestsFit
-/
import OrdDogecoin.Dunes.Edicts
import OrdDogecoin.Dunes.Bookkeeping
import OrdDogecoin.Lib.Run

namespace OrdDogecoin.Dunes

open KeyTable Chain
open Option (map_eq_some_iff bind_some bind_eq_bind)

/-! ### Deciphered values -/

theorem saturate_le (n : ℕ) : saturate n ≤ maxU128 := Nat.min_le_right _ _

theorem integersFrom_le (payload : List UInt8) :
    ∀ {pending : Option ℕ}, (∀ n, pending = some n → n ≤ maxU128) →
      ∀ n ∈ integersFrom pending payload, n ≤ maxU128 := by
  induction payload with
  | nil =>
      intro pending hpending n hmem
      cases pending with
      | none => simp [integersFrom] at hmem
      | some last =>
          rw [List.mem_singleton.1 hmem]
          exact hpending last rfl
  | cons byte payload ih =>
      intro pending _ n hmem
      rw [integersFrom] at hmem
      split at hmem
      · rcases List.mem_cons.1 hmem with rfl | hrest
        · exact saturate_le _
        · exact ih (fun _ h => by cases h) n hrest
      · refine ih (fun last h => ?_) n hmem
        rw [← Option.some.inj h]
        exact saturate_le _

theorem integers_le (payload : List UInt8) : ∀ n ∈ integers payload, n ≤ maxU128 :=
  integersFrom_le payload fun _ h => by cases h

/-- The fields of a message are among its integers. -/
theorem fromIntegers_fields {bound outputs : ℕ} (list : List ℕ) :
    ∀ {fields : Fields}, (∀ n ∈ list, n ≤ bound) →
      (∀ tag value, fields.lookup tag = some value → value ≤ bound) →
      ∀ tag value, (Message.fromIntegers outputs list fields).fields.lookup tag = some value →
        value ≤ bound := by
  intro fields hlist hfields
  fun_induction Message.fromIntegers outputs list fields with
  | case1 => exact hfields
  | case2 => exact hfields
  | case3 => exact hfields
  | case4 fields tag value rest hbody ih =>
      refine ih (fun n hmem => hlist n (by simp [hmem])) fun other found hfound => ?_
      split at hfound
      · exact hfields other found hfound
      · rcases lookup_insert_cases hfound with ⟨-, rfl⟩ | ⟨-, hold⟩
        · exact hlist found (by simp)
        · exact hfields other found hold

/-- The cap of a deciphered etching fits `u128`. -/
theorem cap_le_of_fromTransaction {tx : Transaction} {dunestone : Dunestone} {etching : Etching}
    {terms : Terms} {cap : ℕ} (hdunestone : Dunestone.fromTransaction tx = some dunestone)
    (hetching : dunestone.etching = some etching) (hterms : etching.terms = some terms)
    (hcap : terms.cap = some cap) : cap ≤ maxU128 := by
  unfold Dunestone.fromTransaction at hdunestone
  split at hdunestone
  next bytes _ =>
    cases hdunestone
    simp only [Dunestone.fromMessage] at hetching
    split at hetching
    · cases hetching
      simp only [Etching.fromFields] at hterms
      split at hterms
      · cases hterms
        exact fromIntegers_fields _ (integers_le bytes) (fun _ _ h => by simp at h) _ _ hcap
      · cases hterms
    · cases hetching
  next => cases hdunestone

/-! ### The index over blocks and transactions -/

/-- The dune tables, the block being indexed and the position of its next transaction. -/
structure DuneIndex where
  block : BlockInfo
  index : ℕ
  tables : DuneTables

/-- The index before the first transaction of a block. -/
def DuneIndex.initial (block : BlockInfo) : DuneIndex where
  block := block
  index := 0
  tables := DuneTables.empty

inductive DuneAction where
  | nextBlock (block : BlockInfo)
  | transaction (tx : Transaction)

/-- One step of the updater: the next block, at the next height, or the next transaction. -/
def DuneIndex.step (s : DuneIndex) : DuneAction → Option DuneIndex
  | .nextBlock block =>
      some { s with block := { block with height := s.block.height + 1 }, index := 0 }
  | .transaction tx => do
      let tables ← indexDunes s.block s.index tx s.tables
      some { s with index := s.index + 1, tables := tables }

/-! ### Requests that fit -/

/-- What the edicts mint of a claimed dune fits beside what is issued. -/
def mintFits (entries : KeyTable ℕ DuneEntry) (height outputs : ℕ) (edicts : List Edict)
    (id : ℕ) : Bool :=
  (entries.lookup id).all fun entry =>
    (entry.mintable height).all fun limit =>
      entry.premine + entry.supply + mintRequest outputs id limit edicts ≤ maxU128

/-- The edicts of a dunestone neither ask for more than `u128::MAX` of the dune it etches nor mint
a dune past `u128::MAX`. -/
def requestsFit (s : DuneIndex) (tx : Transaction) : Bool :=
  match Dunestone.fromTransaction tx with
  | none => true
  | some dunestone =>
      dunestone.cenotaph ||
        (((allocation s.tables s.block s.index dunestone.etching).1.isNone ||
            premineRequest tx.output.length dunestone.edicts ≤ maxU128) &&
          (claims dunestone.edicts).all
            (mintFits s.tables.idToEntry s.block.height tx.output.length dunestone.edicts))

/-- No unspent output already has the txid, as the chain guarantees of a new transaction. -/
def Unused (tables : DuneTables) (txid : Txid) : Prop :=
  ∀ vout, tables.outpointToBalances.lookup ⟨txid, vout⟩ = none

/-- The steps over which conservation is claimed. -/
def RequestsFit (s : DuneIndex) : DuneAction → Prop
  | .nextBlock _ => True
  | .transaction tx => Unused s.tables tx.txid ∧ requestsFit s tx

/-! ### Invariants -/

/-- The caps of all entries fit `u128`. -/
def Capped (entries : KeyTable ℕ DuneEntry) : Prop :=
  ∀ id entry terms cap, entries.lookup id = some entry → entry.terms = some terms →
    terms.cap = some cap → cap ≤ maxU128

/-- Every dune is held or burned to the amount issued. -/
structure Conserved (tables : DuneTables) : Prop where
  balance : ∀ id, held tables.outpointToBalances id + burnedOf tables.idToEntry id =
    issued tables.idToEntry id
  fits : ∀ id, issued tables.idToEntry id ≤ maxU128
  rows : RowsWithin (HasEntry tables.idToEntry) tables.outpointToBalances
  caps : Capped tables.idToEntry

/-- The invariant of a run: conservation, and ids that stay below the next one. -/
structure DuneIndex.Valid (s : DuneIndex) : Prop where
  conserved : Conserved s.tables
  position : ∀ id, HasEntry s.tables.idToEntry id →
    id < s.block.height * 2 ^ 16 + s.index ∧ id < (s.block.height + 1) * 2 ^ 16

theorem DuneIndex.initial_valid (block : BlockInfo) : (DuneIndex.initial block).Valid where
  conserved :=
    { balance := fun _ => rfl
      fits := fun _ => Nat.zero_le _
      rows := fun _ _ hrow => by simp [initial, DuneTables.empty] at hrow
      caps := fun _ _ _ _ hentry => by simp [initial, DuneTables.empty] at hentry }
  position _ hentry := by simp [HasEntry, initial, DuneTables.empty] at hentry

/-! ### Etchings and mints -/

/-- An allocation leaves balances and entries alone. -/
theorem allocation_tables (dunes : DuneTables) (block : BlockInfo) (index : ℕ)
    (etching : Option Etching) :
    (allocation dunes block index etching).2.idToEntry = dunes.idToEntry ∧
      (allocation dunes block index etching).2.outpointToBalances = dunes.outpointToBalances := by
  unfold allocation
  cases etching with
  | none => exact ⟨rfl, rfl⟩
  | some etching =>
      dsimp only
      split
      · exact ⟨rfl, rfl⟩
      · cases etching.dune <;> dsimp only <;> split <;> exact ⟨rfl, rfl⟩

/-- An allocation depends on the names alone. -/
theorem allocation_congr (dunes others : DuneTables) (hnames : dunes.duneToId = others.duneToId)
    (hreserved : dunes.reservedDunes = others.reservedDunes) (block : BlockInfo) (index : ℕ)
    (etching : Option Etching) :
    (allocation dunes block index etching).1 = (allocation others block index etching).1 := by
  cases etching with
  | none => rfl
  | some etching =>
      have hname : nameRejected dunes block.minimum etching.dune =
          nameRejected others block.minimum etching.dune := by
        rw [nameRejected, nameRejected, hnames]
      simp only [allocation, hname, hreserved]
      split
      · rfl
      · cases etching.dune <;> dsimp only <;> split <;> rfl

/-- What an accepted etching becomes. -/
theorem allocation_some {dunes : DuneTables} {block : BlockInfo} {index : ℕ}
    {etching : Option Etching} {found : Allocation}
    (hfound : (allocation dunes block index etching).1 = some found) :
    index < 2 ^ 16 ∧ found.id = block.height * 2 ^ 16 + index ∧
      ∃ source, etching = some source ∧ ∀ terms cap, found.mint = some terms →
        terms.cap = some cap → ∃ original, source.terms = some original ∧
          original.cap = some cap := by
  unfold allocation at hfound
  cases etching with
  | none => cases hfound
  | some etching =>
      dsimp only at hfound
      split at hfound
      · cases hfound
      · have hindex : index < 2 ^ 16 ∧
            found.id = block.height <<< 16 ||| index ∧ found.mint = etching.terms.map fun terms =>
              { terms with limit := terms.limit.map (min · maxLimit) } := by
          cases hdune : etching.dune <;> rw [hdune] at hfound <;> dsimp only at hfound <;>
            split at hfound
          next hindex => cases hfound; exact ⟨hindex, rfl, rfl⟩
          next => cases hfound
          next hindex => cases hfound; exact ⟨hindex, rfl, rfl⟩
          next => cases hfound
        obtain ⟨hindex, hid, hmint⟩ := hindex
        refine ⟨hindex, ?_, etching, rfl, fun terms cap hterms hcap => ?_⟩
        · rw [hid, ← Nat.shiftLeft_add_eq_or_of_lt hindex, Nat.shiftLeft_eq]
        · rw [hmint] at hterms
          obtain ⟨original, horiginal, rfl⟩ := map_eq_some_iff.1 hterms
          exact ⟨original, horiginal, hcap⟩

/-- A mintable dune has an entry whose limit is what one transaction may mint. -/
theorem lookup_mintableAmounts {entries : KeyTable ℕ DuneEntry} {height : ℕ} {id limit : ℕ} :
    ∀ {ids : List ℕ}, (mintableAmounts entries height ids).lookup id = some limit →
      id ∈ ids ∧ ∃ entry, entries.lookup id = some entry ∧ entry.mintable height = some limit
  | [], hlookup => by simp [mintableAmounts] at hlookup
  | first :: ids, hlookup => by
      have hrest : (mintableAmounts entries height ids).lookup id = some limit →
          id ∈ first :: ids ∧
            ∃ entry, entries.lookup id = some entry ∧ entry.mintable height = some limit :=
        fun h => ⟨List.mem_cons_of_mem _ (lookup_mintableAmounts h).1, (lookup_mintableAmounts h).2⟩
      rw [mintableAmounts] at hlookup
      split at hlookup
      · exact hrest hlookup
      · split at hlookup
        · exact hrest hlookup
        next entry hentry =>
          split at hlookup
          · exact hrest hlookup
          next found hmintable =>
            rcases lookup_insert_cases hlookup with ⟨rfl, rfl⟩ | ⟨-, hold⟩
            · exact ⟨List.mem_cons_self, entry, hentry, hmintable⟩
            · exact hrest hold

/-- A mintable entry has room for one more mint. -/
theorem DuneEntry.mints_lt_of_mintable {entry : DuneEntry} {height limit : ℕ}
    (hcaps : ∀ terms cap, entry.terms = some terms → terms.cap = some cap → cap ≤ maxU128)
    (hmintable : entry.mintable height = some limit) : entry.mints + 1 ≤ maxU128 := by
  unfold mintable at hmintable
  obtain ⟨terms, hterms, hrest⟩ := Option.bind_eq_some_iff.1 hmintable
  split at hrest
  · cases hrest
  · split at hrest
    · cases hrest
    · split at hrest
      · cases hrest
      next hcap =>
        have hle : terms.cap.getD maxU128 ≤ maxU128 := by
          cases hfound : terms.cap with
          | none => exact Nat.le_refl _
          | some cap => exact hcaps terms cap hterms hfound
        omega

/-- The state a dunestone is applied in: the inputs have been taken. -/
structure Taken (newId : Option ℕ) (unallocated : Amounts) (dunes : DuneTables) : Prop where
  fits : ∀ id, issued dunes.idToEntry id ≤ maxU128
  caps : Capped dunes.idToEntry
  within : Within (HasEntry dunes.idToEntry) unallocated
  le : ∀ id, amountAt unallocated id ≤ issued dunes.idToEntry id
  fresh : ∀ id, newId = some id → ¬ HasEntry dunes.idToEntry id

/-- What the edicts of a dunestone and its mints have done. -/
structure EdictsDone (newId : Option ℕ) (outputs : ℕ) (unallocated : Amounts)
    (before after : KeyTable ℕ DuneEntry) (pools : Pools) : Prop where
  length : pools.allocated.length = outputs
  flow : ∀ id, amountAt pools.unallocated id + allocatedTotal pools.allocated id +
      issued before id + newAmount newId pools id =
    amountAt unallocated id + issued after id + if newId = some id then maxU128 else 0
  burned : ∀ id, burnedOf after id = burnedOf before id
  fits : ∀ id, issued after id ≤ maxU128
  keys : ∀ id, HasEntry after id ↔ HasEntry before id
  within : PoolsWithin (fun id => HasEntry before id ∨ newId = some id) pools
  caps : Capped after
  issued : pools.issuance + pools.premine ≤ maxU128

theorem issued_of_not_hasEntry {entries : KeyTable ℕ DuneEntry} {id : ℕ}
    (hnone : ¬ HasEntry entries id) : issued entries id = 0 := by
  rw [issued, valueAt, Option.not_isSome_iff_eq_none.1 hnone]
  rfl

theorem Within.amountAt_eq_zero {ids : ℕ → Prop} {amounts : Amounts} (within : Within ids amounts)
    {id : ℕ} (hid : ¬ ids id) : amountAt amounts id = 0 := by
  cases hlookup : amounts.lookup id with
  | none => simp [amountAt, hlookup]
  | some amount => exact absurd (within id amount hlookup) hid

theorem Grown.capped {minted burned : ℕ → ℕ} {before after : KeyTable ℕ DuneEntry}
    (grown : Grown minted burned before after) (hcaps : Capped before) : Capped after := by
  intro id new terms cap hnew hterms hcap
  obtain ⟨old, hold, -, hsame, -⟩ := grown.entry id new hnew
  exact hcaps id old terms cap hold (hsame ▸ hterms) hcap

section Mints

variable {entries : KeyTable ℕ DuneEntry} {height outputs : ℕ} {edicts : List Edict}

theorem within_mintableAmounts (entries : KeyTable ℕ DuneEntry) (height : ℕ) (ids : List ℕ) :
    Within (HasEntry entries) (mintableAmounts entries height ids) := by
  intro id limit hlookup
  obtain ⟨-, entry, hentry, -⟩ := lookup_mintableAmounts hlookup
  exact Option.isSome_iff_exists.2 ⟨entry, hentry⟩

theorem mintFits_lookup {id limit : ℕ} {entry : DuneEntry}
    (hfit : mintFits entries height outputs edicts id) (hentry : entries.lookup id = some entry)
    (hmintable : entry.mintable height = some limit) :
    entry.premine + entry.supply + mintRequest outputs id limit edicts ≤ maxU128 := by
  rw [mintFits, hentry, Option.all_some, hmintable, Option.all_some, decide_eq_true_iff] at hfit
  exact hfit

/-- Mints that fit keep the issued amounts inside `u128`. -/
theorem issued_add_mintRequest_le (hfits : ∀ id, issued entries id ≤ maxU128)
    (hmints : ∀ id ∈ claims edicts, mintFits entries height outputs edicts id) (id : ℕ) :
    issued entries id + mintRequest outputs id
      (amountAt (mintableAmounts entries height (claims edicts)) id) edicts ≤ maxU128 := by
  cases hlookup : (mintableAmounts entries height (claims edicts)).lookup id with
  | none =>
      have hzero : amountAt (mintableAmounts entries height (claims edicts)) id = 0 := by
        rw [amountAt, hlookup]
        rfl
      rw [hzero, mintRequest, requested_zero]
      exact hfits id
  | some limit =>
      obtain ⟨hmem, entry, hentry, hmintable⟩ := lookup_mintableAmounts hlookup
      rw [amountAt_of_lookup hlookup, issued, valueAt_of_lookup _ hentry]
      exact mintFits_lookup (hmints id hmem) hentry hmintable

end Mints

section Edicts

variable {newId : Option ℕ} {dunes : DuneTables} {unallocated : Amounts} {height outputs : ℕ}
  {edicts : List Edict}

/-- The edicts of a dunestone whose requests fit. -/
theorem initialPools_fit (taken : Taken newId unallocated dunes)
    (hpremine : newId.isSome → premineRequest outputs edicts ≤ maxU128)
    (hmints : ∀ id ∈ claims edicts, mintFits dunes.idToEntry height outputs edicts id) :
    EdictsFit newId edicts (initialPools dunes height outputs edicts unallocated) where
  premine hnew := by
    simp only [initialPools, List.length_replicate, Nat.zero_add]
    exact hpremine hnew
  issued := Nat.le_refl _
  room id := by
    have hroom := issued_add_mintRequest_le taken.fits hmints id
    have hle := taken.le id
    simp only [reach, newAmount, initialPools, allocatedTotal_replicate, List.length_replicate]
    by_cases hnew : newId = some id
    · -- nothing of a new dune has come in or can be minted
      have hfresh := taken.fresh id hnew
      rw [if_pos hnew, taken.within.amountAt_eq_zero hfresh,
        (within_mintableAmounts _ height (claims edicts)).amountAt_eq_zero hfresh, mintRequest,
        requested_zero]
      omega
    · rw [if_neg hnew]
      omega

theorem initialPools_within (taken : Taken newId unallocated dunes) :
    PoolsWithin (fun id => HasEntry dunes.idToEntry id ∨ newId = some id)
      (initialPools dunes height outputs edicts unallocated) where
  unallocated id amount hlookup := .inl (taken.within id amount hlookup)
  mintable id amount hlookup := .inl (within_mintableAmounts _ _ _ id amount hlookup)
  allocated := AllWithin.replicate _ _

theorem mintedOf_eq_mintRequest {after : Pools}
    (applied : EdictsApplied newId edicts [] (initialPools dunes height outputs edicts unallocated)
      after) (id : ℕ) :
    mintedOf (initialPools dunes height outputs edicts unallocated).mintable (pairs after.mintable)
        id =
      mintRequest outputs id
        (amountAt (mintableAmounts dunes.idToEntry height (claims edicts)) id) edicts := by
  have hmintable := applied.mintable id
  have hkeys := applied.keys id
  simp only [initialPools, List.length_replicate, mintRequest, claimAmounts, requests_nil,
    requested_nil] at hmintable hkeys ⊢
  rw [mintedOf_pairs, hkeys]
  split
  · omega
  next hnone =>
    have hzero : amountAt (mintableAmounts dunes.idToEntry height (claims edicts)) id = 0 := by
      rw [amountAt, Option.not_isSome_iff_eq_none.1 hnone]
      rfl
    rw [hzero, requested_zero]

/-- Edicts whose requests fit end, and their mints can be recorded. -/
theorem edicts_done (taken : Taken newId unallocated dunes)
    (hpremine : newId.isSome → premineRequest outputs edicts ≤ maxU128)
    (hmints : ∀ id ∈ claims edicts, mintFits dunes.idToEntry height outputs edicts id) :
    ∃ pools entries,
      applyEdicts newId edicts (initialPools dunes height outputs edicts unallocated) =
        some pools ∧
      recordMints (initialPools dunes height outputs edicts unallocated).mintable
        (pairs pools.mintable) dunes.idToEntry = some entries ∧
      EdictsDone newId outputs unallocated dunes.idToEntry entries pools := by
  obtain ⟨pools, hpools, applied⟩ :=
    applyEdicts_spec edicts (initialPools_fit taken hpremine hmints)
  have hminted := mintedOf_eq_mintRequest applied
  have hroom := issued_add_mintRequest_le taken.fits hmints
  -- every pair that is left belongs to a mintable entry
  have hleft : ∀ pair ∈ pairs pools.mintable, ∃ entry limit,
      dunes.idToEntry.lookup pair.1 = some entry ∧ entry.mintable height = some limit ∧
        amountAt pools.mintable pair.1 = pair.2 := by
    intro pair hmem
    obtain ⟨row, hrow, rfl⟩ := List.mem_map.1 hmem
    have hlookup : pools.mintable.lookup row.1 = some row.2 := AList.mem_lookup_iff.2 hrow
    have hkey := applied.keys row.1
    rw [hlookup] at hkey
    obtain ⟨limit, hlimit⟩ := Option.isSome_iff_exists.1 hkey.symm
    obtain ⟨-, entry, hentry, hmintable⟩ := lookup_mintableAmounts hlimit
    exact ⟨entry, limit, hentry, hmintable, amountAt_of_lookup hlookup⟩
  have hmintable : ∀ id, amountAt pools.mintable id +
      mintRequest outputs id (amountAt (mintableAmounts dunes.idToEntry height (claims edicts)) id)
        edicts = amountAt (mintableAmounts dunes.idToEntry height (claims edicts)) id := by
    intro id
    have happlied := applied.mintable id
    simpa only [initialPools, List.length_replicate, mintRequest, claimAmounts, requests_nil,
      requested_nil, Nat.add_zero] using happlied
  obtain ⟨entries, hentries, hgrown⟩ := recordMints_spec
    (initialPools dunes height outputs edicts unallocated).mintable (pairs pools.mintable)
    (show ((pairs pools.mintable).map Prod.fst).Nodup by
      rw [pairs, List.map_map]
      exact pools.mintable.nodupKeys)
    (fun pair hmem => by
      obtain ⟨-, -, -, -, hrest⟩ := hleft pair hmem
      have hle := hmintable pair.1
      simp only [initialPools]
      omega)
    (fun pair hmem => by
      obtain ⟨entry, limit, hentry, hlimit, hrest⟩ := hleft pair hmem
      have hle := hmintable pair.1
      have hissued := hroom pair.1
      rw [issued, valueAt_of_lookup _ hentry] at hissued
      refine ⟨entry, hentry, ?_, ?_⟩
      · simp only [initialPools]
        omega
      · exact entry.mints_lt_of_mintable (fun terms cap => taken.caps _ _ terms cap hentry) hlimit)
  refine ⟨pools, entries, hpools, hentries, ?_⟩
  have hissued : ∀ id, issued entries id = issued dunes.idToEntry id +
      mintRequest outputs id (amountAt (mintableAmounts dunes.idToEntry height (claims edicts)) id)
        edicts := by
    intro id
    by_cases hentry : HasEntry dunes.idToEntry id
    · rw [hgrown.issued hentry, hminted]
    · rw [issued_of_not_hasEntry hentry,
        issued_of_not_hasEntry (fun h => hentry ((hgrown.keys id).1 h)),
        (within_mintableAmounts _ _ _).amountAt_eq_zero hentry, mintRequest, requested_zero]
  refine
    { length := applied.length.trans List.length_replicate
      flow := fun id => ?_
      burned := fun id => ?_
      fits := fun id => by rw [hissued]; exact hroom id
      keys := hgrown.keys
      within := applied.within _ (fun id hid => .inr hid) (initialPools_within taken)
      caps := hgrown.capped taken.caps
      issued := applied.issued }
  · have hreach := applied.reach id
    simp only [reach, newAmount, initialPools, allocatedTotal_replicate, List.length_replicate,
      mintRequest, claimAmounts, requests_nil, requested_nil] at hreach
    rw [hissued, newAmount, mintRequest, claimAmounts]
    omega
  · by_cases hentry : HasEntry dunes.idToEntry id
    · rw [hgrown.burnedOf hentry, Nat.add_zero]
    · rw [burnedOf, burnedOf, valueAt, valueAt, Option.not_isSome_iff_eq_none.1 hentry,
        Option.not_isSome_iff_eq_none.1 (fun h => hentry ((hgrown.keys id).1 h))]

/-- A cenotaph moves nothing. -/
theorem cenotaph_done (taken : Taken newId unallocated dunes) :
    EdictsDone newId outputs unallocated dunes.idToEntry dunes.idToEntry
      (initialPools dunes height outputs edicts unallocated) where
  length := List.length_replicate
  flow id := by
    simp only [newAmount, initialPools, allocatedTotal_replicate]
    omega
  burned _ := rfl
  fits := taken.fits
  keys _ := Iff.rfl
  within := initialPools_within taken
  caps := taken.caps
  issued := Nat.le_refl _

end Edicts

/-! ### One transaction -/

/-- What a dunestone has done, before the leftovers are settled. -/
structure DunestoneApplied (newId : Option ℕ) (outputs : ℕ) (unallocated : Amounts)
    (before after : DuneTables) (pools : Pools) : Prop where
  length : pools.allocated.length = outputs
  balances : after.outpointToBalances = before.outpointToBalances
  flow : ∀ id, amountAt pools.unallocated id + allocatedTotal pools.allocated id +
    issued before.idToEntry id = amountAt unallocated id + issued after.idToEntry id
  burned : ∀ id, burnedOf after.idToEntry id = burnedOf before.idToEntry id
  fits : ∀ id, issued after.idToEntry id ≤ maxU128
  keys : ∀ id, HasEntry after.idToEntry id ↔ HasEntry before.idToEntry id ∨ newId = some id
  unallocated : Within (HasEntry after.idToEntry) pools.unallocated
  allocated : AllWithin (HasEntry after.idToEntry) pools.allocated
  caps : Capped after.idToEntry

variable {block : BlockInfo} {index : ℕ} {tx : Transaction} {dunestone : Dunestone}
  {unallocated : Amounts} {dunes : DuneTables}

/-- Without an accepted etching nothing more happens. -/
theorem EdictsDone.applied {outputs : ℕ} {after : DuneTables} {pools : Pools}
    (done : EdictsDone none outputs unallocated dunes.idToEntry after.idToEntry pools)
    (hbalances : after.outpointToBalances = dunes.outpointToBalances) :
    DunestoneApplied none outputs unallocated dunes after pools where
  length := done.length
  balances := hbalances
  flow id := by
    have hflow := done.flow id
    simpa [newAmount] using hflow
  burned := done.burned
  fits := done.fits
  keys id := by simpa using done.keys id
  unallocated id amount hlookup := by
    simpa [done.keys] using done.within.unallocated id amount hlookup
  allocated amounts hmem id amount hlookup := by
    simpa [done.keys] using done.within.allocated amounts hmem id amount hlookup
  caps := done.caps

/-- The entry of a new dune records what the edicts took of it. -/
theorem EdictsDone.etch {outputs : ℕ} {after : DuneTables} {pools : Pools} {found : Allocation}
    (done : EdictsDone (some found.id) outputs unallocated dunes.idToEntry after.idToEntry pools)
    (taken : Taken (some found.id) unallocated dunes)
    (hbalances : after.outpointToBalances = dunes.outpointToBalances)
    (hcaps : ∀ terms cap, found.mint = some terms → terms.cap = some cap → cap ≤ maxU128)
    (block : BlockInfo) (txid : Txid) (cenotaph : Bool) :
    ∃ etched, Dunes.etch block txid cenotaph found pools.issuance pools.premine after =
        some etched ∧
      DunestoneApplied (some found.id) outputs unallocated dunes etched pools := by
  have hissued := done.issued
  have hsub : checkedSub maxU128 pools.issuance = some (maxU128 - pools.issuance) :=
    if_pos (by omega)
  have hsupply : checkedSub (maxU128 - pools.issuance) pools.premine =
      some (maxU128 - pools.issuance - pools.premine) := if_pos (by omega)
  have hfresh := taken.fresh found.id rfl
  have hnone : ¬ HasEntry after.idToEntry found.id := fun h => hfresh ((done.keys _).1 h)
  refine ⟨_, by rw [Dunes.etch, hsub, bind_eq_bind, bind_some, hsupply]; rfl, ?_⟩
  have hkeys : ∀ {entry : DuneEntry} id, HasEntry (after.idToEntry.insert found.id entry) id ↔
      HasEntry dunes.idToEntry id ∨ some found.id = some id := by
    intro entry id
    rw [HasEntry, lookup_insert_ite, ← done.keys]
    by_cases heq : id = found.id
    · simp [heq]
    · simp [heq, Ne.symm heq, HasEntry]
  have hvalue : ∀ {entry : DuneEntry} id,
      entry.premine + entry.supply = maxU128 - pools.issuance →
      Dunes.issued (after.idToEntry.insert found.id entry) id =
        if id = found.id then maxU128 - pools.issuance else Dunes.issued after.idToEntry id := by
    intro entry id hentry
    rw [Dunes.issued, valueAt_insert_ite, hentry]
    rfl
  have hnew : pools.premine + (maxU128 - pools.issuance - pools.premine) =
      maxU128 - pools.issuance := by omega
  refine
    { length := done.length
      balances := hbalances
      flow := fun id => ?_
      burned := fun id => ?_
      fits := fun id => ?_
      keys := hkeys
      unallocated := fun id amount hlookup => (hkeys id).2 (done.within.unallocated id amount hlookup)
      allocated := fun amounts hmem id amount hlookup =>
        (hkeys id).2 (done.within.allocated amounts hmem id amount hlookup)
      caps := ?_ }
  · have hflow := done.flow id
    rw [newAmount] at hflow
    rw [hvalue id hnew]
    by_cases heq : id = found.id
    · subst heq
      rw [if_pos rfl, if_pos rfl, issued_of_not_hasEntry hnone] at hflow
      rw [if_pos rfl]
      omega
    · have hne : ¬ some found.id = some id := fun h => heq (Option.some.inj h).symm
      rw [if_neg hne, if_neg hne] at hflow
      rw [if_neg heq]
      omega
  · rw [← done.burned, burnedOf, burnedOf, valueAt_insert_ite]
    split
    next heq =>
      rw [heq, valueAt, Option.not_isSome_iff_eq_none.1 hnone]
      rfl
    next => rfl
  · rw [hvalue id hnew]
    split
    · omega
    · exact done.fits id
  · intro id entry terms cap hentry hterms hcap
    rcases lookup_insert_cases hentry with ⟨-, rfl⟩ | ⟨-, hold⟩
    · dsimp only at hterms
      split at hterms
      · cases hterms
      · exact hcaps terms cap hterms hcap
    · exact done.caps id entry terms cap hold hterms hcap

/-- A dunestone whose requests fit is applied. -/
theorem applyDunestone_spec (hdunestone : Dunestone.fromTransaction tx = some dunestone)
    (taken : Taken ((allocation dunes block index dunestone.etching).1.map Allocation.id)
      unallocated dunes)
    (hpremine : dunestone.cenotaph = false →
      (allocation dunes block index dunestone.etching).1.isSome →
        premineRequest tx.output.length dunestone.edicts ≤ maxU128)
    (hmints : dunestone.cenotaph = false → ∀ id ∈ claims dunestone.edicts,
      mintFits dunes.idToEntry block.height tx.output.length dunestone.edicts id) :
    ∃ pools after, applyDunestone block index tx dunestone unallocated dunes = some (pools, after) ∧
      DunestoneApplied ((allocation dunes block index dunestone.etching).1.map Allocation.id)
        tx.output.length unallocated dunes after pools := by
  obtain ⟨hentries, hbalances⟩ := allocation_tables dunes block index dunestone.etching
  have hcaps : ∀ found, (allocation dunes block index dunestone.etching).1 = some found →
      ∀ terms cap, found.mint = some terms → terms.cap = some cap → cap ≤ maxU128 := by
    intro found hfound terms cap hterms hcap
    obtain ⟨-, -, source, hsource, hmint⟩ := allocation_some hfound
    obtain ⟨original, horiginal, hcap'⟩ := hmint terms cap hterms hcap
    exact cap_le_of_fromTransaction hdunestone hsource horiginal hcap'
  unfold applyDunestone
  revert taken hpremine hcaps hentries hbalances
  generalize allocation dunes block index dunestone.etching = result
  obtain ⟨found, counted⟩ := result
  intro taken hpremine hentries hbalances hcaps
  dsimp only at *
  -- the edicts run on the tables of the allocation, which have the same entries
  have htaken : Taken (found.map Allocation.id) unallocated counted :=
    { fits := fun id => by rw [hentries]; exact taken.fits id
      caps := by rw [hentries]; exact taken.caps
      within := by rw [hentries]; exact taken.within
      le := fun id => by rw [hentries]; exact taken.le id
      fresh := fun id hid => by rw [hentries]; exact taken.fresh id hid }
  have hdone : ∃ pools after,
      applyEdictsAndMints (found.map Allocation.id) dunestone
        (initialPools counted block.height tx.output.length dunestone.edicts unallocated) counted =
          some (pools, after) ∧
      after.outpointToBalances = dunes.outpointToBalances ∧
      EdictsDone (found.map Allocation.id) tx.output.length unallocated counted.idToEntry
        after.idToEntry pools := by
    cases hcenotaph : dunestone.cenotaph with
    | true => exact ⟨_, counted, if_pos hcenotaph, hbalances, cenotaph_done htaken⟩
    | false =>
        obtain ⟨pools, entries, hpools, hrecorded, hdone⟩ := edicts_done htaken
          (fun hnew => hpremine hcenotaph (by simpa using hnew))
          (by rw [hentries]; exact hmints hcenotaph)
        refine ⟨pools, { counted with idToEntry := entries }, ?_, hbalances, hdone⟩
        rw [applyEdictsAndMints, hcenotaph, if_neg Bool.false_ne_true, hpools, bind_eq_bind,
          bind_some, hrecorded]
        rfl
  obtain ⟨pools, middle, hmiddle, hrows, hdone⟩ := hdone
  rw [hentries] at hdone
  rw [hmiddle, bind_eq_bind, bind_some]
  cases found with
  | none => exact ⟨pools, middle, rfl, hdone.applied hrows⟩
  | some found =>
      obtain ⟨etched, hetched, happlied⟩ := hdone.etch taken hrows (hcaps found rfl) block tx.txid
        dunestone.cenotaph
      refine ⟨pools, etched, ?_, happlied⟩
      simp only [hetched, bind_eq_bind, bind_some]

/-- The end of a transaction puts every unit on an output or among the burns. -/
theorem settle_spec {newId : Option ℕ} {before after : DuneTables} {pools : Pools}
    (applied : DunestoneApplied newId tx.output.length unallocated before after pools)
    (hrows : RowsWithin (HasEntry before.idToEntry) before.outpointToBalances)
    (hunused : Unused before tx.txid)
    (hbalance : ∀ id, held before.outpointToBalances id + amountAt unallocated id +
      burnedOf before.idToEntry id = issued before.idToEntry id) (stone : Option Dunestone) :
    ∃ settled, settle tx stone pools after = some settled ∧ Conserved settled ∧
      ∀ id, HasEntry settled.idToEntry id ↔ HasEntry after.idToEntry id := by
  have hflow := applied.flow
  have hfits := applied.fits
  obtain ⟨allocated, burned, hsettled, hlength, hallocated, hburned, hsettledFlow⟩ :=
    settleUnallocated_spec (stone.bind Dunestone.pointer)
      ((stone.map Dunestone.cenotaph).getD false) applied.length applied.unallocated
      applied.allocated (fun id => by
        have h₁ := hflow id
        have h₂ := hfits id
        have h₃ := hbalance id
        omega)
  have hzip : (tx.output.zip allocated).map Prod.snd = allocated :=
    List.map_snd_zip (Nat.le_of_eq hlength)
  obtain ⟨balances, total, hwritten, written⟩ :=
    writeOutputs_spec tx.txid (tx.output.zip allocated)
      (show RowsWithin (HasEntry after.idToEntry) after.outpointToBalances by
        rw [applied.balances]
        exact fun outpoint row hrow pair hmem =>
          (applied.keys _).2 (.inl (hrows outpoint row hrow pair hmem)))
      hburned (by rw [hzip]; exact hallocated)
      (fun number (_ : 0 ≤ number) => by rw [applied.balances]; exact hunused number)
      (fun id => by
        have h₁ := hflow id
        have h₂ := hfits id
        have h₃ := hbalance id
        have h₄ := hsettledFlow id
        rw [hzip]
        omega)
  have hwrittenFlow : ∀ id, held balances id + amountAt total id + burnedOf after.idToEntry id =
      issued after.idToEntry id := by
    intro id
    have h₁ := hflow id
    have h₂ := written.flow id
    have h₃ := hbalance id
    have h₄ := hsettledFlow id
    rw [hzip, applied.balances] at h₂
    rw [applied.burned]
    omega
  obtain ⟨entries, hentries, grown⟩ :=
    recordBurns_spec (pairs total) (fun _ hmem => written.within.pairs hmem) (fun id => by
      have h₁ := hwrittenFlow id
      have h₂ := hfits id
      rw [pairsAmount_pairs]
      omega)
  have hnone : ∀ id, ¬ HasEntry after.idToEntry id → ¬ HasEntry entries id :=
    fun id hid h => hid ((grown.keys id).1 h)
  refine ⟨{ after with outpointToBalances := balances, idToEntry := entries }, ?_, ?_, grown.keys⟩
  · rw [settle]
    simp only [hsettled, hwritten, hentries, bind_eq_bind, bind_some]
  · refine
      { balance := fun id => ?_
        fits := fun id => ?_
        rows := fun outpoint row hrow pair hmem =>
          (grown.keys _).2 (written.rows outpoint row hrow pair hmem)
        caps := grown.capped applied.caps }
    · have h₁ := hwrittenFlow id
      by_cases hentry : HasEntry after.idToEntry id
      · rw [grown.burnedOf hentry, grown.issued hentry, pairsAmount_pairs]
        dsimp only
        omega
      · rw [issued_of_not_hasEntry hentry] at h₁
        rw [issued_of_not_hasEntry (hnone id hentry), burnedOf, valueAt,
          Option.not_isSome_iff_eq_none.1 (hnone id hentry)]
        simp only [Option.map_none, Option.getD_none]
        omega
    · by_cases hentry : HasEntry after.idToEntry id
      · rw [grown.issued hentry]
        exact hfits id
      · rw [issued_of_not_hasEntry (hnone id hentry)]
        exact Nat.zero_le _

/-! ### Runs -/

theorem requestsFit_some {s : DuneIndex} (hfit : requestsFit s tx)
    (hdunestone : Dunestone.fromTransaction tx = some dunestone)
    (hcenotaph : dunestone.cenotaph = false) :
    ((allocation s.tables s.block s.index dunestone.etching).1.isSome →
      premineRequest tx.output.length dunestone.edicts ≤ maxU128) ∧
    ∀ id ∈ claims dunestone.edicts,
      mintFits s.tables.idToEntry s.block.height tx.output.length dunestone.edicts id := by
  rw [requestsFit, hdunestone] at hfit
  simp only [hcenotaph, Bool.false_or, Bool.and_eq_true, Bool.or_eq_true,
    Option.isNone_iff_eq_none, decide_eq_true_eq, List.all_eq_true] at hfit
  refine ⟨fun hsome => hfit.1.resolve_left fun hnone => ?_, hfit.2⟩
  rw [hnone] at hsome
  cases hsome

/-- A transaction whose requests fit is indexed, and keeps the invariant. -/
theorem transaction_valid {s : DuneIndex} (valid : s.Valid) (hunused : Unused s.tables tx.txid)
    (hfit : requestsFit s tx) :
    ∃ next, s.step (.transaction tx) = some next ∧ next.Valid := by
  obtain ⟨conserved, hposition⟩ := valid
  have hbalance := conserved.balance
  have hfits := conserved.fits
  obtain ⟨balances, unallocated, htaken, taken⟩ :=
    takeInputs_spec tx.input conserved.rows (Within.empty _) (fun id => by
      have h₁ := hbalance id
      have h₂ := hfits id
      rw [amountAt_empty]
      omega)
  have hflow : ∀ id, held balances id + amountAt unallocated id + burnedOf s.tables.idToEntry id =
      issued s.tables.idToEntry id := by
    intro id
    have h₁ := hbalance id
    have h₂ := taken.flow id
    rw [amountAt_empty] at h₂
    omega
  let start : DuneTables := { s.tables with outpointToBalances := balances }
  have hstart : ∀ newId, (∀ id, newId = some id → id = s.block.height * 2 ^ 16 + s.index) →
      Taken newId unallocated start := by
    intro newId hnew
    refine
      { fits := hfits
        caps := conserved.caps
        within := taken.within
        le := fun id => ?_
        fresh := fun id hid hentry => ?_ }
    · have h₁ := hflow id
      change _ ≤ issued s.tables.idToEntry id
      omega
    · have h₁ := (hposition id hentry).1
      have h₂ := hnew id hid
      omega
  -- the tables after the dunestone, with at most the entry of this transaction added
  have happlied : ∃ newId pools after,
      applyIfPresent s.block s.index tx (Dunestone.fromTransaction tx) unallocated start =
        some (pools, after) ∧
      DunestoneApplied newId tx.output.length unallocated start after pools ∧
      ∀ id, newId = some id → s.index < 2 ^ 16 ∧ id = s.block.height * 2 ^ 16 + s.index := by
    cases hdunestone : Dunestone.fromTransaction tx with
    | none =>
        refine ⟨none, _, _, rfl, ?_, fun _ h => by cases h⟩
        exact (cenotaph_done (hstart none fun _ h => by cases h)).applied rfl
    | some dunestone =>
        have hsame : (allocation start s.block s.index dunestone.etching).1 =
            (allocation s.tables s.block s.index dunestone.etching).1 :=
          allocation_congr start s.tables rfl rfl s.block s.index dunestone.etching
        have hnew : ∀ id,
            (allocation start s.block s.index dunestone.etching).1.map Allocation.id = some id →
            s.index < 2 ^ 16 ∧ id = s.block.height * 2 ^ 16 + s.index := by
          intro id hid
          obtain ⟨found, hfound, rfl⟩ := map_eq_some_iff.1 hid
          obtain ⟨hindex, hfoundId, -⟩ := allocation_some hfound
          exact ⟨hindex, hfoundId⟩
        obtain ⟨pools, after, happly, hspec⟩ := applyDunestone_spec hdunestone
          (hstart _ fun id hid => (hnew id hid).2)
          (fun h hsome => (requestsFit_some hfit hdunestone h).1 (hsame ▸ hsome))
          (fun h => (requestsFit_some hfit hdunestone h).2)
        exact ⟨_, pools, after, happly, hspec, hnew⟩
  obtain ⟨newId, pools, after, hafter, happlied, hnew⟩ := happlied
  obtain ⟨settled, hsettled, hconserved, hkeys⟩ := settle_spec happlied
    (fun outpoint row hrow => conserved.rows outpoint row (taken.rows outpoint row hrow))
    (fun vout => by
      cases hrow : balances.lookup ⟨tx.txid, vout⟩ with
      | none => rfl
      | some row => exact absurd (taken.rows _ _ hrow) (by simp [hunused vout]))
    hflow (Dunestone.fromTransaction tx)
  refine ⟨{ s with index := s.index + 1, tables := settled }, ?_, hconserved, fun id hid => ?_⟩
  · rw [DuneIndex.step, indexDunes]
    simp only [htaken, bind_eq_bind, bind_some]
    rw [hafter, bind_some, hsettled, bind_some]
  · rcases (happlied.keys id).1 ((hkeys id).1 hid) with hold | hfound
    · have h₁ := hposition id hold
      dsimp only
      omega
    · have h₁ := hnew id hfound
      dsimp only
      omega

theorem step_valid {s s' : DuneIndex} {action : DuneAction} (valid : s.Valid)
    (hfit : RequestsFit s action) (hstep : s.step action = some s') : s'.Valid := by
  cases action with
  | nextBlock block =>
      obtain rfl := Option.some.inj hstep
      refine ⟨valid.conserved, fun id hid => ?_⟩
      have hold : id < (s.block.height + 1) * 2 ^ 16 := (valid.position id hid).2
      change id < (s.block.height + 1) * 2 ^ 16 + 0 ∧ id < (s.block.height + 1 + 1) * 2 ^ 16
      omega
  | transaction tx =>
      obtain ⟨next, hnext, hvalid⟩ := transaction_valid valid hfit.1 hfit.2
      rw [hnext] at hstep
      cases hstep
      exact hvalid

/-- In every run from the empty tables whose transactions request amounts that fit, the next such
transaction is indexed without a failed addition or subtraction, and every etched dune is held or
burned to the sum of its premine and its supply. -/
theorem dunes_conserved_of_requestsFit (block : BlockInfo) {s : DuneIndex}
    (reaches : Run.Reaches DuneIndex.step RequestsFit (DuneIndex.initial block) s) :
    (∀ id entry, s.tables.idToEntry.lookup id = some entry →
      held s.tables.outpointToBalances id + entry.burned = entry.premine + entry.supply) ∧
    ∀ action, RequestsFit s action → (s.step action).isSome := by
  have valid : s.Valid := reaches.invariant DuneIndex.Valid step_valid (DuneIndex.initial_valid block)
  refine ⟨fun id entry hentry => ?_, fun action hfit => ?_⟩
  · have hbalance := valid.conserved.balance id
    rwa [burnedOf, valueAt_of_lookup _ hentry, issued, valueAt_of_lookup _ hentry] at hbalance
  · cases action with
    | nextBlock block => rfl
    | transaction tx =>
        obtain ⟨next, hnext, -⟩ := transaction_valid valid hfit.1 hfit.2
        rw [hnext]
        rfl

/-- The steps of `RequestsFit`, decided on the rows of the table. -/
def stepFits (s : DuneIndex) : DuneAction → Bool
  | .nextBlock _ => true
  | .transaction tx =>
      s.tables.outpointToBalances.keys.all (·.txid ≠ tx.txid) && requestsFit s tx

theorem requestsFit_of_stepFits {s : DuneIndex} {action : DuneAction}
    (hfits : stepFits s action = true) : RequestsFit s action := by
  cases action with
  | nextBlock block => trivial
  | transaction tx =>
      simp only [stepFits, Bool.and_eq_true, List.all_eq_true, decide_eq_true_eq] at hfits
      refine ⟨fun vout => ?_, hfits.2⟩
      by_contra hrow
      have hmem : (⟨tx.txid, vout⟩ : OutPoint) ∈ s.tables.outpointToBalances :=
        AList.lookup_isSome.1 (Option.isSome_iff_ne_none.2 hrow)
      exact hfits.1 _ (AList.mem_keys.1 hmem) rfl

def sampleBlock : BlockInfo where
  height := 2
  timestamp := 0
  minimum := 0
  hasInscription _ := false

/-- A dunestone output with a payload of less than 76 bytes. -/
def dunestoneOutput (payload : List UInt8) : TxOut where
  value := 0
  scriptPubkey := [0x6a, 0x01, 0x44, UInt8.ofNat payload.length] ++ payload

/-- An etching with a limit of 10 and a cap of 5 that allocates 100; in the next block a mint of 10
next to a transfer of the 100. -/
def sampleRun : List DuneAction :=
  [.transaction
      { txid := 1, input := [], output := [⟨1, []⟩, dunestoneOutput [2, 3, 6, 10, 20, 5, 0, 0, 100, 0]] },
    .nextBlock sampleBlock,
    .transaction
      { txid := 2, input := [⟨⟨1, 0⟩, []⟩],
        output := [⟨1, []⟩, dunestoneOutput [0, 190, 254, 254, 255, 134, 255, 0, 0, 0]] }]

theorem sampleRun_conserved :
    ∃ s, Run.Reaches DuneIndex.step RequestsFit (DuneIndex.initial sampleBlock) s ∧
      ∃ entry, s.tables.idToEntry.lookup (2 <<< 16) = some entry ∧
        (entry.premine, entry.supply) = (100, 10) ∧
        held s.tables.outpointToBalances (2 <<< 16) + entry.burned =
          entry.premine + entry.supply := by
  have hexec : (Run.exec DuneIndex.step stepFits sampleRun (DuneIndex.initial sampleBlock)).map
      (fun s => (s.tables.idToEntry.lookup (2 <<< 16)).map fun entry =>
        (entry.premine, entry.supply)) = some (some (100, 10)) := by decide
  obtain ⟨s, reaches, hview⟩ := Run.exists_reaches_of_exec requestsFit_of_stepFits hexec
  obtain ⟨entry, hentry, hamounts⟩ := map_eq_some_iff.1 hview
  exact ⟨s, reaches, entry, hentry, hamounts,
    (dunes_conserved_of_requestsFit sampleBlock reaches).1 _ entry hentry⟩

/-- The varint of `u128::MAX`. -/
def maxVarint : List UInt8 := 130 :: List.replicate 17 254 ++ [127]

/-- An etching whose two edicts of the new dune both ask for `u128::MAX`. -/
def overAllocation : Transaction where
  txid := 1
  input := []
  output := [⟨1, []⟩, dunestoneOutput ([2, 1, 0, 0] ++ maxVarint ++ [0, 0] ++ maxVarint ++ [0])]

/-- The sum of the requested amounts leaves `u128` at the second edict. -/
theorem overAllocation_overflows :
    (Dunestone.fromTransaction overAllocation).map (fun dunestone =>
        (dunestone.cenotaph, dunestone.edicts)) =
      some (false, [⟨0, maxU128, 0⟩, ⟨0, maxU128, 0⟩]) ∧
    ((DuneIndex.initial sampleBlock).step (.transaction overAllocation)).isNone := by
  decide +kernel

end OrdDogecoin.Dunes
