/-
Module: OrdDogecoin.Dunes.Registry
Purpose: The registry of dunes over every run of blocks and transactions, in a build that panics on
  overflow and in one that wraps: names and ids, the numbers of the entries, and the entry behind
  every id that is held, minted or burned.  Nothing here depends on what the additions return.
Trusted boundary: as in OrdDogecoin.Dunes.DuneUpdater; the counters of dunes and of reserved names
  are naturals (`u64` in the source)
Main exports: DuneIndex.stepWith, Registered, registry_of_reaches
-/
import OrdDogecoin.Dunes.Conservation

namespace OrdDogecoin.Dunes

open Chain
open KeyTable
open Option (bind_eq_some_iff bind_some map_some)

/-! ### Ids in the pools, for any arithmetic -/

section Within

variable {ids : ℕ → Prop} {add sub : ℕ → ℕ → Option ℕ} {pools after : Pools} {newId : Option ℕ}

theorem Within.credit {amounts after : Amounts} {id amount : ℕ} (within : Within ids amounts)
    (hid : ids id) (hcredit : credit amounts id amount add = some after) : Within ids after := by
  obtain ⟨sum, -, hafter⟩ := bind_eq_some_iff.1 hcredit
  cases hafter
  exact within.insert hid

theorem Within.creditAll {list : List (ℕ × ℕ)} {amounts after : Amounts}
    (within : Within ids amounts) (hids : ∀ pair ∈ list, ids pair.1)
    (hcredit : creditAll amounts list add = some after) : Within ids after := by
  induction list generalizing amounts with
  | nil =>
      cases hcredit
      exact within
  | cons pair list ih =>
      obtain ⟨hfirst, hrest⟩ := List.forall_mem_cons.1 hids
      obtain ⟨next, hnext, hcredit⟩ := bind_eq_some_iff.1 hcredit
      exact ih (within.credit hfirst hnext) hrest hcredit

theorem RowsWithin.erase {balances : KeyTable OutPoint BalanceRow} (rows : RowsWithin ids balances)
    (outpoint : OutPoint) : RowsWithin ids (balances.erase outpoint) :=
  fun place row hrow => rows place row (lookup_erase_cases hrow).2

/-- The inputs bring ids that were held. -/
theorem takeInputs_within {inputs : List TxIn} {balances after : KeyTable OutPoint BalanceRow}
    {unallocated taken : Amounts} (rows : RowsWithin ids balances) (within : Within ids unallocated)
    (htake : takeInputs inputs balances unallocated add = some (after, taken)) :
    RowsWithin ids after ∧ Within ids taken := by
  induction inputs generalizing balances unallocated with
  | nil =>
      cases htake
      exact ⟨rows, within⟩
  | cons input inputs ih =>
      obtain ⟨next, hnext, htake⟩ := bind_eq_some_iff.1 htake
      refine ih (rows.erase _) (within.creditAll ?_ hnext) htake
      intro pair hmem
      cases hrow : balances.lookup input.previousOutput with
      | none =>
          rw [hrow] at hmem
          cases hmem
      | some row =>
          rw [hrow] at hmem
          exact rows _ _ hrow pair hmem

theorem AllWithin.allocate {allocated after : List Amounts} {output id amount : ℕ}
    (within : AllWithin ids allocated) (hid : ids id)
    (hallocate : allocate allocated output id amount add = some after) : AllWithin ids after := by
  obtain ⟨amounts, hamounts, hallocate⟩ := bind_eq_some_iff.1 hallocate
  obtain ⟨credited, hcredit, hallocate⟩ := bind_eq_some_iff.1 hallocate
  cases hallocate
  exact within.set ((within _ (List.mem_of_getElem? hamounts)).credit hid hcredit)

theorem AllWithin.moveAmount {allocated after : List Amounts} {output id balance amount rest : ℕ}
    (within : AllWithin ids allocated) (hid : ids id)
    (hmove : moveAmount allocated output id balance amount add sub = some (rest, after)) :
    AllWithin ids after := by
  unfold Dunes.moveAmount at hmove
  dsimp only at hmove
  split at hmove
  · obtain ⟨left, -, hmove⟩ := bind_eq_some_iff.1 hmove
    obtain ⟨moved, hallocate, hmove⟩ := bind_eq_some_iff.1 hmove
    cases hmove
    exact within.allocate hid hallocate
  · cases hmove
    exact within

/-- One edict puts no new id into the pools but that of the etching. -/
theorem PoolsWithin.applyEdict {edict : Edict} (within : PoolsWithin ids pools)
    (hnew : ∀ id, newId = some id → ids id)
    (happly : applyEdict newId edict pools add sub = some after) : PoolsWithin ids after := by
  unfold Dunes.applyEdict at happly
  split at happly
  · cases happly
    exact within
  · split at happly
    · cases newId with
      | none =>
          cases happly
          exact within
      | some id =>
          obtain ⟨premine, -, happly⟩ := bind_eq_some_iff.1 happly
          obtain ⟨⟨issuance, allocated⟩, hmove, happly⟩ := bind_eq_some_iff.1 happly
          cases happly
          exact ⟨within.unallocated, within.mintable, within.allocated.moveAmount (hnew id rfl) hmove⟩
    · split at happly
      next id hclaim =>
        split at happly
        next =>
          cases happly
          exact within
        next balance hbalance =>
          obtain ⟨⟨rest, allocated⟩, hmove, happly⟩ := bind_eq_some_iff.1 happly
          cases happly
          have hid := within.mintable _ _ hbalance
          exact ⟨within.unallocated, within.mintable.insert hid, within.allocated.moveAmount hid hmove⟩
      next =>
        split at happly
        next =>
          cases happly
          exact within
        next balance hbalance =>
          obtain ⟨⟨rest, allocated⟩, hmove, happly⟩ := bind_eq_some_iff.1 happly
          cases happly
          have hid := within.unallocated _ _ hbalance
          exact ⟨within.unallocated.insert hid, within.mintable, within.allocated.moveAmount hid hmove⟩

theorem PoolsWithin.applyEdicts {edicts : List Edict} (within : PoolsWithin ids pools)
    (hnew : ∀ id, newId = some id → ids id)
    (happly : applyEdicts newId edicts pools add sub = some after) : PoolsWithin ids after := by
  induction edicts generalizing pools with
  | nil =>
      cases happly
      exact within
  | cons edict edicts ih =>
      obtain ⟨next, hnext, happly⟩ := bind_eq_some_iff.1 happly
      exact ih (within.applyEdict hnew hnext) happly

/-- Edicts take from the limits, so the ids of the limits stay. -/
theorem Within.mintable_applyEdict {edict : Edict} (within : Within ids pools.mintable)
    (happly : Dunes.applyEdict newId edict pools add sub = some after) :
    Within ids after.mintable := by
  unfold Dunes.applyEdict at happly
  split at happly
  · cases happly
    exact within
  · split at happly
    · cases newId with
      | none =>
          cases happly
          exact within
      | some id =>
          obtain ⟨premine, -, happly⟩ := bind_eq_some_iff.1 happly
          obtain ⟨moved, -, happly⟩ := bind_eq_some_iff.1 happly
          cases happly
          exact within
    · split at happly
      next id hclaim =>
        split at happly
        next =>
          cases happly
          exact within
        next balance hbalance =>
          obtain ⟨moved, -, happly⟩ := bind_eq_some_iff.1 happly
          cases happly
          exact within.insert (within _ _ hbalance)
      next =>
        split at happly
        next =>
          cases happly
          exact within
        next =>
          obtain ⟨moved, -, happly⟩ := bind_eq_some_iff.1 happly
          cases happly
          exact within

theorem Within.mintable_applyEdicts {edicts : List Edict} (within : Within ids pools.mintable)
    (happly : Dunes.applyEdicts newId edicts pools add sub = some after) :
    Within ids after.mintable := by
  induction edicts generalizing pools with
  | nil =>
      cases happly
      exact within
  | cons edict edicts ih =>
      obtain ⟨next, hnext, happly⟩ := bind_eq_some_iff.1 happly
      exact ih (within.mintable_applyEdict hnext) happly

theorem settleUnallocated_within {outputs : List TxOut} {pointer : Option ℕ} {cenotaph : Bool}
    {unallocated burned : Amounts} {allocated after : List Amounts} (within : Within ids unallocated)
    (hall : AllWithin ids allocated)
    (hsettle : settleUnallocated outputs pointer cenotaph unallocated allocated add =
      some (after, burned)) :
    AllWithin ids after ∧ Within ids burned := by
  unfold settleUnallocated at hsettle
  split at hsettle
  · obtain ⟨credited, hcredit, hsettle⟩ := bind_eq_some_iff.1 hsettle
    cases hsettle
    exact ⟨hall, (Within.empty ids).creditAll (fun pair hmem => within.pairs hmem) hcredit⟩
  · split at hsettle
    · obtain ⟨credited, hcredit, hsettle⟩ := bind_eq_some_iff.1 hsettle
      cases hsettle
      exact ⟨hall, (Within.empty ids).creditAll within.positive hcredit⟩
    · obtain ⟨amounts, hamounts, hsettle⟩ := bind_eq_some_iff.1 hsettle
      obtain ⟨credited, hcredit, hsettle⟩ := bind_eq_some_iff.1 hsettle
      cases hsettle
      have hfound := hall _ (List.mem_of_getElem? hamounts)
      exact ⟨hall.set (hfound.creditAll within.positive hcredit), Within.empty ids⟩

theorem writeOutputs_within {txid : Txid} {outputs : List (TxOut × Amounts)} {vout : ℕ}
    {balances after : KeyTable OutPoint BalanceRow} {burned total : Amounts}
    (rows : RowsWithin ids balances) (within : Within ids burned)
    (hall : AllWithin ids (outputs.map Prod.snd))
    (hwrite : writeOutputs txid vout outputs balances burned add = some (after, total)) :
    RowsWithin ids after ∧ Within ids total := by
  induction outputs generalizing vout balances burned with
  | nil =>
      cases hwrite
      exact ⟨rows, within⟩
  | cons output outputs ih =>
      obtain ⟨hfirst, hrest⟩ := List.forall_mem_cons.1 hall
      rw [writeOutputs] at hwrite
      split at hwrite
      · exact ih rows within hrest hwrite
      · split at hwrite
        · obtain ⟨next, hnext, hwrite⟩ := bind_eq_some_iff.1 hwrite
          exact ih rows (within.creditAll (fun pair hmem => hfirst.pairs hmem) hnext) hrest hwrite
        · refine ih ?_ within hrest hwrite
          intro outpoint row hrow
          rcases lookup_insert_cases hrow with ⟨-, rfl⟩ | ⟨-, hold⟩
          · exact fun pair hmem => hfirst.pairs ((List.mem_insertionSort _).1 hmem)
          · exact rows _ _ hold

end Within

/-! ### Entries, for any arithmetic -/

/-- The keys stay and every entry is changed by `R`. -/
structure Rewritten (R : ℕ → DuneEntry → DuneEntry → Prop) (before after : KeyTable ℕ DuneEntry) :
    Prop where
  keys : ∀ id, HasEntry after id ↔ HasEntry before id
  entry : ∀ {id new}, after.lookup id = some new → ∃ old, before.lookup id = some old ∧ R id old new

variable {entries : KeyTable ℕ DuneEntry}

theorem hasEntry_insert {id : ℕ} {entry : DuneEntry} (other : ℕ) :
    HasEntry (entries.insert id entry) other ↔ other = id ∨ HasEntry entries other := by
  unfold HasEntry
  rw [lookup_insert_ite]
  by_cases h : other = id
  · simp [h]
  · simp [h]

theorem hasEntry_rewrite {id : ℕ} {old new : DuneEntry} (hold : entries.lookup id = some old)
    (other : ℕ) :
    HasEntry (entries.insert id new) other ↔ HasEntry entries other := by
  rw [hasEntry_insert]
  constructor
  · rintro (rfl | hentry)
    · unfold HasEntry
      rw [hold]
      rfl
    · exact hentry
  · exact Or.inr

/-- What a transaction does to an entry it burns. -/
def BurnedOnly (old new : DuneEntry) : Prop := new = { old with burned := new.burned }

theorem recordBurns_rewritten {add : ℕ → ℕ → Option ℕ} {burned : List (ℕ × ℕ)}
    {entries after : KeyTable ℕ DuneEntry} (hburns : recordBurns burned entries add = some after) :
    Rewritten (fun _ => BurnedOnly) entries after := by
  induction burned generalizing entries with
  | nil =>
      cases hburns
      exact ⟨fun _ => Iff.rfl, fun hnew => ⟨_, hnew, rfl⟩⟩
  | cons pair burned ih =>
      obtain ⟨entry, hentry, hburns⟩ := bind_eq_some_iff.1 hburns
      obtain ⟨total, -, hburns⟩ := bind_eq_some_iff.1 hburns
      have hrest := ih hburns
      refine ⟨fun id => (hrest.keys id).trans (hasEntry_rewrite hentry id), fun {id new} hnew => ?_⟩
      obtain ⟨middle, hmiddle, hlast⟩ := hrest.entry hnew
      rcases lookup_insert_cases hmiddle with ⟨rfl, rfl⟩ | ⟨-, hold⟩
      · exact ⟨entry, hentry, hlast⟩
      · exact ⟨middle, hold, hlast⟩

/-- What the mints of a transaction do to an entry: nothing, or one mint of what was taken from its
limit. -/
inductive MintedOnce (add sub : ℕ → ℕ → Option ℕ) (limits : Amounts) (remaining : List (ℕ × ℕ))
    (id : ℕ) (old : DuneEntry) : DuneEntry → Prop where
  | none (hzero : ∀ rest, (id, rest) ∈ remaining → sub (amountAt limits id) rest = some 0) :
      MintedOnce add sub limits remaining id old old
  | some {rest minted supply mints : ℕ} (hrest : (id, rest) ∈ remaining)
      (hminted : sub (amountAt limits id) rest = some minted) (hpos : 0 < minted)
      (hsupply : add old.supply minted = some supply) (hmints : add old.mints 1 = some mints) :
      MintedOnce add sub limits remaining id old { old with supply := supply, mints := mints }

theorem recordMints_rewritten {add sub : ℕ → ℕ → Option ℕ} {limits : Amounts}
    {remaining : List (ℕ × ℕ)} {entries after : KeyTable ℕ DuneEntry}
    (hnodup : (remaining.map Prod.fst).Nodup)
    (hmints : recordMints limits remaining entries add sub = some after) :
    Rewritten (MintedOnce add sub limits remaining) entries after := by
  induction remaining generalizing entries with
  | nil =>
      cases hmints
      exact ⟨fun _ => Iff.rfl, fun hnew => ⟨_, hnew, .none (by simp)⟩⟩
  | cons pair remaining ih =>
      obtain ⟨first, rest⟩ := pair
      obtain ⟨hfresh, hnodup⟩ := List.nodup_cons.1 hnodup
      have hlater : ∀ rest, (first, rest) ∉ remaining :=
        fun rest hmem => hfresh (List.mem_map.2 ⟨_, hmem, rfl⟩)
      obtain ⟨minted, hminted, hmints⟩ := bind_eq_some_iff.1 hmints
      -- an entry of another id is changed by the later pairs alone
      have hother : ∀ {id : ℕ} {old new : DuneEntry}, id ≠ first →
          MintedOnce add sub limits remaining id old new →
            MintedOnce add sub limits ((first, rest) :: remaining) id old new := by
        intro id old new hne hmint
        cases hmint with
        | none hzero =>
            refine .none fun other hmem => ?_
            rcases List.mem_cons.1 hmem with heq | hmem
            · cases heq
              exact absurd rfl hne
            · exact hzero other hmem
        | some hrest hminted hpos hsupply hmints =>
            exact .some (List.mem_cons_of_mem _ hrest) hminted hpos hsupply hmints
      split at hmints
      next hpos =>
        obtain ⟨entry, hentry, hmints⟩ := bind_eq_some_iff.1 hmints
        obtain ⟨supply, hsupply, hmints⟩ := bind_eq_some_iff.1 hmints
        obtain ⟨mints, hcount, hmints⟩ := bind_eq_some_iff.1 hmints
        have hrest := ih hnodup hmints
        refine ⟨fun id => (hrest.keys id).trans (hasEntry_rewrite hentry id), fun {id new} hnew => ?_⟩
        obtain ⟨middle, hmiddle, hlast⟩ := hrest.entry hnew
        rcases lookup_insert_cases hmiddle with ⟨rfl, rfl⟩ | ⟨hne, hold⟩
        · refine ⟨entry, hentry, ?_⟩
          cases hlast with
          | none => exact .some List.mem_cons_self hminted hpos hsupply hcount
          | some hagain => exact absurd hagain (hlater _)
        · exact ⟨middle, hold, hother hne hlast⟩
      next hzero =>
        have hrest := ih hnodup hmints
        refine ⟨hrest.keys, fun {id new} hnew => ?_⟩
        obtain ⟨old, hold, hlast⟩ := hrest.entry hnew
        refine ⟨old, hold, ?_⟩
        by_cases hne : id = first
        · subst hne
          cases hlast with
          | none =>
              refine .none fun other hmem => ?_
              rcases List.mem_cons.1 hmem with heq | hmem
              · cases heq
                rw [Nat.eq_zero_of_not_pos hzero] at hminted
                exact hminted
              · exact absurd hmem (hlater other)
          | some hagain => exact absurd hagain (hlater _)
        · exact hother hne hlast

/-! ### A transaction -/

/-- The etching of a transaction that becomes an entry. -/
def etchingOf (s : DuneIndex) (tx : Transaction) : Option Allocation :=
  (Dunestone.fromTransaction tx).bind fun dunestone =>
    (allocation s.tables s.block s.index dunestone.etching).1

/-- The counter of reserved names after a transaction. -/
def reservedAfter (s : DuneIndex) (tx : Transaction) : ℕ :=
  match Dunestone.fromTransaction tx with
  | none => s.tables.reservedDunes
  | some dunestone => (allocation s.tables s.block s.index dunestone.etching).2.reservedDunes

/-- Whether the dunestone of a transaction is a cenotaph. -/
def isCenotaph (tx : Transaction) : Bool :=
  ((Dunestone.fromTransaction tx).map Dunestone.cenotaph).getD false

/-- The entry written for an etching. -/
structure Etched (s : DuneIndex) (tx : Transaction) (allocation : Allocation) (entry : DuneEntry) :
    Prop where
  dune : entry.dune = allocation.dune
  number : entry.number = s.tables.dunes
  block : entry.block = s.block.height
  mints : entry.mints = 0
  terms : entry.terms = if isCenotaph tx then none else allocation.mint

/-- What the mints of a transaction do to the entries: nothing without a dunestone or for a cenotaph,
otherwise what is left of the limits after its edicts. -/
inductive MintsDone (add sub : ℕ → ℕ → Option ℕ) (s : DuneIndex) (tx : Transaction)
    (entries : KeyTable ℕ DuneEntry) : KeyTable ℕ DuneEntry → Prop where
  | skipped (hskip : ∀ dunestone, Dunestone.fromTransaction tx = some dunestone →
      dunestone.cenotaph = true) : MintsDone add sub s tx entries entries
  | minted {dunestone : Dunestone} {unallocated : Amounts} {pools : Pools}
      {after : KeyTable ℕ DuneEntry} (hdunestone : Dunestone.fromTransaction tx = some dunestone)
      (hplain : dunestone.cenotaph = false)
      (hedicts : applyEdicts ((etchingOf s tx).map Allocation.id) dunestone.edicts
        (initialPools s.tables s.block.height tx.output.length dunestone.edicts unallocated) add sub =
          some pools)
      (hmints : Rewritten (MintedOnce add sub
        (mintableAmounts entries s.block.height (claims dunestone.edicts)) (pairs pools.mintable))
        entries after) : MintsDone add sub s tx entries after

/-- What the etching of a transaction does to the tables. -/
inductive EtchingDone (s : DuneIndex) (tx : Transaction) (before after : DuneTables) : Prop where
  | skipped (hskip : etchingOf s tx = none) (hentries : after.idToEntry = before.idToEntry)
      (hnames : after.duneToId = before.duneToId) (hcount : after.dunes = before.dunes)
  | etched {found : Allocation} {entry : DuneEntry} (hfound : etchingOf s tx = some found)
      (hentry : Etched s tx found entry)
      (hentries : after.idToEntry = before.idToEntry.insert found.id entry)
      (hnames : after.duneToId = before.duneToId.insert found.dune found.id)
      (hcount : after.dunes = before.dunes + 1)

/-- What a transaction does to the registry. -/
structure TransactionDone (add sub : ℕ → ℕ → Option ℕ) (s : DuneIndex) (tx : Transaction)
    (minted etched after : DuneTables) : Prop where
  mints : MintsDone add sub s tx s.tables.idToEntry minted.idToEntry
  mintedNames : minted.duneToId = s.tables.duneToId
  mintedCount : minted.dunes = s.tables.dunes
  etching : EtchingDone s tx minted etched
  burns : Rewritten (fun _ => BurnedOnly) etched.idToEntry after.idToEntry
  names : after.duneToId = etched.duneToId
  count : after.dunes = etched.dunes
  reserved : after.reservedDunes = reservedAfter s tx

section Inversion

variable {add sub : ℕ → ℕ → Option ℕ} {s : DuneIndex} {tx : Transaction} {dunestone : Dunestone}
  {unallocated : Amounts} {pools : Pools} {dunes middle after : DuneTables} {block : BlockInfo}

/-- A dunestone is applied in three parts: the allocation, the edicts with the mints, the etching. -/
theorem applyDunestone_parts {index : ℕ}
    (happly : applyDunestone block index tx dunestone unallocated dunes add sub = some (pools, after)) :
    ∃ middle, applyEdictsAndMints
        ((allocation dunes block index dunestone.etching).1.map Allocation.id) dunestone
        (initialPools (allocation dunes block index dunestone.etching).2 block.height tx.output.length
          dunestone.edicts unallocated)
        (allocation dunes block index dunestone.etching).2 add sub = some (pools, middle) ∧
      match (allocation dunes block index dunestone.etching).1 with
      | none => after = middle
      | some found =>
          etch block tx.txid dunestone.cenotaph found pools.issuance pools.premine middle sub =
            some after := by
  unfold applyDunestone at happly
  rcases hallocation : allocation dunes block index dunestone.etching with ⟨found, counted⟩
  rw [hallocation] at happly
  obtain ⟨⟨done, middle⟩, hmiddle, happly⟩ := bind_eq_some_iff.1 happly
  cases found with
  | none =>
      cases happly
      exact ⟨_, hmiddle, rfl⟩
  | some found =>
      obtain ⟨etched, hetch, happly⟩ := bind_eq_some_iff.1 happly
      cases happly
      exact ⟨_, hmiddle, hetch⟩

/-- Edicts and mints leave the names and the counters alone. -/
theorem applyEdictsAndMints_parts {newId : Option ℕ} {initial : Pools}
    (happly : applyEdictsAndMints newId dunestone initial dunes add sub = some (pools, after)) :
    (dunestone.cenotaph = true ∧ pools = initial ∧ after = dunes) ∨
      (dunestone.cenotaph = false ∧
        applyEdicts newId dunestone.edicts initial add sub = some pools ∧
        ∃ entries, recordMints initial.mintable (Dunes.pairs pools.mintable) dunes.idToEntry add sub =
            some entries ∧ after = { dunes with idToEntry := entries }) := by
  unfold applyEdictsAndMints at happly
  split at happly
  next hcenotaph =>
    cases happly
    exact .inl ⟨hcenotaph, rfl, rfl⟩
  next hplain =>
    obtain ⟨done, hdone, happly⟩ := bind_eq_some_iff.1 happly
    obtain ⟨entries, hentries, happly⟩ := bind_eq_some_iff.1 happly
    cases happly
    exact .inr ⟨by simpa using hplain, hdone, entries, hentries, rfl⟩

theorem etch_parts {txid : Txid} {cenotaph : Bool} {found : Allocation} {issuance premine : ℕ}
    (hetch : etch block txid cenotaph found issuance premine dunes sub = some after) :
    ∃ entry : DuneEntry, entry.dune = found.dune ∧ entry.number = dunes.dunes ∧
      entry.block = block.height ∧ entry.mints = 0 ∧
      entry.terms = (if cenotaph then none else found.mint) ∧
      after.idToEntry = dunes.idToEntry.insert found.id entry ∧
      after.duneToId = dunes.duneToId.insert found.dune found.id ∧
      after.dunes = dunes.dunes + 1 ∧ after.reservedDunes = dunes.reservedDunes ∧
      after.outpointToBalances = dunes.outpointToBalances := by
  unfold etch at hetch
  obtain ⟨issued, -, hetch⟩ := bind_eq_some_iff.1 hetch
  obtain ⟨supply, -, hetch⟩ := bind_eq_some_iff.1 hetch
  cases hetch
  exact ⟨_, rfl, rfl, rfl, rfl, rfl, rfl, rfl, rfl, rfl, rfl⟩

/-- Leftovers, rows and burns. -/
theorem settle_parts {found : Option Dunestone}
    (hsettle : settle tx found pools dunes add = some after) :
    ∃ allocated left balances burned entries,
      settleUnallocated tx.output (found.bind Dunestone.pointer)
        ((found.map Dunestone.cenotaph).getD false) pools.unallocated pools.allocated add =
          some (allocated, left) ∧
      writeOutputs tx.txid 0 (tx.output.zip allocated) dunes.outpointToBalances left add =
        some (balances, burned) ∧
      recordBurns (Dunes.pairs burned) dunes.idToEntry add = some entries ∧
      after = { dunes with outpointToBalances := balances, idToEntry := entries } := by
  unfold settle at hsettle
  obtain ⟨⟨allocated, left⟩, hleft, hsettle⟩ := bind_eq_some_iff.1 hsettle
  obtain ⟨⟨balances, burned⟩, hwrite, hsettle⟩ := bind_eq_some_iff.1 hsettle
  obtain ⟨entries, hentries, hsettle⟩ := bind_eq_some_iff.1 hsettle
  cases hsettle
  exact ⟨allocated, left, balances, burned, entries, hleft, hwrite, hentries, rfl⟩

theorem indexDunes_parts {index : ℕ} (hindex : indexDunes block index tx dunes add sub = some after) :
    ∃ balances unallocated pools middle,
      takeInputs tx.input dunes.outpointToBalances ∅ add = some (balances, unallocated) ∧
      applyIfPresent block index tx (Dunestone.fromTransaction tx) unallocated
        { dunes with outpointToBalances := balances } add sub = some (pools, middle) ∧
      settle tx (Dunestone.fromTransaction tx) pools middle add = some after := by
  unfold indexDunes at hindex
  obtain ⟨⟨balances, unallocated⟩, htake, hindex⟩ := bind_eq_some_iff.1 hindex
  obtain ⟨⟨pools, middle⟩, happly, hsettle⟩ := bind_eq_some_iff.1 hindex
  exact ⟨balances, unallocated, pools, middle, htake, happly, hsettle⟩

/-- An allocation leaves names and count alone, and moves the counter of reserved names by the names
alone. -/
theorem allocation_counters (dunes : DuneTables) (block : BlockInfo) (index : ℕ)
    (etching : Option Etching) :
    (allocation dunes block index etching).2.duneToId = dunes.duneToId ∧
      (allocation dunes block index etching).2.dunes = dunes.dunes := by
  unfold allocation
  cases etching with
  | none => exact ⟨rfl, rfl⟩
  | some etching =>
      dsimp only
      split
      · exact ⟨rfl, rfl⟩
      · cases etching.dune <;> dsimp only <;> split <;> exact ⟨rfl, rfl⟩

theorem allocation_reserved_congr (dunes others : DuneTables)
    (hnames : dunes.duneToId = others.duneToId) (hreserved : dunes.reservedDunes = others.reservedDunes)
    (block : BlockInfo) (index : ℕ) (etching : Option Etching) :
    (allocation dunes block index etching).2.reservedDunes =
      (allocation others block index etching).2.reservedDunes := by
  cases etching with
  | none => exact hreserved
  | some etching =>
      have hname : nameRejected dunes block.minimum etching.dune =
          nameRejected others block.minimum etching.dune := by
        rw [nameRejected, nameRejected, hnames]
      simp only [allocation, hname, hreserved]
      split
      · exact hreserved
      · cases etching.dune <;> dsimp only <;> split <;> first | exact hreserved | rfl

theorem nodup_pairs (amounts : Amounts) : ((pairs amounts).map Prod.fst).Nodup := by
  have hkeys : (pairs amounts).map Prod.fst = amounts.keys := by
    rw [pairs, List.map_map]
    rfl
  rw [hkeys]
  exact amounts.keys_nodup

/-- Every transaction that is indexed does to the registry what `TransactionDone` says. -/
theorem transaction_done (hindex : indexDunes s.block s.index tx s.tables add sub = some after) :
    ∃ minted etched, TransactionDone add sub s tx minted etched after := by
  obtain ⟨balances, unallocated, pools, middle, -, happly, hsettle⟩ := indexDunes_parts hindex
  obtain ⟨allocated, left, rows, burned, entries, -, -, hburns, rfl⟩ := settle_parts hsettle
  have hburned := recordBurns_rewritten hburns
  cases hdunestone : Dunestone.fromTransaction tx with
  | none =>
      rw [hdunestone] at happly
      cases happly
      refine ⟨_, _, .skipped (by simp [hdunestone]), rfl, rfl,
        .skipped (by simp [etchingOf, hdunestone]) rfl rfl rfl, hburned, rfl, rfl, ?_⟩
      simp [reservedAfter, hdunestone]
  | some dunestone =>
      rw [hdunestone] at happly
      obtain ⟨counted, hedicts, hetch⟩ := applyDunestone_parts happly
      have hfound := allocation_congr { s.tables with outpointToBalances := balances } s.tables rfl rfl
        s.block s.index dunestone.etching
      have hreserved := allocation_reserved_congr { s.tables with outpointToBalances := balances }
        s.tables rfl rfl s.block s.index dunestone.etching
      obtain ⟨hids, -⟩ := allocation_tables { s.tables with outpointToBalances := balances } s.block
        s.index dunestone.etching
      obtain ⟨hnames, hcount⟩ := allocation_counters { s.tables with outpointToBalances := balances }
        s.block s.index dunestone.etching
      have hetching : etchingOf s tx =
          (allocation s.tables s.block s.index dunestone.etching).1 := by
        rw [etchingOf, hdunestone, bind_some]
      have hafter : (allocation s.tables s.block s.index dunestone.etching).2.reservedDunes =
          reservedAfter s tx := by
        rw [reservedAfter, hdunestone]
      rw [hafter] at hreserved
      rw [← hetching] at hfound
      generalize allocation { s.tables with outpointToBalances := balances } s.block s.index
        dunestone.etching = result at hedicts hetch hfound hreserved hids hnames hcount
      obtain ⟨found, base⟩ := result
      dsimp only at hedicts hetch hfound hreserved hids hnames hcount
      subst hfound
      have hpools : initialPools base s.block.height tx.output.length dunestone.edicts unallocated =
          initialPools s.tables s.block.height tx.output.length dunestone.edicts unallocated := by
        rw [initialPools, initialPools, hids]
      have hmints : MintsDone add sub s tx s.tables.idToEntry counted.idToEntry ∧
          counted.duneToId = s.tables.duneToId ∧ counted.dunes = s.tables.dunes ∧
          counted.reservedDunes = reservedAfter s tx := by
        rcases applyEdictsAndMints_parts hedicts with
          ⟨hcenotaph, -, rfl⟩ | ⟨hplain, happlied, minted, hminted, rfl⟩
        · refine ⟨?_, hnames, hcount, hreserved⟩
          rw [hids]
          refine .skipped fun other hother => ?_
          cases hdunestone.symm.trans hother
          exact hcenotaph
        · rw [hpools, hids] at hminted
          rw [hpools] at happlied
          exact ⟨.minted hdunestone hplain happlied (recordMints_rewritten (nodup_pairs _) hminted),
            hnames, hcount, hreserved⟩
      obtain ⟨hmints, hnames, hcount, hreserved⟩ := hmints
      cases hnew : etchingOf s tx with
      | none =>
          rw [hnew] at hetch
          obtain rfl : middle = counted := hetch
          exact ⟨_, _, hmints, hnames, hcount, .skipped hnew rfl rfl rfl, hburned, rfl, rfl, hreserved⟩
      | some found =>
          rw [hnew] at hetch
          obtain ⟨entry, hdune, hnumber, hblock, hzero, hterms, hids, hnames', hcount', hreserved', -⟩ :=
            etch_parts hetch
          have hcenotaph : isCenotaph tx = dunestone.cenotaph := by
            rw [isCenotaph, hdunestone]
            rfl
          rw [← hcenotaph] at hterms
          exact ⟨counted, middle, hmints, hnames, hcount,
            .etched hnew ⟨hdune, hnumber.trans hcount, hblock, hzero, hterms⟩ hids hnames' hcount',
            hburned, rfl, rfl, hreserved'.trans hreserved⟩

theorem PoolsWithin.mono {ids ids' : ℕ → Prop} (within : PoolsWithin ids pools)
    (himp : ∀ id, ids id → ids' id) : PoolsWithin ids' pools where
  unallocated id amount hrow := himp id (within.unallocated id amount hrow)
  mintable id amount hrow := himp id (within.mintable id amount hrow)
  allocated amounts hmem id amount hrow := himp id (within.allocated amounts hmem id amount hrow)

theorem initialPools_poolsWithin {height outputs : ℕ} {edicts : List Edict}
    (within : Within (HasEntry dunes.idToEntry) unallocated) :
    PoolsWithin (HasEntry dunes.idToEntry) (initialPools dunes height outputs edicts unallocated) where
  unallocated := within
  mintable := within_mintableAmounts dunes.idToEntry height (claims edicts)
  allocated := AllWithin.replicate _ _

/-- The pools that are settled hold ids with an entry. -/
theorem applyIfPresent_within {index : ℕ} {found : Option Dunestone}
    (happly : applyIfPresent block index tx found unallocated dunes add sub = some (pools, after))
    (within : Within (HasEntry dunes.idToEntry) unallocated) :
    PoolsWithin (HasEntry after.idToEntry) pools ∧
      (∀ id, HasEntry dunes.idToEntry id → HasEntry after.idToEntry id) ∧
      after.outpointToBalances = dunes.outpointToBalances := by
  cases found with
  | none =>
      cases happly
      exact ⟨initialPools_poolsWithin within, fun _ h => h, rfl⟩
  | some dunestone =>
      obtain ⟨counted, hedicts, hetch⟩ := applyDunestone_parts happly
      obtain ⟨hids, hrows⟩ := allocation_tables dunes block index dunestone.etching
      generalize allocation dunes block index dunestone.etching = result at hedicts hetch hids hrows
      obtain ⟨found, base⟩ := result
      dsimp only at hedicts hetch hids hrows
      rw [← hids] at within
      have hinitial : PoolsWithin (HasEntry base.idToEntry)
          (initialPools base block.height tx.output.length dunestone.edicts unallocated) :=
        initialPools_poolsWithin within
      -- the ids that have an entry once the etching is written
      have hmiddle : PoolsWithin (fun id => HasEntry counted.idToEntry id ∨
          found.map Allocation.id = some id) pools ∧
          (∀ id, HasEntry base.idToEntry id → HasEntry counted.idToEntry id) ∧
          counted.outpointToBalances = base.outpointToBalances := by
        rcases applyEdictsAndMints_parts hedicts with
          ⟨-, rfl, rfl⟩ | ⟨-, happlied, minted, hminted, rfl⟩
        · exact ⟨hinitial.mono fun _ h => .inl h, fun _ h => h, rfl⟩
        · have hkeys := (recordMints_rewritten (nodup_pairs _) hminted).keys
          have hwider := hinitial.mono fun id h =>
            (.inl ((hkeys id).2 h) : HasEntry minted id ∨ found.map Allocation.id = some id)
          exact ⟨hwider.applyEdicts (fun id hid => .inr hid) happlied, fun id h => (hkeys id).2 h, rfl⟩
      obtain ⟨hpools, hkept, hsame⟩ := hmiddle
      cases found with
      | none =>
          obtain rfl : after = counted := hetch
          refine ⟨hpools.mono fun id h => ?_, fun id h => hkept id (hids ▸ h), hsame.trans hrows⟩
          rcases h with h | h
          · exact h
          · cases h
      | some found =>
          obtain ⟨entry, -, -, -, -, -, hentries, -, -, -, hrows'⟩ := etch_parts hetch
          have hnew : ∀ id, HasEntry after.idToEntry id ↔ id = found.id ∨
              HasEntry counted.idToEntry id := by
            intro id
            rw [hentries, hasEntry_insert]
          refine ⟨hpools.mono fun id h => (hnew id).2 ?_,
            fun id h => (hnew id).2 (.inr (hkept id (hids ▸ h))), hrows'.trans (hsame.trans hrows)⟩
          rcases h with h | h
          · exact .inr h
          · cases h
            exact .inl rfl

/-- The unwraps of `index_dunes`: a dune that was minted or burned has an entry. -/
structure UnwrapsHold (add sub : ℕ → ℕ → Option ℕ) (s : DuneIndex) (tx : Transaction) : Prop where
  mints : ∀ {balances unallocated dunestone pools},
    takeInputs tx.input s.tables.outpointToBalances ∅ add = some (balances, unallocated) →
    Dunestone.fromTransaction tx = some dunestone →
    applyEdicts ((etchingOf s tx).map Allocation.id) dunestone.edicts
      (initialPools s.tables s.block.height tx.output.length dunestone.edicts unallocated) add sub =
        some pools →
    ∀ pair ∈ pairs pools.mintable, HasEntry s.tables.idToEntry pair.1
  burns : ∀ {balances unallocated pools middle allocated left rows burned},
    takeInputs tx.input s.tables.outpointToBalances ∅ add = some (balances, unallocated) →
    applyIfPresent s.block s.index tx (Dunestone.fromTransaction tx) unallocated
      { s.tables with outpointToBalances := balances } add sub = some (pools, middle) →
    settleUnallocated tx.output ((Dunestone.fromTransaction tx).bind Dunestone.pointer) (isCenotaph tx)
      pools.unallocated pools.allocated add = some (allocated, left) →
    writeOutputs tx.txid 0 (tx.output.zip allocated) middle.outpointToBalances left add =
      some (rows, burned) →
    ∀ pair ∈ pairs burned, HasEntry middle.idToEntry pair.1

/-- What is written and what is burned has an entry. -/
theorem settled_within {balances rows : KeyTable OutPoint BalanceRow} {pointer : Option ℕ}
    {cenotaph : Bool} {allocated : List Amounts} {left burned : Amounts}
    (hrows : RowsWithin (HasEntry dunes.idToEntry) balances)
    (hpools : PoolsWithin (HasEntry middle.idToEntry) pools)
    (hkept : ∀ id, HasEntry dunes.idToEntry id → HasEntry middle.idToEntry id)
    (hsame : middle.outpointToBalances = balances)
    (hleft : settleUnallocated tx.output pointer cenotaph pools.unallocated pools.allocated add =
      some (allocated, left))
    (hwrite : writeOutputs tx.txid 0 (tx.output.zip allocated) middle.outpointToBalances left add =
      some (rows, burned)) :
    RowsWithin (HasEntry middle.idToEntry) rows ∧ Within (HasEntry middle.idToEntry) burned := by
  obtain ⟨hallocated, hleft⟩ := settleUnallocated_within hpools.unallocated hpools.allocated hleft
  rw [hsame] at hwrite
  refine writeOutputs_within (fun outpoint row hrow pair hmem => hkept _ (hrows outpoint row hrow pair hmem))
    hleft (fun amounts hmem => ?_) hwrite
  obtain ⟨⟨output, given⟩, hzip, rfl⟩ := List.mem_map.1 hmem
  exact hallocated _ (List.of_mem_zip hzip).2

theorem transaction_rows
    (rows : RowsWithin (HasEntry s.tables.idToEntry) s.tables.outpointToBalances)
    (hindex : indexDunes s.block s.index tx s.tables add sub = some after) :
    RowsWithin (HasEntry after.idToEntry) after.outpointToBalances := by
  obtain ⟨balances, unallocated, pools, middle, htake, happly, hsettle⟩ := indexDunes_parts hindex
  obtain ⟨allocated, left, written, burned, entries, hleft, hwrite, hburns, rfl⟩ := settle_parts hsettle
  obtain ⟨hrows, hunallocated⟩ := takeInputs_within rows (Within.empty _) htake
  obtain ⟨hpools, hkept, hsame⟩ := applyIfPresent_within happly hunallocated
  obtain ⟨hwritten, -⟩ := settled_within hrows hpools hkept hsame hleft hwrite
  have hkeys := (recordBurns_rewritten hburns).keys
  exact fun outpoint row hrow pair hmem => (hkeys _).2 (hwritten outpoint row hrow pair hmem)

theorem unwraps_hold (rows : RowsWithin (HasEntry s.tables.idToEntry) s.tables.outpointToBalances) :
    UnwrapsHold add sub s tx where
  mints _ _ hedicts _ hmem :=
    ((within_mintableAmounts _ _ _).mintable_applyEdicts hedicts).pairs hmem
  burns htake happly hleft hwrite _ hmem := by
    obtain ⟨hrows, hunallocated⟩ := takeInputs_within rows (Within.empty _) htake
    obtain ⟨hpools, hkept, hsame⟩ := applyIfPresent_within happly hunallocated
    exact (settled_within hrows hpools hkept hsame hleft hwrite).2.pairs hmem

end Inversion

/-! ### Names and numbers -/

/-- The name and the number under an id. -/
def label (entries : KeyTable ℕ DuneEntry) (id : ℕ) : Option (ℕ × ℕ) :=
  (entries.lookup id).map fun entry => (entry.dune, entry.number)

theorem hasEntry_iff_label {id : ℕ} :
    HasEntry entries id ↔ ∃ found, label entries id = some found := by
  unfold HasEntry label
  cases entries.lookup id <;> simp

theorem label_eq_some {id dune number : ℕ} :
    label entries id = some (dune, number) ↔
      ∃ entry, entries.lookup id = some entry ∧ entry.dune = dune ∧ entry.number = number := by
  unfold label
  cases entries.lookup id <;> simp

theorem Rewritten.label_eq {R : ℕ → DuneEntry → DuneEntry → Prop} {before after : KeyTable ℕ DuneEntry}
    (rewritten : Rewritten R before after)
    (hlabel : ∀ id old new, R id old new → new.dune = old.dune ∧ new.number = old.number) (id : ℕ) :
    label after id = label before id := by
  cases hnew : after.lookup id with
  | none =>
      have hnone : ¬ HasEntry before id := by
        rw [← rewritten.keys id, HasEntry, hnew]
        simp
      unfold HasEntry at hnone
      rw [label, label, hnew, Option.not_isSome_iff_eq_none.1 hnone]
  | some new =>
      obtain ⟨old, hold, hrel⟩ := rewritten.entry hnew
      obtain ⟨hdune, hnumber⟩ := hlabel id old new hrel
      rw [label, label, hnew, hold, map_some, map_some, hdune, hnumber]

theorem MintsDone.label_eq {add sub : ℕ → ℕ → Option ℕ} {s : DuneIndex} {tx : Transaction}
    {entries after : KeyTable ℕ DuneEntry} (done : MintsDone add sub s tx entries after) (id : ℕ) :
    label after id = label entries id := by
  cases done with
  | skipped => rfl
  | minted _ _ _ hmints =>
      refine hmints.label_eq ?_ id
      rintro id old new (_ | _)
      · exact ⟨rfl, rfl⟩
      · exact ⟨rfl, rfl⟩

section Labels

variable {add sub : ℕ → ℕ → Option ℕ} {s : DuneIndex} {tx : Transaction}
  {minted etched after : DuneTables}

theorem TransactionDone.burned_label (done : TransactionDone add sub s tx minted etched after) (id : ℕ) :
    label after.idToEntry id = label etched.idToEntry id := by
  refine done.burns.label_eq ?_ id
  intro id old new hburned
  rw [BurnedOnly] at hburned
  rw [hburned]
  exact ⟨rfl, rfl⟩

/-- A transaction that etches nothing leaves names, numbers and count. -/
theorem TransactionDone.unchanged (done : TransactionDone add sub s tx minted etched after)
    (hnone : etchingOf s tx = none) :
    (∀ id, label after.idToEntry id = label s.tables.idToEntry id) ∧
      after.duneToId = s.tables.duneToId ∧ after.dunes = s.tables.dunes := by
  cases done.etching with
  | skipped _ hentries hnames hcount =>
      refine ⟨fun id => ?_, ?_, ?_⟩
      · rw [done.burned_label, hentries, done.mints.label_eq]
      · rw [done.names, hnames, done.mintedNames]
      · rw [done.count, hcount, done.mintedCount]
  | etched hfound =>
      rw [hnone] at hfound
      cases hfound

/-- A transaction that etches adds one name under one id. -/
theorem TransactionDone.registered {found : Allocation}
    (done : TransactionDone add sub s tx minted etched after) (hsome : etchingOf s tx = some found) :
    (∀ id, label after.idToEntry id =
        if id = found.id then some (found.dune, s.tables.dunes) else label s.tables.idToEntry id) ∧
      after.duneToId = s.tables.duneToId.insert found.dune found.id ∧
      after.dunes = s.tables.dunes + 1 := by
  cases done.etching with
  | skipped hnone =>
      rw [hnone] at hsome
      cases hsome
  | etched hfound hentry hentries hnames hcount =>
      cases hfound.symm.trans hsome
      refine ⟨fun id => ?_, ?_, ?_⟩
      · rw [done.burned_label, hentries, label, lookup_insert_ite]
        split
        · rw [map_some, hentry.dune, hentry.number]
        · exact done.mints.label_eq id
      · rw [done.names, hnames, done.mintedNames]
      · rw [done.count, hcount, done.mintedCount]

end Labels

/-- The name of an accepted etching: one that was given, long enough, not reserved and not taken, or
the next reserved one. -/
theorem allocation_name {dunes : DuneTables} {block : BlockInfo} {index : ℕ} {etching : Etching}
    {found : Allocation} (hfound : (allocation dunes block index (some etching)).1 = some found) :
    match etching.dune with
    | some name => found.dune = name ∧ block.minimum ≤ name ∧ name < reserved ∧
        dunes.duneToId.lookup name = none ∧
        (allocation dunes block index (some etching)).2.reservedDunes = dunes.reservedDunes
    | none => found.dune = reserved + dunes.reservedDunes ∧
        (allocation dunes block index (some etching)).2.reservedDunes = dunes.reservedDunes + 1 := by
  obtain ⟨hindex, -⟩ := allocation_some hfound
  by_cases hrejected : nameRejected dunes block.minimum etching.dune = true
  · simp [allocation, hrejected] at hfound
  · cases hname : etching.dune with
    | some name =>
        rw [hname] at hrejected
        simp only [allocation, hname, hrejected, hindex, if_true] at hfound ⊢
        cases hfound
        have haccepted : block.minimum ≤ name ∧ name < reserved ∧
            dunes.duneToId.lookup name = none := by
          simpa [nameRejected, and_assoc] using hrejected
        exact ⟨rfl, haccepted.1, haccepted.2.1, haccepted.2.2, rfl⟩
    | none =>
        rw [hname] at hrejected
        simp only [allocation, hname, hrejected, hindex, if_true] at hfound ⊢
        cases hfound
        exact ⟨rfl, rfl⟩

/-- The name that the etcher gave. -/
def givenName (tx : Transaction) : Option ℕ :=
  ((Dunestone.fromTransaction tx).bind Dunestone.etching).bind Etching.dune

/-- What is known of an etching that becomes an entry: its id is its place in the chain, and its name
is one that the etcher gave or the next reserved one. -/
theorem etchingOf_some {s : DuneIndex} {tx : Transaction} {found : Allocation}
    (hfound : etchingOf s tx = some found) :
    s.index < 2 ^ 16 ∧ found.id = s.block.height * 2 ^ 16 + s.index ∧
      match givenName tx with
      | some name => found.dune = name ∧ s.block.minimum ≤ name ∧ name < reserved ∧
          s.tables.duneToId.lookup name = none ∧ reservedAfter s tx = s.tables.reservedDunes
      | none => found.dune = reserved + s.tables.reservedDunes ∧
          reservedAfter s tx = s.tables.reservedDunes + 1 := by
  obtain ⟨dunestone, hdunestone, hfound⟩ := bind_eq_some_iff.1 hfound
  obtain ⟨hindex, hid, etching, hetching, -⟩ := allocation_some hfound
  refine ⟨hindex, hid, ?_⟩
  have hafter : reservedAfter s tx =
      (allocation s.tables s.block s.index (some etching)).2.reservedDunes := by
    rw [reservedAfter, hdunestone, ← hetching]
  have hgiven : givenName tx = etching.dune := by
    rw [givenName, hdunestone, bind_some, hetching, bind_some]
  rw [hgiven, hafter]
  rw [hetching] at hfound
  exact allocation_name hfound

theorem reserved_le_after (s : DuneIndex) (tx : Transaction) :
    s.tables.reservedDunes ≤ reservedAfter s tx := by
  unfold reservedAfter
  cases Dunestone.fromTransaction tx with
  | none => exact Nat.le_refl _
  | some dunestone =>
      cases hetching : dunestone.etching with
      | none => simp [allocation, hetching]
      | some etching =>
          by_cases hrejected : nameRejected s.tables s.block.minimum etching.dune = true
          · simp [allocation, hetching, hrejected]
          · cases hname : etching.dune <;> rw [hname] at hrejected <;>
              simp only [allocation, hetching, hname, hrejected, Bool.false_eq_true, if_false] <;>
              split <;> simp

/-! ### Runs -/

/-- One step of the updater in a build that panics or wraps. -/
def DuneIndex.stepWith (overflow : Overflow) (s : DuneIndex) : DuneAction → Option DuneIndex
  | .nextBlock block =>
      some { s with block := { block with height := s.block.height + 1 }, index := 0 }
  | .transaction tx => do
      let tables ← indexDunes s.block s.index tx s.tables overflow.add overflow.sub
      some { s with index := s.index + 1, tables := tables }

/-- One etching of a run. -/
structure EtchRecord where
  id : ℕ
  dune : ℕ
  given : Option ℕ
  minimum : ℕ
deriving DecidableEq, Repr

/-- The etching of a transaction, if it becomes an entry. -/
def recordOf (s : DuneIndex) (tx : Transaction) : Option EtchRecord :=
  (etchingOf s tx).map fun found =>
    { id := found.id, dune := found.dune, given := givenName tx, minimum := s.block.minimum }

/-- The index with the etchings so far, in order. -/
structure DuneRun where
  index : DuneIndex
  etchings : List EtchRecord

def DuneRun.initial (block : BlockInfo) : DuneRun where
  index := DuneIndex.initial block
  etchings := []

def DuneIndex.etchingsOf (s : DuneIndex) : DuneAction → List EtchRecord
  | .nextBlock _ => []
  | .transaction tx => (recordOf s tx).toList

def DuneRun.step (overflow : Overflow) (run : DuneRun) (action : DuneAction) : Option DuneRun := do
  let next ← run.index.stepWith overflow action
  some { index := next, etchings := run.etchings ++ run.index.etchingsOf action }

/-- The registry of a run. -/
structure Registered (run : DuneRun) : Prop where
  inverse : ∀ name id, run.index.tables.duneToId.lookup name = some id ↔
    ∃ number, label run.index.tables.idToEntry id = some (name, number)
  numbered : ∀ number record, run.etchings[number]? = some record →
    label run.index.tables.idToEntry record.id = some (record.dune, number)
  complete : ∀ id name number, label run.index.tables.idToEntry id = some (name, number) →
    ∃ record, run.etchings[number]? = some record ∧ record.id = id
  count : run.index.tables.dunes = run.etchings.length
  given : ∀ record ∈ run.etchings, ∀ name, record.given = some name →
    record.dune = name ∧ record.minimum ≤ name ∧ name < reserved
  unnamed : ∀ record ∈ run.etchings, record.given = none →
    reserved ≤ record.dune ∧ record.dune < reserved + run.index.tables.reservedDunes
  position : ∀ id, HasEntry run.index.tables.idToEntry id →
    id < run.index.block.height * 2 ^ 16 + run.index.index ∧ id < (run.index.block.height + 1) * 2 ^ 16
  rows : RowsWithin (HasEntry run.index.tables.idToEntry) run.index.tables.outpointToBalances

theorem getElem?_append_singleton {α : Type} {items : List α} {last item : α} {i : ℕ}
    (hitem : (items ++ [last])[i]? = some item) :
    items[i]? = some item ∨ i = items.length ∧ item = last := by
  rw [List.getElem?_append] at hitem
  split at hitem
  · exact .inl hitem
  · rename_i hlarge
    obtain ⟨hlt, heq⟩ := List.getElem?_eq_some_iff.1 hitem
    simp only [List.length_singleton, Nat.lt_one_iff] at hlt
    refine .inr ⟨by omega, ?_⟩
    simpa [hlt] using heq.symm

namespace Registered

variable {run : DuneRun}

theorem initial (block : BlockInfo) : Registered (DuneRun.initial block) where
  inverse name id := by simp [DuneRun.initial, DuneIndex.initial, DuneTables.empty, label]
  numbered _ _ h := by simp [DuneRun.initial] at h
  complete _ _ _ h := by simp [DuneRun.initial, DuneIndex.initial, DuneTables.empty, label] at h
  count := rfl
  given _ h := by simp [DuneRun.initial] at h
  unnamed _ h := by simp [DuneRun.initial] at h
  position _ h := by simp [DuneRun.initial, DuneIndex.initial, DuneTables.empty, HasEntry] at h
  rows _ _ h := by simp [DuneRun.initial, DuneIndex.initial, DuneTables.empty] at h

/-- No etched name was taken before. -/
theorem lookup_new (registered : Registered run) {tx : Transaction} {found : Allocation}
    (hfound : etchingOf run.index tx = some found) :
    run.index.tables.duneToId.lookup found.dune = none := by
  obtain ⟨-, -, hname⟩ := etchingOf_some hfound
  cases hgiven : givenName tx with
  | some name =>
      rw [hgiven] at hname
      obtain ⟨rfl, -, -, hnone, -⟩ := hname
      exact hnone
  | none =>
      rw [hgiven] at hname
      by_contra htaken
      obtain ⟨id, hid⟩ := Option.ne_none_iff_exists'.1 htaken
      obtain ⟨number, hlabel⟩ := (registered.inverse _ _).1 hid
      obtain ⟨record, hrecord, rfl⟩ := registered.complete _ _ _ hlabel
      have hdune := registered.numbered _ _ hrecord
      rw [hlabel] at hdune
      have hdune : found.dune = record.dune := (Prod.mk.inj (Option.some.inj hdune)).1
      have hmem := List.mem_of_getElem? hrecord
      cases hsource : record.given with
      | some name =>
          obtain ⟨hsame, -, hlt⟩ := registered.given record hmem name hsource
          omega
      | none =>
          obtain ⟨-, hlt⟩ := registered.unnamed record hmem hsource
          omega

/-- No etched id was taken before. -/
theorem label_new (registered : Registered run) {tx : Transaction} {found : Allocation}
    (hfound : etchingOf run.index tx = some found) :
    label run.index.tables.idToEntry found.id = none := by
  obtain ⟨-, hid, -⟩ := etchingOf_some hfound
  by_contra htaken
  have hentry := hasEntry_iff_label.2 (Option.ne_none_iff_exists'.1 htaken)
  have hlt := (registered.position _ hentry).1
  omega

/-- The next block only moves the place in the chain. -/
theorem nextBlock (registered : Registered run) (block : BlockInfo) :
    Registered { index := { run.index with
                   block := { block with height := run.index.block.height + 1 }, index := 0 },
                 etchings := run.etchings ++ [] } := by
  rw [List.append_nil]
  refine { registered with position := fun id hentry => ?_ }
  have hlt := (registered.position id hentry).2
  dsimp only
  omega

/-- A transaction without an etching keeps the registry. -/
theorem unchanged (registered : Registered run) {add sub : ℕ → ℕ → Option ℕ} {tx : Transaction}
    {minted etched after : DuneTables}
    (done : TransactionDone add sub run.index tx minted etched after)
    (hrows : RowsWithin (HasEntry after.idToEntry) after.outpointToBalances)
    (hnone : etchingOf run.index tx = none) :
    Registered { index := { run.index with index := run.index.index + 1, tables := after },
                 etchings := run.etchings } := by
  obtain ⟨hlabel, hnames, hcount⟩ := done.unchanged hnone
  constructor
  · intro name id
    dsimp only
    rw [hnames, hlabel]
    exact registered.inverse name id
  · intro number record hrecord
    exact (hlabel _).trans (registered.numbered number record hrecord)
  · intro id name number hfound
    exact registered.complete id name number ((hlabel id).symm.trans hfound)
  · exact hcount.trans registered.count
  · exact registered.given
  · intro record hmem hnone
    obtain ⟨hle, hlt⟩ := registered.unnamed record hmem hnone
    have hmore := reserved_le_after run.index tx
    rw [← done.reserved] at hmore
    exact ⟨hle, by dsimp only; omega⟩
  · intro id hentry
    have hbefore : HasEntry run.index.tables.idToEntry id := by
      rw [hasEntry_iff_label] at hentry ⊢
      obtain ⟨found, hfound⟩ := hentry
      exact ⟨found, (hlabel id).symm.trans hfound⟩
    obtain ⟨hlt, hblock⟩ := registered.position id hbefore
    exact ⟨by dsimp only; omega, hblock⟩
  · exact hrows

/-- A transaction with an etching adds its name, id and number. -/
theorem etch (registered : Registered run) {add sub : ℕ → ℕ → Option ℕ} {tx : Transaction}
    {minted etched after : DuneTables} {found : Allocation}
    (done : TransactionDone add sub run.index tx minted etched after)
    (hrows : RowsWithin (HasEntry after.idToEntry) after.outpointToBalances)
    (hfound : etchingOf run.index tx = some found) :
    Registered { index := { run.index with index := run.index.index + 1, tables := after },
                 etchings := run.etchings ++ [{ id := found.id, dune := found.dune,
                                                given := givenName tx,
                                                minimum := run.index.block.minimum }] } := by
  obtain ⟨hlabel, hnames, hcount⟩ := done.registered hfound
  have hnew := registered.lookup_new hfound
  have hfree := registered.label_new hfound
  obtain ⟨hindex, hid, hname⟩ := etchingOf_some hfound
  -- the old labels are not under the new id
  have hold : ∀ {id : ℕ} {entry : ℕ × ℕ}, label run.index.tables.idToEntry id = some entry →
      label after.idToEntry id = some entry := by
    intro id entry hentry
    rw [hlabel, if_neg, hentry]
    rintro rfl
    rw [hfree] at hentry
    cases hentry
  constructor
  · intro name id
    dsimp only
    rw [hnames, lookup_insert_ite, hlabel]
    by_cases hsame : name = found.dune
    · rw [if_pos hsame, hsame]
      by_cases hplace : id = found.id
      · simp [hplace]
      · rw [if_neg hplace]
        constructor
        · intro heq
          exact absurd (Option.some.inj heq).symm hplace
        · rintro ⟨number, hnumber⟩
          have htaken := (registered.inverse _ _).2 ⟨number, hnumber⟩
          rw [hnew] at htaken
          cases htaken
    · rw [if_neg hsame, registered.inverse]
      by_cases hplace : id = found.id
      · rw [if_pos hplace, hplace, hfree]
        constructor
        · rintro ⟨number, hnumber⟩
          cases hnumber
        · rintro ⟨number, hnumber⟩
          exact absurd (Prod.mk.inj (Option.some.inj hnumber)).1.symm hsame
      · rw [if_neg hplace]
  · intro number record hrecord
    rcases getElem?_append_singleton hrecord with hrecord | ⟨rfl, rfl⟩
    · exact hold (registered.numbered number record hrecord)
    · exact (hlabel _).trans (by rw [if_pos rfl, registered.count])
  · intro id name number hentry
    dsimp only at hentry ⊢
    rw [hlabel] at hentry
    split at hentry
    next hplace =>
      cases hentry
      refine ⟨{ id := found.id, dune := found.dune, given := givenName tx,
                minimum := run.index.block.minimum }, ?_, hplace.symm⟩
      rw [registered.count]
      exact List.getElem?_concat_length
    next =>
      obtain ⟨record, hrecord, hplace⟩ := registered.complete id name number hentry
      have hlt := (List.getElem?_eq_some_iff.1 hrecord).1
      exact ⟨record, (List.getElem?_append_left hlt).trans hrecord, hplace⟩
  · dsimp only
    rw [hcount, registered.count, List.length_append]
    rfl
  · intro record hmem name hgiven
    rcases List.mem_append.1 hmem with hmem | hmem
    · exact registered.given record hmem name hgiven
    · obtain rfl := List.mem_singleton.1 hmem
      dsimp only at hgiven ⊢
      rw [hgiven] at hname
      exact ⟨hname.1, hname.2.1, hname.2.2.1⟩
  · intro record hmem hgiven
    have hmore := reserved_le_after run.index tx
    rw [← done.reserved] at hmore
    dsimp only
    rcases List.mem_append.1 hmem with hmem | hmem
    · obtain ⟨hle, hlt⟩ := registered.unnamed record hmem hgiven
      exact ⟨hle, by omega⟩
    · obtain rfl := List.mem_singleton.1 hmem
      dsimp only at hgiven ⊢
      rw [hgiven, ← done.reserved] at hname
      obtain ⟨hdune, hafter⟩ := hname
      omega
  · intro id hentry
    dsimp only at hentry ⊢
    rw [hasEntry_iff_label] at hentry
    obtain ⟨entry, hentry⟩ := hentry
    rw [hlabel] at hentry
    split at hentry
    next hplace => omega
    next =>
      obtain ⟨hlt, hblock⟩ := registered.position id (hasEntry_iff_label.2 ⟨entry, hentry⟩)
      exact ⟨by omega, hblock⟩
  · exact hrows

theorem step (registered : Registered run) {overflow : Overflow} {action : DuneAction} {next : DuneRun}
    (hstep : run.step overflow action = some next) : Registered next := by
  obtain ⟨index, hindex, hnext⟩ := bind_eq_some_iff.1 hstep
  cases hnext
  cases action with
  | nextBlock block =>
      cases hindex
      exact registered.nextBlock block
  | transaction tx =>
      obtain ⟨after, hafter, hindex⟩ := bind_eq_some_iff.1 hindex
      cases hindex
      obtain ⟨minted, etched, done⟩ := transaction_done hafter
      have hrows := transaction_rows registered.rows hafter
      cases hfound : etchingOf run.index tx with
      | none =>
          have hempty : run.index.etchingsOf (.transaction tx) = [] := by
            simp [DuneIndex.etchingsOf, recordOf, hfound]
          rw [hempty, List.append_nil]
          exact registered.unchanged done hrows hfound
      | some found =>
          have hone : run.index.etchingsOf (.transaction tx) =
              [{ id := found.id, dune := found.dune, given := givenName tx,
                 minimum := run.index.block.minimum }] := by
            simp [DuneIndex.etchingsOf, recordOf, hfound]
          rw [hone]
          exact registered.etch done hrows hfound

end Registered

/-- What the registry promises of a run. -/
structure RegistryLaws (overflow : Overflow) (run : DuneRun) : Prop where
  /-- `dune_to_id` and `id_to_entry` are inverse on names. -/
  inverse : ∀ name id, run.index.tables.duneToId.lookup name = some id ↔
    ∃ entry, run.index.tables.idToEntry.lookup id = some entry ∧ entry.dune = name
  /-- No name and no id is etched twice. -/
  names : (run.etchings.map EtchRecord.dune).Nodup
  ids : (run.etchings.map EtchRecord.id).Nodup
  /-- The entries are numbered in the order of the etchings, and counted. -/
  numbers : ∀ number record, run.etchings[number]? = some record →
    ∃ entry, run.index.tables.idToEntry.lookup record.id = some entry ∧
      entry.dune = record.dune ∧ entry.number = number
  complete : ∀ id, HasEntry run.index.tables.idToEntry id → ∃ record ∈ run.etchings, record.id = id
  count : run.index.tables.dunes = run.etchings.length
  /-- A name that was given is long enough and not reserved, any other is reserved. -/
  given : ∀ record ∈ run.etchings, ∀ name, record.given = some name →
    record.dune = name ∧ record.minimum ≤ name ∧ name < reserved
  unnamed : ∀ record ∈ run.etchings, record.given = none → reserved ≤ record.dune
  /-- Every id that is held has an entry, under a key that is a dune id. -/
  rows : RowsWithin (HasEntry run.index.tables.idToEntry) run.index.tables.outpointToBalances
  keys : run.index.block.height < 2 ^ 32 →
    ∀ id, HasEntry run.index.tables.idToEntry id → isDuneId id = true
  /-- The next transaction finds an entry for every dune it mints or burns. -/
  unwraps : ∀ tx, UnwrapsHold overflow.add overflow.sub run.index tx

theorem nodup_map_of_getElem? {α β : Type} {items : List α} {key : α → β}
    (hkeys : ∀ {i j : ℕ} {first second : α}, items[i]? = some first → items[j]? = some second →
      key first = key second → i = j) : (items.map key).Nodup := by
  rw [List.nodup_iff_getElem?_ne_getElem?]
  intro i j hlt hlength heq
  rw [List.length_map] at hlength
  rw [List.getElem?_map, List.getElem?_map, List.getElem?_eq_getElem hlength,
    List.getElem?_eq_getElem (hlt.trans hlength)] at heq
  exact absurd (hkeys (List.getElem?_eq_getElem (hlt.trans hlength))
    (List.getElem?_eq_getElem hlength) (Option.some.inj heq)) hlt.ne

theorem Registered.nodup {run : DuneRun} (registered : Registered run) :
    (run.etchings.map EtchRecord.dune).Nodup ∧ (run.etchings.map EtchRecord.id).Nodup := by
  have hids : ∀ {i j : ℕ} {first second : EtchRecord}, run.etchings[i]? = some first →
      run.etchings[j]? = some second → first.id = second.id → i = j := by
    intro i j first second hfirst hsecond hsame
    have hlabel := registered.numbered i first hfirst
    rw [hsame, registered.numbered j second hsecond] at hlabel
    exact (Prod.mk.inj (Option.some.inj hlabel)).2.symm
  have hnames : ∀ {i j : ℕ} {first second : EtchRecord}, run.etchings[i]? = some first →
      run.etchings[j]? = some second → first.dune = second.dune → i = j := by
    intro i j first second hfirst hsecond hsame
    have hplace := (registered.inverse _ _).2 ⟨i, registered.numbered i first hfirst⟩
    have hother := (registered.inverse _ _).2 ⟨j, registered.numbered j second hsecond⟩
    rw [hsame, hother] at hplace
    exact hids hfirst hsecond (Option.some.inj hplace).symm
  exact ⟨nodup_map_of_getElem? hnames, nodup_map_of_getElem? hids⟩

/-- In every run from the empty tables, in a build that panics on overflow and in one that wraps, the
registry keeps its laws. -/
theorem registry_of_reaches (overflow : Overflow) (block : BlockInfo) {run : DuneRun}
    (reaches : Run.Reaches (DuneRun.step overflow) (fun _ _ => True) (DuneRun.initial block) run) :
    RegistryLaws overflow run := by
  have registered : Registered run :=
    reaches.invariant Registered (fun registered _ hstep => registered.step hstep) (.initial block)
  obtain ⟨hnames, hids⟩ := registered.nodup
  constructor
  · intro name id
    rw [registered.inverse]
    simp only [label_eq_some]
    constructor
    · rintro ⟨number, entry, hentry, hdune, -⟩
      exact ⟨entry, hentry, hdune⟩
    · rintro ⟨entry, hentry, hdune⟩
      exact ⟨entry.number, entry, hentry, hdune, rfl⟩
  · exact hnames
  · exact hids
  · intro number record hrecord
    exact label_eq_some.1 (registered.numbered number record hrecord)
  · intro id hentry
    obtain ⟨⟨name, number⟩, hlabel⟩ := hasEntry_iff_label.1 hentry
    obtain ⟨record, hrecord, hplace⟩ := registered.complete id name number hlabel
    exact ⟨record, List.mem_of_getElem? hrecord, hplace⟩
  · exact registered.count
  · exact registered.given
  · exact fun record hmem hgiven => (registered.unnamed record hmem hgiven).1
  · exact registered.rows
  · intro hheight id hentry
    have hlt := (registered.position id hentry).2
    have hblock : id / 2 ^ 16 < run.index.block.height + 1 :=
      Nat.div_lt_of_lt_mul (by rwa [Nat.mul_comm] at hlt)
    have hsmall : run.index.block.height + 1 ≤ 2 ^ 64 :=
      hheight.trans_le (Nat.pow_le_pow_right (by decide) (by decide))
    have hshift : id >>> 16 < 2 ^ 64 := by
      rw [Nat.shiftRight_eq_div_pow]
      exact hblock.trans_le hsmall
    exact decide_eq_true hshift
  · exact fun tx => unwraps_hold registered.rows

/-- A dune etched under the name 5, then one without a name, in a release build. -/
def twoEtchings : List DuneAction :=
  [.transaction { txid := 1, input := [], output := [⟨1, []⟩, dunestoneOutput [2, 1, 4, 5]] },
    .transaction { txid := 2, input := [], output := [⟨1, []⟩, dunestoneOutput [2, 1]] }]

theorem twoEtchings_registered :
    ∃ run, Run.Reaches (DuneRun.step .wraps) (fun _ _ => True) (DuneRun.initial sampleBlock) run ∧
      run.etchings.map EtchRecord.dune = [5, reserved] ∧ RegistryLaws .wraps run := by
  have hexec : (Run.exec (DuneRun.step .wraps) (fun _ _ => true) twoEtchings
      (DuneRun.initial sampleBlock)).map (fun run => run.etchings.map EtchRecord.dune) =
        some [5, reserved] := by decide
  obtain ⟨run, reaches, hnames⟩ := Run.exists_reaches_of_exec (fun _ => trivial) hexec
  exact ⟨run, reaches, hnames, registry_of_reaches .wraps sampleBlock reaches⟩

end OrdDogecoin.Dunes
