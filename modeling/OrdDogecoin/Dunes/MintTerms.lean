/-
Module: OrdDogecoin.Dunes.MintTerms
Purpose: The terms of a dune over every run of blocks and transactions, in a build that panics on
  overflow and in one that wraps: how often a dune is minted, by how much and at which heights.
Trusted boundary: as in OrdDogecoin.Dunes.Registry
Main exports: applyEdicts_mintable, TermsKept, terms_of_reaches
-/
import OrdDogecoin.Dunes.Registry
import Mathlib.Algebra.Order.BigOperators.Group.List

namespace OrdDogecoin.Dunes

open Chain
open KeyTable
open Option (bind_eq_some_iff map_eq_some_iff bind_some map_some)

/-! ### Arithmetic of both builds -/

theorem Overflow.sub_of_le (overflow : Overflow) {a b : ℕ} (hle : b ≤ a) (hbound : a ≤ maxU128) :
    overflow.sub a b = some (a - b) := by
  have hmax : maxU128 + 1 = 2 ^ 128 := rfl
  cases overflow with
  | panics => exact if_pos hle
  | wraps =>
      have hwrap : a + 2 ^ 128 - b = a - b + 2 ^ 128 := by omega
      have hsmall : a - b < 2 ^ 128 := by omega
      change some ((a + 2 ^ 128 - b) % 2 ^ 128) = _
      rw [hwrap, Nat.add_mod_right, Nat.mod_eq_of_lt hsmall]

theorem Overflow.add_of_le (overflow : Overflow) {a b : ℕ} (hle : a + b ≤ maxU128) :
    overflow.add a b = some (a + b) := by
  have hmax : maxU128 + 1 = 2 ^ 128 := rfl
  cases overflow with
  | panics => exact if_pos hle
  | wraps =>
      change some ((a + b) % 2 ^ 128) = _
      rw [Nat.mod_eq_of_lt (by omega)]

theorem Overflow.le_of_add {overflow : Overflow} {a b sum : ℕ} (hsum : overflow.add a b = some sum) :
    sum ≤ a + b := by
  cases overflow with
  | panics =>
      change checkedAdd a b = some sum at hsum
      unfold checkedAdd at hsum
      split at hsum
      · cases hsum
        exact Nat.le_refl _
      · cases hsum
  | wraps =>
      cases hsum
      exact Nat.mod_le _ _

theorem Overflow.add_mod {overflow : Overflow} {a b sum : ℕ} (hsum : overflow.add a b = some sum) :
    sum % 2 ^ 128 = (a + b) % 2 ^ 128 := by
  cases overflow with
  | panics =>
      change checkedAdd a b = some sum at hsum
      unfold checkedAdd at hsum
      split at hsum
      · cases hsum
        rfl
      · cases hsum
  | wraps =>
      cases hsum
      exact Nat.mod_mod _ _

/-! ### What the edicts leave of a limit -/

section Edicts

variable {overflow : Overflow} {newId : Option ℕ} {edict : Edict} {pools after : Pools}

theorem allocate_length {add : ℕ → ℕ → Option ℕ} {allocated after : List Amounts}
    {output id amount : ℕ} (hallocate : allocate allocated output id amount add = some after) :
    after.length = allocated.length := by
  obtain ⟨amounts, -, hallocate⟩ := bind_eq_some_iff.1 hallocate
  obtain ⟨credited, -, hallocate⟩ := bind_eq_some_iff.1 hallocate
  cases hallocate
  exact List.length_set

theorem moveAmount_length {add sub : ℕ → ℕ → Option ℕ} {allocated moved : List Amounts}
    {output id balance amount rest : ℕ}
    (hmove : moveAmount allocated output id balance amount add sub = some (rest, moved)) :
    moved.length = allocated.length := by
  unfold moveAmount at hmove
  dsimp only at hmove
  split at hmove
  · obtain ⟨left, -, hmove⟩ := bind_eq_some_iff.1 hmove
    obtain ⟨given, hgiven, hmove⟩ := bind_eq_some_iff.1 hmove
    cases hmove
    exact allocate_length hgiven
  · cases hmove
    rfl

theorem moveAmount_rest {allocated moved : List Amounts} {output id balance amount rest : ℕ}
    (hmove : moveAmount allocated output id balance amount overflow.add overflow.sub =
      some (rest, moved)) (hbound : balance ≤ maxU128) :
    rest = balance - taken balance amount := by
  unfold moveAmount at hmove
  dsimp only at hmove
  split at hmove
  · obtain ⟨left, hleft, hmove⟩ := bind_eq_some_iff.1 hmove
    obtain ⟨given, -, hmove⟩ := bind_eq_some_iff.1 hmove
    cases hmove
    rw [overflow.sub_of_le (taken_le balance amount) hbound] at hleft
    exact (Option.some.inj hleft).symm
  · cases hmove
    omega

theorem applyEdict_length (happly : applyEdict newId edict pools overflow.add overflow.sub = some after) :
    after.allocated.length = pools.allocated.length := by
  unfold applyEdict at happly
  split at happly
  · cases happly
    rfl
  · split at happly
    · cases newId with
      | none =>
          cases happly
          rfl
      | some id =>
          obtain ⟨premine, -, happly⟩ := bind_eq_some_iff.1 happly
          obtain ⟨moved, hmove, happly⟩ := bind_eq_some_iff.1 happly
          cases happly
          exact moveAmount_length hmove
    · split at happly
      all_goals
        split at happly
        · cases happly
          rfl
        · obtain ⟨moved, hmove, happly⟩ := bind_eq_some_iff.1 happly
          cases happly
          exact moveAmount_length hmove

/-- What an edict leaves of a limit. -/
def restAfter (outputs id : ℕ) (edict : Edict) (balance : ℕ) : ℕ :=
  if edict.output < outputs ∧ claim edict.id = some id then balance - taken balance edict.amount
  else balance

theorem restAfter_le (outputs id : ℕ) (edict : Edict) (balance : ℕ) :
    restAfter outputs id edict balance ≤ balance := by
  unfold restAfter
  split
  · exact Nat.sub_le _ _
  · exact Nat.le_refl _

/-- One edict takes from the limit it claims and from no other. -/
theorem applyEdict_mintable
    (happly : applyEdict newId edict pools overflow.add overflow.sub = some after)
    (hbound : ∀ id balance, pools.mintable.lookup id = some balance → balance ≤ maxU128) (id : ℕ) :
    after.mintable.lookup id =
      (pools.mintable.lookup id).map (restAfter pools.allocated.length id edict) := by
  -- the edicts that claim nothing leave every limit
  have hkept : ¬ (edict.output < pools.allocated.length ∧ claim edict.id = some id) →
      pools.mintable.lookup id =
        (pools.mintable.lookup id).map (restAfter pools.allocated.length id edict) := by
    intro hnot
    have hsame : restAfter pools.allocated.length id edict = fun balance => balance :=
      funext fun balance => if_neg hnot
    rw [hsame, Option.map_id']
  unfold applyEdict at happly
  split at happly
  next hlarge =>
    cases happly
    exact hkept fun h => absurd h.1 (Nat.not_lt.2 hlarge)
  next hsmall =>
    split at happly
    next hzero =>
      have hnot : ¬ (edict.output < pools.allocated.length ∧ claim edict.id = some id) := by
        rw [hzero, claim_zero]
        exact fun h => (nomatch h.2)
      cases newId with
      | none =>
          cases happly
          exact hkept hnot
      | some newId =>
          obtain ⟨premine, -, happly⟩ := bind_eq_some_iff.1 happly
          obtain ⟨moved, -, happly⟩ := bind_eq_some_iff.1 happly
          cases happly
          exact hkept hnot
    next =>
      split at happly
      next claimed hclaim =>
        split at happly
        next hnone =>
          cases happly
          by_cases hsame : id = claimed
          · rw [hsame, hnone]
            rfl
          · refine hkept fun h => hsame ?_
            exact Option.some.inj (h.2.symm.trans hclaim)
        next balance hbalance =>
          obtain ⟨⟨rest, allocated⟩, hmove, happly⟩ := bind_eq_some_iff.1 happly
          cases happly
          dsimp only
          rw [lookup_insert_ite]
          split
          next hsame =>
            subst hsame
            rw [hbalance, map_some, moveAmount_rest hmove (hbound _ _ hbalance), restAfter,
              if_pos ⟨Nat.not_le.1 hsmall, hclaim⟩]
          next hother =>
            refine hkept fun h => hother ?_
            exact Option.some.inj (h.2.symm.trans hclaim)
      next hclaim =>
        have hnot : ¬ (edict.output < pools.allocated.length ∧ claim edict.id = some id) := by
          rw [hclaim]
          exact fun h => (nomatch h.2)
        split at happly
        · cases happly
          exact hkept hnot
        · obtain ⟨moved, -, happly⟩ := bind_eq_some_iff.1 happly
          cases happly
          exact hkept hnot

theorem restAfter_sub (outputs id : ℕ) (edict : Edict) (edicts : List Edict) (balance : ℕ) :
    restAfter outputs id edict balance -
        mintRequest outputs id (restAfter outputs id edict balance) edicts =
      balance - mintRequest outputs id balance (edict :: edicts) := by
  unfold restAfter
  split
  next hclaim =>
    rw [mintRequest_cons hclaim.1 hclaim.2]
    omega
  next hnot => rw [mintRequest_cons_of_not hnot]

/-- The edicts leave of a limit what their claims did not ask for. -/
theorem applyEdicts_mintable {edicts : List Edict}
    (happly : applyEdicts newId edicts pools overflow.add overflow.sub = some after)
    (hbound : ∀ id balance, pools.mintable.lookup id = some balance → balance ≤ maxU128) (id : ℕ) :
    after.mintable.lookup id = (pools.mintable.lookup id).map fun balance =>
      balance - mintRequest pools.allocated.length id balance edicts := by
  induction edicts generalizing pools with
  | nil =>
      cases happly
      simp [mintRequest, claimAmounts]
  | cons edict edicts ih =>
      obtain ⟨next, hnext, happly⟩ := bind_eq_some_iff.1 happly
      have hfirst := applyEdict_mintable hnext hbound
      have hrest := ih happly (fun other balance hbalance => by
        rw [hfirst] at hbalance
        obtain ⟨old, hold, rfl⟩ := map_eq_some_iff.1 hbalance
        exact (restAfter_le _ _ _ _).trans (hbound _ _ hold))
      rw [hrest, hfirst, Option.map_map, applyEdict_length hnext]
      congr 1
      funext balance
      exact restAfter_sub _ _ _ _ _

end Edicts

/-! ### Terms -/

/-- The heights at which a dune etched at `block` can be minted: from the later of its absolute and
relative starts until before the earlier of its ends. -/
structure WithinTerms (terms : Terms) (block height : ℕ) : Prop where
  heightStart : ∀ start, terms.height.1 = some start → start ≤ height
  offsetStart : ∀ start, terms.offset.1 = some start → saturatingAddU64 block start ≤ height
  heightEnd : ∀ stop, terms.height.2 = some stop → height < stop
  offsetEnd : ∀ stop, terms.offset.2 = some stop → height < saturatingAddU64 block stop

theorem combine_max_le {relative absolute : Option ℕ} {height : ℕ}
    (hstart : (combine max relative absolute).any (height < ·) = false) :
    (∀ start, relative = some start → start ≤ height) ∧
      ∀ start, absolute = some start → start ≤ height := by
  cases relative <;> cases absolute <;> simp_all [combine]

theorem lt_combine_min {relative absolute : Option ℕ} {height : ℕ}
    (hend : (combine min relative absolute).any (· ≤ height) = false) :
    (∀ stop, relative = some stop → height < stop) ∧
      ∀ stop, absolute = some stop → height < stop := by
  cases relative <;> cases absolute <;> simp_all [combine]

/-- A dune that can be minted has terms, is below its cap and within its heights. -/
theorem mintable_some {entry : DuneEntry} {height limit : ℕ}
    (hmintable : entry.mintable height = some limit) :
    ∃ terms, entry.terms = some terms ∧ limit = terms.limit.getD 0 ∧
      entry.mints < terms.cap.getD maxU128 ∧ WithinTerms terms entry.block height := by
  obtain ⟨terms, hterms, hmintable⟩ := bind_eq_some_iff.1 hmintable
  refine ⟨terms, hterms, ?_⟩
  split at hmintable
  · cases hmintable
  next hstart =>
    split at hmintable
    · cases hmintable
    next hend =>
      split at hmintable
      · cases hmintable
      next hcap =>
        cases hmintable
        rw [DuneEntry.start, hterms] at hstart
        rw [DuneEntry.end, hterms] at hend
        obtain ⟨hoffsetStart, hheightStart⟩ := combine_max_le (Bool.eq_false_iff.2 hstart)
        obtain ⟨hoffsetEnd, hheightEnd⟩ := lt_combine_min (Bool.eq_false_iff.2 hend)
        refine ⟨rfl, Nat.not_le.1 hcap, hheightStart, ?_, hheightEnd, ?_⟩
        · exact fun start hoffset => hoffsetStart _ (by rw [hoffset]; rfl)
        · exact fun stop hoffset => hoffsetEnd _ (by rw [hoffset]; rfl)

/-- The limit of an accepted etching is at most `u64::MAX`. -/
theorem allocation_limit {dunes : DuneTables} {block : BlockInfo} {index : ℕ}
    {etching : Option Etching} {found : Allocation} {terms : Terms}
    (hfound : (allocation dunes block index etching).1 = some found) (hterms : found.mint = some terms) :
    terms.limit.getD 0 ≤ maxLimit := by
  unfold allocation at hfound
  cases etching with
  | none => cases hfound
  | some etching =>
      dsimp only at hfound
      split at hfound
      · cases hfound
      · have hmint : found.mint = etching.terms.map fun terms =>
            { terms with limit := terms.limit.map (min · maxLimit) } := by
          cases hname : etching.dune <;> rw [hname] at hfound <;> dsimp only at hfound <;>
            split at hfound <;> cases hfound <;> rfl
        rw [hmint] at hterms
        obtain ⟨source, -, rfl⟩ := map_eq_some_iff.1 hterms
        cases source.limit with
        | none => exact Nat.zero_le _
        | some limit => exact Nat.min_le_right _ _

/-! ### Mints -/

/-- A transaction that minted a dune, with what all its claim edicts took together. -/
structure MintRecord where
  id : ℕ
  height : ℕ
  amount : ℕ
deriving DecidableEq, Repr

/-- What the claim edicts of a transaction mint of a dune. -/
def mintOf (s : DuneIndex) (outputs : ℕ) (edicts : List Edict) (id : ℕ) : Option MintRecord :=
  ((mintableAmounts s.tables.idToEntry s.block.height (claims edicts)).lookup id).bind fun limit =>
    let amount := mintRequest outputs id limit edicts
    if 0 < amount then some { id := id, height := s.block.height, amount := amount } else none

def mintsOf (s : DuneIndex) (tx : Transaction) : List MintRecord :=
  match Dunestone.fromTransaction tx with
  | none => []
  | some dunestone =>
      if dunestone.cenotaph then []
      else (claims dunestone.edicts).filterMap (mintOf s tx.output.length dunestone.edicts)

def mintsFor (mints : List MintRecord) (id : ℕ) : List MintRecord := mints.filter (·.id = id)

theorem mintsFor_append (mints others : List MintRecord) (id : ℕ) :
    mintsFor (mints ++ others) id = mintsFor mints id ++ mintsFor others id :=
  List.filter_append _ _

theorem mintOf_some {s : DuneIndex} {outputs id : ℕ} {edicts : List Edict} {record : MintRecord}
    (hrecord : mintOf s outputs edicts id = some record) :
    ∃ limit, (mintableAmounts s.tables.idToEntry s.block.height (claims edicts)).lookup id = some limit ∧
      0 < mintRequest outputs id limit edicts ∧
      record = { id := id, height := s.block.height, amount := mintRequest outputs id limit edicts } := by
  obtain ⟨limit, hlimit, hrecord⟩ := bind_eq_some_iff.1 hrecord
  dsimp only at hrecord
  split at hrecord
  next hpos =>
    cases hrecord
    exact ⟨limit, hlimit, hpos, rfl⟩
  next => cases hrecord

/-- Each dune is minted at most once by a list of distinct claims. -/
theorem mintsFor_filterMap {s : DuneIndex} {outputs : ℕ} {edicts : List Edict} (id : ℕ) :
    ∀ {ids : List ℕ}, ids.Nodup → (∀ record, mintOf s outputs edicts id = some record → id ∈ ids) →
      mintsFor (ids.filterMap (mintOf s outputs edicts)) id = (mintOf s outputs edicts id).toList
  | [], _, hmem => by
      cases hfound : mintOf s outputs edicts id with
      | none => rfl
      | some record => exact absurd (hmem record hfound) List.not_mem_nil
  | first :: ids, hnodup, hmem => by
      obtain ⟨hfresh, hnodup⟩ := List.nodup_cons.1 hnodup
      by_cases hsame : first = id
      · subst hsame
        -- the other claims are of other dunes
        have hothers : mintsFor (ids.filterMap (mintOf s outputs edicts)) first = [] := by
          rw [mintsFor, List.filter_eq_nil_iff]
          intro record hrecord
          obtain ⟨other, hother, hfound⟩ := List.mem_filterMap.1 hrecord
          obtain ⟨limit, -, -, rfl⟩ := mintOf_some hfound
          simp only [decide_eq_true_eq]
          rintro rfl
          exact hfresh hother
        cases hfound : mintOf s outputs edicts first with
        | none => rw [List.filterMap_cons_none hfound, hothers, Option.toList_none]
        | some record =>
            obtain ⟨limit, -, -, rfl⟩ := mintOf_some hfound
            rw [List.filterMap_cons_some hfound, mintsFor, List.filter_cons_of_pos (by simp)]
            rw [mintsFor] at hothers
            rw [hothers]
            rfl
      · have hrest := mintsFor_filterMap id hnodup fun record hfound => by
          rcases List.mem_cons.1 (hmem record hfound) with h | h
          · exact absurd h.symm hsame
          · exact h
        cases hfound : mintOf s outputs edicts first with
        | none => rw [List.filterMap_cons_none hfound, hrest]
        | some record =>
            obtain ⟨limit, -, -, rfl⟩ := mintOf_some hfound
            rw [List.filterMap_cons_some hfound, mintsFor, List.filter_cons_of_neg (by simpa using hsame)]
            exact hrest

theorem mem_pairs {amounts : Amounts} {id amount : ℕ} :
    (id, amount) ∈ pairs amounts ↔ amounts.lookup id = some amount := by
  constructor
  · intro hmem
    obtain ⟨row, hrow, heq⟩ := List.mem_map.1 hmem
    cases heq
    exact AList.mem_lookup_iff.2 hrow
  · intro hlookup
    exact List.mem_map.2 ⟨⟨id, amount⟩, AList.mem_lookup_iff.1 hlookup, rfl⟩

/-- What the records of a transaction say of a dune: the claim edicts took what was counted. -/
theorem mintsFor_mintsOf {s : DuneIndex} {tx : Transaction} {dunestone : Dunestone}
    (hdunestone : Dunestone.fromTransaction tx = some dunestone) (hplain : dunestone.cenotaph = false)
    (id : ℕ) :
    mintsFor (mintsOf s tx) id = (mintOf s tx.output.length dunestone.edicts id).toList := by
  unfold mintsOf
  rw [hdunestone]
  dsimp only
  rw [hplain, if_neg Bool.false_ne_true]
  refine mintsFor_filterMap id (List.nodup_dedup _) fun record hrecord => ?_
  obtain ⟨limit, hlimit, -⟩ := mintOf_some hrecord
  exact (lookup_mintableAmounts hlimit).1

theorem mintsOf_hasEntry {s : DuneIndex} {tx : Transaction} {record : MintRecord}
    (hrecord : record ∈ mintsOf s tx) : HasEntry s.tables.idToEntry record.id := by
  unfold mintsOf at hrecord
  split at hrecord
  · cases hrecord
  · split at hrecord
    · cases hrecord
    · obtain ⟨id, -, hfound⟩ := List.mem_filterMap.1 hrecord
      obtain ⟨limit, hlimit, -, rfl⟩ := mintOf_some hfound
      exact within_mintableAmounts _ _ _ _ _ hlimit

/-! ### Dunes and their mints -/

/-- A dune as it was etched, with the supply its entry began with. -/
structure Issue where
  id : ℕ
  height : ℕ
  supply : ℕ
  cenotaph : Bool
  terms : Option Terms

/-- A mint that the terms of a dune allow. -/
structure MintAllowed (terms : Terms) (block : ℕ) (record : MintRecord) : Prop where
  heights : WithinTerms terms block record.height
  positive : 0 < record.amount
  limited : record.amount ≤ terms.limit.getD 0

/-- What the mints so far and the entry of a dune have to do with each other. -/
structure EntryTerms (mints : List MintRecord) (issue : Issue) (entry : DuneEntry) : Prop where
  terms : entry.terms = if issue.cenotaph then none else issue.terms
  block : entry.block = issue.height
  fits : ∀ terms, entry.terms = some terms →
    terms.limit.getD 0 ≤ maxU128 ∧ terms.cap.getD maxU128 ≤ maxU128
  cap : ∀ terms, entry.terms = some terms → entry.mints ≤ terms.cap.getD maxU128
  count : entry.mints = (mintsFor mints issue.id).length
  allowed : ∀ record ∈ mintsFor mints issue.id,
    ∃ terms, entry.terms = some terms ∧ MintAllowed terms entry.block record
  supply : entry.supply ≤ issue.supply + ((mintsFor mints issue.id).map MintRecord.amount).sum
  issued : entry.supply % 2 ^ 128 =
    (issue.supply + ((mintsFor mints issue.id).map MintRecord.amount).sum) % 2 ^ 128

theorem Rewritten.lookup_some {R : ℕ → DuneEntry → DuneEntry → Prop}
    {before after : KeyTable ℕ DuneEntry} {id : ℕ} {old : DuneEntry} (rewritten : Rewritten R before after)
    (hold : before.lookup id = some old) : ∃ new, after.lookup id = some new ∧ R id old new := by
  have hentry : HasEntry after id := by
    rw [rewritten.keys, HasEntry, hold]
    rfl
  obtain ⟨new, hnew⟩ := Option.isSome_iff_exists.1 hentry
  obtain ⟨found, hfound, hrel⟩ := rewritten.entry hnew
  cases hold.symm.trans hfound
  exact ⟨new, hnew, hrel⟩

section EntryTerms

variable {overflow : Overflow} {s : DuneIndex} {tx : Transaction} {issue : Issue} {old new : DuneEntry}
  {mints : List MintRecord}

theorem EntryTerms.append_none {others : List MintRecord} (kept : EntryTerms mints issue old)
    (hnone : mintsFor others issue.id = []) : EntryTerms (mints ++ others) issue old := by
  have hsame : mintsFor (mints ++ others) issue.id = mintsFor mints issue.id := by
    rw [mintsFor_append, hnone, List.append_nil]
  constructor
  · exact kept.terms
  · exact kept.block
  · exact kept.fits
  · exact kept.cap
  · rw [hsame]
    exact kept.count
  · rw [hsame]
    exact kept.allowed
  · rw [hsame]
    exact kept.supply
  · rw [hsame]
    exact kept.issued

theorem EntryTerms.burned (kept : EntryTerms mints issue old) (hburned : BurnedOnly old new) :
    EntryTerms mints issue new := by
  rw [BurnedOnly] at hburned
  rw [hburned]
  exact ⟨kept.terms, kept.block, kept.fits, kept.cap, kept.count, kept.allowed, kept.supply,
    kept.issued⟩

/-- One more mint, of what the terms allow. -/
theorem EntryTerms.mint {limit minted supply count : ℕ} (kept : EntryTerms mints issue old)
    (hmintable : old.mintable s.block.height = some limit) (hpos : 0 < minted) (hle : minted ≤ limit)
    (hsupply : overflow.add old.supply minted = some supply)
    (hcount : overflow.add old.mints 1 = some count) {others : List MintRecord}
    (hone : mintsFor others issue.id =
      [{ id := issue.id, height := s.block.height, amount := minted }]) :
    EntryTerms (mints ++ others) issue { old with supply := supply, mints := count } := by
  obtain ⟨terms, hterms, rfl, hcap, hheights⟩ := mintable_some hmintable
  have hsum : mintsFor (mints ++ others) issue.id =
      mintsFor mints issue.id ++ [{ id := issue.id, height := s.block.height, amount := minted }] := by
    rw [mintsFor_append, hone]
  have hfits := (kept.fits terms hterms).2
  have hnext : count = old.mints + 1 := by
    rw [overflow.add_of_le (by omega)] at hcount
    exact (Option.some.inj hcount).symm
  constructor
  · exact kept.terms
  · exact kept.block
  · exact kept.fits
  · intro other hother
    cases hterms.symm.trans hother
    dsimp only
    omega
  · rw [hsum, List.length_append, ← kept.count, hnext]
    rfl
  · rw [hsum]
    intro record hrecord
    rcases List.mem_append.1 hrecord with hrecord | hrecord
    · exact kept.allowed record hrecord
    · obtain rfl := List.mem_singleton.1 hrecord
      exact ⟨terms, hterms, hheights, hpos, hle⟩
  · rw [hsum, List.map_append, List.sum_append]
    have hadded := Overflow.le_of_add hsupply
    have hbefore := kept.supply
    rw [List.map_singleton, List.sum_singleton]
    dsimp only
    omega
  · rw [hsum, List.map_append, List.sum_append, List.map_singleton, List.sum_singleton]
    dsimp only
    rw [Overflow.add_mod hsupply, Nat.add_mod, kept.issued, ← Nat.add_mod, Nat.add_assoc]

/-- The mints of a transaction keep the entry of a dune in step with its records. -/
theorem EntryTerms.mintsDone {entries : KeyTable ℕ DuneEntry} (kept : EntryTerms mints issue old)
    (hold : s.tables.idToEntry.lookup issue.id = some old)
    (hlimits : ∀ id entry terms, s.tables.idToEntry.lookup id = some entry →
      entry.terms = some terms → terms.limit.getD 0 ≤ maxU128)
    (done : MintsDone overflow.add overflow.sub s tx s.tables.idToEntry entries) :
    ∃ new, entries.lookup issue.id = some new ∧ EntryTerms (mints ++ mintsOf s tx) issue new := by
  cases done with
  | skipped hskip =>
      refine ⟨old, hold, kept.append_none ?_⟩
      have hempty : mintsOf s tx = [] := by
        unfold mintsOf
        split
        · rfl
        next dunestone hdunestone => exact if_pos (hskip dunestone hdunestone)
      rw [hempty]
      rfl
  | @minted dunestone unallocated pools _ hdunestone hplain hedicts hmints =>
      obtain ⟨new, hnew, hminted⟩ := hmints.lookup_some hold
      refine ⟨new, hnew, ?_⟩
      have hbound : ∀ id balance,
          (mintableAmounts s.tables.idToEntry s.block.height (claims dunestone.edicts)).lookup id =
            some balance → balance ≤ maxU128 := by
        intro id balance hbalance
        obtain ⟨-, entry, hentry, hmintable⟩ := lookup_mintableAmounts hbalance
        obtain ⟨terms, hterms, rfl, -⟩ := mintable_some hmintable
        exact hlimits id entry terms hentry hterms
      have hrest := applyEdicts_mintable hedicts hbound issue.id
      simp only [initialPools, List.length_replicate] at hrest
      have hrecords := mintsFor_mintsOf (s := s) hdunestone hplain issue.id
      cases hminted with
      | none hzero =>
          refine kept.append_none (hrecords.trans ?_)
          cases hfound : mintOf s tx.output.length dunestone.edicts issue.id with
          | none => rfl
          | some record =>
              -- a record would be of a limit from which something was taken
              obtain ⟨limit, hlimit, hpos, -⟩ := mintOf_some hfound
              rw [hlimit, map_some] at hrest
              have htaken := hzero _ (mem_pairs.2 hrest)
              rw [amountAt_of_lookup hlimit, overflow.sub_of_le (Nat.sub_le _ _) (hbound _ _ hlimit)]
                at htaken
              have hle := requested_le limit (claimAmounts tx.output.length issue.id dunestone.edicts)
              have htaken := Option.some.inj htaken
              rw [mintRequest] at htaken hpos
              omega
      | @some rest minted supply count hmem htaken hpos hsupply hcount =>
          rw [mem_pairs.1 hmem] at hrest
          obtain ⟨limit, hlimit, hrest⟩ := map_eq_some_iff.1 hrest.symm
          have hle := requested_le limit (claimAmounts tx.output.length issue.id dunestone.edicts)
          rw [← mintRequest] at hle
          rw [amountAt_of_lookup hlimit, overflow.sub_of_le (by omega) (hbound _ _ hlimit)] at htaken
          have hamount : mintRequest tx.output.length issue.id limit dunestone.edicts = minted := by
            have htaken := Option.some.inj htaken
            omega
          obtain ⟨-, entry, hentry, hmintable⟩ := lookup_mintableAmounts hlimit
          cases hold.symm.trans hentry
          refine kept.mint hmintable hpos (by omega) hsupply hcount (hrecords.trans ?_)
          rw [mintOf, hlimit, bind_some]
          dsimp only
          rw [hamount, if_pos hpos]
          rfl

end EntryTerms

/-! ### Runs -/

/-- The index with the dunes that were etched and the mints so far, in order. -/
structure MintRun where
  base : DuneRun
  issues : List Issue
  mints : List MintRecord

def MintRun.initial (block : BlockInfo) : MintRun where
  base := DuneRun.initial block
  issues := []
  mints := []

def issueOf (s : DuneIndex) (tx : Transaction) (after : DuneTables) : Option Issue :=
  (etchingOf s tx).bind fun found => (after.idToEntry.lookup found.id).map fun entry =>
    { id := found.id, height := s.block.height, supply := entry.supply,
      cenotaph := isCenotaph tx, terms := found.mint }

def MintRun.step (overflow : Overflow) (run : MintRun) (action : DuneAction) : Option MintRun := do
  let next ← run.base.step overflow action
  match action with
  | .nextBlock _ => some { run with base := next }
  | .transaction tx =>
      some
        { base := next
          issues := run.issues ++ (issueOf run.base.index tx next.index.tables).toList
          mints := run.mints ++ mintsOf run.base.index tx }

/-- Every dune and its mints, over a run. -/
structure TermsHeld (run : MintRun) : Prop where
  registered : Registered run.base
  kept : ∀ issue ∈ run.issues, ∃ entry,
    run.base.index.tables.idToEntry.lookup issue.id = some entry ∧ EntryTerms run.mints issue entry
  complete : ∀ id, HasEntry run.base.index.tables.idToEntry id → ∃ issue ∈ run.issues, issue.id = id
  known : ∀ record ∈ run.mints, HasEntry run.base.index.tables.idToEntry record.id

namespace TermsHeld

variable {run : MintRun} {tx : Transaction} {overflow : Overflow} {minted etched after : DuneTables}

theorem initial (block : BlockInfo) : TermsHeld (MintRun.initial block) where
  registered := .initial block
  kept _ h := absurd h List.not_mem_nil
  complete _ h := by
    simp [MintRun.initial, DuneRun.initial, DuneIndex.initial, DuneTables.empty, HasEntry] at h
  known _ h := absurd h List.not_mem_nil

theorem limits (held : TermsHeld run) {id : ℕ} {entry : DuneEntry} {terms : Terms}
    (hentry : run.base.index.tables.idToEntry.lookup id = some entry)
    (hterms : entry.terms = some terms) : terms.limit.getD 0 ≤ maxU128 := by
  obtain ⟨issue, hissue, rfl⟩ := held.complete id (by rw [HasEntry, hentry]; rfl)
  obtain ⟨found, hfound, kept⟩ := held.kept issue hissue
  cases hentry.symm.trans hfound
  exact (kept.fits terms hterms).1

/-- The terms of an accepted etching fit `u128`. -/
theorem etching_fits {s : DuneIndex} {found : Allocation} {terms : Terms}
    (hfound : etchingOf s tx = some found) (hterms : found.mint = some terms) :
    terms.limit.getD 0 ≤ maxU128 ∧ terms.cap.getD maxU128 ≤ maxU128 := by
  obtain ⟨dunestone, hdunestone, hfound⟩ := bind_eq_some_iff.1 hfound
  constructor
  · exact (allocation_limit hfound hterms).trans (Nat.sub_le_sub_right
      (Nat.pow_le_pow_right (by decide) (by decide)) 1)
  · obtain ⟨-, -, source, hsource, hmint⟩ := allocation_some hfound
    cases hcap : terms.cap with
    | none => exact Nat.le_refl _
    | some cap =>
        obtain ⟨original, horiginal, hcap⟩ := hmint terms cap hterms hcap
        exact cap_le_of_fromTransaction hdunestone hsource horiginal hcap

/-- A transaction keeps the entries and adds that of its etching. -/
theorem hasEntry_done {add sub : ℕ → ℕ → Option ℕ} {s : DuneIndex}
    (done : TransactionDone add sub s tx minted etched after) (id : ℕ) :
    HasEntry after.idToEntry id ↔
      HasEntry s.tables.idToEntry id ∨ ∃ found, etchingOf s tx = some found ∧ found.id = id := by
  have hburns := done.burns.keys id
  have hmints : HasEntry minted.idToEntry id ↔ HasEntry s.tables.idToEntry id := by
    rw [hasEntry_iff_label, done.mints.label_eq, ← hasEntry_iff_label]
  cases done.etching with
  | skipped hskip hentries =>
      rw [hburns, hentries, hmints, hskip]
      simp
  | @etched found _ hfound _ hentries =>
      rw [hburns, hentries, hasEntry_insert, hmints, hfound]
      simp [or_comm, eq_comm]

/-- The entry of an older dune after a transaction. -/
theorem kept_old (held : TermsHeld run) {issue : Issue} (hissue : issue ∈ run.issues)
    (done : TransactionDone overflow.add overflow.sub run.base.index tx minted etched after) :
    ∃ entry, after.idToEntry.lookup issue.id = some entry ∧
      EntryTerms (run.mints ++ mintsOf run.base.index tx) issue entry := by
  obtain ⟨old, hold, kept⟩ := held.kept issue hissue
  obtain ⟨middle, hmiddle, kept⟩ :=
    kept.mintsDone hold (fun _ _ _ hentry hterms => held.limits hentry hterms) done.mints
  have hetched : etched.idToEntry.lookup issue.id = some middle := by
    cases done.etching with
    | skipped _ hentries => rw [hentries, hmiddle]
    | @etched found _ hfound _ hentries =>
        rw [hentries, lookup_insert_ite, if_neg, hmiddle]
        intro hsame
        have hfree := held.registered.label_new hfound
        rw [← hsame, label, hold] at hfree
        cases hfree
  obtain ⟨new, hnew, hburned⟩ := done.burns.lookup_some hetched
  exact ⟨new, hnew, kept.burned hburned⟩

theorem kept_new (held : TermsHeld run) {issue : Issue}
    (done : TransactionDone overflow.add overflow.sub run.base.index tx minted etched after)
    (hissue : issueOf run.base.index tx after = some issue) :
    ∃ entry, after.idToEntry.lookup issue.id = some entry ∧
      EntryTerms (run.mints ++ mintsOf run.base.index tx) issue entry := by
  obtain ⟨found, hfound, hissue⟩ := bind_eq_some_iff.1 hissue
  obtain ⟨entry, hentry, rfl⟩ := map_eq_some_iff.1 hissue
  refine ⟨entry, hentry, ?_⟩
  -- nothing was minted of an id without an entry
  have hnone : mintsFor (run.mints ++ mintsOf run.base.index tx) found.id = [] := by
    rw [mintsFor, List.filter_eq_nil_iff]
    intro record hrecord
    have hknown : HasEntry run.base.index.tables.idToEntry record.id := by
      rcases List.mem_append.1 hrecord with hrecord | hrecord
      · exact held.known record hrecord
      · exact mintsOf_hasEntry hrecord
    simp only [decide_eq_true_eq]
    intro hsame
    rw [hsame, hasEntry_iff_label, held.registered.label_new hfound] at hknown
    obtain ⟨_, hsome⟩ := hknown
    cases hsome
  cases done.etching with
  | skipped hskip =>
      rw [hfound] at hskip
      cases hskip
  | @etched found' fresh hfound' hfresh hentries =>
      cases hfound.symm.trans hfound'
      obtain ⟨old, hold, hburned⟩ := done.burns.entry hentry
      rw [hentries, lookup_insert_ite, if_pos rfl] at hold
      cases hold
      rw [BurnedOnly] at hburned
      rw [hburned]
      dsimp only
      have hfits : ∀ terms, fresh.terms = some terms →
          terms.limit.getD 0 ≤ maxU128 ∧ terms.cap.getD maxU128 ≤ maxU128 := by
        intro terms hterms
        rw [hfresh.terms] at hterms
        split at hterms
        · cases hterms
        · exact etching_fits hfound hterms
      constructor
      · exact hfresh.terms
      · exact hfresh.block
      · exact hfits
      · intro terms _
        dsimp only
        rw [hfresh.mints]
        exact Nat.zero_le _
      · rw [hnone]
        exact hfresh.mints
      · rw [hnone]
        exact fun record hrecord => absurd hrecord List.not_mem_nil
      · exact Nat.le_add_right _ _
      · rw [hnone]
        rfl

theorem transaction (held : TermsHeld run) {next : DuneRun}
    (hstep : run.base.step overflow (.transaction tx) = some next) :
    TermsHeld
      { base := next
        issues := run.issues ++ (issueOf run.base.index tx next.index.tables).toList
        mints := run.mints ++ mintsOf run.base.index tx } := by
  have hregistered := held.registered.step hstep
  obtain ⟨index, hindex, hnext⟩ := bind_eq_some_iff.1 hstep
  cases hnext
  obtain ⟨after, hafter, hindex⟩ := bind_eq_some_iff.1 hindex
  cases hindex
  obtain ⟨minted, etched, done⟩ := transaction_done hafter
  refine ⟨hregistered, ?_, ?_, ?_⟩
  · intro issue hissue
    rcases List.mem_append.1 hissue with hissue | hissue
    · exact held.kept_old hissue done
    · exact held.kept_new done (Option.mem_toList.1 hissue)
  · intro id hentry
    rcases (hasEntry_done done id).1 hentry with hold | ⟨found, hfound, rfl⟩
    · obtain ⟨issue, hissue, hid⟩ := held.complete id hold
      exact ⟨issue, List.mem_append_left _ hissue, hid⟩
    · obtain ⟨entry, hentry⟩ := Option.isSome_iff_exists.1 hentry
      have hissue : issueOf run.base.index tx after =
          some { id := found.id, height := run.base.index.block.height, supply := entry.supply,
                 cenotaph := isCenotaph tx, terms := found.mint } := by
        rw [issueOf, hfound, bind_some, hentry, map_some]
      exact ⟨_, List.mem_append_right _ (Option.mem_toList.2 hissue), rfl⟩
  · intro record hrecord
    refine (hasEntry_done done _).2 (.inl ?_)
    rcases List.mem_append.1 hrecord with hrecord | hrecord
    · exact held.known record hrecord
    · exact mintsOf_hasEntry hrecord

theorem step (held : TermsHeld run) {action : DuneAction} {next : MintRun}
    (hstep : run.step overflow action = some next) : TermsHeld next := by
  obtain ⟨base, hbase, hnext⟩ := bind_eq_some_iff.1 hstep
  cases action with
  | nextBlock block =>
      cases hnext
      have hregistered := held.registered.step hbase
      cases hbase
      exact ⟨hregistered, held.kept, held.complete, held.known⟩
  | transaction tx =>
      cases hnext
      exact held.transaction hbase

end TermsHeld

/-- What the terms of a dune promise of a run. -/
structure TermsKept (run : MintRun) (issue : Issue) (entry : DuneEntry) : Prop where
  /-- The entry has the terms of the etching, none for a cenotaph. -/
  terms : entry.terms = if issue.cenotaph then none else issue.terms
  block : entry.block = issue.height
  /-- The mints counted are the transactions that minted, each of them once. -/
  count : entry.mints = (mintsFor run.mints issue.id).length
  once : ∀ tx, (mintsFor (mintsOf run.base.index tx) issue.id).length ≤ 1
  cap : ∀ terms cap, entry.terms = some terms → terms.cap = some cap → entry.mints ≤ cap
  /-- Each of them minted more than zero and at most the limit, at a height of the terms. -/
  mint : ∀ record ∈ mintsFor run.mints issue.id,
    ∃ terms, entry.terms = some terms ∧ MintAllowed terms issue.height record
  supply : ∀ terms, entry.terms = some terms →
    entry.supply ≤ issue.supply + entry.mints * terms.limit.getD 0
  /-- Every unit of the supply was etched or is in one of the records, in 128 bits. -/
  issued : entry.supply % 2 ^ 128 =
    (issue.supply + ((mintsFor run.mints issue.id).map MintRecord.amount).sum) % 2 ^ 128
  /-- A dune of a cenotaph or without terms is never minted. -/
  never : issue.cenotaph = true ∨ issue.terms = none →
    entry.mints = 0 ∧ mintsFor run.mints issue.id = [] ∧ entry.supply ≤ issue.supply

theorem EntryTerms.termsKept {run : MintRun} {issue : Issue} {entry : DuneEntry}
    (kept : EntryTerms run.mints issue entry) : TermsKept run issue entry := by
  have hnever : entry.terms = none → mintsFor run.mints issue.id = [] := by
    intro hnone
    rw [List.eq_nil_iff_forall_not_mem]
    intro record hrecord
    obtain ⟨terms, hterms, -⟩ := kept.allowed record hrecord
    rw [hnone] at hterms
    cases hterms
  constructor
  · exact kept.terms
  · exact kept.block
  · exact kept.count
  · intro tx
    cases hdunestone : Dunestone.fromTransaction tx with
    | none => simp [mintsOf, hdunestone, mintsFor]
    | some dunestone =>
        cases hplain : dunestone.cenotaph with
        | true => simp [mintsOf, hdunestone, hplain, mintsFor]
        | false =>
            rw [mintsFor_mintsOf hdunestone hplain]
            exact Option.length_toList_le
  · intro terms cap hterms hcap
    have hle := kept.cap terms hterms
    rwa [hcap] at hle
  · rw [← kept.block]
    exact kept.allowed
  · intro terms hterms
    refine kept.supply.trans (Nat.add_le_add_left ?_ _)
    rw [kept.count, ← List.length_map MintRecord.amount]
    refine List.sum_le_card_nsmul _ _ fun amount hamount => ?_
    obtain ⟨record, hrecord, rfl⟩ := List.mem_map.1 hamount
    obtain ⟨found, hfound, hallowed⟩ := kept.allowed record hrecord
    cases hterms.symm.trans hfound
    exact hallowed.limited
  · exact kept.issued
  · intro hnone
    have hterms : entry.terms = none := by
      rw [kept.terms]
      rcases hnone with hnone | hnone <;> simp [hnone]
    have hempty := hnever hterms
    have hsupply := kept.supply
    rw [hempty] at hsupply
    refine ⟨?_, hempty, hsupply⟩
    rw [kept.count, hempty]
    rfl

/-- In every run from the empty tables, in a build that panics on overflow and in one that wraps, the
terms of every etched dune are kept. -/
theorem terms_of_reaches (overflow : Overflow) (block : BlockInfo) {run : MintRun}
    (reaches : Run.Reaches (MintRun.step overflow) (fun _ _ => True) (MintRun.initial block) run) :
    (∀ id entry, run.base.index.tables.idToEntry.lookup id = some entry →
      ∃ issue ∈ run.issues, issue.id = id) ∧
      ∀ issue ∈ run.issues, ∃ entry,
        run.base.index.tables.idToEntry.lookup issue.id = some entry ∧ TermsKept run issue entry := by
  have held : TermsHeld run :=
    reaches.invariant TermsHeld (fun held _ hstep => held.step hstep) (.initial block)
  constructor
  · intro id entry hentry
    exact held.complete id (by rw [HasEntry, hentry]; rfl)
  · intro issue hissue
    obtain ⟨entry, hentry, kept⟩ := held.kept issue hissue
    exact ⟨entry, hentry, kept.termsKept⟩

/-- The dune of `sampleRun`, with a limit of 10 and a cap of 5, is minted once. -/
theorem sampleRun_termsKept :
    ∃ run, Run.Reaches (MintRun.step .wraps) (fun _ _ => True) (MintRun.initial sampleBlock) run ∧
      run.mints = [{ id := 2 <<< 16, height := 3, amount := 10 }] ∧
      ∀ issue ∈ run.issues, ∃ entry,
        run.base.index.tables.idToEntry.lookup issue.id = some entry ∧ TermsKept run issue entry := by
  have hexec : (Run.exec (MintRun.step .wraps) (fun _ _ => true) sampleRun
      (MintRun.initial sampleBlock)).map MintRun.mints =
        some [{ id := 2 <<< 16, height := 3, amount := 10 }] := by decide
  obtain ⟨run, reaches, hmints⟩ := Run.exists_reaches_of_exec (fun _ => trivial) hexec
  exact ⟨run, reaches, hmints, (terms_of_reaches .wraps sampleBlock reaches).2⟩

end OrdDogecoin.Dunes
