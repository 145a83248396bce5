/-
Module: OrdDogecoin.Tap.DogemapOwnership
Purpose: Over every run of creations and moves a block number has one claimer, and its rows say who
  that is, who owns it now, and who owned it before.
Trusted boundary: an inscription is created once, a block has fewer than 2^32 moves, and no other
  handler writes the rows of Dogemap
Main exports: DogemapState, DogemapSound, dogemap_ownership
-/
import OrdDogecoin.Tap.DogemapRows
import OrdDogecoin.Lib.Run

namespace OrdDogecoin.Tap

open Chain AtomicBatch KeyTable

/-! ### Runs -/

/-- A number claimed by a new inscription. -/
structure Claim where
  number : ℕ
  ins : InscriptionId
  height : ℕ
  body : List UInt8
deriving DecidableEq, Repr

/-- The rows and the block, and what has happened: the inscriptions created, the claims, and the
recorded moves with their addresses, oldest first. -/
structure DogemapState (V : Type) where
  kv : KvState V
  block : BlockTime
  movesOfBlock : ℕ
  created : List InscriptionId
  claims : List Claim
  moves : List (InscriptionId × Address)

inductive DogemapAction (V : Type) where
  | created (created : BitmapCreated)
  | transferred (moved : BitmapMoved)
  /-- A call of another handler. -/
  | call (call : KvOp V)
  /-- `tap_finalize_block`, and the next block. -/
  | nextBlock (timestamp : ℕ) (nextNumber : Option V)

section Runs

variable {V : Type}

def DogemapState.start (table : KeyTable Text V) (block : BlockTime) : DogemapState V where
  kv := KvState.start table
  block := block
  movesOfBlock := 0
  created := []
  claims := []
  moves := []

def dogemapStep (codec : RowCodec V) (state : DogemapState V) :
    DogemapAction V → Option (DogemapState V)
  | .created created =>
      let seen := { state with created := state.created ++ [created.inscriptionId] }
      match indexBitmapCreated codec state.block created state.kv with
      | none => some seen
      | some (number, kv) => some
          { seen with
            kv := kv
            movesOfBlock := state.movesOfBlock + 1
            claims := state.claims ++ [{ number := number, ins := created.inscriptionId
                                         height := state.block.height, body := created.body.getD [] }]
            moves := state.moves ++ [(created.inscriptionId, created.ownerAddress)] }
  | .transferred moved =>
      match indexBitmapTransferred codec state.block moved state.kv with
      | none => some state
      | some (_, kv) => some
          { state with
            kv := kv
            movesOfBlock := state.movesOfBlock + 1
            moves := state.moves ++ [(moved.inscriptionId, recordedOwner moved.ownerAddress)] }
  | .call call => (state.kv.step codec.lengthRow call).map fun next => { state with kv := next.2 }
  | .nextBlock timestamp nextNumber => some
      { state with
        kv := state.kv.tapFinalizeBlock nextNumber
        block := { height := state.block.height + 1, timestamp := timestamp }
        movesOfBlock := 0 }

/-- An inscription is created once.  Other handlers keep to their own rows, batches are closed when a
handler of Dogemap runs or a block ends, and a block has fewer than 2^32 moves. -/
def DogemapAllowed (state : DogemapState V) : DogemapAction V → Prop
  | .created created => state.kv.atomic = none ∧ created.inscriptionId ∉ state.created ∧
      state.movesOfBlock + 1 < 2 ^ 32
  | .transferred _ => state.kv.atomic = none ∧ state.movesOfBlock + 1 < 2 ^ 32
  | .call call => call.op.Avoids DogemapKey
  | .nextBlock _ _ => state.kv.atomic = none ∧ state.block.height + 1 < 2 ^ 32

/-- The address of the last move of an inscription. -/
def latestAddress (moves : List (InscriptionId × Address)) (id : InscriptionId) : Option Address :=
  ((moves.filter fun move => move.1 = id).getLast?).map Prod.snd

/-- Every record names the owner before it, and the first one none. -/
def Chained (records : List BitmapRecord) : Prop :=
  ∀ index record, records[index]? = some record →
    record.prv = if index = 0 then none else records[index - 1]?.map BitmapRecord.ownr

/-- What the rows say about the claims and the moves. -/
structure DogemapSound (codec : RowCodec V) (state : DogemapState V) : Prop where
  claimed_once : (state.claims.map Claim.number).Nodup
  claimed_validly : ∀ claim ∈ state.claims, claim.number ≤ claim.height ∧
    claim.body = bytesOf (Nat.toDigits 10 claim.number ++ ".dogemap".toList)
  claimed_iff : ∀ number id, (∃ claim ∈ state.claims, claim.number = number ∧ claim.ins = id) ↔
    ∃ record, getRecord codec state.kv (bmKey number) = some record ∧ record.ins = inscriptionText id
  inverse : ∀ number id,
    (∃ record, getRecord codec state.kv (bmKey number) = some record ∧ record.ins = inscriptionText id) ↔
      getText codec state.kv (bmhKey id) = some (bmKey number)
  mapped : ∀ id text, getText codec state.kv (bmhKey id) = some text → ∃ number, text = bmKey number
  owner : ∀ number record, getRecord codec state.kv (bmKey number) = some record →
    ∃ id, record.ins = inscriptionText id ∧ latestAddress state.moves id = some record.ownr
  history : ∀ number, ∃ records,
    state.kv.HoldsList codec.lengthRow (bmhlKey number) (bmhliKey number)
      (records.map codec.encodeRecord) ∧
    getRecord codec state.kv (bmKey number) = records.getLast? ∧ Chained records

/-! ### Lists of records and moves -/

theorem Chained.nil : Chained [] := by
  intro index record hrecord
  cases hrecord

theorem Chained.append {records : List BitmapRecord} (chained : Chained records) {record : BitmapRecord}
    (hprv : record.prv = records.getLast?.map BitmapRecord.ownr) : Chained (records ++ [record]) := by
  intro index found hfound
  by_cases hlast : index < records.length
  · rw [List.getElem?_append_left hlast] at hfound
    rw [chained index found hfound]
    by_cases hzero : index = 0
    · rw [if_pos hzero, if_pos hzero]
    · rw [if_neg hzero, if_neg hzero, List.getElem?_append_left (by omega)]
  · have hindex : index = records.length := by
      have hbound := (List.getElem?_eq_some_iff.1 hfound).1
      rw [List.length_append, List.length_singleton] at hbound
      omega
    subst hindex
    rw [List.getElem?_append_right (Nat.le_refl _), Nat.sub_self] at hfound
    obtain rfl : record = found := Option.some.inj hfound
    rw [hprv]
    cases hrecords : records with
    | nil => simp
    | cons first rest =>
        rw [List.getLast?_eq_getElem?, if_neg (by simp), List.getElem?_append_left (by simp)]

theorem latestAddress_append_self (moves : List (InscriptionId × Address)) (id : InscriptionId)
    (address : Address) : latestAddress (moves ++ [(id, address)]) id = some address := by
  simp [latestAddress]

theorem latestAddress_append_of_ne (moves : List (InscriptionId × Address)) {id other : InscriptionId}
    (hother : id ≠ other) (address : Address) :
    latestAddress (moves ++ [(id, address)]) other = latestAddress moves other := by
  simp [latestAddress, hother]

/-! ### One number -/

/-- The rows of one number: nothing before it is claimed, and then the records of its claimer. -/
structure NumberKept (codec : RowCodec V) (store : Store Text V) (claims : List Claim)
    (moves : List (InscriptionId × Address)) (number : ℕ) (records : List BitmapRecord) : Prop where
  history : store.HoldsList codec.lengthRow (bmhlKey number) (listKey (bmhliKey number))
    (records.map codec.encodeRecord)
  latest : store.rows.lookup (bmKey number) = records.getLast?.map codec.encodeRecord
  chained : Chained records
  short : records.length ≤ moves.length
  claimed : (records = [] ∧ ∀ claim ∈ claims, claim.number ≠ number) ∨
    ∃ claim ∈ claims, claim.number = number ∧ ∃ last, records.getLast? = some last ∧
      last.ins = inscriptionText claim.ins ∧ latestAddress moves claim.ins = some last.ownr

variable {codec : RowCodec V} {store store' : Store Text V} {claims claims' : List Claim}
  {moves moves' : List (InscriptionId × Address)} {number : ℕ} {records : List BitmapRecord}

/-- What concerns other numbers leaves the number as it is. -/
theorem NumberKept.frame (kept : NumberKept codec store claims moves number records)
    {guarded : Text → Prop} (same : Store.SameOn guarded store store')
    (hguarded : ∀ key, OfNumber number key → guarded key)
    (hclaims : ∀ claim, claim.number = number → (claim ∈ claims' ↔ claim ∈ claims))
    (hmoves : ∀ claim ∈ claims, claim.number = number →
      latestAddress moves' claim.ins = latestAddress moves claim.ins)
    (hlonger : moves.length ≤ moves'.length) :
    NumberKept codec store' claims' moves' number records where
  history := kept.history.sameOn same fun key hkey => hguarded key (.inr hkey)
  latest := (same.rows _ (hguarded _ (.inl rfl))).trans kept.latest
  chained := kept.chained
  short := kept.short.trans hlonger
  claimed := by
    rcases kept.claimed with ⟨hempty, hfree⟩ | ⟨claim, hclaim, hnumber, last, hlast, hins, howner⟩
    · exact .inl ⟨hempty, fun claim hclaim hnumber =>
        hfree claim ((hclaims claim hnumber).1 hclaim) hnumber⟩
    · exact .inr ⟨claim, (hclaims claim hnumber).2 hclaim, hnumber, last, hlast, hins,
        (hmoves claim hclaim hnumber).trans howner⟩

/-- A recorded move of the claimer. -/
theorem NumberKept.record (kept : NumberKept codec store claims moves number records)
    {record : BitmapRecord} {mapped : Text → Prop} {claim : Claim}
    (written : Written codec store store' number record (records.map codec.encodeRecord) mapped)
    (hprv : record.prv = records.getLast?.map BitmapRecord.ownr) (hclaim : claim ∈ claims')
    (hnumber : claim.number = number) (hins : record.ins = inscriptionText claim.ins) :
    NumberKept codec store' claims' (moves ++ [(claim.ins, record.ownr)]) number
      (records ++ [record]) where
  history := by
    rw [List.map_append]
    exact written.history
  latest := by
    rw [written.latest, List.getLast?_append]
    rfl
  chained := kept.chained.append hprv
  short := by
    have hshort := kept.short
    simp only [List.length_append, List.length_singleton]
    omega
  claimed := .inr ⟨claim, hclaim, hnumber, record, by simp, hins, latestAddress_append_self _ _ _⟩

/-! ### The invariant -/

/-- All numbers, the mappings, and the counts that keep every history below 2^64 records. -/
structure DogemapKept (codec : RowCodec V) (state : DogemapState V) : Prop where
  quiet : state.kv.view.Quiet DogemapKey
  numbers : ∀ number, ∃ records,
    NumberKept codec state.kv.view state.claims state.moves number records
  mapped : ∀ claim ∈ state.claims,
    state.kv.view.rows.lookup (bmhKey claim.ins) = some (codec.encodeText (bmKey claim.number))
  mapped_only : ∀ id row, state.kv.view.rows.lookup (bmhKey id) = some row →
    ∃ claim ∈ state.claims, claim.ins = id
  once : (state.claims.map Claim.number).Nodup
  validly : ∀ claim ∈ state.claims, claim.number ≤ claim.height ∧ claim.number < 2 ^ 63 ∧
    claim.body = bytesOf (Nat.toDigits 10 claim.number ++ ".dogemap".toList)
  of_created : ∀ claim ∈ state.claims, claim.ins ∈ state.created
  height_lt : state.block.height < 2 ^ 32
  few : state.movesOfBlock < 2 ^ 32
  total : state.moves.length ≤ state.block.height * 2 ^ 32 + state.movesOfBlock

namespace DogemapKept

variable {state state' : DogemapState V}

theorem get_eq (kept : DogemapKept codec state) {key : Text} (hkey : DogemapKey key) :
    state.kv.tapGet key = state.kv.view.rows.lookup key := by
  rw [KvState.view_tapGet, kept.quiet.get_eq hkey]

theorem getRecord_bmKey (lawful : codec.Lawful) (kept : DogemapKept codec state) {number : ℕ}
    {records : List BitmapRecord}
    (hnumber : NumberKept codec state.kv.view state.claims state.moves number records) :
    getRecord codec state.kv (bmKey number) = records.getLast? := by
  unfold getRecord
  rw [kept.get_eq (dogemapKey_bmKey number), hnumber.latest]
  cases records.getLast? with
  | none => rfl
  | some last => exact lawful.record last

/-- An inscription has one claim. -/
theorem claim_unique (lawful : codec.Lawful) (kept : DogemapKept codec state) {claim claim' : Claim}
    (hclaim : claim ∈ state.claims) (hclaim' : claim' ∈ state.claims) (hins : claim.ins = claim'.ins) :
    claim.number = claim'.number := by
  have hmapped := kept.mapped claim hclaim
  rw [hins, kept.mapped claim' hclaim'] at hmapped
  have hread := congrArg codec.decodeText (Option.some.inj hmapped)
  rw [lawful.mapping, lawful.mapping] at hread
  exact (bmKey_injective (Option.some.inj hread)).symm

/-- The mapping of an inscription names the number it has claimed. -/
theorem claim_of_mapping (lawful : codec.Lawful) (kept : DogemapKept codec state) {id : InscriptionId}
    {number : ℕ}
    (hmapping : (getText codec state.kv (bmhKey id)).bind bitmapBlockFromMapping = some number) :
    ∃ claim ∈ state.claims, claim.number = number ∧ claim.ins = id := by
  unfold getText at hmapping
  rw [kept.get_eq (dogemapKey_bmhKey id)] at hmapping
  cases hrow : state.kv.view.rows.lookup (bmhKey id) with
  | none =>
      rw [hrow] at hmapping
      cases hmapping
  | some row =>
      obtain ⟨claim, hclaim, rfl⟩ := kept.mapped_only id row hrow
      have hsmall : claim.number < 2 ^ 64 := (kept.validly claim hclaim).2.1.trans (by decide)
      rw [kept.mapped claim hclaim, Option.bind_some, lawful.mapping, Option.bind_some,
        bitmapBlockFromMapping_bmKey hsmall] at hmapping
      exact ⟨claim, hclaim, Option.some.inj hmapping, rfl⟩

/-- A history has room for one more record. -/
theorem fits (kept : DogemapKept codec state) (hfew : state.movesOfBlock + 1 < 2 ^ 32)
    {rows : List V} (hrows : rows.length ≤ state.moves.length) : rows.length + 1 < 2 ^ 64 := by
  have hheight := kept.height_lt
  have htotal := kept.total
  omega

theorem start {table : KeyTable Text V} (hfresh : ∀ key, DogemapKey key → table.lookup key = none)
    {block : BlockTime} (hheight : block.height < 2 ^ 32) :
    DogemapKept codec (DogemapState.start table block) := by
  have hview : (DogemapState.start table block).kv.view = { rows := table, lens := ∅, batch := none } :=
    KvState.view_start table
  constructor
  · rw [hview]
    exact .of_closed rfl
  · intro number
    have hnone : ∀ key, OfNumber number key → table.lookup key = none := fun key hkey =>
      hfresh key hkey.dogemapKey
    refine ⟨[], ⟨⟨⟨?_, fun index => ?_⟩, fun length hlength => ?_⟩, ?_, .nil, Nat.zero_le _,
      .inl ⟨rfl, fun claim hclaim => (nomatch hclaim)⟩⟩⟩
    · rw [hview]
      exact hnone _ (.inr (.inl rfl))
    · rw [hview]
      exact hnone _ (.inr (.inr ⟨index, rfl⟩))
    · rw [hview] at hlength
      simp at hlength
    · rw [hview]
      exact hnone _ (.inl rfl)
  · exact fun claim hclaim => (nomatch hclaim)
  · intro id row hrow
    rw [hview] at hrow
    simp only [hfresh _ (dogemapKey_bmhKey id)] at hrow
    cases hrow
  · exact List.nodup_nil
  · exact fun claim hclaim => (nomatch hclaim)
  · exact fun claim hclaim => (nomatch hclaim)
  · exact hheight
  · exact Nat.two_pow_pos 32
  · exact Nat.zero_le _

/-- What leaves the rows of Dogemap, the claims and the moves. -/
theorem frame (kept : DogemapKept codec state) {kv : KvState V}
    (same : Store.SameOn DogemapKey state.kv.view kv.view) :
    DogemapKept codec { state with kv := kv } where
  quiet := same.quiet
  numbers number := by
    obtain ⟨records, hnumber⟩ := kept.numbers number
    exact ⟨records, hnumber.frame same (fun _ hkey => hkey.dogemapKey) (fun _ _ => Iff.rfl)
      (fun _ _ _ => rfl) (Nat.le_refl _)⟩
  mapped claim hclaim := (same.rows _ (dogemapKey_bmhKey _)).trans (kept.mapped claim hclaim)
  mapped_only id row hrow := by
    rw [same.rows _ (dogemapKey_bmhKey _)] at hrow
    exact kept.mapped_only id row hrow
  once := kept.once
  validly := kept.validly
  of_created := kept.of_created
  height_lt := kept.height_lt
  few := kept.few
  total := kept.total

theorem nextBlock (kept : DogemapKept codec state) (hclosed : state.kv.atomic = none)
    (hheight : state.block.height + 1 < 2 ^ 32) (timestamp : ℕ) (nextNumber : Option V) :
    DogemapKept codec { state with
      kv := state.kv.tapFinalizeBlock nextNumber
      block := { height := state.block.height + 1, timestamp := timestamp }
      movesOfBlock := 0 } := by
  have hkey : ∀ key, DogemapKey key →
      ∀ entry ∈ nextNumber.map fun number => (tapLeanNextNumberKey, number), key ≠ entry.1 := by
    rintro key hkey entry hentry rfl
    obtain ⟨number, -, rfl⟩ := Option.map_eq_some_iff.1 hentry
    exact not_dogemapKey_tapLeanNextNumberKey hkey
  have hview := state.kv.view_tapFinalizeBlock nextNumber
  have hrows : ∀ key, DogemapKey key →
      (state.kv.tapFinalizeBlock nextNumber).view.rows.lookup key = state.kv.view.rows.lookup key := by
    intro key hdogemap
    rw [hview]
    exact Store.lookup_settle (hkey key hdogemap)
  have hnext : state.moves.length ≤ (state.block.height + 1) * 2 ^ 32 + 0 := by
    rw [Nat.add_zero, Nat.succ_mul]
    exact kept.total.trans (Nat.add_le_add_left kept.few.le _)
  constructor
  · exact .of_closed hclosed
  · intro number
    obtain ⟨records, hnumber⟩ := kept.numbers number
    refine ⟨records, ⟨?_, ?_, hnumber.chained, hnumber.short, hnumber.claimed⟩⟩
    · rw [hview]
      exact hnumber.history.settle fun entry hentry hlist =>
        hkey _ (OfNumber.dogemapKey (.inr hlist)) entry hentry rfl
    · exact (hrows _ (dogemapKey_bmKey number)).trans hnumber.latest
  · exact fun claim hclaim => (hrows _ (dogemapKey_bmhKey _)).trans (kept.mapped claim hclaim)
  · intro id row hrow
    rw [hrows _ (dogemapKey_bmhKey id)] at hrow
    exact kept.mapped_only id row hrow
  · exact kept.once
  · exact kept.validly
  · exact kept.of_created
  · exact hheight
  · exact Nat.two_pow_pos 32
  · exact hnext

/-- A new inscription that claims nothing. -/
theorem see (kept : DogemapKept codec state) (id : InscriptionId) :
    DogemapKept codec { state with created := state.created ++ [id] } :=
  { kept with
    of_created := fun claim hclaim => List.mem_append_left _ (kept.of_created claim hclaim) }

theorem claim (lawful : codec.Lawful) (kept : DogemapKept codec state) (hclosed : state.kv.atomic = none)
    {created : BitmapCreated} (hnew : created.inscriptionId ∉ state.created)
    (hfew : state.movesOfBlock + 1 < 2 ^ 32) {number : ℕ} {kv : KvState V}
    (hcreated : indexBitmapCreated codec state.block created state.kv = some (number, kv)) :
    DogemapKept codec { state with
      created := state.created ++ [created.inscriptionId]
      kv := kv
      movesOfBlock := state.movesOfBlock + 1
      claims := state.claims ++ [{ number := number, ins := created.inscriptionId
                                   height := state.block.height, body := created.body.getD [] }]
      moves := state.moves ++ [(created.inscriptionId, created.ownerAddress)] } := by
  obtain ⟨records, hnumber⟩ := kept.numbers number
  have hrows : (records.map codec.encodeRecord).length ≤ state.moves.length := by
    rw [List.length_map]
    exact hnumber.short
  obtain ⟨hclaimed, written, hmapping⟩ := indexBitmapCreated_spec lawful hclosed hnumber.history
    (kept.fits hfew hrows) hcreated
  obtain ⟨body, hbody, hvalid, hfree⟩ := claimedNumber_spec hclaimed
  rw [kept.getRecord_bmKey lawful hnumber, List.getLast?_eq_none_iff] at hfree
  subst hfree
  have hunclaimed : ∀ claim ∈ state.claims, claim.number ≠ number := by
    rcases hnumber.claimed with ⟨-, hfree⟩ | ⟨_, _, _, _, hlast, _⟩
    · exact hfree
    · cases hlast
  have hother : ∀ claim ∈ state.claims, created.inscriptionId ≠ claim.ins := by
    rintro claim hclaim hins
    exact hnew (hins ▸ kept.of_created claim hclaim)
  have hguarded : ∀ id, id ≠ created.inscriptionId → DogemapKey (bmhKey id) ∧
      ¬ OfNumber number (bmhKey id) ∧ ¬ bmhKey id = bmhKey created.inscriptionId := fun id hid =>
    ⟨dogemapKey_bmhKey id, fun hkey => hkey.ne_bmhKey id rfl, fun hkey => hid (bmhKey_injective hkey)⟩
  have hshort := kept.total
  constructor
  · exact written.quiet
  · intro other
    by_cases hsame : other = number
    · subst hsame
      exact ⟨_, hnumber.record written rfl (List.mem_append_right _ List.mem_cons_self) rfl rfl⟩
    · obtain ⟨others, hothers⟩ := kept.numbers other
      refine ⟨others, hothers.frame written.others ?_ ?_ ?_ (by simp)⟩
      · exact fun key hkey => ⟨hkey.dogemapKey, fun hkey' => hsame (hkey.eq hkey'), hkey.ne_bmhKey _⟩
      · intro claim hclaim
        rw [List.mem_append, List.mem_singleton]
        refine ⟨fun hmem => hmem.resolve_right ?_, Or.inl⟩
        rintro rfl
        exact hsame hclaim.symm
      · exact fun claim hclaim _ => latestAddress_append_of_ne _ (hother claim hclaim) _
  · intro claim hclaim
    rcases List.mem_append.1 hclaim with hold | hlast
    · exact (written.others.rows _ (hguarded _ (hother claim hold).symm)).trans (kept.mapped claim hold)
    · obtain rfl := List.mem_singleton.1 hlast
      exact hmapping
  · intro id row hrow
    by_cases hid : id = created.inscriptionId
    · exact ⟨_, List.mem_append_right _ List.mem_cons_self, hid.symm⟩
    · rw [written.others.rows _ (hguarded id hid)] at hrow
      obtain ⟨claim, hclaim, hins⟩ := kept.mapped_only id row hrow
      exact ⟨claim, List.mem_append_left _ hclaim, hins⟩
  · rw [List.map_append, List.nodup_append]
    refine ⟨kept.once, List.nodup_singleton _, ?_⟩
    rintro claimed hclaimed _ hlast rfl
    obtain ⟨claim, hclaim, hsame⟩ := List.mem_map.1 hclaimed
    exact hunclaimed claim hclaim (hsame.trans (List.mem_singleton.1 hlast))
  · intro claim hclaim
    rcases List.mem_append.1 hclaim with hold | hlast
    · exact kept.validly claim hold
    · obtain rfl := List.mem_singleton.1 hlast
      obtain ⟨hheight, hsmall, hbytes⟩ := dogemapNumber_spec hvalid
      refine ⟨hheight, hsmall, ?_⟩
      rw [hbody]
      exact hbytes
  · intro claim hclaim
    rcases List.mem_append.1 hclaim with hold | hlast
    · exact List.mem_append_left _ (kept.of_created claim hold)
    · obtain rfl := List.mem_singleton.1 hlast
      exact List.mem_append_right _ List.mem_cons_self
  · exact kept.height_lt
  · exact hfew
  · rw [List.length_append, List.length_singleton]
    exact Nat.succ_le_succ hshort

/-- A move of a claimer is recorded. -/
theorem move (lawful : codec.Lawful) (kept : DogemapKept codec state) (hclosed : state.kv.atomic = none)
    {moved : BitmapMoved} (hfew : state.movesOfBlock + 1 < 2 ^ 32) {number : ℕ} {kv : KvState V}
    (hmoved : indexBitmapTransferred codec state.block moved state.kv = some (number, kv)) :
    DogemapKept codec { state with
      kv := kv
      movesOfBlock := state.movesOfBlock + 1
      moves := state.moves ++ [(moved.inscriptionId, recordedOwner moved.ownerAddress)] } := by
  obtain ⟨records, hnumber⟩ := kept.numbers number
  have hrows : (records.map codec.encodeRecord).length ≤ state.moves.length := by
    rw [List.length_map]
    exact hnumber.short
  obtain ⟨prev, entryNumber, hmapping, hprev, written⟩ := indexBitmapTransferred_spec lawful hclosed
    hnumber.history (kept.fits hfew hrows) hmoved
  -- The mapping names the claim of the inscription.
  obtain ⟨claim, hclaim, hclaimed, hins⟩ := kept.claim_of_mapping lawful hmapping
  rw [kept.getRecord_bmKey lawful hnumber] at hprev
  have hguarded : ∀ id, DogemapKey (bmhKey id) ∧ ¬ OfNumber number (bmhKey id) ∧ ¬ False := fun id =>
    ⟨dogemapKey_bmhKey id, fun hkey => hkey.ne_bmhKey id rfl, not_false⟩
  have hshort := kept.total
  constructor
  · exact written.quiet
  · intro other
    by_cases hsame : other = number
    · subst hsame
      have hrecorded := hnumber.record written
        (by rw [hprev]; rfl) hclaim hclaimed (by rw [hins]; rfl)
      rw [hins] at hrecorded
      exact ⟨_, hrecorded⟩
    · obtain ⟨others, hothers⟩ := kept.numbers other
      refine ⟨others, hothers.frame written.others ?_ (fun _ _ => Iff.rfl) ?_ (by simp)⟩
      · exact fun key hkey => ⟨hkey.dogemapKey, fun hkey' => hsame (hkey.eq hkey'), not_false⟩
      · intro claim' hclaim' hnumber'
        apply latestAddress_append_of_ne
        intro hsameIns
        have hunique := kept.claim_unique lawful hclaim hclaim' (hins.trans hsameIns)
        exact hsame (hnumber'.symm.trans (hunique.symm.trans hclaimed))
  · exact fun claim hclaim => (written.others.rows _ (hguarded _)).trans (kept.mapped claim hclaim)
  · intro id row hrow
    rw [written.others.rows _ (hguarded id)] at hrow
    exact kept.mapped_only id row hrow
  · exact kept.once
  · exact kept.validly
  · exact kept.of_created
  · exact kept.height_lt
  · exact hfew
  · rw [List.length_append, List.length_singleton]
    exact Nat.succ_le_succ hshort

/-- Every step keeps the invariant. -/
theorem step (lawful : codec.Lawful) (kept : DogemapKept codec state) {action : DogemapAction V}
    (allowed : DogemapAllowed state action) (hstep : dogemapStep codec state action = some state') :
    DogemapKept codec state' := by
  cases action with
  | created created =>
      obtain ⟨hclosed, hnew, hfew⟩ := allowed
      simp only [dogemapStep] at hstep
      split at hstep
      next =>
        cases hstep
        exact kept.see created.inscriptionId
      next number kv hcreated =>
        cases hstep
        exact kept.claim lawful hclosed hnew hfew hcreated
  | transferred moved =>
      obtain ⟨hclosed, hfew⟩ := allowed
      simp only [dogemapStep] at hstep
      split at hstep
      next =>
        cases hstep
        exact kept
      next number kv hmoved =>
        cases hstep
        exact kept.move lawful hclosed hfew hmoved
  | call call =>
      obtain ⟨⟨reply, kv⟩, hcall, rfl⟩ := Option.map_eq_some_iff.1 hstep
      have hview := state.kv.view_step codec.lengthRow call
      rw [hcall] at hview
      exact kept.frame (.step kept.quiet allowed hview.symm)
  | nextBlock timestamp nextNumber =>
      cases hstep
      exact kept.nextBlock allowed.1 allowed.2 timestamp nextNumber

/-- The mapping of an inscription is the key of the number it has claimed. -/
theorem getText_bmhKey (lawful : codec.Lawful) (kept : DogemapKept codec state) (id : InscriptionId)
    (text : Text) : getText codec state.kv (bmhKey id) = some text ↔
      ∃ claim ∈ state.claims, claim.ins = id ∧ text = bmKey claim.number := by
  unfold getText
  rw [kept.get_eq (dogemapKey_bmhKey id)]
  constructor
  · intro htext
    obtain ⟨row, hrow, hread⟩ := Option.bind_eq_some_iff.1 htext
    obtain ⟨claim, hclaim, rfl⟩ := kept.mapped_only id row hrow
    rw [kept.mapped claim hclaim] at hrow
    rw [← Option.some.inj hrow, lawful.mapping] at hread
    exact ⟨claim, hclaim, rfl, (Option.some.inj hread).symm⟩
  · rintro ⟨claim, hclaim, rfl, rfl⟩
    rw [kept.mapped claim hclaim]
    exact lawful.mapping _

/-- A number has a record as soon as it is claimed, and the record is of its claimer. -/
theorem claimed_iff (lawful : codec.Lawful) (kept : DogemapKept codec state) (number : ℕ)
    (id : InscriptionId) : (∃ claim ∈ state.claims, claim.number = number ∧ claim.ins = id) ↔
      ∃ record, getRecord codec state.kv (bmKey number) = some record ∧ record.ins = inscriptionText id := by
  obtain ⟨records, hnumber⟩ := kept.numbers number
  rw [kept.getRecord_bmKey lawful hnumber]
  constructor
  · rintro ⟨claim, hclaim, hclaimed, rfl⟩
    rcases hnumber.claimed with ⟨-, hfree⟩ | ⟨claim', hclaim', hclaimed', last, hlast, hins, -⟩
    · exact absurd hclaimed (hfree claim hclaim)
    · have hsame : claim = claim' := List.inj_on_of_nodup_map kept.once hclaim hclaim'
        (hclaimed.trans hclaimed'.symm)
      exact ⟨last, hlast, hsame ▸ hins⟩
  · rintro ⟨record, hrecord, hins⟩
    rcases hnumber.claimed with ⟨rfl, -⟩ | ⟨claim, hclaim, hclaimed, last, hlast, hins', -⟩
    · cases hrecord
    · obtain rfl := Option.some.inj (hlast.symm.trans hrecord)
      exact ⟨claim, hclaim, hclaimed, inscriptionText_injective (hins'.symm.trans hins)⟩

theorem sound (lawful : codec.Lawful) (kept : DogemapKept codec state) : DogemapSound codec state where
  claimed_once := kept.once
  claimed_validly claim hclaim :=
    ⟨(kept.validly claim hclaim).1, (kept.validly claim hclaim).2.2⟩
  claimed_iff := kept.claimed_iff lawful
  inverse number id := by
    rw [← kept.claimed_iff lawful, kept.getText_bmhKey lawful]
    constructor
    · rintro ⟨claim, hclaim, rfl, hins⟩
      exact ⟨claim, hclaim, hins, rfl⟩
    · rintro ⟨claim, hclaim, hins, hkey⟩
      exact ⟨claim, hclaim, (bmKey_injective hkey).symm, hins⟩
  mapped id text htext := by
    obtain ⟨claim, -, -, hkey⟩ := (kept.getText_bmhKey lawful id text).1 htext
    exact ⟨claim.number, hkey⟩
  owner number record hrecord := by
    obtain ⟨records, hnumber⟩ := kept.numbers number
    rw [kept.getRecord_bmKey lawful hnumber] at hrecord
    rcases hnumber.claimed with ⟨rfl, -⟩ | ⟨claim, -, -, last, hlast, hins, howner⟩
    · cases hrecord
    · obtain rfl := Option.some.inj (hlast.symm.trans hrecord)
      exact ⟨claim.ins, hins, howner⟩
  history number := by
    obtain ⟨records, hnumber⟩ := kept.numbers number
    refine ⟨records, ⟨?_, fun index => ?_, fun length hlength => ?_⟩,
      kept.getRecord_bmKey lawful hnumber, hnumber.chained⟩
    · rw [kept.get_eq (OfNumber.dogemapKey (.inr (.inl rfl)))]
      exact hnumber.history.stored.length
    · rw [kept.get_eq (OfNumber.dogemapKey (.inr (.inr ⟨index, rfl⟩)))]
      exact hnumber.history.stored.items index
    · have hkey : DogemapKey (bmhlKey number) := OfNumber.dogemapKey (.inr (.inl rfl))
      unfold KvState.cachedLength at hlength
      cases hatomic : state.kv.atomic with
      | none =>
          rw [hatomic] at hlength
          exact hnumber.history.cached length hlength
      | some batch =>
          simp [hatomic, (kept.quiet batch hatomic _ hkey).2] at hlength

end DogemapKept

/-- In every run from a table without rows of Dogemap: a number is claimed once, at or above its own
height and by a body that is its decimal digits and `.dogemap`; the rows of the numbers and of the
inscriptions are inverse to each other; the current record is the last one of the history, its owner is
where the claimer moved last, and every record names the owner before it. -/
theorem dogemap_ownership (lawful : codec.Lawful) {table : KeyTable Text V}
    (hfresh : ∀ key, DogemapKey key → table.lookup key = none) {block : BlockTime}
    (hheight : block.height < 2 ^ 32) {state : DogemapState V}
    (reaches : Run.Reaches (dogemapStep codec) DogemapAllowed (.start table block) state) :
    DogemapSound codec state := by
  have hkept : DogemapKept codec state :=
    reaches.invariant (DogemapKept codec) (fun kept allowed hstep => kept.step lawful allowed hstep)
      (.start hfresh hheight)
  exact hkept.sound lawful

/-- Rows as they are written. -/
inductive BitmapRow where
  | record (record : BitmapRecord)
  | text (text : Text)
deriving DecidableEq, Repr

def bitmapRow : RowCodec BitmapRow where
  encodeRecord := .record
  decodeRecord := fun | .record record => some record | .text _ => none
  encodeText := .text
  decodeText := fun | .record _ => none | .text text => some text

theorem bitmapRow_lawful : bitmapRow.Lawful :=
  ⟨fun _ => rfl, fun _ => rfl, fun _ => rfl⟩

/-- An inscription created in its own transaction. -/
def inscribedText (txid : Txid) (text owner : String) : BitmapCreated where
  inscriptionId := { txid := txid, index := 0 }
  inscriptionNumber := 0
  satpoint := { outpoint := { txid := txid, vout := 0 }, offset := 0 }
  body := some (bytesOf text.toList)
  ownerAddress := owner.toList
  parents := []
  outputValueSat := 100000

def movedTo (txid newTxid : Txid) (owner : String) : BitmapMoved where
  inscriptionId := { txid := txid, index := 0 }
  newSatpoint := { outpoint := { txid := newTxid, vout := 1 }, offset := 0 }
  ownerAddress := owner.toList
  outputValueSat := 100000
  entryNumber := some 0

/-- Block 5 is claimed, claimed once more in vain, moved, and burned in the next block. -/
def blockFiveActions : List (DogemapAction BitmapRow) :=
  [.created (inscribedText 1 "5.dogemap" "D1"), .created (inscribedText 2 "5.dogemap" "D2"),
    .created (inscribedText 3 "05.dogemap" "D3"), .transferred (movedTo 1 4 "D4"),
    .call (.tapPut "d/x".toList (.text [])), .nextBlock 60 none, .transferred (movedTo 1 5 "-")]

/-- The rules of a run, on calls that are plain writes. -/
def dogemapCheck (state : DogemapState BitmapRow) : DogemapAction BitmapRow → Bool
  | .created created => state.kv.atomic.isNone && !state.created.contains created.inscriptionId &&
      decide (state.movesOfBlock + 1 < 2 ^ 32)
  | .transferred _ => state.kv.atomic.isNone && decide (state.movesOfBlock + 1 < 2 ^ 32)
  | .call (.tapPut key _) => !decide (DogemapKey key)
  | .call _ => false
  | .nextBlock _ _ => state.kv.atomic.isNone && decide (state.block.height + 1 < 2 ^ 32)

theorem dogemapAllowed_of_check {state : DogemapState BitmapRow} {action : DogemapAction BitmapRow}
    (hcheck : dogemapCheck state action = true) : DogemapAllowed state action := by
  cases action with
  | created created => simpa [dogemapCheck, DogemapAllowed, and_assoc] using hcheck
  | transferred moved => simpa [dogemapCheck, DogemapAllowed] using hcheck
  | call call =>
      cases call with
      | tapPut key value => simpa [dogemapCheck, DogemapAllowed, KvOp.op, Op.Avoids] using hcheck
      | _ => cases hcheck
  | nextBlock timestamp nextNumber => simpa [dogemapCheck, DogemapAllowed] using hcheck

theorem blockFive_owned :
    ∃ state, Run.Reaches (dogemapStep bitmapRow) DogemapAllowed
        (.start ∅ { height := 7, timestamp := 0 }) state ∧
      (state.claims.map Claim.number = [5] ∧
        state.moves.map Prod.snd = ["D1".toList, "D4".toList, burnAddress]) ∧
      DogemapSound bitmapRow state := by
  have hexec : (Run.exec (dogemapStep bitmapRow) dogemapCheck blockFiveActions
      (.start ∅ { height := 7, timestamp := 0 })).map
        (fun state => (state.claims.map Claim.number, state.moves.map Prod.snd)) =
      some ([5], ["D1".toList, "D4".toList, burnAddress]) := by decide
  obtain ⟨state, reaches, hview⟩ := Run.exists_reaches_of_exec dogemapAllowed_of_check hexec
  exact ⟨state, reaches, Prod.mk.inj hview,
    dogemap_ownership bitmapRow_lawful (fun _ _ => rfl) (by decide) reaches⟩

end Runs

end OrdDogecoin.Tap
