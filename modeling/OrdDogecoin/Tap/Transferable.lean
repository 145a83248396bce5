/-
Module: OrdDogecoin.Tap.Transferable
Purpose: The transferable amount of an account is what its live transfer inscriptions carry, and its
  balance covers it, over every run in which no fill pays its fee to the seller or the buyer.
Trusted boundary: none
Main exports: liveTotal, TransfersCovered, transfers_covered_of_reaches
-/
import OrdDogecoin.Tap.Conservation

namespace OrdDogecoin.Tap

open Proc KeyTable Chain

/-! ### Live transfers -/

abbrev Links := KeyTable InscriptionId (Option TransferPointer)

abbrev TransferRecords := KeyTable (Address × TickKey) (List TransferInitRecord)

def linkedRecord (atrli : TransferRecords) (pointer : TransferPointer) : Option TransferInitRecord :=
  ((atrli.lookup (pointer.addr, pointer.tick)).getD [])[pointer.index]?

/-- What a link carries of an account's ticker; nothing once it is emptied. -/
def linkAmount (atrli : TransferRecords) (address : Address) (tick : TickKey) :
    Option TransferPointer → ℤ
  | none => 0
  | some pointer =>
      if pointer.addr = address ∧ pointer.tick = tick then
        ((linkedRecord atrli pointer).map fun atr => (atr.amt : ℤ)).getD 0
      else 0

/-- The amounts of the live transfer inscriptions of an account. -/
def liveTotal (tl : Links) (atrli : TransferRecords) (address : Address) (tick : TickKey) : ℤ :=
  total (fun _ link => linkAmount atrli address tick link) tl

section Live

variable {tl : Links} {atrli : TransferRecords} {address : Address} {tick : TickKey}
variable {id : InscriptionId}

theorem linkAmount_nonneg (atrli : TransferRecords) (address : Address) (tick : TickKey)
    (link : Option TransferPointer) : 0 ≤ linkAmount atrli address tick link := by
  unfold linkAmount
  split
  next => exact Int.le_refl 0
  next pointer =>
    split
    next =>
      cases linkedRecord atrli pointer with
      | none => exact Int.le_refl 0
      | some atr => exact Int.natCast_nonneg _
    next => exact Int.le_refl 0

theorem linkAmount_self {pointer : TransferPointer} {atr : TransferInitRecord}
    (hrecord : linkedRecord atrli pointer = some atr) :
    linkAmount atrli pointer.addr pointer.tick (some pointer) = atr.amt := by
  simp [linkAmount, hrecord]

/-- A new link adds its amount. -/
theorem liveTotal_link (hfresh : tl.lookup id = none) (link : Option TransferPointer) :
    liveTotal (tl.insert id link) atrli address tick =
      liveTotal tl atrli address tick + linkAmount atrli address tick link := by
  have haccount := total_insert (fun _ link => linkAmount atrli address tick link) tl id link
  rw [weightAt, hfresh, Option.map_none, Option.getD_none, add_zero] at haccount
  exact haccount

/-- Emptying a link takes its amount away. -/
theorem liveTotal_clear (atrli : TransferRecords) (address : Address) (tick : TickKey)
    {link : Option TransferPointer} (hlink : tl.lookup id = some link) :
    liveTotal (tl.insert id none) atrli address tick =
      liveTotal tl atrli address tick - linkAmount atrli address tick link := by
  have haccount := total_insert (fun _ link => linkAmount atrli address tick link) tl id none
  rw [weightAt, hlink, Option.map_some, Option.getD_some] at haccount
  unfold liveTotal
  have hzero : linkAmount atrli address tick none = 0 := rfl
  omega

/-- No link carries more than all of them. -/
theorem linkAmount_le_liveTotal {link : Option TransferPointer} (hlink : tl.lookup id = some link) :
    linkAmount atrli address tick link ≤ liveTotal tl atrli address tick := by
  have hcleared := liveTotal_clear atrli address tick hlink
  have hnonneg : 0 ≤ liveTotal (tl.insert id none) atrli address tick := by
    have hzero : total (fun _ _ => (0 : ℤ)) (tl.insert id none) = 0 := by
      simp [total]
    rw [← hzero]
    exact total_le_total fun _ link _ => linkAmount_nonneg atrli address tick link
  omega

/-- A record written after the others changes no link to them. -/
theorem linkedRecord_append {pointer : TransferPointer} {atr : TransferInitRecord}
    (hrecord : linkedRecord atrli pointer = some atr) (key : Address × TickKey)
    (last : TransferInitRecord) :
    linkedRecord (atrli.insert key ((atrli.lookup key).getD [] ++ [last])) pointer = some atr := by
  unfold linkedRecord at hrecord ⊢
  rw [lookup_insert_ite]
  split
  next hsame =>
    rw [hsame] at hrecord
    rw [Option.getD_some, List.getElem?_append_left]
    · exact hrecord
    · exact (List.getElem?_eq_some_iff.1 hrecord).1
  next => exact hrecord

theorem liveTotal_append (hlinked : ∀ id pointer, tl.lookup id = some (some pointer) →
      (linkedRecord atrli pointer).isSome) (key : Address × TickKey) (last : TransferInitRecord) :
    liveTotal tl (atrli.insert key ((atrli.lookup key).getD [] ++ [last])) address tick =
      liveTotal tl atrli address tick := by
  apply total_congr
  intro id link hlink
  cases link with
  | none => rfl
  | some pointer =>
      obtain ⟨atr, hrecord⟩ := Option.isSome_iff_exists.1 (hlinked id pointer hlink)
      simp only [linkAmount, linkedRecord_append hrecord, hrecord]

end Live

/-! ### The invariant -/

/-- Every account's transferable amount is what its live links carry and is covered by its balance;
the rows that a live link needs are there. -/
structure TapStore.Transferable (store : TapStore) : Prop where
  supplied : store.Supplied
  le_balance : ∀ address tick, balanceAt store.t address tick ≤ balanceAt store.b address tick
  eq_live : ∀ address tick,
    balanceAt store.t address tick = liveTotal store.tl store.atrli address tick
  linked : ∀ {id pointer}, store.tl.lookup id = some (some pointer) →
    ∃ atr, linkedRecord store.atrli pointer = some atr ∧ atr.addr = pointer.addr ∧
      (store.t.lookup (pointer.addr, pointer.tick)).isSome ∧
      (store.b.lookup (pointer.addr, pointer.tick)).isSome

theorem balanceAt_of_lookup {t : Balances} {address : Address} {tick : TickKey} {n : ℤ}
    (hrow : t.lookup (address, tick) = some n) : balanceAt t address tick = n := by
  simp [balanceAt, valueAt, hrow]

namespace TapStore.Transferable

variable {store : TapStore}

theorem empty : TapStore.empty.Transferable where
  supplied := TapStore.supplied_empty
  le_balance _ _ := le_rfl
  eq_live _ _ := rfl
  linked hlink := by simp [TapStore.empty] at hlink

theorem nonneg (inv : store.Transferable) (address : Address) (tick : TickKey) :
    0 ≤ balanceAt store.t address tick := by
  unfold balanceAt valueAt
  cases hrow : store.t.lookup (address, tick) with
  | none => simp
  | some n => simpa using inv.supplied.transferable_nonneg _ n hrow

theorem transferable_lt (inv : store.Transferable) (address : Address) (tick : TickKey) :
    balanceAt store.t address tick < 2 ^ 127 :=
  (inv.le_balance address tick).trans_lt (inv.supplied.balanceAt_lt address tick)

/-- A transferable amount is read back as it was written. -/
theorem i128At_eq (inv : store.Transferable) (address : Address) (tick : TickKey) :
    i128At store.t address tick = balanceAt store.t address tick := by
  have hnonneg := inv.nonneg address tick
  have hlt := inv.transferable_lt address tick
  unfold i128At
  cases hrow : store.t.lookup (address, tick) with
  | none => simp [balanceAt, valueAt, hrow]
  | some n =>
      rw [balanceAt_of_lookup hrow] at hnonneg hlt ⊢
      rw [Option.bind_some, readI128, if_pos ⟨by omega, hlt⟩, Option.getD_some]

theorem u128At_eq (inv : store.Transferable) (address : Address) (tick : TickKey) :
    (u128At store.t address tick : ℤ) = balanceAt store.t address tick := by
  have hnonneg := inv.nonneg address tick
  have hlt := inv.transferable_lt address tick
  unfold u128At
  cases hrow : store.t.lookup (address, tick) with
  | none => simp [balanceAt, valueAt, hrow]
  | some n =>
      rw [balanceAt_of_lookup hrow] at hnonneg hlt ⊢
      rw [Option.bind_some, readU128, if_pos ⟨hnonneg, by omega⟩, Option.getD_some]
      exact Int.toNat_of_nonneg hnonneg

/-- A live link carries at most the transferable amount. -/
theorem amount_le (inv : store.Transferable) {id : InscriptionId} {pointer : TransferPointer}
    {atr : TransferInitRecord} (hlink : store.tl.lookup id = some (some pointer))
    (hrecord : linkedRecord store.atrli pointer = some atr) :
    (atr.amt : ℤ) ≤ balanceAt store.t pointer.addr pointer.tick := by
  rw [inv.eq_live, ← linkAmount_self hrecord]
  exact linkAmount_le_liveTotal hlink

end TapStore.Transferable

/-- The steps beside the transfers keep the invariant. -/
theorem tokenInvariant_transferable : TokenInvariant TapStore.Transferable where
  supplied inv := inv.supplied
  keep inv supplied spares := by
    constructor
    case supplied => exact supplied
    case le_balance =>
      intro address tick
      rw [spares.t]
      have hbefore := inv.le_balance address tick
      rcases spares.covered address tick with hgrows | hcovers
      · exact hbefore.trans hgrows
      · rwa [inv.i128At_eq] at hcovers
    case eq_live =>
      intro address tick
      rw [spares.t, spares.tl, spares.atrli]
      exact inv.eq_live address tick
    case linked =>
      intro id pointer hlink
      rw [spares.tl] at hlink
      rw [spares.t, spares.atrli]
      obtain ⟨atr, hrecord, haddr, ht, hb⟩ := inv.linked hlink
      exact ⟨atr, hrecord, haddr, ht, spares.rows _ hb⟩

/-! ### Transfers -/

section Transfers

variable {env : TapEnv} {context : TapContext} {store : TapStore}

/-- A new record, which no link points to yet. -/
theorem TapStore.Transferable.append (inv : store.Transferable) (key : Address × TickKey)
    (last : TransferInitRecord) :
    TapStore.Transferable
      { store with atrli := store.atrli.insert key ((store.atrli.lookup key).getD [] ++ [last]) } where
  supplied := inv.supplied
  le_balance := inv.le_balance
  eq_live address tick := by
    have hlinked : ∀ id pointer, store.tl.lookup id = some (some pointer) →
        (linkedRecord store.atrli pointer).isSome := by
      intro id pointer hlink
      obtain ⟨atr, hrecord, -⟩ := inv.linked hlink
      rw [hrecord]
      rfl
    dsimp only
    rw [liveTotal_append hlinked]
    exact inv.eq_live address tick
  linked hlink := by
    obtain ⟨atr, hrecord, haddr, hrows⟩ := inv.linked hlink
    exact ⟨atr, linkedRecord_append hrecord key last, haddr, hrows⟩

/-- A new link to a record, and its amount made transferable. -/
theorem TapStore.Transferable.link (inv : store.Transferable) {id : InscriptionId}
    (pointer : TransferPointer) (atr : TransferInitRecord) (hfresh : store.tl.lookup id = none)
    (hrecord : linkedRecord store.atrli pointer = some atr) (haddr : atr.addr = pointer.addr)
    (hrow : (store.b.lookup (pointer.addr, pointer.tick)).isSome)
    (hcovered : balanceAt store.t pointer.addr pointer.tick + atr.amt ≤
      balanceAt store.b pointer.addr pointer.tick) :
    TapStore.Transferable
      { store with
        t := store.t.insert (pointer.addr, pointer.tick)
          (balanceAt store.t pointer.addr pointer.tick + atr.amt)
        tl := store.tl.insert id (some pointer) } where
  supplied := by
    apply Supply.setTransferable inv.supplied
    have hnonneg := inv.nonneg pointer.addr pointer.tick
    omega
  le_balance address tick := by
    dsimp only
    rw [balanceAt_insert]
    split
    next hsame =>
      rw [hsame.1, hsame.2]
      exact hcovered
    next => exact inv.le_balance address tick
  eq_live address tick := by
    dsimp only
    rw [balanceAt_insert, liveTotal_link hfresh, ← inv.eq_live]
    split
    next hsame => rw [hsame.1, hsame.2, linkAmount_self hrecord]
    next hother =>
      have hzero : linkAmount store.atrli address tick (some pointer) = 0 := by
        apply if_neg
        exact fun hsame => hother ⟨hsame.1.symm, hsame.2.symm⟩
      rw [hzero, add_zero]
  linked {other found} hlink := by
    have hrows : ∀ key, (store.t.lookup key).isSome →
        ((store.t.insert (pointer.addr, pointer.tick)
          (balanceAt store.t pointer.addr pointer.tick + atr.amt)).lookup key).isSome := by
      intro key hkey
      rw [lookup_insert_ite]
      split
      · rfl
      · exact hkey
    rcases lookup_insert_cases hlink with ⟨-, hsame⟩ | ⟨-, hold⟩
    · cases hsame
      exact ⟨atr, hrecord, haddr, by simp, hrow⟩
    · obtain ⟨found, hfound, haddr, ht, hb⟩ := inv.linked hold
      exact ⟨found, hfound, haddr, hrows _ ht, hb⟩

/-- A live link is emptied and its amount taken off what is transferable, while the balances move
but keep what is still transferable. -/
theorem TapStore.Transferable.unlink (inv : store.Transferable) {id : InscriptionId}
    {pointer : TransferPointer} {atr : TransferInitRecord} {b : Balances}
    (hlink : store.tl.lookup id = some (some pointer))
    (hrecord : linkedRecord store.atrli pointer = some atr)
    (supplied : TapStore.Supplied { store with b := b })
    (hrows : ∀ key, (store.b.lookup key).isSome → (b.lookup key).isSome)
    (hcovers : ∀ address tick, balanceAt store.t address tick ≤ balanceAt b address tick +
      if address = pointer.addr ∧ tick = pointer.tick then (atr.amt : ℤ) else 0) :
    TapStore.Transferable
      { store with
        b := b
        t := store.t.insert (pointer.addr, pointer.tick)
          (balanceAt store.t pointer.addr pointer.tick - atr.amt)
        tl := store.tl.insert id none } where
  supplied := by
    apply Supply.setTransferable supplied
    have hle := inv.amount_le hlink hrecord
    omega
  le_balance address tick := by
    have hcover := hcovers address tick
    dsimp only
    rw [balanceAt_insert]
    split
    next hsame =>
      rw [if_pos hsame, hsame.1, hsame.2] at hcover
      rw [hsame.1, hsame.2]
      omega
    next hother =>
      rw [if_neg hother, add_zero] at hcover
      exact hcover
  eq_live address tick := by
    dsimp only
    rw [balanceAt_insert, liveTotal_clear _ _ _ hlink, ← inv.eq_live]
    split
    next hsame => rw [hsame.1, hsame.2, linkAmount_self hrecord]
    next hother =>
      have hzero : linkAmount store.atrli address tick (some pointer) = 0 := by
        apply if_neg
        exact fun hsame => hother ⟨hsame.1.symm, hsame.2.symm⟩
      rw [hzero, sub_zero]
  linked {other found} hfound := by
    rcases lookup_insert_cases hfound with ⟨-, hnone⟩ | ⟨-, hold⟩
    · cases hnone
    · obtain ⟨record, hrecord, haddr, ht, hb⟩ := inv.linked hold
      refine ⟨record, hrecord, haddr, ?_, hrows _ hb⟩
      dsimp only
      rw [lookup_insert_ite]
      split
      · rfl
      · exact ht

theorem keeps_transferCreated (inv : store.Transferable) (created : Created)
    (hfresh : store.tl.lookup created.inscriptionId = none) :
    Keeps TapStore.Transferable (indexTokenTransferCreated env context created) store := by
  unfold indexTokenTransferCreated
  refine keeps_get inv fun json _ => keeps_require inv fun _ => ?_
  refine keeps_get inv fun amtVal _ => keeps_require inv fun _ => ?_
  refine keeps_require inv fun _ => keeps_get inv fun _ _ => ?_
  refine keeps_require inv fun _ => keeps_require inv fun _ => ?_
  generalize (if created.inscriptionNumber < 0 then _ else _) = tick
  refine keeps_read (keeps_get inv fun deployed _ => keeps_read ?_)
  refine keeps_get inv fun tokensLeft hbalance => keeps_get inv fun amount _ => keeps_read ?_
  refine keeps_write (keeps_read (keeps_write (keeps_write_last ?_)))
  obtain ⟨balance, hrow, hread⟩ := Option.bind_eq_some_iff.1 hbalance
  have hbalance : balanceAt store.b created.ownerAddress (jsonStringifyLower env tick) = tokensLeft :=
    (balanceAt_of_lookup hrow).trans (readU128_eq_some hread)
  have htransferable := inv.u128At_eq created.ownerAddress (jsonStringifyLower env tick)
  generalize hlocked : tapGetLockedAmount env context created.ownerAddress
    (jsonStringifyLower env tick) = locked
  generalize hobligation : tapGetAccountObligationLockedAmount env context created.ownerAddress
    (jsonStringifyLower env tick) = obligation
  by_cases hfail : tokensLeft < u128At store.t created.ownerAddress (jsonStringifyLower env tick) +
      locked + obligation + amount
  · simp only [hfail, if_true]
    exact inv.append _ _
  · simp only [hfail, if_false]
    have hlt := inv.supplied.balanceAt_lt created.ownerAddress (jsonStringifyLower env tick)
    have hsum : ((min (u128At store.t created.ownerAddress (jsonStringifyLower env tick) + amount)
        (2 ^ 128 - 1) : ℕ) : ℤ) =
        balanceAt store.t created.ownerAddress (jsonStringifyLower env tick) + amount := by
      omega
    rw [hsum]
    have happended := inv.append (created.ownerAddress, jsonStringifyLower env tick)
      { addr := created.ownerAddress, amt := amount, tx := created.satpoint.outpoint.txid }
    apply happended.link
      { addr := created.ownerAddress
        tick := jsonStringifyLower env tick
        index := ((store.atrli.lookup
          (created.ownerAddress, jsonStringifyLower env tick)).getD []).length }
      { addr := created.ownerAddress, amt := amount, tx := created.satpoint.outpoint.txid } hfresh
    · simp [linkedRecord]
    · rfl
    · rw [hrow]
      rfl
    · dsimp only
      omega

/-- A transfer between two accounts, both balances and the transferable amount at hand. -/
theorem transferable_settleTransfer (inv : store.Transferable) {id : InscriptionId}
    {pointer : TransferPointer} {atr : TransferInitRecord} {receiver : Address}
    (hlink : store.tl.lookup id = some (some pointer))
    (hrecord : linkedRecord store.atrli pointer = some atr)
    (hdeployed : (store.d.lookup pointer.tick).isSome) :
    TapStore.Transferable
      (clearLink id (settleTransfer pointer.addr receiver pointer.tick atr.amt
        (balanceAt store.b pointer.addr pointer.tick) (balanceAt store.t pointer.addr pointer.tick)
        store)) := by
  have hle := inv.amount_le hlink hrecord
  have hbalance := inv.le_balance pointer.addr pointer.tick
  have hmax : max (balanceAt store.t pointer.addr pointer.tick - atr.amt) 0 =
      balanceAt store.t pointer.addr pointer.tick - atr.amt := by
    omega
  unfold settleTransfer clearLink
  dsimp only
  rw [hmax, Supply.i128At_eq inv.supplied]
  split
  next hmoves =>
    have hcovered : (atr.amt : ℤ) ≤ balanceAt store.b pointer.addr pointer.tick := hle.trans hbalance
    rw [Supply.wrap_received inv.supplied hdeployed hmoves.2 (Int.natCast_nonneg _) hcovered]
    apply inv.unlink hlink hrecord
    · exact Supply.move inv.supplied hdeployed hmoves.2 (Int.natCast_nonneg _) hcovered
    · intro key hkey
      simp only [lookup_insert_ite]
      split
      · rfl
      · split
        · rfl
        · exact hkey
    · intro address tick
      have hbefore := inv.le_balance address tick
      rw [balanceAt_insert, balanceAt_insert]
      split
      next hreceives =>
        have hother : ¬ (address = pointer.addr ∧ tick = pointer.tick) := by
          rintro ⟨rfl, -⟩
          exact hmoves.2 hreceives.1.symm
        rw [if_neg hother]
        rw [hreceives.1, hreceives.2] at hbefore ⊢
        omega
      next =>
        split
        next hsends =>
          rw [hsends.1, hsends.2] at hbefore ⊢
          omega
        next => omega
  next =>
    apply inv.unlink hlink hrecord inv.supplied (fun _ hkey => hkey)
    intro address tick
    have hbefore := inv.le_balance address tick
    split <;> omega

theorem keeps_transferExecuted (inv : store.Transferable) (moved : Moved) :
    Keeps TapStore.Transferable (indexTokenTransferExecuted env context moved) store := by
  unfold indexTokenTransferExecuted
  refine keeps_require inv fun _ => keeps_read (keeps_get inv fun link hlink => ?_)
  refine keeps_get inv fun pointer hpointer => keeps_read (keeps_get inv fun atr hrecord => ?_)
  refine keeps_require inv fun _ => keeps_require inv fun _ => keeps_read ?_
  refine keeps_require inv fun hdeployed => ?_
  subst hpointer
  obtain ⟨record, hfound, haddr, htrow, hbrow⟩ := inv.linked hlink
  have hrecord : linkedRecord store.atrli pointer = some atr := hrecord
  cases hfound.symm.trans hrecord
  have hle := inv.amount_le hlink hrecord
  have hlt := inv.transferable_lt pointer.addr pointer.tick
  have hamount : (if atr.amt < 2 ^ 127 then (atr.amt : ℤ) else 0) = atr.amt := by
    apply if_pos
    omega
  obtain ⟨transferable, htransferable⟩ := Option.isSome_iff_exists.1 htrow
  obtain ⟨balance, hbalance⟩ := Option.isSome_iff_exists.1 hbrow
  have hread : (readI128 transferable).getD 0 = balanceAt store.t pointer.addr pointer.tick := by
    rw [← inv.i128At_eq, i128At, htransferable]
    rfl
  dsimp only
  rw [hamount, haddr]
  split
  · -- the shield drops the transferable amount and the link
    refine keeps_write_last ?_
    split
    · exact inv
    · have hmax : max (balanceAt store.t pointer.addr pointer.tick - atr.amt) 0 =
          balanceAt store.t pointer.addr pointer.tick - atr.amt := by
        omega
      simp only [htransferable, hread, hmax]
      apply inv.unlink hlink hrecord inv.supplied (fun _ hkey => hkey)
      intro address tick
      have hbefore := inv.le_balance address tick
      split <;> omega
  · refine keeps_read (keeps_write (keeps_write_last ?_))
    have hbread : (readI128 balance).getD 0 = balanceAt store.b pointer.addr pointer.tick := by
      rw [← Supply.i128At_eq inv.supplied, i128At, hbalance]
      rfl
    simp only [hbalance, htransferable, hread, hbread]
    exact transferable_settleTransfer inv hlink hrecord hdeployed

end Transfers

/-! ### Runs -/

/-- A token operation, or one item that a redeem sends. -/
inductive TransferOp where
  | token (op : TapOp)
  | redeemSend (sender receiver : Address) (tick : Text) (amt : Json)

def TransferOp.handler (env : TapEnv) (context : TapContext) : TransferOp → TapHandler Unit
  | .token op => op.handler env context
  | .redeemSend sender receiver tick amt => execInternalSendOne env context sender receiver tick amt

/-- One operation, with the block and the other rows it sees. -/
def transferStep (env : TapEnv) (store : TapStore) (action : TapContext × TransferOp) :
    Option TapStore :=
  some ((action.2.handler env action.1).after store)

def TransferOp.transferId : TransferOp → Option InscriptionId
  | .token (.tokenTransferCreated created) => some created.inscriptionId
  | _ => none

/-- An inscription is created once, so a new transfer has no link yet. -/
def TransferOp.InscribedOnce (store : TapStore) (op : TransferOp) : Prop :=
  ∀ id ∈ op.transferId, store.tl.lookup id = none

instance (store : TapStore) (op : TransferOp) : Decidable (op.InscribedOnce store) :=
  inferInstanceAs (Decidable (∀ id ∈ op.transferId, store.tl.lookup id = none))

def TransferOp.fill (env : TapEnv) (context : TapContext) (store : TapStore) :
    TransferOp → Option TradeFill
  | .token op => op.fill env context store
  | .redeemSend _ _ _ _ => none

/-- If the operation fills a trade, the fee goes to neither of the parties. -/
def TransferOp.FeeApart (env : TapEnv) (context : TapContext) (store : TapStore) (op : TransferOp) :
    Prop :=
  ∀ fill ∈ op.fill env context store, fill.FeeApart

instance (env : TapEnv) (context : TapContext) (store : TapStore) (op : TransferOp) :
    Decidable (op.FeeApart env context store) :=
  inferInstanceAs (Decidable (∀ fill ∈ op.fill env context store, fill.FeeApart))

theorem transferable_transferStep {env : TapEnv} {store after : TapStore}
    {action : TapContext × TransferOp} (inv : store.Transferable)
    (honce : action.2.InscribedOnce store) (hapart : action.2.FeeApart env action.1 store)
    (hstep : transferStep env store action = some after) : after.Transferable := by
  obtain ⟨context, op⟩ := action
  obtain rfl := Option.some.inj hstep
  cases op with
  | token op =>
      cases op with
      | tokenTransferCreated created => exact (keeps_transferCreated inv created (honce _ rfl)).after
      | tokenTransferExecuted moved => exact (keeps_transferExecuted inv moved).after
      | _ =>
          exact invariant_tapOp tokenInvariant_transferable inv (fun _ hop => by cases hop)
            (fun _ hop => by cases hop) hapart
  | redeemSend sender receiver tick amt =>
      exact (keeps_execInternalSendOne tokenInvariant_transferable inv sender receiver tick amt).after

/-- The transferable amounts are those of the live transfers and are covered, and a live transfer finds
its rows and what it moves, so it does not fail for lack of funds. -/
structure TransfersCovered (store : TapStore) : Prop where
  nonneg : ∀ address tick, 0 ≤ balanceAt store.t address tick
  le_balance : ∀ address tick, balanceAt store.t address tick ≤ balanceAt store.b address tick
  eq_live : ∀ address tick,
    balanceAt store.t address tick = liveTotal store.tl store.atrli address tick
  executable : ∀ {id pointer}, store.tl.lookup id = some (some pointer) →
    ∃ atr, linkedRecord store.atrli pointer = some atr ∧ atr.addr = pointer.addr ∧
      (store.t.lookup (pointer.addr, pointer.tick)).isSome ∧
      (store.b.lookup (pointer.addr, pointer.tick)).isSome ∧ (atr.amt : ℤ) < 2 ^ 127 ∧
      (atr.amt : ℤ) ≤ i128At store.t pointer.addr pointer.tick ∧
      (atr.amt : ℤ) ≤ i128At store.b pointer.addr pointer.tick

/-- Over every run in which no fill pays its fee to the seller or the buyer, the transfers are
covered. -/
theorem transfers_covered_of_reaches (env : TapEnv) {store : TapStore}
    (reaches : Run.Reaches (transferStep env)
      (fun store action => action.2.InscribedOnce store ∧ action.2.FeeApart env action.1 store)
      TapStore.empty store) :
    TransfersCovered store := by
  have inv : store.Transferable := by
    apply reaches.invariant TapStore.Transferable
    · exact fun inv hallowed hstep => transferable_transferStep inv hallowed.1 hallowed.2 hstep
    · exact TapStore.Transferable.empty
  constructor
  case nonneg => exact inv.nonneg
  case le_balance => exact inv.le_balance
  case eq_live => exact inv.eq_live
  case executable =>
    intro id pointer hlink
    obtain ⟨atr, hrecord, haddr, ht, hb⟩ := inv.linked hlink
    have hle := inv.amount_le hlink hrecord
    have hbalance := inv.le_balance pointer.addr pointer.tick
    have hlt := inv.transferable_lt pointer.addr pointer.tick
    rw [inv.i128At_eq, Supply.i128At_eq inv.supplied]
    exact ⟨atr, hrecord, haddr, ht, hb, hle.trans_lt hlt, hle, hle.trans hbalance⟩

/-! ### A covered run and an overflow -/

def transferDocument : Json :=
  .object (textFields [("p", "tap"), ("op", "token-transfer"), ("tick", "abc"), ("amt", "30")])

/-- A ticker with eighteen decimals and the largest supply there is. -/
def largeDeployDocument : Json :=
  .object (textFields [("p", "tap"), ("op", "token-deploy"), ("tick", "xyz"),
    ("max", "18446744073709551615"), ("dec", "18")])

def largeMintDocument : Json :=
  .object (textFields [("p", "tap"), ("op", "token-mint"), ("tick", "xyz"),
    ("amt", "18446744073709551615")])

/-- A fill of the offer inscribed by transaction `txid` whose fee goes to the buyer. -/
def largeFillDocument (txid : Txid) : Json :=
  .object (textFields [("p", "tap"), ("op", "token-trade"), ("side", "1"), ("tick", "xyz"),
      ("amt", "18000000000000000000")] ++
    [("trade".toList, .string (inscriptionText ⟨txid, 0⟩)),
      ("fee_rcv".toList, .string sampleBuyer)])

/-- The transactions of the ten offers. -/
def offerTxids : List Txid := [10, 12, 14, 16, 18, 20, 22, 24, 26, 28]

def transferEnv : TapEnv where
  __ := sampleEnv
  parse body :=
    ([deployDocument "abc", mintDocument "abc", transferDocument, largeDeployDocument,
      largeMintDocument, offerDocument] ++ offerTxids.map largeFillDocument).find? fun json =>
        json.body = body

/-- A new inscription in the sample block. -/
def tokenAction (op : TapOp) : TapContext × TransferOp := (sampleContext, .token op)

/-- The amounts of an account in a ticker. -/
def accountView (address : Address) (tick : TickKey) (store : TapStore) : ℤ × ℤ × ℤ :=
  (balanceAt store.b address tick, balanceAt store.t address tick,
    liveTotal store.tl store.atrli address tick)

def abcKey : TickKey := "\"abc\"".toList

/-- Two transfers are inscribed and one of them is sent. -/
theorem sentTransfer_covered :
    ∃ store, Run.Reaches (transferStep transferEnv)
        (fun store action => action.2.InscribedOnce store ∧
          action.2.FeeApart transferEnv action.1 store) TapStore.empty store ∧
      accountView sampleSeller abcKey store = (70, 30, 30) ∧ TransfersCovered store := by
  have hexec : (Run.exec (transferStep transferEnv)
      (fun store action => decide (action.2.InscribedOnce store ∧
        action.2.FeeApart transferEnv action.1 store))
      [tokenAction (.tokenDeploy (inscribed 1 sampleSeller (deployDocument "abc"))),
        tokenAction (.tokenMint (inscribed 2 sampleSeller (mintDocument "abc"))),
        tokenAction (.tokenTransferCreated (inscribed 3 sampleSeller transferDocument)),
        tokenAction (.tokenTransferCreated (inscribed 4 sampleSeller transferDocument)),
        tokenAction (.tokenTransferExecuted (sentToSelf 3 sampleBuyer))]
      TapStore.empty).map (accountView sampleSeller abcKey) = some (70, 30, 30) := by decide +kernel
  have hrun : ∃ store, Run.Reaches (transferStep transferEnv)
      (fun store action => action.2.InscribedOnce store ∧
        action.2.FeeApart transferEnv action.1 store) TapStore.empty store ∧
      accountView sampleSeller abcKey store = (70, 30, 30) :=
    Run.exists_reaches_of_exec of_decide_eq_true hexec
  obtain ⟨store, reaches, hview⟩ := hrun
  exact ⟨store, reaches, hview, transfers_covered_of_reaches transferEnv reaches⟩

/-- An offer of `abc` and its fill with the fee going to the buyer. -/
def buyerFeeTrade (txid : Txid) : List (TapContext × TransferOp) :=
  [tokenAction (.tokenTradeCreated (inscribed txid sampleSeller offerDocument)),
    tokenAction (.tokenTradeExecuted (sentToSelf txid sampleSeller)),
    tokenAction (.tokenTradeCreated (inscribed (txid + 1) sampleBuyer (largeFillDocument txid))),
    tokenAction (.tokenTradeExecuted (sentToSelf (txid + 1) sampleBuyer))]

/-- Ten fills that pay their fee to the buyer create so many tokens that the balance of the seller
overflows and is negative. -/
theorem buyerFees_not_covered :
    ∃ store, Run.Reaches (transferStep transferEnv) (fun store action => action.2.InscribedOnce store)
        TapStore.empty store ∧ ¬ TransfersCovered store := by
  have hexec : (Run.exec (transferStep transferEnv)
      (fun store action => decide (action.2.InscribedOnce store))
      ([tokenAction (.tokenDeploy (inscribed 1 sampleSeller (deployDocument "abc"))),
        tokenAction (.tokenDeploy (inscribed 2 sampleBuyer largeDeployDocument)),
        tokenAction (.tokenMint (inscribed 3 sampleSeller (mintDocument "abc"))),
        tokenAction (.tokenMint (inscribed 4 sampleBuyer largeMintDocument))] ++
          offerTxids.flatMap buyerFeeTrade)
      TapStore.empty).map (accountView sampleSeller xyzKey) =
        some (180000000000000000000000000000000000000 - 2 ^ 128, 0, 0) := by
    decide +kernel
  have hrun : ∃ store, Run.Reaches (transferStep transferEnv)
      (fun store action => action.2.InscribedOnce store) TapStore.empty store ∧
      accountView sampleSeller xyzKey store =
        (180000000000000000000000000000000000000 - 2 ^ 128, 0, 0) :=
    Run.exists_reaches_of_exec of_decide_eq_true hexec
  obtain ⟨store, reaches, hview⟩ := hrun
  refine ⟨store, reaches, fun covered => ?_⟩
  have hle := covered.le_balance sampleSeller xyzKey
  have hbalance : balanceAt store.b sampleSeller xyzKey =
      180000000000000000000000000000000000000 - 2 ^ 128 := congrArg (fun view => view.1) hview
  have htransferable : balanceAt store.t sampleSeller xyzKey = 0 :=
    congrArg (fun view => view.2.1) hview
  rw [hbalance, htransferable] at hle
  exact absurd hle (by decide)

end OrdDogecoin.Tap
