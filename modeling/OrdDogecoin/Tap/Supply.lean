/-
Module: OrdDogecoin.Tap.Supply
Purpose: The supply invariant of the TAP rows and what each kind of write to them keeps of it:
  deployments, mints, moves between two holders, fills of trades, and transferable amounts.
Trusted boundary: none
Main exports: Supply, Supply.fill, SparesTransfers
-/
import OrdDogecoin.Tap.Trades

namespace OrdDogecoin.Tap

open KeyTable

abbrev Balances := KeyTable (Address × TickKey) ℤ

abbrev Offers := KeyTable (Address × TickKey) (List TradeOfferRecord)

def balanceAt (b : Balances) (address : Address) (tick : TickKey) : ℤ :=
  valueAt (fun n : ℤ => n) b (address, tick)

/-- The recorded balances of all addresses. -/
def totalBalance (b : Balances) (tick : TickKey) : ℤ :=
  totalWhere (fun key => key.2 = tick) (fun n : ℤ => n) b

/-- The supply invariant over the rows that carry token amounts. -/
structure Supply (d : KeyTable TickKey DeployRecord) (dc : KeyTable TickKey ℤ) (b t : Balances)
    (atrofi : Offers) : Prop where
  conserved : ∀ tick record, d.lookup tick = some record →
    ∃ left, dc.lookup tick = some left ∧ 0 ≤ left ∧ totalBalance b tick + left = record.max
  bounded : ∀ tick record, d.lookup tick = some record → record.max < 2 ^ 127
  balance_nonneg : ∀ key n, b.lookup key = some n → 0 ≤ n
  deployed : ∀ key n, b.lookup key = some n → (d.lookup key.2).isSome
  transferable_nonneg : ∀ key n, t.lookup key = some n → 0 ≤ n
  offer_pos : ∀ key rows, atrofi.lookup key = some rows → ∀ offer ∈ rows,
    0 < offer.amt ∧ offer.amt < 2 ^ 127

/-- The supply invariant of a store. -/
def TapStore.Supplied (store : TapStore) : Prop :=
  Supply store.d store.dc store.b store.t store.atrofi

theorem TapStore.supplied_empty : TapStore.empty.Supplied where
  conserved _ _ hrecord := by simp [TapStore.empty] at hrecord
  bounded _ _ hrecord := by simp [TapStore.empty] at hrecord
  balance_nonneg _ _ hrow := by simp [TapStore.empty] at hrow
  deployed _ _ hrow := by simp [TapStore.empty] at hrow
  transferable_nonneg _ _ hrow := by simp [TapStore.empty] at hrow
  offer_pos _ _ hrows := by simp [TapStore.empty] at hrows

/-! ### Balances after a write -/

theorem balanceAt_insert (b : Balances) (address other : Address) (tick tick' : TickKey) (n : ℤ) :
    balanceAt (b.insert (address, tick) n) other tick' =
      if other = address ∧ tick' = tick then n else balanceAt b other tick' := by
  simp only [balanceAt, valueAt_insert_ite, Prod.mk.injEq]

/-- Writing a balance changes the total of its own ticker by the change of the row. -/
theorem totalBalance_insert (b : Balances) (address : Address) (tick other : TickKey) (n : ℤ) :
    totalBalance (b.insert (address, tick) n) other =
      totalBalance b other + if tick = other then n - balanceAt b address tick else 0 := by
  by_cases htick : tick = other
  · have haccount := totalWhere_insert (fun key : Address × TickKey => key.2 = other)
      (fun n : ℤ => n) (address, tick) htick b n
    rw [if_pos htick, balanceAt, totalBalance, totalBalance]
    omega
  · rw [if_neg htick, add_zero]
    exact totalWhere_insert_of_not (fun key : Address × TickKey => key.2 = other)
      (fun n : ℤ => n) (address, tick) htick b n

namespace Supply

variable {d : KeyTable TickKey DeployRecord} {dc : KeyTable TickKey ℤ} {b t : Balances}
  {atrofi : Offers} {tick : TickKey}

/-! ### Reading -/

theorem balanceAt_nonneg (supply : Supply d dc b t atrofi) (address : Address) (tick : TickKey) :
    0 ≤ balanceAt b address tick := by
  unfold balanceAt valueAt
  cases hrow : b.lookup (address, tick) with
  | none => exact le_rfl
  | some n => exact supply.balance_nonneg _ n hrow

theorem balanceAt_le_totalBalance (supply : Supply d dc b t atrofi) (address : Address)
    (tick : TickKey) : balanceAt b address tick ≤ totalBalance b tick :=
  valueAt_le_totalWhere (fun key : Address × TickKey => key.2 = tick) (fun n : ℤ => n)
    (address, tick) rfl supply.balance_nonneg

/-- A balance and what is left to mint fit `i128` together. -/
theorem balanceAt_add_left_lt (supply : Supply d dc b t atrofi) {record : DeployRecord} {left : ℤ}
    (hrecord : d.lookup tick = some record) (hleft : dc.lookup tick = some left) (address : Address) :
    0 ≤ left ∧ balanceAt b address tick + left < 2 ^ 127 := by
  obtain ⟨found, hfound, hnonneg, htotal⟩ := supply.conserved tick record hrecord
  rw [hleft] at hfound
  cases hfound
  have hbounded := supply.bounded tick record hrecord
  have hle := supply.balanceAt_le_totalBalance address tick
  exact ⟨hnonneg, by omega⟩

/-- No balance exceeds the deployed maximum. -/
theorem balanceAt_lt (supply : Supply d dc b t atrofi) (address : Address) (tick : TickKey) :
    balanceAt b address tick < 2 ^ 127 := by
  cases hrow : b.lookup (address, tick) with
  | none =>
      rw [balanceAt, valueAt, hrow]
      exact Int.pow_pos (by omega)
  | some n =>
      obtain ⟨record, hrecord⟩ := Option.isSome_iff_exists.1 (supply.deployed _ n hrow)
      obtain ⟨left, hleft, -⟩ := supply.conserved tick record hrecord
      obtain ⟨hnonneg, hlt⟩ := supply.balanceAt_add_left_lt hrecord hleft address
      dsimp only at hlt
      omega

/-- Under the invariant a balance is read back as it was written. -/
theorem i128At_eq (supply : Supply d dc b t atrofi) (address : Address) (tick : TickKey) :
    i128At b address tick = balanceAt b address tick := by
  have hnonneg := supply.balanceAt_nonneg address tick
  have hlt := supply.balanceAt_lt address tick
  unfold balanceAt valueAt at hnonneg hlt ⊢
  unfold i128At
  cases hrow : b.lookup (address, tick) with
  | none => rfl
  | some n =>
      rw [hrow] at hnonneg hlt
      simp only [Option.map_some, Option.getD_some] at hnonneg hlt ⊢
      rw [Option.bind_some, readI128, if_pos ⟨by omega, hlt⟩]
      rfl

theorem u128At_eq (supply : Supply d dc b t atrofi) (address : Address) (tick : TickKey) :
    (u128At b address tick : ℤ) = balanceAt b address tick := by
  have hnonneg := supply.balanceAt_nonneg address tick
  have hlt := supply.balanceAt_lt address tick
  unfold balanceAt valueAt at hnonneg hlt ⊢
  unfold u128At
  cases hrow : b.lookup (address, tick) with
  | none => rfl
  | some n =>
      rw [hrow] at hnonneg hlt
      simp only [Option.map_some, Option.getD_some] at hnonneg hlt ⊢
      rw [Option.bind_some, readU128, if_pos ⟨hnonneg, by omega⟩]
      simp only [Option.getD_some]
      omega

theorem readI128_nonneg {n : ℤ} (hn : 0 ≤ n) : 0 ≤ (readI128 n).getD 0 := by
  unfold readI128
  split
  · exact hn
  · exact le_rfl

theorem transferable_i128At_nonneg (supply : Supply d dc b t atrofi) (address : Address)
    (tick : TickKey) : 0 ≤ i128At t address tick := by
  unfold i128At
  cases hrow : t.lookup (address, tick) with
  | none => exact le_rfl
  | some n => exact readI128_nonneg (supply.transferable_nonneg _ n hrow)

/-! ### Writing -/

/-- A new token starts with its maximum left to mint. -/
theorem deploy (supply : Supply d dc b t atrofi) {record : DeployRecord}
    (hnew : d.lookup tick = none) (hmax : record.max < 2 ^ 127) :
    Supply (d.insert tick record) (dc.insert tick record.max) b t atrofi where
  conserved other found hfound := by
    rcases lookup_insert_cases hfound with ⟨rfl, rfl⟩ | ⟨hne, hold⟩
    · have hzero : totalBalance b other = 0 := by
        apply totalWhere_eq_zero
        rintro key n hrow rfl
        have hdeployed := supply.deployed key n hrow
        rw [hnew] at hdeployed
        cases hdeployed
      exact ⟨found.max, AList.lookup_insert _, Int.natCast_nonneg _, by rw [hzero, zero_add]⟩
    · obtain ⟨left, hleft, hrest⟩ := supply.conserved other found hold
      exact ⟨left, by rw [AList.lookup_insert_ne hne, hleft], hrest⟩
  bounded other found hfound := by
    rcases lookup_insert_cases hfound with ⟨-, rfl⟩ | ⟨-, hold⟩
    · exact hmax
    · exact supply.bounded other found hold
  balance_nonneg := supply.balance_nonneg
  deployed key n hrow := by
    have hdeployed := supply.deployed key n hrow
    rw [lookup_insert_ite]
    split
    · rfl
    · exact hdeployed
  transferable_nonneg := supply.transferable_nonneg
  offer_pos := supply.offer_pos

/-- Balances may be rewritten as long as no total changes. -/
theorem rebalance (supply : Supply d dc b t atrofi) {b' : Balances}
    (htotal : ∀ tick, totalBalance b' tick = totalBalance b tick)
    (hrows : ∀ key n, b'.lookup key = some n → 0 ≤ n ∧ (d.lookup key.2).isSome) :
    Supply d dc b' t atrofi where
  conserved tick record hrecord := by
    rw [htotal]
    exact supply.conserved tick record hrecord
  bounded := supply.bounded
  balance_nonneg key n hrow := (hrows key n hrow).1
  deployed key n hrow := (hrows key n hrow).2
  transferable_nonneg := supply.transferable_nonneg
  offer_pos := supply.offer_pos

/-- Minting moves an amount from what is left to a balance. -/
theorem mint (supply : Supply d dc b t atrofi) {record : DeployRecord} {left amount : ℤ}
    (hrecord : d.lookup tick = some record) (hleft : dc.lookup tick = some left)
    (hnonneg : 0 ≤ amount) (hle : amount ≤ left) (address : Address) :
    Supply d (dc.insert tick (left - amount))
      (b.insert (address, tick) (balanceAt b address tick + amount)) t atrofi where
  conserved other found hfound := by
    obtain ⟨rest, hrest, hpos, htotal⟩ := supply.conserved other found hfound
    rw [totalBalance_insert]
    by_cases hother : tick = other
    · subst hother
      rw [hleft] at hrest
      cases hrest
      refine ⟨left - amount, AList.lookup_insert _, by omega, ?_⟩
      rw [if_pos rfl]
      omega
    · refine ⟨rest, ?_, hpos, ?_⟩
      · rw [AList.lookup_insert_ne (Ne.symm hother), hrest]
      · rw [if_neg hother]
        omega
  bounded := supply.bounded
  balance_nonneg key n hrow := by
    rcases lookup_insert_cases hrow with ⟨-, rfl⟩ | ⟨-, hold⟩
    · have hbalance := supply.balanceAt_nonneg address tick
      omega
    · exact supply.balance_nonneg key n hold
  deployed key n hrow := by
    rcases lookup_insert_cases hrow with ⟨rfl, -⟩ | ⟨-, hold⟩
    · rw [hrecord]
      rfl
    · exact supply.deployed key n hold
  transferable_nonneg := supply.transferable_nonneg
  offer_pos := supply.offer_pos

/-- Moving a covered amount between two holders of a deployed token. -/
theorem move (supply : Supply d dc b t atrofi) {sender receiver : Address} {amount : ℤ}
    (hdeployed : (d.lookup tick).isSome) (hne : receiver ≠ sender) (hnonneg : 0 ≤ amount)
    (hle : amount ≤ balanceAt b sender tick) :
    Supply d dc
      ((b.insert (sender, tick) (balanceAt b sender tick - amount)).insert (receiver, tick)
        (balanceAt b receiver tick + amount)) t atrofi := by
  apply supply.rebalance
  · intro other
    have hreceiver : balanceAt (b.insert (sender, tick) (balanceAt b sender tick - amount)) receiver
        tick = balanceAt b receiver tick := by
      rw [balanceAt_insert, if_neg fun h => hne h.1]
    rw [totalBalance_insert, totalBalance_insert, hreceiver]
    split <;> omega
  · intro key n hrow
    rcases lookup_insert_cases hrow with ⟨rfl, rfl⟩ | ⟨-, hrow⟩
    · have hreceiver := supply.balanceAt_nonneg receiver tick
      exact ⟨by omega, hdeployed⟩
    · rcases lookup_insert_cases hrow with ⟨rfl, rfl⟩ | ⟨-, hold⟩
      · exact ⟨by omega, hdeployed⟩
      · exact ⟨supply.balance_nonneg key n hold, supply.deployed key n hold⟩

/-- What a holder gets from another one fits `i128`. -/
theorem wrap_received (supply : Supply d dc b t atrofi) {sender receiver : Address} {amount : ℤ}
    (hdeployed : (d.lookup tick).isSome) (hne : receiver ≠ sender) (hnonneg : 0 ≤ amount)
    (hle : amount ≤ balanceAt b sender tick) :
    wrapI128 (balanceAt b receiver tick + amount) = balanceAt b receiver tick + amount := by
  have hlt := (supply.move hdeployed hne hnonneg hle).balanceAt_lt receiver tick
  rw [balanceAt_insert, if_pos ⟨rfl, rfl⟩] at hlt
  have hreceiver := supply.balanceAt_nonneg receiver tick
  exact wrapI128_of_range (by omega) hlt

/-- The balance rows after a fill without overflow. -/
def exactBalances (fill : TradeFill) (b : Balances) : Balances :=
  let legs := (((b.insert (fill.buyer, fill.offerTick)
    (balanceAt b fill.buyer fill.offerTick + fill.offerAmount)).insert (fill.seller, fill.offerTick)
    (balanceAt b fill.seller fill.offerTick - fill.offerAmount)).insert
    (fill.seller, fill.acceptedTick)
    (balanceAt b fill.seller fill.acceptedTick + fill.acceptedAmount)).insert
    (fill.buyer, fill.acceptedTick)
    (balanceAt b fill.buyer fill.acceptedTick - fill.acceptedAmount - fill.fee)
  match fill.feeReceiver with
  | none => legs
  | some receiver =>
      legs.insert (receiver, fill.acceptedTick)
        (balanceAt b receiver fill.acceptedTick + fill.fee)

section Fill

variable {trade : TradeFill}

/-- The offered token of a covered fill is deployed: the seller has some of it. -/
theorem offerTick_deployed (supply : Supply d dc b t atrofi) (hoffer : 0 < trade.offerAmount)
    (hgives : trade.offerAmount ≤ balanceAt b trade.seller trade.offerTick) :
    (d.lookup trade.offerTick).isSome := by
  cases hrow : b.lookup (trade.seller, trade.offerTick) with
  | none =>
      rw [balanceAt, valueAt, hrow] at hgives
      simp only [Option.map_none, Option.getD_none] at hgives
      omega
  | some n => exact supply.deployed _ n hrow

/-- A covered fill does not overflow. -/
theorem balances_eq (supply : Supply d dc b t atrofi)
    (hdeployed : (d.lookup trade.acceptedTick).isSome) (hparties : trade.seller ≠ trade.buyer)
    (hbuyer : trade.feeReceiver ≠ some trade.buyer) (hoffer : 0 < trade.offerAmount)
    (hgives : trade.offerAmount ≤ balanceAt b trade.seller trade.offerTick)
    (hpays : (trade.acceptedAmount : ℤ) + trade.fee ≤ balanceAt b trade.buyer trade.acceptedTick) :
    trade.balances b = exactBalances trade b := by
  have hofferTick := supply.offerTick_deployed hoffer hgives
  unfold TradeFill.balances exactBalances
  simp only [supply.i128At_eq]
  rw [supply.wrap_received hofferTick hparties.symm hoffer.le hgives,
    supply.wrap_received hdeployed hparties (Int.natCast_nonneg _) (by omega)]
  cases hfee : trade.feeReceiver with
  | none => rfl
  | some receiver =>
      have hreceiver : receiver ≠ trade.buyer := fun h => hbuyer (by rw [hfee, h])
      simp only [Option.getD_some]
      rw [supply.wrap_received hdeployed hreceiver (Int.natCast_nonneg _) (by omega)]

/-- The totals after a fill whose fee receiver is neither of the parties: what one of them gives
the other one gets.  With one ticker on both sides the second leg overwrites the first. -/
theorem totalBalance_exactBalances (hparties : trade.seller ≠ trade.buyer)
    (hseller : trade.feeReceiver ≠ some trade.seller) (hbuyer : trade.feeReceiver ≠ some trade.buyer)
    (b : Balances) (tick : TickKey) :
    totalBalance (exactBalances trade b) tick = totalBalance b tick := by
  unfold exactBalances
  cases hfee : trade.feeReceiver with
  | none =>
      have hzero : trade.fee = 0 := by rw [TradeFill.fee, hfee]; rfl
      simp only [totalBalance_insert, balanceAt_insert, hparties, hparties.symm, hzero, false_and,
        if_false, true_and, and_true]
      by_cases hsame : trade.offerTick = trade.acceptedTick
      · simp only [hsame, if_true]
        split <;> omega
      · simp only [Ne.symm hsame, if_false]
        split <;> split <;> omega
  | some receiver =>
      have hreceiver : receiver ≠ trade.seller := fun h => hseller (by rw [hfee, h])
      have hreceiver' : receiver ≠ trade.buyer := fun h => hbuyer (by rw [hfee, h])
      simp only [totalBalance_insert, balanceAt_insert, hparties, hparties.symm, hreceiver,
        hreceiver', false_and, if_false, true_and, and_true]
      by_cases hsame : trade.offerTick = trade.acceptedTick
      · simp only [hsame, if_true]
        split <;> omega
      · simp only [Ne.symm hsame, if_false]
        split <;> split <;> omega

/-- A covered fill whose fee receiver is neither of the parties. -/
theorem fill (supply : Supply d dc b t atrofi) (hdeployed : (d.lookup trade.acceptedTick).isSome)
    (hparties : trade.seller ≠ trade.buyer) (hseller : trade.feeReceiver ≠ some trade.seller)
    (hbuyer : trade.feeReceiver ≠ some trade.buyer) (hoffer : 0 < trade.offerAmount)
    (hgives : trade.offerAmount ≤ balanceAt b trade.seller trade.offerTick)
    (hpays : (trade.acceptedAmount : ℤ) + trade.fee ≤ balanceAt b trade.buyer trade.acceptedTick) :
    Supply d dc (trade.balances b) t atrofi := by
  have hofferTick := supply.offerTick_deployed hoffer hgives
  have hbuyerOffer := supply.balanceAt_nonneg trade.buyer trade.offerTick
  have hsellerAccepted := supply.balanceAt_nonneg trade.seller trade.acceptedTick
  rw [supply.balances_eq hdeployed hparties hbuyer hoffer hgives hpays]
  apply supply.rebalance (totalBalance_exactBalances hparties hseller hbuyer b)
  intro key n hrow
  unfold exactBalances at hrow
  have hlegs : ∀ {key n}, ((((b.insert (trade.buyer, trade.offerTick)
      (balanceAt b trade.buyer trade.offerTick + trade.offerAmount)).insert
      (trade.seller, trade.offerTick)
      (balanceAt b trade.seller trade.offerTick - trade.offerAmount)).insert
      (trade.seller, trade.acceptedTick)
      (balanceAt b trade.seller trade.acceptedTick + trade.acceptedAmount)).insert
      (trade.buyer, trade.acceptedTick)
      (balanceAt b trade.buyer trade.acceptedTick - trade.acceptedAmount - trade.fee)).lookup key =
        some n → 0 ≤ n ∧ (d.lookup key.2).isSome := by
    intro key n hrow
    rcases lookup_insert_cases hrow with ⟨rfl, rfl⟩ | ⟨-, hrow⟩
    · exact ⟨by omega, hdeployed⟩
    rcases lookup_insert_cases hrow with ⟨rfl, rfl⟩ | ⟨-, hrow⟩
    · exact ⟨by omega, hdeployed⟩
    rcases lookup_insert_cases hrow with ⟨rfl, rfl⟩ | ⟨-, hrow⟩
    · exact ⟨by omega, hofferTick⟩
    rcases lookup_insert_cases hrow with ⟨rfl, rfl⟩ | ⟨-, hold⟩
    · exact ⟨by omega, hofferTick⟩
    · exact ⟨supply.balance_nonneg key n hold, supply.deployed key n hold⟩
  cases hfee : trade.feeReceiver with
  | none =>
      rw [hfee] at hrow
      exact hlegs hrow
  | some receiver =>
      rw [hfee] at hrow
      rcases lookup_insert_cases hrow with ⟨rfl, rfl⟩ | ⟨-, hrow⟩
      · have hreceiver := supply.balanceAt_nonneg receiver trade.acceptedTick
        exact ⟨by omega, hdeployed⟩
      · exact hlegs hrow

end Fill

theorem setTransferable (supply : Supply d dc b t atrofi) (key : Address × TickKey) {n : ℤ}
    (hn : 0 ≤ n) : Supply d dc b (t.insert key n) atrofi where
  conserved := supply.conserved
  bounded := supply.bounded
  balance_nonneg := supply.balance_nonneg
  deployed := supply.deployed
  transferable_nonneg other m hrow := by
    rcases lookup_insert_cases hrow with ⟨-, rfl⟩ | ⟨-, hold⟩
    · exact hn
    · exact supply.transferable_nonneg other m hold
  offer_pos := supply.offer_pos

theorem eraseTransferable (supply : Supply d dc b t atrofi) (key : Address × TickKey) :
    Supply d dc b (t.erase key) atrofi where
  conserved := supply.conserved
  bounded := supply.bounded
  balance_nonneg := supply.balance_nonneg
  deployed := supply.deployed
  transferable_nonneg other m hrow := supply.transferable_nonneg other m (lookup_erase_cases hrow).2
  offer_pos := supply.offer_pos

theorem addOffer (supply : Supply d dc b t atrofi) (key : Address × TickKey)
    {offer : TradeOfferRecord} (hpos : 0 < offer.amt ∧ offer.amt < 2 ^ 127) :
    Supply d dc b t (atrofi.insert key ((atrofi.lookup key).getD [] ++ [offer])) where
  conserved := supply.conserved
  bounded := supply.bounded
  balance_nonneg := supply.balance_nonneg
  deployed := supply.deployed
  transferable_nonneg := supply.transferable_nonneg
  offer_pos other rows hrows found hmem := by
    rcases lookup_insert_cases hrows with ⟨-, rfl⟩ | ⟨-, hold⟩
    · rcases List.mem_append.1 hmem with hfirst | hlast
      · cases hlookup : atrofi.lookup key with
        | none => simp [hlookup] at hfirst
        | some stored =>
            rw [hlookup] at hfirst
            exact supply.offer_pos key stored hlookup found hfirst
      · rw [List.mem_singleton.1 hlast]
        exact hpos
    · exact supply.offer_pos other rows hold found hmem

end Supply

/-! ### Steps beside the transfers -/

/-- A step beside the transfers: their rows stay, no balance row goes away, and a balance is lowered
only as far as the transferable amount allows. -/
structure SparesTransfers (store after : TapStore) : Prop where
  t : after.t = store.t
  tl : after.tl = store.tl
  atrli : after.atrli = store.atrli
  rows : ∀ key, (store.b.lookup key).isSome → (after.b.lookup key).isSome
  covered : ∀ address tick, balanceAt store.b address tick ≤ balanceAt after.b address tick ∨
    i128At store.t address tick ≤ balanceAt after.b address tick

namespace SparesTransfers

variable {store after : TapStore}

theorem of_eq (ht : after.t = store.t) (htl : after.tl = store.tl)
    (hatrli : after.atrli = store.atrli) (hb : after.b = store.b) : SparesTransfers store after where
  t := ht
  tl := htl
  atrli := hatrli
  rows key hrow := by rwa [hb]
  covered address tick := by
    rw [hb]
    exact .inl le_rfl

/-- One more balance row may be written when it grows or stays above the transferable amount. -/
theorem put (spares : SparesTransfers store after) (address : Address) (tick : TickKey) (n : ℤ)
    (hn : balanceAt store.b address tick ≤ n ∨ i128At store.t address tick ≤ n) :
    SparesTransfers store { after with b := after.b.insert (address, tick) n } where
  t := spares.t
  tl := spares.tl
  atrli := spares.atrli
  rows key hrow := by
    simp only [lookup_insert_ite]
    split
    · rfl
    · exact spares.rows key hrow
  covered other tick' := by
    simp only [balanceAt_insert]
    split
    next hsame =>
      obtain ⟨rfl, rfl⟩ := hsame
      exact hn
    next => exact spares.covered other tick'

end SparesTransfers

end OrdDogecoin.Tap
