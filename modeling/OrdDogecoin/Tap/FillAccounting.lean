/-
Module: OrdDogecoin.Tap.FillAccounting
Purpose: The balances after a trade fill against the legs of the trade: which coincidences of parties
  and tickers keep the books, for every store.
Trusted boundary: none
Main exports: TradeFill.legs, TradeFill.Sound, accounted_iff_sound
-/
import OrdDogecoin.Tap.Conservation

namespace OrdDogecoin.Tap

open Proc KeyTable Chain

variable {env : TapEnv} {context : TapContext} {store : TapStore} {fill : TradeFill}

/-! ### Legs -/

/-- What a fill owes to the balance of an address: the seller gives the offered amount for the
accepted one, the buyer pays the accepted amount and the fee, and the receiver gets the fee. -/
def TradeFill.legs (fill : TradeFill) (address : Address) (tick : TickKey) : ℤ :=
  (if address = fill.seller ∧ tick = fill.offerTick then -fill.offerAmount else 0) +
  (if address = fill.seller ∧ tick = fill.acceptedTick then (fill.acceptedAmount : ℤ) else 0) +
  (if address = fill.buyer ∧ tick = fill.acceptedTick then
    -(fill.acceptedAmount : ℤ) - fill.fee else 0) +
  (if address = fill.buyer ∧ tick = fill.offerTick then fill.offerAmount else 0) +
  (if fill.feeReceiver = some address ∧ tick = fill.acceptedTick then (fill.fee : ℤ) else 0)

/-- Every balance changed by its legs; transferable amounts and mint counters did not change. -/
def TradeFill.Accounted (fill : TradeFill) (store after : TapStore) : Prop :=
  (∀ address tick,
    i128At after.b address tick = i128At store.b address tick + fill.legs address tick) ∧
  after.t = store.t ∧ after.dc = store.dc

/-- A number that an `i128` holds. -/
def FitsI128 (n : ℤ) : Prop := -2 ^ 127 ≤ n ∧ n < 2 ^ 127

instance (n : ℤ) : Decidable (FitsI128 n) := inferInstanceAs (Decidable (_ ∧ _))

/-- The fee goes to neither party, the tickers differ unless nothing is offered, and every new
balance fits. -/
structure TradeFill.Sound (fill : TradeFill) (store : TapStore) : Prop where
  feeApart : fill.FeeApart
  ticks : fill.offerTick ≠ fill.acceptedTick ∨ fill.offerAmount = 0
  sellerOffer : FitsI128 (i128At store.b fill.seller fill.offerTick - fill.offerAmount)
  buyerOffer : FitsI128 (i128At store.b fill.buyer fill.offerTick + fill.offerAmount)
  sellerAccepted : FitsI128 (i128At store.b fill.seller fill.acceptedTick + fill.acceptedAmount)
  buyerAccepted :
    FitsI128 (i128At store.b fill.buyer fill.acceptedTick - fill.acceptedAmount - fill.fee)
  receiver : ∀ receiver ∈ fill.feeReceiver,
    FitsI128 (i128At store.b receiver fill.acceptedTick + fill.fee)

/-! ### Rows -/

theorem readI128_of_fits {n : ℤ} (hfits : FitsI128 n) : readI128 n = some n := if_pos hfits

theorem fits_getD_readI128 (n : ℤ) : FitsI128 ((readI128 n).getD 0) := by
  unfold readI128
  split
  next hfits => exact hfits
  next => simp [FitsI128]

theorem fits_i128At (b : KeyTable (Address × TickKey) ℤ) (address : Address) (tick : TickKey) :
    FitsI128 (i128At b address tick) := by
  unfold i128At
  cases b.lookup (address, tick) with
  | none => simp [FitsI128]
  | some n => exact fits_getD_readI128 n

theorem fits_wrapI128 (n : ℤ) : FitsI128 (wrapI128 n) := by
  unfold FitsI128 wrapI128
  omega

theorem i128At_insert_ite (b : KeyTable (Address × TickKey) ℤ) (key : Address × TickKey) (n : ℤ)
    (address : Address) (tick : TickKey) :
    i128At (b.insert key n) address tick =
      if (address, tick) = key then (readI128 n).getD 0 else i128At b address tick := by
  unfold i128At
  rw [lookup_insert_ite]
  split
  · rfl
  · rfl

/-- What a balance reads after a difference was written to it. -/
theorem getD_readI128_iff {n : ℤ} : (readI128 n).getD 0 = n ↔ FitsI128 n := by
  unfold readI128
  split
  next hfits => exact ⟨fun _ => hfits, fun _ => rfl⟩
  next hfits =>
    constructor
    · intro heq
      rw [Option.getD_none] at heq
      subst heq
      simp [FitsI128]
    · exact fun hn => absurd hn hfits

theorem getD_readI128_wrap (n : ℤ) : (readI128 (wrapI128 n)).getD 0 = wrapI128 n := by
  rw [readI128_of_fits (fits_wrapI128 n), Option.getD_some]

/-- What a balance reads after a sum was written to it. -/
theorem wrapI128_eq_iff {n : ℤ} : wrapI128 n = n ↔ FitsI128 n := by
  constructor
  · intro heq
    rw [← heq]
    exact fits_wrapI128 n
  · exact fun hfits => wrapI128_of_range hfits.1 hfits.2

/-- The balances after a fill: the last row written for a key counts. -/
theorem i128At_balances (fill : TradeFill) (b : KeyTable (Address × TickKey) ℤ) (address : Address)
    (tick : TickKey) :
    i128At (fill.balances b) address tick =
      if fill.feeReceiver = some address ∧ tick = fill.acceptedTick then
        wrapI128 (i128At b address fill.acceptedTick + fill.fee)
      else if address = fill.buyer ∧ tick = fill.acceptedTick then
        (readI128 (i128At b fill.buyer fill.acceptedTick - fill.acceptedAmount - fill.fee)).getD 0
      else if address = fill.seller ∧ tick = fill.acceptedTick then
        wrapI128 (i128At b fill.seller fill.acceptedTick + fill.acceptedAmount)
      else if address = fill.seller ∧ tick = fill.offerTick then
        (readI128 (i128At b fill.seller fill.offerTick - fill.offerAmount)).getD 0
      else if address = fill.buyer ∧ tick = fill.offerTick then
        wrapI128 (i128At b fill.buyer fill.offerTick + fill.offerAmount)
      else i128At b address tick := by
  unfold TradeFill.balances
  cases hreceiver : fill.feeReceiver with
  | none =>
      simp only [i128At_insert_ite, Prod.mk.injEq, getD_readI128_wrap, reduceCtorEq, false_and,
        if_false]
  | some receiver =>
      simp only [i128At_insert_ite, Prod.mk.injEq, getD_readI128_wrap, Option.getD_some,
        Option.some.injEq]
      by_cases hsame : receiver = address
      · subst hsame
        simp only [true_and]
      · have hother : address ≠ receiver := fun heq => hsame heq.symm
        simp only [hsame, hother, false_and, if_false]

/-! ### Checked fills -/

/-- What the checks of a fill promise about it in every store. -/
structure TradeFill.Checked (fill : TradeFill) : Prop where
  parties : fill.seller ≠ fill.buyer
  offer : FitsI128 fill.offerAmount
  accepted : 0 < fill.acceptedAmount ∧ fill.acceptedAmount < 2 ^ 127

theorem checked_tradeFill {acc : TapAccumulatorEntry}
    (hfill : tradeFill env context store acc = some fill) : fill.Checked := by
  unfold tradeFill at hfill
  obtain ⟨acceptedTick, hfill⟩ := of_bind hfill
  obtain ⟨trade, hfill⟩ := of_bind hfill
  obtain ⟨deployed, hfill⟩ := of_bind hfill
  obtain ⟨pointer, hfill⟩ := of_bind hfill
  obtain ⟨lock, hfill⟩ := of_bind hfill
  obtain ⟨offer, hfill⟩ := of_bind hfill
  split at hfill
  · cases hfill
  split at hfill
  · cases hfill
  next hparties =>
    split at hfill
    · cases hfill
    · obtain ⟨amtVal, hfill⟩ := of_bind hfill
      obtain ⟨amount, hamount, hfill⟩ := Option.bind_eq_some_iff.1 hfill
      cases hfill
      exact ⟨hparties, fits_getD_readI128 offer.amt, cappedAmount_pos hamount⟩

theorem TradeFill.fee_le (fill : TradeFill) : fill.fee ≤ fill.acceptedAmount := by
  unfold TradeFill.fee
  split
  · omega
  · omega

theorem filledTrade_spec {moved : Moved} (hfilled : filledTrade env context moved store = some fill) :
    ∃ acc, store.a.lookup moved.inscriptionId = some acc ∧
      moved.newSatpoint.outpoint.txid ≠ moved.inscriptionId.txid ∧ acc.addr = moved.ownerAddress ∧
      env.toLowercase acc.op = "token-trade".toList ∧
      tapIsDmtRewardAddress env context moved.ownerAddress = false ∧
      (acc.json.get "side").bind jsParseInt = some 1 ∧
      tradeFill env context store acc = some fill ∧ fill.covered env context store = true := by
  unfold filledTrade at hfilled
  obtain ⟨acc, hacc, hfilled⟩ := Option.bind_eq_some_iff.1 hfilled
  split at hfilled
  · cases hfilled
  next htxid =>
    split at hfilled
    · cases hfilled
    next howner =>
      split at hfilled
      · cases hfilled
      next hop =>
        split at hfilled
        · cases hfilled
        next hreward =>
          split at hfilled
          · cases hfilled
          next hside =>
            obtain ⟨found, hfound, hfilled⟩ := Option.bind_eq_some_iff.1 hfilled
            split at hfilled
            next hcovered =>
              cases hfilled
              exact ⟨acc, hacc, htxid, not_not.1 howner, not_not.1 hop, by simpa using hreward,
                not_not.1 hside, hfound, hcovered⟩
            next => cases hfilled

/-- A filled trade writes its balances, ends the lock of the offer and drops its accumulator. -/
theorem after_indexTokenTradeExecuted {moved : Moved}
    (hfilled : filledTrade env context moved store = some fill) :
    (indexTokenTradeExecuted env context moved).after store =
      { store with
        b := fill.balances store.b
        tol := store.tol.erase fill.tradeId
        a := store.a.erase moved.inscriptionId } := by
  obtain ⟨acc, hacc, htxid, howner, hop, hreward, hside, hfill, hcovered⟩ := filledTrade_spec hfilled
  have hrun : runTrade env context moved acc store =
      { store with b := fill.balances store.b, tol := store.tol.erase fill.tradeId } := by
    simp only [runTrade, hreward, hside, applyFill, hfill, hcovered, Option.some.injEq]
    rfl
  refine @after_of_wp _ _ _ _ _ (fun final => final = _) ?_
  unfold indexTokenTradeExecuted
  refine wp_exitIf (fun hexit => by simp [htxid] at hexit) fun _ => wp_read ?_
  refine wp_orExit (fun hexit => by simp [hacc] at hexit) fun found hfound => ?_
  obtain rfl : acc = found := Option.some.inj (hacc.symm.trans hfound)
  refine wp_exitIf (fun hexit => by simp [howner] at hexit) fun _ => ?_
  refine wp_exitIf (fun hexit => by simp [hop] at hexit) fun _ => wp_write (wp_write_last ?_)
  rw [hrun]

/-! ### The books of a fill -/

/-- A sound fill changes every balance by its legs. -/
theorem balances_of_sound (checked : fill.Checked) (sound : fill.Sound store) (address : Address)
    (tick : TickKey) :
    i128At (fill.balances store.b) address tick =
      i128At store.b address tick + fill.legs address tick := by
  have hparties := checked.parties
  rw [i128At_balances]
  unfold TradeFill.legs
  by_cases hreceiver : fill.feeReceiver = some address
  · -- a receiver is neither party, so the fee is its only leg
    have hseller : address ≠ fill.seller := fun heq => sound.feeApart.1 (heq ▸ hreceiver)
    have hbuyer : address ≠ fill.buyer := fun heq => sound.feeApart.2 (heq ▸ hreceiver)
    by_cases htick : tick = fill.acceptedTick
    · subst htick
      simp [hreceiver, hseller, hbuyer, wrapI128_eq_iff.2 (sound.receiver address hreceiver)]
    · simp [hreceiver, hseller, hbuyer, htick]
  · by_cases hbuyer : address = fill.buyer
    · subst hbuyer
      have hpaid := getD_readI128_iff.2 sound.buyerAccepted
      have hgot := wrapI128_eq_iff.2 sound.buyerOffer
      by_cases htick : tick = fill.acceptedTick
      · subst htick
        by_cases hsame : fill.acceptedTick = fill.offerTick
        · have hzero : fill.offerAmount = 0 := sound.ticks.resolve_left fun hne => hne hsame.symm
          simp [hreceiver, hparties.symm, hpaid, hzero]
          omega
        · simp [hreceiver, hparties.symm, hpaid, hsame]
          omega
      · by_cases hoffer : tick = fill.offerTick
        · subst hoffer
          simp [hreceiver, hparties.symm, htick, hgot]
        · simp [hreceiver, htick, hoffer]
    · by_cases hseller : address = fill.seller
      · subst hseller
        have hgiven := getD_readI128_iff.2 sound.sellerOffer
        have hgot := wrapI128_eq_iff.2 sound.sellerAccepted
        by_cases htick : tick = fill.acceptedTick
        · subst htick
          by_cases hsame : fill.acceptedTick = fill.offerTick
          · have hzero : fill.offerAmount = 0 := sound.ticks.resolve_left fun hne => hne hsame.symm
            simp [hreceiver, hparties, hgot, hzero]
          · simp [hreceiver, hparties, hgot, hsame]
        · by_cases hoffer : tick = fill.offerTick
          · subst hoffer
            simp [hreceiver, hparties, htick, hgiven]
            omega
          · simp [hreceiver, htick, hoffer]
      · simp [hreceiver, hbuyer, hseller]

/-- A fill whose balances all change by their legs is sound. -/
theorem sound_of_balances (checked : fill.Checked)
    (hrows : ∀ address tick, i128At (fill.balances store.b) address tick =
      i128At store.b address tick + fill.legs address tick) : fill.Sound store := by
  have hparties := checked.parties
  have hfee := fill.fee_le
  obtain ⟨hpos, hlt⟩ := checked.accepted
  obtain ⟨hlow, hhigh⟩ := checked.offer
  have hsellerRow := hrows fill.seller fill.acceptedTick
  have hbuyerRow := hrows fill.buyer fill.acceptedTick
  have hgivenRow := hrows fill.seller fill.offerTick
  have hgotRow := hrows fill.buyer fill.offerTick
  rw [i128At_balances] at hsellerRow hbuyerRow hgivenRow hgotRow
  unfold TradeFill.legs at hsellerRow hbuyerRow hgivenRow hgotRow
  have hsellerApart : fill.feeReceiver ≠ some fill.seller := by
    intro hreceiver
    have hother : fill.feeReceiver ≠ some fill.buyer := by
      rw [hreceiver]
      simpa using hparties
    by_cases hsame : fill.acceptedTick = fill.offerTick
    · -- the row of the seller asks for equal amounts, the row of the buyer for an empty offer
      simp [hreceiver, hparties, hparties.symm, hsame] at hsellerRow hbuyerRow
      unfold wrapI128 at hsellerRow
      unfold readI128 at hbuyerRow
      split at hbuyerRow
      · simp at hbuyerRow
        omega
      · simp at hbuyerRow
        omega
    · simp [hreceiver, hparties, hsame] at hsellerRow
      unfold wrapI128 at hsellerRow
      omega
  have hbuyerApart : fill.feeReceiver ≠ some fill.buyer := by
    intro hreceiver
    by_cases hsame : fill.acceptedTick = fill.offerTick
    · simp [hreceiver, hparties, hparties.symm, hsame] at hsellerRow hbuyerRow
      unfold wrapI128 at hsellerRow hbuyerRow
      omega
    · simp [hreceiver, hparties.symm, hsame] at hbuyerRow
      unfold wrapI128 at hbuyerRow
      omega
  have hticks : fill.offerTick ≠ fill.acceptedTick ∨ fill.offerAmount = 0 := by
    by_cases hsame : fill.acceptedTick = fill.offerTick
    · simp [hsellerApart, hparties, hsame] at hsellerRow
      unfold wrapI128 at hsellerRow
      exact .inr (by omega)
    · exact .inl fun heq => hsame heq.symm
  have hunchanged : ∀ address, fill.offerAmount = 0 →
      FitsI128 (i128At store.b address fill.offerTick - fill.offerAmount) ∧
        FitsI128 (i128At store.b address fill.offerTick + fill.offerAmount) := by
    intro address hzero
    rw [hzero, sub_zero, add_zero]
    exact ⟨fits_i128At _ _ _, fits_i128At _ _ _⟩
  refine ⟨⟨hsellerApart, hbuyerApart⟩, hticks, ?_, ?_, ?_, ?_, ?_⟩
  · obtain hne | hzero := hticks
    · simp [hsellerApart, hparties, hne] at hgivenRow
      exact getD_readI128_iff.1 (by rw [hgivenRow]; ring)
    · exact (hunchanged _ hzero).1
  · obtain hne | hzero := hticks
    · simp [hbuyerApart, hparties.symm, hne] at hgotRow
      exact wrapI128_eq_iff.1 hgotRow
    · exact (hunchanged _ hzero).2
  · obtain hne | hzero := hticks
    · simp [hsellerApart, hparties, hne.symm] at hsellerRow
      exact wrapI128_eq_iff.1 hsellerRow
    · simp [hsellerApart, hparties, hzero] at hsellerRow
      exact wrapI128_eq_iff.1 hsellerRow
  · obtain hne | hzero := hticks
    · simp [hbuyerApart, hparties.symm, hne.symm] at hbuyerRow
      exact getD_readI128_iff.1 (by rw [hbuyerRow]; ring)
    · simp [hbuyerApart, hparties.symm, hzero] at hbuyerRow
      exact getD_readI128_iff.1 (by rw [hbuyerRow]; ring)
  · intro receiver hreceiver
    have hrow := hrows receiver fill.acceptedTick
    rw [i128At_balances] at hrow
    unfold TradeFill.legs at hrow
    have hseller : receiver ≠ fill.seller := fun heq => hsellerApart (heq ▸ hreceiver)
    have hbuyer : receiver ≠ fill.buyer := fun heq => hbuyerApart (heq ▸ hreceiver)
    rw [Option.mem_def] at hreceiver
    simp [hreceiver, hseller, hbuyer] at hrow
    exact wrapI128_eq_iff.1 hrow

/-- For every store and every fill that goes through: the books are kept if and only if the fill is
sound. -/
theorem accounted_iff_sound {moved : Moved}
    (hfilled : filledTrade env context moved store = some fill) :
    fill.Accounted store ((indexTokenTradeExecuted env context moved).after store) ↔
      fill.Sound store := by
  obtain ⟨acc, -, -, -, -, -, -, hfill, -⟩ := filledTrade_spec hfilled
  have checked := checked_tradeFill hfill
  rw [after_indexTokenTradeExecuted hfilled]
  constructor
  · rintro ⟨hrows, -, -⟩
    exact sound_of_balances checked hrows
  · intro sound
    exact ⟨balances_of_sound checked sound, rfl, rfl⟩

/-! ### Two fills -/

instance (fill : TradeFill) (store : TapStore) : Decidable (fill.Sound store) :=
  decidable_of_iff
    (fill.FeeApart ∧ (fill.offerTick ≠ fill.acceptedTick ∨ fill.offerAmount = 0) ∧
      FitsI128 (i128At store.b fill.seller fill.offerTick - fill.offerAmount) ∧
      FitsI128 (i128At store.b fill.buyer fill.offerTick + fill.offerAmount) ∧
      FitsI128 (i128At store.b fill.seller fill.acceptedTick + fill.acceptedAmount) ∧
      FitsI128 (i128At store.b fill.buyer fill.acceptedTick - fill.acceptedAmount - fill.fee) ∧
      ∀ receiver ∈ fill.feeReceiver,
        FitsI128 (i128At store.b receiver fill.acceptedTick + fill.fee))
    ⟨fun ⟨h1, h2, h3, h4, h5, h6, h7⟩ => ⟨h1, h2, h3, h4, h5, h6, h7⟩,
      fun ⟨h1, h2, h3, h4, h5, h6, h7⟩ => ⟨h1, h2, h3, h4, h5, h6, h7⟩⟩

/-- The fill about to be written in the state before the last operation of `filledRun`, and whether it
is sound. -/
def lastFill (store : TapStore) : Option (TradeFill × Bool) :=
  (filledTrade sampleEnv sampleContext (sentToSelf 6 sampleBuyer) store).map fun fill =>
    (fill, decide (fill.Sound store))

/-- What the fill with this fee receiver is about. -/
def sampleFill (feeReceiver : Address) : TradeFill where
  tradeId := inscriptionText offerId
  seller := sampleSeller
  buyer := sampleBuyer
  offerTick := "\"abc\"".toList
  offerAmount := 10
  acceptedTick := xyzKey
  acceptedAmount := 20
  feeReceiver := some feeReceiver
  valid := 9999999

/-- The state before the fill of `filledRun`, from its first seven operations. -/
theorem exists_beforeFill {feeReceiver : Address} {sound : Bool}
    (hexec : (Run.exec (tapStep sampleEnv) (fun _ _ => true) ((filledRun feeReceiver).take 7)
      TapStore.empty).map lastFill = some (some (sampleFill feeReceiver, sound))) :
    ∃ store, Run.Reaches (tapStep sampleEnv) (fun _ _ => True) TapStore.empty store ∧
      filledTrade sampleEnv sampleContext (sentToSelf 6 sampleBuyer) store =
        some (sampleFill feeReceiver) ∧ decide ((sampleFill feeReceiver).Sound store) = sound := by
  have hrun : ∃ store, Run.Reaches (tapStep sampleEnv) (fun _ _ => True) TapStore.empty store ∧
      lastFill store = some (sampleFill feeReceiver, sound) :=
    Run.exists_reaches_of_exec (fun _ => trivial) hexec
  obtain ⟨store, reaches, hlast⟩ := hrun
  obtain ⟨fill, hfilled, hpair⟩ := Option.map_eq_some_iff.1 hlast
  obtain ⟨rfl, hsound⟩ := Prod.mk.inj hpair
  exact ⟨store, reaches, hfilled, hsound⟩

/-- With a third party as fee receiver the books are kept. -/
theorem thirdPartyFee_accounted :
    ∃ store, filledTrade sampleEnv sampleContext (sentToSelf 6 sampleBuyer) store =
        some (sampleFill sampleFeeReceiver) ∧
      (sampleFill sampleFeeReceiver).Sound store ∧
      (sampleFill sampleFeeReceiver).Accounted store
        ((indexTokenTradeExecuted sampleEnv sampleContext (sentToSelf 6 sampleBuyer)).after store) := by
  obtain ⟨store, -, hfilled, hsound⟩ := @exists_beforeFill sampleFeeReceiver true
    (by decide +kernel)
  have sound := of_decide_eq_true hsound
  exact ⟨store, hfilled, sound, (accounted_iff_sound hfilled).2 sound⟩

/-- A fill that pays its fee to the seller does not keep them: in a reachable store, twenty of `xyz`
leave the buyer and the seller gets only the fee. -/
theorem sellerFee_not_accounted :
    ∃ store, Run.Reaches (tapStep sampleEnv) (fun _ _ => True) TapStore.empty store ∧
      filledTrade sampleEnv sampleContext (sentToSelf 6 sampleBuyer) store =
        some (sampleFill sampleSeller) ∧
      ¬ (sampleFill sampleSeller).Accounted store
        ((indexTokenTradeExecuted sampleEnv sampleContext (sentToSelf 6 sampleBuyer)).after store) := by
  obtain ⟨store, reaches, hfilled, hsound⟩ := @exists_beforeFill sampleSeller false
    (by decide +kernel)
  obtain ⟨acc, -, -, -, -, -, -, hfill, -⟩ := filledTrade_spec hfilled
  refine ⟨store, reaches, hfilled, fun accounted => ?_⟩
  rw [after_indexTokenTradeExecuted hfilled] at accounted
  exact of_decide_eq_false hsound (sound_of_balances (checked_tradeFill hfill) accounted.1)

end OrdDogecoin.Tap
