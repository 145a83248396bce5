/-
Module: OrdDogecoin.Tap.Conservation
Purpose: Every TAP token handler keeps the supply invariant, with the one exception of a trade fill
  that pays its fee to the seller or the buyer; from this, conservation over whole runs.
Trusted boundary: none
Main exports: TapOp, Conserved, supply_conserved_of_feeReceiverApart
-/
import OrdDogecoin.Tap.Supply
import OrdDogecoin.Lib.Run

namespace OrdDogecoin.Tap

open Proc KeyTable Chain

variable {env : TapEnv} {context : TapContext} {store : TapStore} {tickKey : TickKey}

/-! ### Rules for handlers -/

/-- A handler that keeps an invariant on every way out. -/
def Keeps {α : Type} (Inv : TapStore → Prop) (handler : TapHandler α) (store : TapStore) : Prop :=
  wp handler (fun _ => Inv) (fun _ => Inv) store

/-- An invariant of the token rows: the supply invariant is part of it, and a step that keeps this one
and spares the transfers keeps all of it. -/
structure TokenInvariant (Inv : TapStore → Prop) : Prop where
  supplied : ∀ {store}, Inv store → store.Supplied
  keep : ∀ {store after}, Inv store → after.Supplied → SparesTransfers store after → Inv after

/-- The supply invariant is one. -/
theorem tokenInvariant_supplied : TokenInvariant TapStore.Supplied where
  supplied inv := inv
  keep _ supplied _ := supplied

variable {Inv : TapStore → Prop}

/-- A step that writes other rows only. -/
theorem TokenInvariant.frame {after : TapStore} (rule : TokenInvariant Inv) (inv : Inv store)
    (supplied : store.Supplied → after.Supplied) (ht : after.t = store.t) (htl : after.tl = store.tl)
    (hatrli : after.atrli = store.atrli) (hb : after.b = store.b) : Inv after :=
  rule.keep inv (supplied (rule.supplied inv)) (.of_eq ht htl hatrli hb)

section Rules

variable {α β : Type} {rest : β → TapHandler α} {update : TapStore → TapStore}

theorem keeps_require {condition : Bool} {rest : Unit → TapHandler α} (inv : Inv store)
    (hrest : condition = true → Keeps Inv (rest ()) store) :
    Keeps Inv (TapHandler.require condition >>= rest) store :=
  wp_exitIf (fun _ => inv) fun hcondition => hrest (by simpa using hcondition)

theorem keeps_get {value : Option β} (inv : Inv store)
    (hrest : ∀ found, value = some found → Keeps Inv (rest found) store) :
    Keeps Inv (TapHandler.get value >>= rest) store :=
  wp_orExit (fun _ => inv) hrest

theorem keeps_read {view : TapStore → β} (hrest : Keeps Inv (rest (view store)) store) :
    Keeps Inv (Proc.read view >>= rest) store := wp_read hrest

theorem keeps_write {rest : Unit → TapHandler α} (hrest : Keeps Inv (rest ()) (update store)) :
    Keeps Inv (Proc.write update >>= rest) store :=
  wp_write hrest

/-- The rest of the handler only needs the invariant of what was written. -/
theorem keeps_write_then {rest : Unit → TapHandler α} (inv : Inv (update store))
    (hrest : ∀ {store : TapStore}, Inv store → Keeps Inv (rest ()) store) :
    Keeps Inv (Proc.write update >>= rest) store := keeps_write (hrest inv)

theorem keeps_write_last (inv : Inv (update store)) :
    Keeps Inv (Proc.write update) store := wp_write_last inv

theorem Keeps.after {handler : TapHandler α} (keeps : Keeps Inv handler store) :
    Inv (handler.after store) := after_of_wp keeps

end Rules

/-! ### Deployments -/

theorem deployDecimals_le {json : Json} {decimals : ℕ} (hdecimals : deployDecimals json = some decimals) :
    decimals ≤ 18 := by
  unfold deployDecimals at hdecimals
  split at hdecimals
  · cases hdecimals
    exact le_rfl
  · split at hdecimals
    · cases hdecimals
      exact le_rfl
    next parsed _ =>
      split at hdecimals
      next hrange =>
        split at hdecimals
        · cases hdecimals
          omega
        · cases hdecimals
      next =>
        cases hdecimals
        exact le_rfl

/-- The largest amount of a token fits `i128`. -/
theorem deployCap_lt : ∀ decimals ≤ 18, deployCap decimals < 2 ^ 127 := by decide

theorem keeps_indexDeployments (rule : TokenInvariant Inv) (inv : Inv store) (created : Created) :
    Keeps Inv (indexDeployments env context created) store := by
  unfold indexDeployments
  refine keeps_get inv fun json _ => keeps_get inv fun tickVal _ => ?_
  refine keeps_get inv fun maxVal _ => keeps_get inv fun pVal _ => ?_
  refine keeps_get inv fun opVal _ => keeps_require inv fun _ => ?_
  refine keeps_require inv fun _ => keeps_require inv fun _ => ?_
  refine keeps_require inv fun _ => keeps_require inv fun _ => ?_
  refine keeps_require inv fun _ => keeps_get inv fun _ _ => ?_
  refine keeps_get inv fun decimals hdecimals => keeps_get inv fun max _ => ?_
  refine keeps_require inv fun hmax => keeps_get inv fun limit _ => ?_
  refine keeps_get inv fun prv _ => keeps_read (keeps_require inv fun hnew => ?_)
  refine keeps_write (keeps_write_last ?_)
  have hcap := deployCap_lt decimals (deployDecimals_le hdecimals)
  have hle : max ≤ deployCap decimals := by
    simp only [Bool.and_eq_true, decide_eq_true_eq] at hmax
    exact hmax.2
  exact rule.frame inv (fun supplied => Supply.deploy supplied (Option.isNone_iff_eq_none.1 hnew)
    (Nat.lt_of_le_of_lt hle hcap)) rfl rfl rfl rfl

theorem keeps_indexDmtDeploy (rule : TokenInvariant Inv) (inv : Inv store) (created : Created) :
    Keeps Inv (indexDmtDeploy env context created) store := by
  unfold indexDmtDeploy
  refine keeps_get inv fun body _ => keeps_get inv fun json _ => ?_
  refine keeps_require inv fun _ => keeps_require inv fun _ => ?_
  refine keeps_get inv fun userTick _ => keeps_require inv fun _ => ?_
  refine keeps_require inv fun _ => keeps_require inv fun _ => ?_
  refine keeps_require inv fun _ => keeps_get inv fun _ _ => ?_
  refine keeps_get inv fun dim _ => keeps_get inv fun dt _ => ?_
  refine keeps_get inv fun elemVal _ => keeps_get inv fun elemName _ => ?_
  refine keeps_get inv fun element _ => keeps_require inv fun _ => ?_
  refine keeps_get inv fun prj _ => keeps_get inv fun prv _ => ?_
  refine keeps_read (keeps_require inv fun hnew => ?_)
  refine keeps_write (keeps_write (keeps_write_last ?_))
  exact rule.frame inv (fun supplied => Supply.deploy supplied (Option.isNone_iff_eq_none.1 hnew)
    (deployCap_lt 0 (by omega))) rfl rfl rfl rfl

/-! ### Mints -/

/-- The end of a mint keeps the invariant when the amount comes out of what is left, and a mint that
is not written needs nothing. -/
theorem keeps_finishMint (rule : TokenInvariant Inv) (inv : Inv store) (created : Created) (json : Json)
    {record : DeployRecord} (message : Text → Text → Text) (failed : Bool)
    {left balance rest : ℤ} (amount : ℤ) {onSuccess : TapStore → TapStore}
    (hrecord : store.d.lookup tickKey = some record) (hleft : store.dc.lookup tickKey = some left)
    (hrest : failed = false → rest = left - amount ∧ 0 ≤ amount ∧ amount ≤ left ∧
      balance = balanceAt store.b created.ownerAddress tickKey + amount)
    (hsuccess : ∀ store : TapStore, Inv store → Inv (onSuccess store)) :
    Keeps Inv (finishMint env created json record tickKey message failed rest balance onSuccess)
      store := by
  unfold finishMint
  refine keeps_read (keeps_get inv fun found hfound => ?_)
  obtain ⟨failed', signature⟩ := found
  refine keeps_write_then ?_ fun inv => keeps_write_last ?_
  · cases failed' with
    | true => exact inv
    | false =>
        cases failed with
        | true =>
            rw [if_pos rfl] at hfound
            cases hfound
        | false =>
            obtain ⟨rfl, hnonneg, hle, rfl⟩ := hrest rfl
            apply hsuccess
            apply rule.keep inv
            · exact Supply.mint (rule.supplied inv) hrecord hleft hnonneg hle created.ownerAddress
            · have hspares : SparesTransfers store
                  { store with dc := store.dc.insert tickKey (left - amount) } :=
                .of_eq rfl rfl rfl rfl
              exact hspares.put _ _ _ (.inl (by omega))
  · cases signature with
    | none => exact inv
    | some signature => exact rule.frame inv (fun supplied => supplied) rfl rfl rfl rfl

theorem keeps_indexMints (rule : TokenInvariant Inv) (inv : Inv store) (created : Created) :
    Keeps Inv (indexMints env context created) store := by
  unfold indexMints
  refine keeps_get inv fun json _ => keeps_require inv fun _ => ?_
  refine keeps_get inv fun amtVal _ => keeps_require inv fun _ => ?_
  refine keeps_require inv fun _ => keeps_require inv fun _ => ?_
  refine keeps_get inv fun insData _ => keeps_read (keeps_get inv fun deployed hdeployed => ?_)
  refine keeps_read (keeps_get inv fun tokensLeft hleft => ?_)
  refine keeps_get inv fun requested _ => keeps_read ?_
  obtain ⟨left, hdc, hread⟩ := Option.bind_eq_some_iff.1 hleft
  have hvalue : left = (tokensLeft : ℤ) := readU128_eq_some hread
  refine keeps_finishMint rule inv created json _ _
    (if tokensLeft < requested then tokensLeft else requested : ℕ) hdeployed hdc (fun _ => ?_)
    fun _ inv => rule.frame inv (fun supplied => supplied) rfl rfl rfl rfl
  have hbalance := Supply.u128At_eq (rule.supplied inv) created.ownerAddress
  have hroom := Supply.balanceAt_add_left_lt (rule.supplied inv) hdeployed hdc created.ownerAddress
  have hle : (if tokensLeft < requested then tokensLeft else requested) ≤ tokensLeft := by
    split <;> omega
  generalize (if tokensLeft < requested then tokensLeft else requested) = amount at hle ⊢
  rw [← hbalance] at hroom ⊢
  omega

theorem keeps_indexDmtMint (rule : TokenInvariant Inv) (inv : Inv store) (created : Created) :
    Keeps Inv (indexDmtMint env context created) store := by
  unfold indexDmtMint
  refine keeps_get inv fun json _ => keeps_require inv fun _ => ?_
  refine keeps_require inv fun _ => keeps_require inv fun _ => ?_
  refine keeps_require inv fun _ => keeps_require inv fun _ => ?_
  refine keeps_get inv fun found _ => ?_
  obtain ⟨block, blockStr⟩ := found
  refine keeps_require inv fun _ => keeps_get inv fun insData _ => keeps_read ?_
  refine keeps_require inv fun _ => keeps_get inv fun depJson _ => keeps_read ?_
  refine keeps_get inv fun deployed hdeployed => keeps_require inv fun _ => keeps_read ?_
  refine keeps_get inv fun tokensLeft hleft => keeps_read ?_
  refine keeps_get inv fun dep _ => keeps_require inv fun _ => ?_
  refine keeps_get inv fun elemIns _ => keeps_get inv fun elemName _ => ?_
  refine keeps_get inv fun element _ => keeps_get inv fun requested _ => keeps_read ?_
  obtain ⟨left, hdc, hread⟩ := Option.bind_eq_some_iff.1 hleft
  obtain rfl : left = tokensLeft := (readI128_eq_some hread).1.symm
  refine keeps_finishMint rule inv created json _ _
    (if left - (requested : ℤ) < 0 then left else requested) hdeployed hdc (fun _ => ?_)
    fun _ inv => rule.frame inv (fun supplied => supplied) rfl rfl rfl rfl
  have hbalance := Supply.i128At_eq (rule.supplied inv) created.ownerAddress
  have hroom := Supply.balanceAt_add_left_lt (rule.supplied inv) hdeployed hdc created.ownerAddress
  have hle : (if left - (requested : ℤ) < 0 then left else (requested : ℤ)) ≤ left ∧
      0 ≤ (if left - (requested : ℤ) < 0 then left else (requested : ℤ)) := by
    split <;> omega
  generalize (if left - (requested : ℤ) < 0 then left else (requested : ℤ)) = amount at hle ⊢
  rw [← hbalance] at hroom ⊢
  omega

/-! ### Transfers -/

theorem keeps_indexTokenTransferCreated (supplied : store.Supplied) (created : Created) :
    Keeps TapStore.Supplied (indexTokenTransferCreated env context created) store := by
  unfold indexTokenTransferCreated
  refine keeps_get supplied fun json _ => keeps_require supplied fun _ => ?_
  refine keeps_get supplied fun amtVal _ => keeps_require supplied fun _ => ?_
  refine keeps_require supplied fun _ => keeps_get supplied fun _ _ => ?_
  refine keeps_require supplied fun _ => keeps_require supplied fun _ => ?_
  generalize (if created.inscriptionNumber < 0 then _ else _) = tick
  refine keeps_read (keeps_get supplied fun deployed _ => keeps_read ?_)
  refine keeps_get supplied fun tokensLeft _ => ?_
  refine keeps_get supplied fun amount _ => keeps_read (keeps_write_then ?_ fun supplied => ?_)
  · split
    · exact supplied
    · exact Supply.setTransferable supplied _ (Int.natCast_nonneg _)
  · refine keeps_read (keeps_write (keeps_write_last ?_))
    split <;> exact supplied

theorem supplied_settleTransfer (supplied : store.Supplied) {sender receiver : Address}
    {amount balance transferable : ℤ} (hdeployed : (store.d.lookup tickKey).isSome)
    (hnonneg : 0 ≤ amount) (hbalance : balance = balanceAt store.b sender tickKey) :
    (settleTransfer sender receiver tickKey amount balance transferable store).Supplied := by
  subst hbalance
  unfold settleTransfer
  have hreceiver := Supply.i128At_eq supplied receiver tickKey
  have ht : (0 : ℤ) ≤ max (transferable - amount) 0 := le_max_right _ _
  dsimp only
  rw [hreceiver]
  split
  next hmoves =>
    have hle : amount ≤ balanceAt store.b sender tickKey := by
      by_contra hlt
      exact hmoves.1 (.inr (by omega))
    rw [Supply.wrap_received supplied hdeployed hmoves.2 hnonneg hle]
    exact Supply.setTransferable (Supply.move supplied hdeployed hmoves.2 hnonneg hle) _ ht
  next => exact Supply.setTransferable supplied _ ht

theorem keeps_indexTokenTransferExecuted (supplied : store.Supplied) (moved : Moved) :
    Keeps TapStore.Supplied (indexTokenTransferExecuted env context moved) store := by
  unfold indexTokenTransferExecuted
  refine keeps_require supplied fun _ => keeps_read (keeps_get supplied fun link _ => ?_)
  refine keeps_get supplied fun pointer _ => keeps_read (keeps_get supplied fun atr _ => ?_)
  refine keeps_require supplied fun _ => keeps_require supplied fun _ => keeps_read ?_
  refine keeps_require supplied fun hdeployed => ?_
  have hnonneg : (0 : ℤ) ≤ if atr.amt < 2 ^ 127 then (atr.amt : ℤ) else 0 := by
    split <;> omega
  dsimp only
  generalize (if atr.amt < 2 ^ 127 then (atr.amt : ℤ) else 0) = amount at hnonneg ⊢
  split
  · -- the shield drops the transferable amount and the link
    refine keeps_write_last ?_
    split
    · exact supplied
    · split
      · exact Supply.setTransferable supplied _ (le_max_right _ _)
      · exact Supply.eraseTransferable supplied _
  · refine keeps_read (keeps_write (keeps_write_last ?_))
    split
    next => exact Supply.eraseTransferable supplied _
    next balance hbalance =>
      split
      next => exact supplied
      next transferable _ =>
        refine supplied_settleTransfer supplied hdeployed hnonneg ?_
        rw [← Supply.i128At_eq supplied, i128At, hbalance]
        rfl

/-! ### Sends -/

theorem keeps_execInternalSendOne (rule : TokenInvariant Inv) (inv : Inv store)
    (sender receiver : Address) (tick : Text) (amtVal : Json) :
    Keeps Inv (execInternalSendOne env context sender receiver tick amtVal) store := by
  have supplied := rule.supplied inv
  unfold execInternalSendOne
  refine keeps_read (keeps_get inv fun deployed hdeployed => ?_)
  refine keeps_get inv fun amount _ => keeps_read (keeps_read (keeps_read ?_))
  refine keeps_require inv fun hcovered => keeps_require inv fun hne => ?_
  refine keeps_write (keeps_write_last ?_)
  have htransferable := Supply.transferable_i128At_nonneg supplied sender (jsonStringifyLower env tick)
  have hcovered := of_decide_eq_true hcovered
  have hne : receiver ≠ sender := Ne.symm (of_decide_eq_true hne)
  rw [Supply.i128At_eq supplied] at hcovered ⊢
  have hdeployed : (store.d.lookup (jsonStringifyLower env tick)).isSome := by
    rw [hdeployed]
    rfl
  have hle : (amount : ℤ) ≤ balanceAt store.b sender (jsonStringifyLower env tick) := by
    omega
  rw [Supply.i128At_eq supplied, Supply.wrap_received supplied hdeployed hne (Int.natCast_nonneg _) hle]
  apply rule.keep inv
  · exact Supply.move supplied hdeployed hne (Int.natCast_nonneg _) hle
  · have hspares : SparesTransfers store store := .of_eq rfl rfl rfl rfl
    have hsent := hspares.put sender (jsonStringifyLower env tick)
      (balanceAt store.b sender (jsonStringifyLower env tick) - amount) (.inr (by omega))
    exact hsent.put _ _ _ (.inl (by omega))

theorem keeps_indexTokenSendCreated (rule : TokenInvariant Inv) (inv : Inv store) (created : Created) :
    Keeps Inv (indexTokenSendCreated env context created) store := by
  unfold indexTokenSendCreated
  refine keeps_get inv fun json _ => keeps_require inv fun _ => ?_
  refine keeps_get inv fun items _ => keeps_require inv fun _ => ?_
  refine keeps_require inv fun _ => keeps_require inv fun _ => ?_
  exact keeps_get inv fun items _ =>
    keeps_write_last (rule.frame inv (fun supplied => supplied) rfl rfl rfl rfl)

/-- The loop over the items, by induction on them. -/
theorem invariant_sendAll (rule : TokenInvariant Inv) (sender : Address) (items : List Json) :
    ∀ {store : TapStore}, Inv store → Inv (sendAll env context sender items store) := by
  induction items with
  | nil => exact fun inv => inv
  | cons item items ih =>
      intro store inv
      have hone : Keeps Inv (sendOne env context sender item) store := by
        unfold sendOne
        refine keeps_get inv fun _ _ => keeps_get inv fun tick _ => ?_
        refine keeps_get inv fun receiver _ => keeps_get inv fun amtVal _ => ?_
        exact keeps_execInternalSendOne rule inv sender receiver tick amtVal
      exact ih hone.after

theorem keeps_indexTokenSendExecuted (rule : TokenInvariant Inv) (inv : Inv store) (moved : Moved) :
    Keeps Inv (indexTokenSendExecuted env context moved) store := by
  unfold indexTokenSendExecuted
  refine keeps_require inv fun _ => keeps_read (keeps_get inv fun acc _ => ?_)
  refine keeps_require inv fun _ => keeps_require inv fun _ => ?_
  refine keeps_write (keeps_write_last ?_)
  have hsent : Inv (sendAll env context moved.ownerAddress
      (if tapIsDmtRewardAddress env context moved.ownerAddress then []
        else ((acc.json.get "items").bind Json.asArray).getD []) store) :=
    invariant_sendAll rule _ _ inv
  exact rule.frame hsent (fun supplied => supplied) rfl rfl rfl rfl

/-! ### Trades -/

theorem keeps_indexTokenTradeCreated (rule : TokenInvariant Inv) (inv : Inv store) (created : Created) :
    Keeps Inv (indexTokenTradeCreated env context created) store := by
  have hput : ∀ json, Inv (putAccumulator created "token-trade" json store) :=
    fun json => rule.frame inv (fun supplied => supplied) rfl rfl rfl rfl
  unfold indexTokenTradeCreated
  refine keeps_get inv fun json _ => keeps_require inv fun _ => ?_
  refine keeps_require inv fun _ => keeps_require inv fun _ => ?_
  split
  · exact keeps_require inv fun _ => keeps_write_last (hput _)
  · refine keeps_get inv fun tick _ => keeps_require inv fun _ => ?_
    refine keeps_require inv fun _ => keeps_require inv fun _ => ?_
    exact keeps_get inv fun json _ => keeps_write_last (hput _)

theorem cappedAmount_pos {json : Json} {decimals amount : ℕ}
    (hamount : cappedAmount json decimals = some amount) : 0 < amount ∧ amount < 2 ^ 127 := by
  unfold cappedAmount at hamount
  obtain ⟨found, hfound, hrest⟩ := Option.bind_eq_some_iff.1 hamount
  obtain ⟨cap, hrest⟩ := of_bind hrest
  split at hrest
  next hrange =>
    cases hrest
    obtain ⟨text, hparsed⟩ := of_bind hfound
    exact ⟨hrange.1, by simpa using (Option.filter_eq_some_iff.1 hparsed).2⟩
  next => cases hrest

theorem invariant_recordOffer (rule : TokenInvariant Inv) {inscriptionId : InscriptionId}
    {fail : Bool} {offer : TradeOfferRecord} (hpos : 0 < offer.amt ∧ offer.amt < 2 ^ 127)
    (item : Json) {state : List Text × TapStore} (inv : Inv state.2) :
    Inv (recordOffer env context inscriptionId tickKey fail offer item state).2 := by
  unfold recordOffer
  split
  · exact inv
  next accepted acceptedKey acceptedAmount _ =>
    dsimp only
    split
    · exact inv
    · have hadded := Supply.addOffer (rule.supplied inv) (offer.addr, tickKey)
        (show 0 < ({ offer with
            atick := env.jsToLowercase accepted, aamt := acceptedAmount } : TradeOfferRecord).amt ∧
          ({ offer with
            atick := env.jsToLowercase accepted, aamt := acceptedAmount } : TradeOfferRecord).amt <
              2 ^ 127 from hpos)
      split
      · exact rule.frame inv (fun _ => hadded) rfl rfl rfl rfl
      · exact rule.frame inv (fun _ => hadded) rfl rfl rfl rfl

/-- The loop over the accepted items, by induction on them. -/
theorem invariant_recordOffers (rule : TokenInvariant Inv) {inscriptionId : InscriptionId}
    {fail : Bool} {offer : TradeOfferRecord} (hpos : 0 < offer.amt ∧ offer.amt < 2 ^ 127)
    (items : List Json) :
    ∀ {state : List Text × TapStore}, Inv state.2 →
      Inv (items.foldl (fun state item =>
        recordOffer env context inscriptionId tickKey fail offer item state) state).2 := by
  induction items with
  | nil => exact fun inv => inv
  | cons item items ih => exact fun inv => ih (invariant_recordOffer rule hpos item inv)

theorem invariant_openOffer (rule : TokenInvariant Inv) (inv : Inv store) (moved : Moved)
    (acc : TapAccumulatorEntry) : Inv (openOffer env context moved acc store) := by
  unfold openOffer
  split
  · exact inv
  next tick amount accepts hoffer =>
    have hamount : 0 < amount ∧ amount < 2 ^ 127 := by
      unfold offerAmount at hoffer
      obtain ⟨tick', hrest⟩ := of_bind hoffer
      obtain ⟨deployed, hrest⟩ := of_bind hrest
      obtain ⟨accepts', hrest⟩ := of_bind hrest
      obtain ⟨amtVal, hrest⟩ := of_bind hrest
      split at hrest
      · cases hrest
      · obtain ⟨found, hfound, hlast⟩ := Option.bind_eq_some_iff.1 hrest
        cases hlast
        exact cappedAmount_pos hfound
    apply invariant_recordOffers rule
    · dsimp only
      omega
    · split
      · exact inv
      · exact rule.frame inv (fun supplied => supplied) rfl rfl rfl rfl

theorem invariant_cancelOffer (rule : TokenInvariant Inv) (inv : Inv store)
    (acc : TapAccumulatorEntry) : Inv (cancelOffer acc store) := by
  unfold cancelOffer
  split
  · exact inv
  · dsimp only
    split
    · exact inv
    · split
      · exact rule.frame inv (fun supplied => supplied) rfl rfl rfl rfl
      · exact inv

/-- What the checks of a fill promise about it. -/
theorem tradeFill_spec {acc : TapAccumulatorEntry} {fill : TradeFill} (supplied : store.Supplied)
    (hfill : tradeFill env context store acc = some fill) :
    (store.d.lookup fill.acceptedTick).isSome ∧ fill.seller ≠ fill.buyer ∧ 0 < fill.offerAmount := by
  unfold tradeFill at hfill
  obtain ⟨acceptedTick, hfill⟩ := of_bind hfill
  obtain ⟨trade, hfill⟩ := of_bind hfill
  obtain ⟨deployed, hdeployed, hfill⟩ := Option.bind_eq_some_iff.1 hfill
  obtain ⟨pointer, hfill⟩ := of_bind hfill
  obtain ⟨lock, hfill⟩ := of_bind hfill
  obtain ⟨offer, hoffer, hfill⟩ := Option.bind_eq_some_iff.1 hfill
  split at hfill
  · cases hfill
  split at hfill
  · cases hfill
  next hparties =>
    split at hfill
    · cases hfill
    · obtain ⟨amtVal, hfill⟩ := of_bind hfill
      obtain ⟨amount, hfill⟩ := of_bind hfill
      cases hfill
      refine ⟨Option.isSome_iff_exists.2 ⟨deployed, hdeployed⟩, hparties, ?_⟩
      -- the pointer leads to a recorded offer, whose amount is positive and fits
      cases hrows : store.atrofi.lookup (pointer.addr, pointer.tick) with
      | none => simp [hrows] at hoffer
      | some rows =>
          rw [hrows, Option.getD_some] at hoffer
          have hpos := supplied.offer_pos _ rows hrows offer (List.mem_of_getElem? hoffer)
          dsimp only
          rw [readI128, if_pos ⟨by omega, hpos.2⟩]
          exact hpos.1

/-- The fee of a fill goes to neither of its parties. -/
def TradeFill.FeeApart (fill : TradeFill) : Prop :=
  fill.feeReceiver ≠ some fill.seller ∧ fill.feeReceiver ≠ some fill.buyer

instance (fill : TradeFill) : Decidable fill.FeeApart :=
  inferInstanceAs (Decidable (_ ∧ _))

/-- A covered fill leaves every party at least its transferable amount. -/
theorem spares_balances {fill : TradeFill} (hoffer : 0 < fill.offerAmount)
    (hgives : i128At store.t fill.seller fill.offerTick ≤
      balanceAt store.b fill.seller fill.offerTick - fill.offerAmount)
    (hpays : i128At store.t fill.buyer fill.acceptedTick ≤
      balanceAt store.b fill.buyer fill.acceptedTick - fill.acceptedAmount - fill.fee)
    (hexact : fill.balances store.b = Supply.exactBalances fill store.b) :
    SparesTransfers store { store with b := fill.balances store.b } := by
  rw [hexact]
  have hstart : SparesTransfers store store := .of_eq rfl rfl rfl rfl
  have hbought := hstart.put fill.buyer fill.offerTick
    (balanceAt store.b fill.buyer fill.offerTick + fill.offerAmount) (.inl (by omega))
  have hgiven := hbought.put fill.seller fill.offerTick _ (.inr hgives)
  have hsold := hgiven.put fill.seller fill.acceptedTick
    (balanceAt store.b fill.seller fill.acceptedTick + fill.acceptedAmount) (.inl (by omega))
  have hpaid := hsold.put fill.buyer fill.acceptedTick _ (.inr hpays)
  unfold Supply.exactBalances
  cases fill.feeReceiver with
  | none => exact hpaid
  | some receiver =>
      exact hpaid.put _ _ _ (.inl (by omega))

theorem invariant_applyFill (rule : TokenInvariant Inv) (inv : Inv store) (acc : TapAccumulatorEntry)
    (hapart : ∀ fill, tradeFill env context store acc = some fill → fill.covered env context store →
      fill.FeeApart) :
    Inv (applyFill env context acc store) := by
  have supplied := rule.supplied inv
  unfold applyFill
  split
  · exact inv
  next fill hfill =>
    dsimp only
    split
    next hcovered =>
      obtain ⟨hdeployed, hparties, hpos⟩ := tradeFill_spec supplied hfill
      obtain ⟨hseller, hbuyer⟩ := hapart fill hfill hcovered
      have hsellerLock := Supply.transferable_i128At_nonneg supplied fill.seller fill.offerTick
      have hbuyerLock := Supply.transferable_i128At_nonneg supplied fill.buyer fill.acceptedTick
      simp only [TradeFill.covered, Bool.and_eq_true, decide_eq_true_eq,
        Supply.i128At_eq supplied] at hcovered
      have hgives : fill.offerAmount ≤ balanceAt store.b fill.seller fill.offerTick := by
        omega
      have hpays : (fill.acceptedAmount : ℤ) + fill.fee ≤
          balanceAt store.b fill.buyer fill.acceptedTick := by
        omega
      have hfilled : Inv { store with b := fill.balances store.b } := by
        apply rule.keep inv
        · exact Supply.fill supplied hdeployed hparties hseller hbuyer hpos hgives hpays
        · apply spares_balances hpos (by omega) (by omega)
          exact Supply.balances_eq supplied hdeployed hparties hbuyer hpos hgives hpays
      exact rule.frame hfilled (fun supplied => supplied) rfl rfl rfl rfl
    next => exact rule.frame inv (fun supplied => supplied) rfl rfl rfl rfl

/-- The fill that the executed trade will write, if it gets that far. -/
def filledTrade (env : TapEnv) (context : TapContext) (moved : Moved) (store : TapStore) :
    Option TradeFill := do
  let acc ← store.a.lookup moved.inscriptionId
  if moved.newSatpoint.outpoint.txid = moved.inscriptionId.txid then none
  else if acc.addr ≠ moved.ownerAddress then none
  else if env.toLowercase acc.op ≠ "token-trade".toList then none
  else if tapIsDmtRewardAddress env context moved.ownerAddress then none
  else if (acc.json.get "side").bind jsParseInt ≠ some 1 then none
  else
    let fill ← tradeFill env context store acc
    if fill.covered env context store then some fill else none

theorem invariant_runTrade (rule : TokenInvariant Inv) (inv : Inv store) (moved : Moved)
    (acc : TapAccumulatorEntry)
    (hapart : ∀ fill, tapIsDmtRewardAddress env context moved.ownerAddress ≠ true →
      (acc.json.get "side").bind jsParseInt = some 1 → tradeFill env context store acc = some fill →
      fill.covered env context store → fill.FeeApart) :
    Inv (runTrade env context moved acc store) := by
  unfold runTrade
  dsimp only
  split
  · exact inv
  next hreward =>
    split
    · split
      · exact invariant_cancelOffer rule inv acc
      · exact invariant_openOffer rule inv moved acc
    · split
      next hside => exact invariant_applyFill rule inv acc fun fill => hapart fill hreward hside
      next => exact inv

theorem keeps_indexTokenTradeExecuted (rule : TokenInvariant Inv) (inv : Inv store) (moved : Moved)
    (hapart : ∀ fill ∈ filledTrade env context moved store, fill.FeeApart) :
    Keeps Inv (indexTokenTradeExecuted env context moved) store := by
  unfold indexTokenTradeExecuted
  refine keeps_require inv fun htxid => keeps_read (keeps_get inv fun acc hacc => ?_)
  refine keeps_require inv fun howner => keeps_require inv fun hop => ?_
  refine keeps_write_then ?_ fun inv =>
    keeps_write_last (rule.frame inv (fun supplied => supplied) rfl rfl rfl rfl)
  apply invariant_runTrade rule inv moved acc
  intro fill hreward hside hfill hcovered
  apply hapart fill
  have htxid := of_decide_eq_true htxid
  have howner := of_decide_eq_true howner
  have hop := of_decide_eq_true hop
  simp only [filledTrade, hacc, Option.bind_eq_bind, Option.bind_some]
  rw [if_neg htxid, if_neg (not_not.2 howner), if_neg (not_not.2 hop), if_neg hreward,
    if_neg (not_not.2 hside), hfill, Option.bind_some, if_pos hcovered]
  rfl

/-! ### Runs -/

/-- A TAP token operation. -/
inductive TapOp where
  | tokenDeploy (created : Created)
  | dmtDeploy (created : Created)
  | tokenMint (created : Created)
  | dmtMint (created : Created)
  | tokenTransferCreated (created : Created)
  | tokenTransferExecuted (moved : Moved)
  | tokenSendCreated (created : Created)
  | tokenSendExecuted (moved : Moved)
  | tokenTradeCreated (created : Created)
  | tokenTradeExecuted (moved : Moved)

def TapOp.handler (env : TapEnv) (context : TapContext) : TapOp → TapHandler Unit
  | .tokenDeploy created => indexDeployments env context created
  | .dmtDeploy created => indexDmtDeploy env context created
  | .tokenMint created => indexMints env context created
  | .dmtMint created => indexDmtMint env context created
  | .tokenTransferCreated created => indexTokenTransferCreated env context created
  | .tokenTransferExecuted moved => indexTokenTransferExecuted env context moved
  | .tokenSendCreated created => indexTokenSendCreated env context created
  | .tokenSendExecuted moved => indexTokenSendExecuted env context moved
  | .tokenTradeCreated created => indexTokenTradeCreated env context created
  | .tokenTradeExecuted moved => indexTokenTradeExecuted env context moved

/-- One operation, with the block and the other rows it sees. -/
def tapStep (env : TapEnv) (store : TapStore) (action : TapContext × TapOp) : Option TapStore :=
  some ((action.2.handler env action.1).after store)

def TapOp.fill (env : TapEnv) (context : TapContext) (store : TapStore) : TapOp → Option TradeFill
  | .tokenTradeExecuted moved => filledTrade env context moved store
  | _ => none

/-- If the operation fills a trade, the fee goes to neither of the parties. -/
def FeeReceiverApart (env : TapEnv) (store : TapStore) (action : TapContext × TapOp) : Prop :=
  ∀ fill ∈ action.2.fill env action.1 store, fill.FeeApart

instance (action : TapContext × TapOp) : Decidable (FeeReceiverApart env store action) :=
  inferInstanceAs (Decidable (∀ fill ∈ action.2.fill env action.1 store, fill.FeeApart))

/-- Every operation but a transfer keeps every invariant of the token rows. -/
theorem invariant_tapOp (rule : TokenInvariant Inv) (inv : Inv store) {op : TapOp}
    (hcreated : ∀ created, op ≠ .tokenTransferCreated created)
    (hexecuted : ∀ moved, op ≠ .tokenTransferExecuted moved)
    (hapart : FeeReceiverApart env store (context, op)) : Inv ((op.handler env context).after store) := by
  cases op with
  | tokenDeploy created => exact (keeps_indexDeployments rule inv created).after
  | dmtDeploy created => exact (keeps_indexDmtDeploy rule inv created).after
  | tokenMint created => exact (keeps_indexMints rule inv created).after
  | dmtMint created => exact (keeps_indexDmtMint rule inv created).after
  | tokenTransferCreated created => exact absurd rfl (hcreated created)
  | tokenTransferExecuted moved => exact absurd rfl (hexecuted moved)
  | tokenSendCreated created => exact (keeps_indexTokenSendCreated rule inv created).after
  | tokenSendExecuted moved => exact (keeps_indexTokenSendExecuted rule inv moved).after
  | tokenTradeCreated created => exact (keeps_indexTokenTradeCreated rule inv created).after
  | tokenTradeExecuted moved => exact (keeps_indexTokenTradeExecuted rule inv moved hapart).after

theorem supplied_tapStep {store' : TapStore} {action : TapContext × TapOp}
    (supplied : store.Supplied) (hapart : FeeReceiverApart env store action)
    (hstep : tapStep env store action = some store') : store'.Supplied := by
  obtain ⟨context, op⟩ := action
  obtain rfl := Option.some.inj hstep
  cases op with
  | tokenTransferCreated created => exact (keeps_indexTokenTransferCreated supplied created).after
  | tokenTransferExecuted moved => exact (keeps_indexTokenTransferExecuted supplied moved).after
  | _ =>
      exact invariant_tapOp tokenInvariant_supplied supplied (fun _ hop => by cases hop)
        (fun _ hop => by cases hop) hapart

/-- Every deployed token has its whole maximum in balances and in what is left to mint. -/
def Conserved (store : TapStore) : Prop :=
  ∀ tick record, store.d.lookup tick = some record →
    ∃ left, store.dc.lookup tick = some left ∧ totalBalance store.b tick + left = record.max

/-- Over every run in which no fill pays its fee to the seller or the buyer, supply is conserved. -/
theorem supply_conserved_of_feeReceiverApart (env : TapEnv) {store : TapStore}
    (reaches : Run.Reaches (tapStep env) (FeeReceiverApart env) TapStore.empty store) :
    Conserved store := by
  have supplied : store.Supplied :=
    reaches.invariant TapStore.Supplied (fun supplied hapart hstep =>
      supplied_tapStep supplied hapart hstep) TapStore.supplied_empty
  intro tick record hrecord
  obtain ⟨left, hleft, -, htotal⟩ := supplied.conserved tick record hrecord
  exact ⟨left, hleft, htotal⟩

/-! ### A filled trade -/

def textFields (fields : List (String × String)) : List (Text × Json) :=
  fields.map fun field => (field.1.toList, .string field.2.toList)

def sampleSeller : Address := "D5EQRCnPMXmRvUoZwC7gu7fYspean3PQ9a".toList

def sampleBuyer : Address := "D5KiJ9d8QedaJxRY8oEpFUAVsWZs4jVeBM".toList

def sampleFeeReceiver : Address := "D5R2B6TsTmVihS3WLQMwbpfSsCV9WeqE4v".toList

def deployDocument (tick : String) : Json :=
  .object (textFields
    [("p", "tap"), ("op", "token-deploy"), ("tick", tick), ("max", "1000"), ("dec", "0")])

def mintDocument (tick : String) : Json :=
  .object (textFields [("p", "tap"), ("op", "token-mint"), ("tick", tick), ("amt", "100")])

/-- Ten of `abc` against twenty of `xyz`. -/
def offerDocument : Json :=
  .object (textFields [("p", "tap"), ("op", "token-trade"), ("side", "0"), ("tick", "abc"),
      ("amt", "10"), ("valid", "9999999")] ++
    [("accept".toList, .array [.object (textFields [("tick", "xyz"), ("amt", "20")])])])

def offerId : InscriptionId := ⟨5, 0⟩

def fillDocument (feeReceiver : Address) : Json :=
  .object (textFields [("p", "tap"), ("op", "token-trade"), ("side", "1"), ("tick", "xyz"),
      ("amt", "20")] ++
    [("trade".toList, .string (inscriptionText offerId)), ("fee_rcv".toList, .string feeReceiver)])

/-- The libraries on ASCII documents without privileges and DMT patterns. -/
def sampleEnv : TapEnv where
  mainnet := true
  parse body :=
    [deployDocument "abc", deployDocument "xyz", mintDocument "abc", mintDocument "xyz",
      offerDocument, fillDocument sampleSeller, fillDocument sampleFeeReceiver].find? fun json =>
        json.body = body
  toLowercase text := text.map Char.toLower
  jsToLowercase text := text.map Char.toLower
  jsJsonStringifyStr text := '"' :: (text ++ ['"'])
  visibleLength text := text.length
  dogeAddressVersion address :=
    if [sampleSeller, sampleBuyer, sampleFeeReceiver].contains address then some 30 else none
  countGlobalMatches _ _ := none
  sha256 _ := 0
  verifyPrivilege _ _ _ _ _ := none

def sampleContext : TapContext where
  height := 6000000
  prains _ := false
  prac _ := false
  bltr _ := false
  dmtRewardAddress _ := false
  lockedAmount _ _ := 0
  obligationLockedAmount _ _ := 0
  elementName _ := none
  element _ := none
  bitmap _ := none
  header _ := none
  ordinalAvailable _ := false

/-- The document inscribed by transaction `txid` for `owner`. -/
def inscribed (txid : Txid) (owner : Address) (json : Json) : Created where
  inscriptionId := ⟨txid, 0⟩
  inscriptionNumber := txid
  satpoint := ⟨⟨txid, 0⟩, 0⟩
  body := some json.body
  ownerAddress := owner
  parents := []

/-- The inscription of transaction `txid` sent by its owner to itself. -/
def sentToSelf (txid : Txid) (owner : Address) : Moved where
  inscriptionId := ⟨txid, 0⟩
  newSatpoint := ⟨⟨txid + 100, 0⟩, 0⟩
  ownerAddress := owner

/-- Two tokens, an offer of one for the other, and its fill with the given fee receiver. -/
def filledRun (feeReceiver : Address) : List (TapContext × TapOp) :=
  [.tokenDeploy (inscribed 1 sampleSeller (deployDocument "abc")),
    .tokenDeploy (inscribed 2 sampleBuyer (deployDocument "xyz")),
    .tokenMint (inscribed 3 sampleSeller (mintDocument "abc")),
    .tokenMint (inscribed 4 sampleBuyer (mintDocument "xyz")),
    .tokenTradeCreated (inscribed 5 sampleSeller offerDocument),
    .tokenTradeExecuted (sentToSelf 5 sampleSeller),
    .tokenTradeCreated (inscribed 6 sampleBuyer (fillDocument feeReceiver)),
    .tokenTradeExecuted (sentToSelf 6 sampleBuyer)].map fun op => (sampleContext, op)

/-- The total of the balances, what is left and the maximum of a ticker. -/
def tokenView (tick : TickKey) (store : TapStore) : ℤ × Option ℤ × Option ℕ :=
  (totalBalance store.b tick, store.dc.lookup tick, (store.d.lookup tick).map DeployRecord.max)

def xyzKey : TickKey := "\"xyz\"".toList

/-- With a third party as fee receiver the run meets the condition. -/
theorem filledRun_conserved :
    ∃ store, Run.Reaches (tapStep sampleEnv) (FeeReceiverApart sampleEnv) TapStore.empty store ∧
      tokenView xyzKey store = (100, some 900, some 1000) ∧ Conserved store := by
  have hexec : (Run.exec (tapStep sampleEnv)
      (fun store action => decide (FeeReceiverApart sampleEnv store action))
      (filledRun sampleFeeReceiver) TapStore.empty).map (tokenView xyzKey) =
        some (100, some 900, some 1000) := by decide +kernel
  have hrun : ∃ store, Run.Reaches (tapStep sampleEnv) (FeeReceiverApart sampleEnv) TapStore.empty
      store ∧ tokenView xyzKey store = (100, some 900, some 1000) :=
    Run.exists_reaches_of_exec of_decide_eq_true hexec
  obtain ⟨store, reaches, hview⟩ := hrun
  exact ⟨store, reaches, hview, supply_conserved_of_feeReceiverApart sampleEnv reaches⟩

/-- A fill that pays its fee to the seller destroys the accepted amount: the row of the seller is
written twice, the second time from the balance read before the first. -/
theorem sellerFee_not_conserved :
    ∃ store, Run.Reaches (tapStep sampleEnv) (fun _ _ => True) TapStore.empty store ∧
      tokenView xyzKey store = (80, some 900, some 1000) ∧ ¬ Conserved store := by
  have hexec : (Run.exec (tapStep sampleEnv) (fun _ _ => true)
      (filledRun sampleSeller) TapStore.empty).map (tokenView xyzKey) =
        some (80, some 900, some 1000) := by decide +kernel
  have hrun : ∃ store, Run.Reaches (tapStep sampleEnv) (fun _ _ => True) TapStore.empty store ∧
      tokenView xyzKey store = (80, some 900, some 1000) :=
    Run.exists_reaches_of_exec (fun _ => trivial) hexec
  obtain ⟨store, reaches, hview⟩ := hrun
  refine ⟨store, reaches, hview, fun conserved => ?_⟩
  simp only [tokenView, Prod.mk.injEq] at hview
  obtain ⟨htotal, hleft, hmax⟩ := hview
  obtain ⟨record, hrecord, hrecordMax⟩ := Option.map_eq_some_iff.1 hmax
  obtain ⟨left, hfound, hsum⟩ := conserved xyzKey record hrecord
  obtain rfl := Option.some.inj (hleft.symm.trans hfound)
  omega

end OrdDogecoin.Tap
