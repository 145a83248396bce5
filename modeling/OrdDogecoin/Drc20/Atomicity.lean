/-
Module: OrdDogecoin.Drc20.Atomicity
Purpose: A DRC-20 decision explains the ledger: a rejected message changes nothing, an accepted one
  makes the change of its operation with the amount it records.  No step after the first write can be
  rejected, because the balances of a token add up to what was minted of it.
Trusted boundary: as in OrdDogecoin.Drc20.Ledger
Main exports: Applies, decision_explains_ledger
-/
import OrdDogecoin.Drc20.Accounting

namespace OrdDogecoin.Drc20

open Chain
open KeyTable
open Proc

/-! ### What the operations do -/

/-- The stored balance of an owner, or a new one. -/
def Ledger.balanceOf (env : Env) (ledger : Ledger) (script : ScriptKey) (tick : Tick) : Balance :=
  (ledger.getBalance env script tick).getD (Balance.new tick)

/-- Write the balance of an owner. -/
def Ledger.setBalance (env : Env) (script : ScriptKey) (tick : Tick) (balance : Balance)
    (ledger : Ledger) : Ledger :=
  { ledger with
    tokenBalance := ledger.tokenBalance.insert (script.render, env.lowerHex tick) balance }

def Balance.credit (amount : ℕ) (balance : Balance) : Balance :=
  { balance with overallBalance := balance.overallBalance + amount }

def Ledger.mintTo (env : Env) (script : ScriptKey) (tick : Tick) (info : TokenInfo)
    (amount height : ℕ) (ledger : Ledger) : Ledger :=
  ((ledger.setBalance env script tick
    ((ledger.balanceOf env script tick).credit amount)).insertTokenHolder env script
      tick).insertTokenInfo env tick
        { info with minted := info.minted + amount, latestMintNumber := height }

/-- Inscribe an amount of an owner's balance for transfer. -/
def Ledger.inscribeFor (env : Env) (script : ScriptKey) (tick : Tick) (info : TokenInfo)
    (msg : ExecutionMessage) (amount : ℕ) (ledger : Ledger) : Ledger :=
  let balance := ledger.balanceOf env script tick
  ((ledger.setBalance env script tick
    { balance with transferableBalance := balance.transferableBalance + amount }).insertTransferable
      env script tick
      { inscriptionId := msg.inscriptionId
        inscriptionNumber := msg.inscriptionNumber
        amount := amount
        tick := info.tick
        owner := script }).insertInscribeTransferInscription msg.inscriptionId
          { tick := info.tick, amt := amount }

/-- A balance that an amount inscribed for transfer leaves. -/
def Balance.debit (amount : ℕ) (balance : Balance) : Balance :=
  { balance with
    overallBalance := balance.overallBalance - amount
    transferableBalance := balance.transferableBalance - amount }

/-- Debit the sender of a transfer. -/
def Ledger.debit (env : Env) (script : ScriptKey) (tick : Tick) (amount : ℕ) (ledger : Ledger) :
    Ledger :=
  ledger.setBalance env script tick ((ledger.balanceOf env script tick).debit amount)

/-- Credit the receiver of a transfer. -/
def Ledger.credit (env : Env) (script : ScriptKey) (tick : Tick) (amount : ℕ) (ledger : Ledger) :
    Ledger :=
  (ledger.setBalance env script tick
    ((ledger.balanceOf env script tick).credit amount)).insertTokenHolder env script tick

/-- Move an amount from a sender to a receiver and drop the inscription that stood for it.  A sender
that is left with nothing is no holder any more. -/
def Ledger.moveTo (env : Env) (sender receiver : ScriptKey) (tick : Tick) (id : InscriptionId)
    (amount : ℕ) (ledger : Ledger) : Ledger :=
  let moved := (ledger.debit env sender tick amount).credit env receiver tick amount
  let held :=
    if (ledger.balanceOf env sender tick).overallBalance = amount ∧ sender ≠ receiver then
      moved.removeTokenHolder env sender tick
    else moved
  (held.removeTransferable env sender tick id).removeInscribeTransferInscription id

/-- The amount in the smallest unit of a token. -/
def Num.units (num : Num) (decimal : ℕ) : ℕ := num.digits * 10 ^ (decimal - num.scale)

/-- The change that an accepted message makes with the amount of its decision. -/
inductive Applies (env : Env) (context : BlockContext) (msg : ExecutionMessage) (before : Ledger) :
    Option ℕ → Ledger → Prop where
  | deploy {deploy : Deploy} {script : ScriptKey} {tick : Tick} {decimals supply limit : Num}
      {dec supplyUnits limitUnits : ℕ} (hop : msg.op = .deploy deploy)
      (hscript : msg.toKey = some script) (htick : Tick.parse deploy.tick = .ok tick)
      (hnew : before.getTokenInfo env tick = none)
      (hdecimals : Num.fromStr env.parseUnsigned (deploy.decimals.getD ['1', '8']) = .ok decimals)
      (hdec : decimals.checkedToU8 = .ok dec)
      (hsupply : Num.fromStr env.parseUnsigned deploy.maxSupply = .ok supply)
      (hsupplyUnits : (supply.checkedMul (Num.tenPow dec)).checkedToU128 = .ok supplyUnits)
      (hlimit : Num.fromStr env.parseUnsigned (deploy.mintLimit.getD deploy.maxSupply) = .ok limit)
      (hlimitUnits : (limit.checkedMul (Num.tenPow dec)).checkedToU128 = .ok limitUnits) :
      Applies env context msg before none
        (before.insertTokenInfo env tick
          { tick := tick
            inscriptionId := msg.inscriptionId
            inscriptionNumber := msg.inscriptionNumber
            supply := supplyUnits
            minted := 0
            limitPerMint := limitUnits
            decimal := dec
            deployBy := script
            deployedNumber := context.blockheight
            deployedTimestamp := context.blocktime
            latestMintNumber := context.blockheight })
  | mint {mint : Mint} {script : ScriptKey} {tick : Tick} {info : TokenInfo} {num : Num} {amount : ℕ}
      (hop : msg.op = .mint mint) (hscript : msg.toKey = some script)
      (htick : Tick.parse mint.tick = .ok tick) (hinfo : before.getTokenInfo env tick = some info)
      (hnum : Num.fromStr env.parseUnsigned mint.amount = .ok num) (hscale : num.scale ≤ info.decimal)
      (hamount : min (num.units info.decimal) (info.supply - info.minted) = amount) :
      Applies env context msg before (some amount)
        (before.mintTo env script tick info amount context.blockheight)
  | inscribeTransfer {transfer : Transfer} {script : ScriptKey} {tick : Tick} {info : TokenInfo}
      {num : Num} {amount : ℕ} (hop : msg.op = .inscribeTransfer transfer)
      (hscript : msg.toKey = some script) (htick : Tick.parse transfer.tick = .ok tick)
      (hinfo : before.getTokenInfo env tick = some info)
      (hnum : Num.fromStr env.parseUnsigned transfer.amount = .ok num)
      (hscale : num.scale ≤ info.decimal) (hamount : num.units info.decimal = amount)
      (hle : (before.balanceOf env script tick).transferableBalance + amount ≤
        (before.balanceOf env script tick).overallBalance) :
      Applies env context msg before (some amount)
        (before.inscribeFor env script tick info msg amount)
  | transfer {transfer : Transfer} {log : TransferableLog} (hop : msg.op = .transfer transfer)
      (hlog : before.getTransferableById msg.fromKey msg.inscriptionId = some log)
      (hoverall : log.amount ≤ (before.balanceOf env msg.fromKey log.tick).overallBalance)
      (htransferable :
        log.amount ≤ (before.balanceOf env msg.fromKey log.tick).transferableBalance) :
      Applies env context msg before (some log.amount)
        (before.moveTo env msg.fromKey (msg.toKey.getD msg.fromKey) log.tick msg.inscriptionId
          log.amount)

/-! ### Handlers -/

section Rules

variable {α β : Type} {post : α → Ledger → Prop} {exit : DRC20Error → Ledger → Prop}
  {ledger : Ledger} {rest : β → Handler α}

theorem wp_ofNum {value : Except NumError β}
    (hexit : ∀ error, value = .error error → exit (.num error) ledger)
    (hrest : ∀ found, value = .ok found → wp (rest found) post exit ledger) :
    wp (ofNum value >>= rest) post exit ledger := by
  apply wp_ofExcept
  · intro error herror
    cases value with
    | error numError =>
        cases herror
        exact hexit numError rfl
    | ok found => cases herror
  · intro found hfound
    cases value with
    | error numError => cases hfound
    | ok value =>
        cases hfound
        exact hrest found rfl

/-- A step on numbers that is known to succeed. -/
theorem wp_ofNum_ok {value : Except NumError β} {found : β} (hok : value = .ok found)
    (hrest : wp (rest found) post exit ledger) : wp (ofNum value >>= rest) post exit ledger := by
  apply wp_ofNum
  · intro error herror
    cases hok.symm.trans herror
  · intro other hother
    cases hok.symm.trans hother
    exact hrest

end Rules

section Handlers

variable {env : Env} {ledger : Ledger} {context : BlockContext} {msg : ExecutionMessage}

theorem updateMintTokenInfo_of_lookup {tick : Tick} {info : TokenInfo}
    (hinfo : ledger.tokenInfo.lookup (env.lowerHex tick) = some info) (minted blockNumber : ℕ) :
    ledger.updateMintTokenInfo env tick minted blockNumber =
      ledger.insertTokenInfo env tick
        { info with minted := minted, latestMintNumber := blockNumber } := by
  rw [Ledger.updateMintTokenInfo, Ledger.getTokenInfo, hinfo]

/-- The amount a mint credits is cut off at the rest of the supply. -/
theorem cutOff_is {requested : Num} {n minted supply : ℕ} (hrequested : requested.Is n)
    (hlt : minted < supply) :
    ∃ amt, cutOff requested (Num.ofNat minted) (Num.ofNat supply) = .ok amt ∧
      amt.Is (min n (supply - minted)) := by
  have hsum := hrequested.checkedAdd (Num.ofNat_is minted)
  have hlarger := (Num.ofNat_is supply).lt_iff hsum
  unfold cutOff
  by_cases hcut : supply < n + minted
  · obtain ⟨amt, hamt, his⟩ := (Num.ofNat_is supply).checkedSub (Num.ofNat_is minted) hlt.le
    rw [← Nat.min_eq_right (show supply - minted ≤ n by omega)] at his
    refine ⟨amt, ?_, his⟩
    rw [hlarger.2 hcut]
    exact hamt
  · rw [← Nat.min_eq_left (show n ≤ supply - minted by omega)] at hrequested
    refine ⟨requested, ?_, hrequested⟩
    have hnot : (Num.ofNat supply).lt (requested.checkedAdd (Num.ofNat minted)) = false :=
      Bool.eq_false_iff.2 fun h => hcut (hlarger.1 h)
    rw [hnot]
    rfl

/-- A handler returns the change of its operation, with the invariant, or leaves everything as it
was. -/
def Explained (env : Env) (context : BlockContext) (msg : ExecutionMessage) (ledger : Ledger)
    (handler : Handler Event) : Prop :=
  wp handler
    (fun event after => Applies env context msg ledger event.amount after ∧
      Issued env after.tokenInfo after.tokenBalance)
    (fun _ after => after = ledger) ledger

/-- Balances are written under their own tick, which is the one of their place. -/
theorem updateTokenBalance_eq_setBalance (ledger : Ledger) (script : ScriptKey) (tick : Tick)
    (balance : Balance) (hkey : env.lowerHex balance.tick = env.lowerHex tick) :
    ledger.updateTokenBalance env script balance = ledger.setBalance env script tick balance := by
  unfold Ledger.updateTokenBalance Ledger.setBalance
  rw [hkey]

theorem explained_processDeploy (issued : Issued env ledger.tokenInfo ledger.tokenBalance)
    {deploy : Deploy} (hop : msg.op = .deploy deploy) :
    Explained env context msg ledger (processDeploy env context msg deploy) := by
  unfold Explained processDeploy
  refine wp_orExit (fun _ => rfl) fun script hscript => ?_
  refine wp_ofExcept (fun _ _ => rfl) fun tick htick => wp_read ?_
  refine wp_exitIf (fun _ => rfl) fun hnew => ?_
  refine wp_ofNum (fun _ _ => rfl) fun decimals hdecimals => ?_
  refine wp_ofNum (fun _ _ => rfl) fun dec hdec => wp_exitIf (fun _ => rfl) fun _ => ?_
  refine wp_ofNum (fun _ _ => rfl) fun maxSupply hmax => wp_exitIf (fun _ => rfl) fun _ => ?_
  refine wp_ofNum (fun _ _ => rfl) fun mintLimit hlimit => wp_exitIf (fun _ => rfl) fun _ => ?_
  refine wp_ofNum (fun _ _ => rfl) fun supplyUnits hsupplyUnits => ?_
  refine wp_ofNum (fun _ _ => rfl) fun limitUnits hlimitUnits => wp_write (wp_pure ?_)
  have hnone : ledger.getTokenInfo env tick = none := by simpa using hnew
  constructor
  · exact .deploy hop hscript htick hnone hdecimals hdec hmax hsupplyUnits hlimit hlimitUnits
  · exact issued.deploy hnone rfl (Num.lt_of_checkedToU128 hsupplyUnits)

theorem explained_processMint (issued : Issued env ledger.tokenInfo ledger.tokenBalance)
    {mint : Mint} (hop : msg.op = .mint mint) :
    Explained env context msg ledger (processMint env context msg mint) := by
  unfold Explained processMint
  refine wp_orExit (fun _ => rfl) fun script hscript => ?_
  refine wp_ofExcept (fun _ _ => rfl) fun tick htick => wp_read ?_
  refine wp_orExit (fun _ => rfl) fun info hinfo => ?_
  refine wp_ofNum (fun _ _ => rfl) fun num hnum => wp_exitIf (fun _ => rfl) fun hscale => ?_
  refine wp_exitIf (fun _ => rfl) fun _ => wp_exitIf (fun _ => rfl) fun _ => ?_
  refine wp_exitIf (fun _ => rfl) fun hleft => ?_
  have hrow : ledger.tokenInfo.lookup (env.lowerHex tick) = some info := hinfo
  have hscale : num.scale ≤ info.decimal := by simpa using hscale
  have hleft : info.minted < info.supply := by
    rw [← (Num.ofNat_is info.minted).lt_iff (Num.ofNat_is info.supply)]
    simpa using hleft
  obtain ⟨amt, hcut, hamt⟩ := cutOff_is (Num.checkedMul_tenPow_is hscale) hleft
  generalize hamount : min _ (info.supply - info.minted) = amount at hamt
  have hle : info.minted + amount ≤ info.supply := by omega
  refine wp_ofNum_ok hcut (wp_read ?_)
  -- from here on the amounts are bounded by the supply
  have hsupply := issued.supply_lt hrow
  obtain ⟨hoverall, -⟩ := Balanced.stored_amounts ledger.tokenBalance script.render
    (env.lowerHex tick) tick
  have hbound := issued.overallAt_le_minted hrow script.render
  have hkey := Balanced.stored_tick ledger.tokenBalance script.render tick (issued.balance_tick ·)
  refine wp_ofNum_ok (((Num.ofNat_is _).checkedAdd hamt).checkedToU128 ?_) ?_
  · rw [Ledger.getBalance, hoverall]
    omega
  refine wp_write (wp_write ?_)
  refine wp_ofNum_ok (((Num.ofNat_is _).checkedAdd hamt).checkedToU128 (by omega)) (wp_write ?_)
  refine wp_ofNum_ok (hamt.checkedToU128 (by omega)) (wp_pure ?_)
  rw [updateMintTokenInfo_of_lookup (by exact hrow)]
  rw [updateTokenBalance_eq_setBalance ledger script tick _ (by exact hkey)]
  constructor
  · exact .mint hop hscript htick hinfo hnum hscale hamount
  · exact issued.mint hrow hle hkey (congrArg (· + amount) hoverall) rfl rfl

theorem explained_processInscribeTransfer
    (issued : Issued env ledger.tokenInfo ledger.tokenBalance) {transfer : Transfer}
    (hop : msg.op = .inscribeTransfer transfer) :
    Explained env context msg ledger (processInscribeTransfer env msg transfer) := by
  unfold Explained processInscribeTransfer
  refine wp_orExit (fun _ => rfl) fun script hscript => ?_
  refine wp_ofExcept (fun _ _ => rfl) fun tick htick => wp_read ?_
  refine wp_orExit (fun _ => rfl) fun info hinfo => ?_
  refine wp_ofNum (fun _ _ => rfl) fun num hnum => wp_exitIf (fun _ => rfl) fun hscale => ?_
  refine wp_exitIf (fun _ => rfl) fun _ => wp_read ?_
  have hrow : ledger.tokenInfo.lookup (env.lowerHex tick) = some info := hinfo
  have hscale : num.scale ≤ info.decimal := by simpa using hscale
  have hamt := Num.checkedMul_tenPow_is hscale
  generalize hamount : num.digits * 10 ^ (info.decimal - num.scale) = amount at hamt
  have hkey := Balanced.stored_tick ledger.tokenBalance script.render tick (issued.balance_tick ·)
  obtain ⟨hoverall, -⟩ := Balanced.stored_amounts ledger.tokenBalance script.render
    (env.lowerHex tick) tick
  change env.lowerHex (ledger.balanceOf env script tick).tick = env.lowerHex tick at hkey
  change (ledger.balanceOf env script tick).overallBalance = _ at hoverall
  have hbound := issued.overallAt_le_minted hrow script.render
  have hissued := issued.minted_le hrow
  have hsupply := issued.supply_lt hrow
  change wp (ofNum (Num.checkedSub (Num.ofNat (ledger.balanceOf env script tick).overallBalance)
    (Num.ofNat (ledger.balanceOf env script tick).transferableBalance)) >>= _) _ _ _
  refine wp_ofNum (fun _ _ => rfl) fun available hsub => ?_
  obtain ⟨hcovered, havailable⟩ := (Num.ofNat_is _).of_checkedSub (Num.ofNat_is _) hsub
  refine wp_exitIf (fun _ => rfl) fun henough => ?_
  have henough := mt (havailable.lt_iff hamt).2 (Bool.eq_false_iff.1 henough)
  refine wp_ofNum_ok (((Num.ofNat_is _).checkedAdd hamt).checkedToU128 ?_) ?_
  · change (ledger.balanceOf env script tick).transferableBalance + amount < _
    omega
  refine wp_ofNum_ok (hamt.checkedToU128 (by omega)) (wp_write (wp_write (wp_write (wp_pure ?_))))
  rw [updateTokenBalance_eq_setBalance ledger script tick _ (by exact hkey)]
  constructor
  · exact .inscribeTransfer hop hscript htick hinfo hnum hscale hamount (by omega)
  · exact issued.keepOverall hkey (by rw [hrow]; rfl) hoverall

/-- Once the sender is debited, the rest of a transfer is not rejected: what the receiver then owns is
part of what was minted. -/
theorem explained_creditTransfer (issued : Issued env ledger.tokenInfo ledger.tokenBalance)
    {transfer : Transfer} {log : TransferableLog} {info : TokenInfo}
    (hop : msg.op = .transfer transfer)
    (hlog : ledger.getTransferableById msg.fromKey msg.inscriptionId = some log)
    (hinfo : ledger.tokenInfo.lookup (env.lowerHex log.tick) = some info)
    (hcovered : log.amount ≤ (ledger.balanceOf env msg.fromKey log.tick).overallBalance)
    (htransferable : log.amount ≤ (ledger.balanceOf env msg.fromKey log.tick).transferableBalance) :
    wp (creditTransfer env msg log info
        ((ledger.balanceOf env msg.fromKey log.tick).overallBalance - log.amount))
      (fun event after => Applies env context msg ledger event.amount after ∧
        Issued env after.tokenInfo after.tokenBalance)
      (fun _ after => after = ledger)
      (ledger.debit env msg.fromKey log.tick log.amount) := by
  have happlies : Applies env context msg ledger (some log.amount) _ :=
    .transfer hop hlog hcovered htransferable
  unfold creditTransfer
  generalize msg.toKey.getD msg.fromKey = receiver at happlies
  have hsupply := issued.supply_lt hinfo
  have hissued := issued.minted_le hinfo
  have hdeployed : (ledger.tokenInfo.lookup (env.lowerHex log.tick)).isSome := by
    rw [hinfo]
    rfl
  have hdebitTick : env.lowerHex ((ledger.balanceOf env msg.fromKey log.tick).debit log.amount).tick =
      env.lowerHex log.tick :=
    Balanced.stored_tick ledger.tokenBalance msg.fromKey.render log.tick (issued.balance_tick ·)
  obtain ⟨hoverall, -⟩ := Balanced.stored_amounts ledger.tokenBalance msg.fromKey.render
    (env.lowerHex log.tick) log.tick
  change (ledger.balanceOf env msg.fromKey log.tick).overallBalance = _ at hoverall
  have hmove : ∀ credited : Balance, env.lowerHex credited.tick = env.lowerHex log.tick →
      credited.overallBalance =
        overallAt (ledger.debit env msg.fromKey log.tick log.amount).tokenBalance receiver.render
          (env.lowerHex log.tick) + log.amount →
      Issued env ledger.tokenInfo ((ledger.debit env msg.fromKey log.tick
        log.amount).tokenBalance.insert (receiver.render, env.lowerHex log.tick) credited) :=
    fun credited htick hcredit => issued.move hdeployed hdebitTick htick
      ((Nat.sub_add_cancel hcovered).trans hoverall) hcredit
  have hrows : ∀ {script key balance}, (ledger.debit env msg.fromKey log.tick
      log.amount).tokenBalance.lookup (script, key) = some balance →
        env.lowerHex balance.tick = key := by
    intro script key balance hrow
    exact (issued.places_insert hdebitTick hdeployed hrow).1
  have htotal : overallTotal (env.lowerHex log.tick)
      (ledger.debit env msg.fromKey log.tick log.amount).tokenBalance + log.amount = info.minted := by
    have haccount := Balanced.overallTotal_insert ledger.tokenBalance msg.fromKey.render
      (env.lowerHex log.tick) (env.lowerHex log.tick)
      ((ledger.balanceOf env msg.fromKey log.tick).debit log.amount)
    rw [if_pos rfl, if_pos rfl, issued.minted_eq hinfo] at haccount
    change overallTotal _ (ledger.debit env msg.fromKey log.tick log.amount).tokenBalance + _ = _
      at haccount
    dsimp only [Balance.debit] at haccount
    omega
  have hpart := Balanced.overallAt_le_total (ledger.debit env msg.fromKey log.tick
    log.amount).tokenBalance receiver.render (env.lowerHex log.tick)
  obtain ⟨hreceived, -⟩ := Balanced.stored_amounts (ledger.debit env msg.fromKey log.tick
    log.amount).tokenBalance receiver.render (env.lowerHex log.tick) log.tick
  have hcreditTick : env.lowerHex (((ledger.debit env msg.fromKey log.tick log.amount).balanceOf env
      receiver log.tick).credit log.amount).tick = env.lowerHex log.tick :=
    Balanced.stored_tick _ receiver.render log.tick (hrows ·)
  refine wp_read (wp_ofNum_ok (((Num.ofNat_is _).checkedAdd (Num.ofNat_is _)).checkedToU128 ?_) ?_)
  · rw [Ledger.getBalance, hreceived]
    omega
  refine wp_write (wp_write (wp_write (wp_write (wp_write ?_))))
  refine wp_ofNum_ok ((Num.ofNat_is log.amount).checkedToU128 (by omega)) (wp_pure ?_)
  rw [updateTokenBalance_eq_setBalance _ receiver log.tick _ (by exact hcreditTick)]
  constructor
  · have hempty : ((ledger.balanceOf env msg.fromKey log.tick).overallBalance - log.amount = 0) ↔
        (ledger.balanceOf env msg.fromKey log.tick).overallBalance = log.amount := by omega
    simp only [hempty]
    exact happlies
  · have hfinal := hmove _ hcreditTick (congrArg (· + log.amount) hreceived)
    split <;> exact hfinal

theorem explained_processTransfer (issued : Issued env ledger.tokenInfo ledger.tokenBalance)
    {transfer : Transfer} (hop : msg.op = .transfer transfer) :
    Explained env context msg ledger (processTransfer env msg) := by
  unfold Explained processTransfer
  refine wp_read (wp_orExit (fun _ => rfl) fun log hlog => wp_exitIf (fun _ => rfl) fun _ => ?_)
  refine wp_read (wp_orExit (fun _ => rfl) fun info hinfo => wp_read ?_)
  have hrow : ledger.tokenInfo.lookup (env.lowerHex log.tick) = some info := hinfo
  have hkey := Balanced.stored_tick ledger.tokenBalance msg.fromKey.render log.tick
    (issued.balance_tick ·)
  refine wp_ofNum (fun _ _ => rfl) fun rest hrest => ?_
  obtain ⟨hcovered, hrestIs⟩ := (Num.ofNat_is _).of_checkedSub (Num.ofNat_is _) hrest
  refine wp_ofNum (fun _ _ => rfl) fun fromOverall hoverall => ?_
  refine wp_ofNum (fun _ _ => rfl) fun rest' hrest' => ?_
  obtain ⟨htransferable, hrestIs'⟩ := (Num.ofNat_is _).of_checkedSub (Num.ofNat_is _) hrest'
  refine wp_ofNum (fun _ _ => rfl) fun fromTransferable htransferableRest => wp_write ?_
  obtain rfl := hrestIs.of_checkedToU128 hoverall
  obtain rfl := hrestIs'.of_checkedToU128 htransferableRest
  rw [updateTokenBalance_eq_setBalance ledger msg.fromKey log.tick _ (by exact hkey)]
  exact explained_creditTransfer issued hop hlog hrow hcovered htransferable

theorem explained_processMessage (issued : Issued env ledger.tokenInfo ledger.tokenBalance) :
    Explained env context msg ledger (processMessage env context msg) := by
  unfold processMessage
  cases hop : msg.op with
  | deploy deploy => exact explained_processDeploy issued hop
  | mint mint => exact explained_processMint issued hop
  | inscribeTransfer transfer => exact explained_processInscribeTransfer issued hop
  | transfer transfer => exact explained_processTransfer issued hop

end Handlers

/-! ### Runs -/

/-- What a decision says about the ledger. -/
def Decides (env : Env) (context : BlockContext) (msg : ExecutionMessage)
    (decision : OperationDecision) (before after : Ledger) : Prop :=
  match decision.verdict with
  | .rejected => after = before
  | .accepted => Applies env context msg before decision.amount after

/-- No operation touches the decisions. -/
theorem Applies.operationDecisions_eq {env : Env} {context : BlockContext} {msg : ExecutionMessage}
    {before after : Ledger} {amount : Option ℕ} (happlies : Applies env context msg before amount after) :
    after.operationDecisions = before.operationDecisions := by
  cases happlies with
  | deploy => rfl
  | mint => rfl
  | inscribeTransfer => rfl
  | transfer =>
      unfold Ledger.moveTo
      dsimp only [Ledger.removeInscribeTransferInscription, Ledger.removeTransferable]
      split
      · rfl
      · rfl

/-- One message: its decision explains what happened, and the invariant is kept. -/
theorem decides_executeMessage {env : Env} {ledger : Ledger}
    (issued : Issued env ledger.tokenInfo ledger.tokenBalance) (context : BlockContext)
    (msg : ExecutionMessage) :
    ∃ made,
      (executeMessage env context msg ledger).operationDecisions =
        ledger.operationDecisions.insert (msg.txid, msg.inscriptionId) made ∧
      Decides env context msg made ledger
        { executeMessage env context msg ledger with
          operationDecisions := ledger.operationDecisions } ∧
      Issued env (executeMessage env context msg ledger).tokenInfo
        (executeMessage env context msg ledger).tokenBalance := by
  have hexplained : Explained env context msg ledger _ := explained_processMessage issued
  unfold Explained wp at hexplained
  unfold executeMessage
  generalize (processMessage env context msg).result ledger = result at hexplained
  refine ⟨decision context msg result.1, ?_⟩
  obtain ⟨error | event, after⟩ := result
  · obtain rfl : after = ledger := hexplained
    exact ⟨rfl, rfl, issued⟩
  · obtain ⟨happlies, hissued⟩ := hexplained
    dsimp only at happlies hissued ⊢
    rw [← happlies.operationDecisions_eq]
    exact ⟨rfl, happlies, hissued⟩

/-- Every run keeps the invariant. -/
theorem issued_executeMessages (env : Env) (messages : List (BlockContext × ExecutionMessage))
    {ledger : Ledger} (issued : Issued env ledger.tokenInfo ledger.tokenBalance) :
    Issued env (executeMessages env messages ledger).tokenInfo
      (executeMessages env messages ledger).tokenBalance := by
  induction messages generalizing ledger with
  | nil => exact issued
  | cons message messages ih =>
      obtain ⟨-, -, -, hnext⟩ := decides_executeMessage issued message.1 message.2
      exact ih hnext

/-- After every run from the empty ledger, the decision recorded for the next message explains what
it does to the tables: nothing when it is rejected, the change of its operation with the amount of
the decision when it is accepted. -/
theorem decision_explains_ledger (env : Env) (messages : List (BlockContext × ExecutionMessage))
    (context : BlockContext) (msg : ExecutionMessage) :
    let before := executeMessages env messages Ledger.empty
    let after := executeMessage env context msg before
    ∃ made,
      after.operationDecisions =
        before.operationDecisions.insert (msg.txid, msg.inscriptionId) made ∧
      Decides env context msg made before
        { after with operationDecisions := before.operationDecisions } := by
  intro before after
  have issued : Issued env before.tokenInfo before.tokenBalance :=
    issued_executeMessages env messages (Issued.empty env)
  obtain ⟨made, hrecorded, hdecides, -⟩ := decides_executeMessage issued context msg
  exact ⟨made, hrecorded, hdecides⟩

end OrdDogecoin.Drc20
