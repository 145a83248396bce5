/-
Module: OrdDogecoin.Drc20.LedgerInvariant
Purpose: Every DRC-20 message keeps the books.  A rejected message changes nothing, and what an accepted
  one does (`Applies`) is one bookkeeping step.
Trusted boundary: as in OrdDogecoin.Drc20.Ledger
Main exports: Ledger.Books, LedgerLaws, ledgerLaws_executeMessages
-/
import OrdDogecoin.Drc20.Atomicity

namespace OrdDogecoin.Drc20

open Chain
open KeyTable

def Ledger.Books (env : Env) (seen : InscriptionId → Prop) (ledger : Ledger) : Prop :=
  Balanced env seen ledger.tokenInfo ledger.tokenBalance ledger.inscribeTransfer
    ledger.transferableLog

section Messages

variable {env : Env} {seen : InscriptionId → Prop} {ledger : Ledger} {context : BlockContext}
  {msg : ExecutionMessage}

/-- The log found for a sender is stored under the sender, its own tick and the inscription. -/
theorem lookup_of_getTransferableById (books : ledger.Books env seen) {script : ScriptKey}
    {id : InscriptionId} {log : TransferableLog}
    (hfound : ledger.getTransferableById script id = some log) :
    ledger.transferableLog.lookup (script.render, env.lowerHex log.tick, id) = some log := by
  have hmem := List.mem_of_find?_eq_some hfound
  have hid : log.inscriptionId = id := by simpa using List.find?_some hfound
  obtain ⟨⟨⟨script', key, id'⟩, stored⟩, hrow, rfl⟩ := List.mem_map.1 hmem
  obtain ⟨hentry, hscript⟩ := List.mem_filter.1 hrow
  have hlookup : ledger.transferableLog.lookup (script', key, id') = some stored :=
    AList.mem_lookup_iff.2 hentry
  obtain ⟨-, rfl, rfl⟩ := books.log_place hlookup
  have hscript : script' = script.render := by simpa using hscript
  rw [← hscript, ← hid]
  exact hlookup

/-- The inscription a message inscribes for transfer. -/
def inscribedId (msg : ExecutionMessage) : Option InscriptionId :=
  match msg.op with
  | .inscribeTransfer _ => some msg.inscriptionId
  | _ => none

theorem Ledger.moveTo_tables (env : Env) (sender receiver : ScriptKey) (tick : Tick) (id : InscriptionId)
    (amount : ℕ) (ledger : Ledger) :
    (ledger.moveTo env sender receiver tick id amount).tokenInfo = ledger.tokenInfo ∧
      (ledger.moveTo env sender receiver tick id amount).tokenBalance =
        ((ledger.debit env sender tick amount).credit env receiver tick amount).tokenBalance ∧
      (ledger.moveTo env sender receiver tick id amount).inscribeTransfer =
        ledger.inscribeTransfer.erase id ∧
      (ledger.moveTo env sender receiver tick id amount).transferableLog =
        ledger.transferableLog.erase (sender.render, env.lowerHex tick, id) := by
  unfold Ledger.moveTo
  dsimp only [Ledger.removeInscribeTransferInscription, Ledger.removeTransferable]
  split
  · exact ⟨rfl, rfl, rfl, rfl⟩
  · exact ⟨rfl, rfl, rfl, rfl⟩

/-- What an accepted message does keeps the books. -/
theorem books_applies (books : ledger.Books env seen) {amount : Option ℕ} {after : Ledger}
    (happlies : Applies env context msg ledger amount after)
    (issued : Issued env after.tokenInfo after.tokenBalance)
    (hfresh : ∀ id, inscribedId msg = some id → ledger.inscribeTransfer.lookup id = none ∧ seen id) :
    after.Books env seen := by
  have hstored : ∀ (script : ScriptKey) (tick : Tick),
      env.lowerHex (ledger.balanceOf env script tick).tick = env.lowerHex tick ∧
        (ledger.balanceOf env script tick).overallBalance =
          overallAt ledger.tokenBalance script.render (env.lowerHex tick) ∧
        (ledger.balanceOf env script tick).transferableBalance =
          transferableAt ledger.tokenBalance script.render (env.lowerHex tick) := fun script tick =>
    ⟨Balanced.stored_tick ledger.tokenBalance script.render tick (books.balance_tick ·),
      Balanced.stored_amounts ledger.tokenBalance script.render (env.lowerHex tick) tick⟩
  cases happlies with
  | deploy _ _ _ hnew _ _ _ hsupplyUnits =>
      exact Balanced.deploy books hnew rfl rfl (Num.lt_of_checkedToU128 hsupplyUnits)
  | @mint _ script tick info _ amount _ _ _ hinfo _ _ hamount =>
      obtain ⟨htick, hoverall, htransferable⟩ := hstored script tick
      have hissued := books.minted_le hinfo
      exact Balanced.mint books hinfo (by omega) htick (congrArg (· + amount) hoverall) htransferable
        rfl rfl rfl
  | @inscribeTransfer _ script tick info _ amount hop _ _ hinfo _ _ _ hle =>
      obtain ⟨htick, hoverall, htransferable⟩ := hstored script tick
      obtain ⟨hnone, hseen⟩ := hfresh msg.inscriptionId (by rw [inscribedId, hop])
      have hdeployed : (ledger.tokenInfo.lookup (env.lowerHex tick)).isSome :=
        Option.isSome_of_eq_some hinfo
      rw [hoverall, htransferable] at hle
      exact Balanced.inscribe books hdeployed hnone hseen rfl htick hoverall
        (congrArg (· + amount) htransferable) hle ⟨rfl, books.info_tick hinfo, rfl⟩
  | @transfer _ log _ hlog hcovered htransferred =>
      obtain ⟨htick, hoverall, htransferable⟩ := hstored msg.fromKey log.tick
      replace hlog := lookup_of_getTransferableById books hlog
      generalize msg.toKey.getD msg.fromKey = receiver at issued ⊢
      obtain ⟨hinfos, hbalances, hrecords, hlogs⟩ :=
        ledger.moveTo_tables env msg.fromKey receiver log.tick msg.inscriptionId log.amount
      rw [hinfos, hbalances] at issued
      unfold Ledger.Books
      rw [hinfos, hbalances, hrecords, hlogs]
      have hdeployed := issued.deployed (AList.lookup_insert _)
      have hcreditTick : env.lowerHex (((ledger.debit env msg.fromKey log.tick log.amount).balanceOf env
          receiver log.tick).credit log.amount).tick = env.lowerHex log.tick :=
        issued.balance_tick (AList.lookup_insert _)
      obtain ⟨hreceived, hreceivedTransferable⟩ := Balanced.stored_amounts (ledger.debit env msg.fromKey
        log.tick log.amount).tokenBalance receiver.render (env.lowerHex log.tick) log.tick
      exact Balanced.move books hdeployed hlog htick
        ((Nat.sub_add_cancel hcovered).trans hoverall)
        ((Nat.sub_add_cancel htransferred).trans htransferable) hcreditTick
        (congrArg (· + log.amount) hreceived) hreceivedTransferable

/-- One message keeps the books, when it inscribes no inscription a second time. -/
theorem books_executeMessage (books : ledger.Books env seen) (context : BlockContext)
    (msg : ExecutionMessage) (hfresh : ∀ id, inscribedId msg = some id → ¬ seen id) :
    (executeMessage env context msg ledger).Books env
      (fun id => seen id ∨ inscribedId msg = some id) := by
  have grown : ledger.Books env (fun id => seen id ∨ inscribedId msg = some id) :=
    books.see fun id hid => .inl hid
  obtain ⟨made, -, hdecides, issued⟩ := decides_executeMessage grown.issued context msg
  have hafter : ({ executeMessage env context msg ledger with
      operationDecisions := ledger.operationDecisions } : Ledger).Books env
        (fun id => seen id ∨ inscribedId msg = some id) := by
    unfold Decides at hdecides
    cases hverdict : made.verdict with
    | rejected =>
        rw [hverdict] at hdecides
        have hsame : _ = ledger := hdecides
        rw [hsame]
        exact grown
    | accepted =>
        rw [hverdict] at hdecides
        apply books_applies grown hdecides issued
        intro id hid
        refine ⟨Option.eq_none_iff_forall_ne_some.2 fun record hrecord => ?_, .inr hid⟩
        exact hfresh _ hid (books.seen_of_record hrecord)
  exact hafter

end Messages

/-! ### Runs -/

/-- The messages of a run inscribe each inscription for transfer at most once, as inscriptions are
created once. -/
def InscribedOnce (messages : List (BlockContext × ExecutionMessage)) : Prop :=
  (messages.filterMap fun message => inscribedId message.2).Nodup

instance (messages : List (BlockContext × ExecutionMessage)) : Decidable (InscribedOnce messages) :=
  inferInstanceAs (Decidable (List.Nodup _))

/-- A run keeps the books: the induction carries the inscriptions seen so far. -/
theorem books_executeMessages {env : Env} :
    ∀ {messages : List (BlockContext × ExecutionMessage)} {seen : InscriptionId → Prop}
      {ledger : Ledger}, ledger.Books env seen → InscribedOnce messages →
      (∀ message ∈ messages, ∀ id, inscribedId message.2 = some id → ¬ seen id) →
      ∃ seen', (executeMessages env messages ledger).Books env seen'
  | [], seen, ledger, books, _, _ => ⟨seen, books⟩
  | (context, msg) :: messages, seen, ledger, books, honce, hfresh => by
      have hnext := books_executeMessage books context msg (hfresh (context, msg) List.mem_cons_self)
      have honce' : InscribedOnce messages := by
        unfold InscribedOnce at honce ⊢
        cases hid : inscribedId msg with
        | none => simpa [hid] using honce
        | some id =>
            simp only [List.filterMap_cons, hid, List.nodup_cons] at honce
            exact honce.2
      apply books_executeMessages hnext honce'
      rintro message hmem id hid (hseen | hsame)
      · exact hfresh message (List.mem_cons_of_mem _ hmem) id hid hseen
      · unfold InscribedOnce at honce
        simp only [List.filterMap_cons, hsame, List.nodup_cons] at honce
        exact honce.1 (List.mem_filterMap.2 ⟨message, hmem, hid⟩)

/-- What the ledger promises for one deployed token. -/
structure LedgerLaws (env : Env) (ledger : Ledger) (key : TickKey) (info : TokenInfo) : Prop where
  overall_eq_minted : overallTotal key ledger.tokenBalance = info.minted
  minted_le_supply : info.minted ≤ info.supply
  transferable_le_overall : ∀ script,
    transferableAt ledger.tokenBalance script key ≤ overallAt ledger.tokenBalance script key
  transferable_eq_logged : ∀ script,
    transferableAt ledger.tokenBalance script key = loggedTotal script key ledger.transferableLog
  record_of_log : ∀ script id log, ledger.transferableLog.lookup (script, key, id) = some log →
    ledger.inscribeTransfer.lookup id = some { tick := log.tick, amt := log.amount }
  log_of_record : ∀ id record, ledger.inscribeTransfer.lookup id = some record →
    env.lowerHex record.tick = key →
    ∃! place : Text × TransferableLog,
      ledger.transferableLog.lookup (place.1, key, id) = some place.2

theorem Ledger.Books.laws {env : Env} {seen : InscriptionId → Prop} {ledger : Ledger}
    (books : ledger.Books env seen) {key : TickKey} {info : TokenInfo}
    (hinfo : ledger.tokenInfo.lookup key = some info) : LedgerLaws env ledger key info where
  overall_eq_minted := books.minted_eq hinfo
  minted_le_supply := books.minted_le hinfo
  transferable_le_overall script := books.transferable_le script key
  transferable_eq_logged script := books.transferable_eq script key
  record_of_log script id log hlog := books.record_of_log hlog
  log_of_record id record hrecord htick := by
    obtain ⟨script, key', log, hlog⟩ := books.log_of_record hrecord
    obtain ⟨-, hkey, -⟩ := books.log_place hlog
    cases (books.record_of_log hlog).symm.trans hrecord
    obtain rfl : key' = key := hkey.symm.trans htick
    refine ⟨(script, log), hlog, ?_⟩
    rintro ⟨script', log'⟩ hlog'
    obtain ⟨rfl, -⟩ := books.log_unique hlog' hlog
    cases hlog'.symm.trans hlog
    rfl

/-- After every sequence of messages from the empty ledger, the laws hold for every deployed token. -/
theorem ledgerLaws_executeMessages (env : Env) (messages : List (BlockContext × ExecutionMessage))
    (honce : InscribedOnce messages) {key : TickKey} {info : TokenInfo}
    (hinfo : (executeMessages env messages Ledger.empty).tokenInfo.lookup key = some info) :
    LedgerLaws env (executeMessages env messages Ledger.empty) key info := by
  have initial : Ledger.empty.Books env fun _ => False := Balanced.empty env fun _ => False
  obtain ⟨seen, books⟩ := books_executeMessages initial honce fun _ _ _ _ hseen => hseen
  exact books.laws hinfo

/-- The library functions on plain digits and ASCII ticks. -/
def asciiEnv : Env where
  parseUnsigned text :=
    if text.isEmpty || text.any (fun c => !c.isDigit) then none
    else some (Num.ofNat (text.foldl (fun n c => 10 * n + (c.toNat - 48)) 0))
  lowerHex tick :=
    let hex := tick.chars.flatMap fun c =>
      [Nat.digitChar (c.toLower.toNat / 16), Nat.digitChar (c.toLower.toNat % 16)]
    hex ++ List.replicate (32 - hex.length) '0'

/-- Deploy 1000, mint 100, inscribe 40 of them for transfer and transfer them to another owner. -/
def sampleMessages : List (BlockContext × ExecutionMessage) :=
  let tick := ['D', 'o', 'g', 'i']
  let owner := ScriptKey.address ['D', 'A'] 0
  let message := fun (n : ℕ) (receiver : ScriptKey) (op : Operation) =>
    (({ blockheight := n, blockhash := n, blocktime := n, reorgEpoch := 0 } : BlockContext),
      ({ txid := n, inscriptionId := ⟨n, 0⟩, inscriptionNumber := n, newSatpoint := ⟨⟨n, 0⟩, 0⟩,
         fromKey := owner, toKey := some receiver, op := op } : ExecutionMessage))
  [message 1 owner (.deploy ⟨tick, "1000".toList, some "100".toList, some "0".toList⟩),
    message 2 owner (.mint ⟨tick, "100".toList⟩),
    message 3 owner (.inscribeTransfer ⟨tick, "40".toList⟩),
    message 3 (.address ['D', 'B'] 0) (.transfer ⟨tick, "40".toList⟩)]

theorem ledgerLaws_sampleMessages :
    InscribedOnce sampleMessages ∧
      ∃ key info, (executeMessages asciiEnv sampleMessages Ledger.empty).tokenInfo.lookup key =
          some info ∧ info.minted = 100 ∧
        LedgerLaws asciiEnv (executeMessages asciiEnv sampleMessages Ledger.empty) key info := by
  have honce : InscribedOnce sampleMessages := by decide
  have hminted : ((executeMessages asciiEnv sampleMessages Ledger.empty).tokenInfo.lookup
      "646f6769000000000000000000000000".toList).map TokenInfo.minted = some 100 := by decide
  obtain ⟨info, hinfo, hhundred⟩ := Option.map_eq_some_iff.1 hminted
  exact ⟨honce, _, info, hinfo, hhundred, ledgerLaws_executeMessages asciiEnv sampleMessages honce hinfo⟩

end OrdDogecoin.Drc20
