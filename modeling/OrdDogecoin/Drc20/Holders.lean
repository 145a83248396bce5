/-
Module: OrdDogecoin.Drc20.Holders
Purpose: The holder index of the DRC-20 ledger: who is listed under a token, over every run of
  blocks, and what the query for the holders of a token returns.  The table lists exactly the owners
  of a positive balance; the query reads its rows as addresses and so leaves out the owners that are
  listed by script hash.
Trusted boundary: as in OrdDogecoin.Drc20.Ledger; the address library is a parameter
  (`AddressLib`): an address text is read back as its payload, the hex of a script hash is not read
  as an address
Main exports: AddressLib, HoldersListed, holders_returned_iff
-/
import OrdDogecoin.Drc20.LedgerInvariant
import Mathlib.Data.Char
import Mathlib.Data.Finset.Sort
import Mathlib.Data.List.Lex

namespace OrdDogecoin.Drc20

open Chain
open KeyTable
open Proc

/-! ### Script keys -/

/-- The address library: `Address::from_script` up to the network, the display of a payload on a
network, `Address::from_str`, and the hex of a script hash. -/
structure AddressLib (Script Payload : Type) where
  payloadOf : Script → Option Payload
  display : Payload → ℕ → Text
  parse : Text → Option (Payload × ℕ)
  scriptHash : Script → Text

/-- What the index relies on: a displayed address is read back, perhaps with the network of its version
byte, and a script hash is not read as an address. -/
structure AddressLib.Lawful {Script Payload : Type} (lib : AddressLib Script Payload) : Prop where
  parse_display : ∀ payload network, ∃ version,
    lib.parse (lib.display payload network) = some (payload, version)
  parse_scriptHash : ∀ script, lib.parse (lib.scriptHash script) = none

section Keys

variable {Script Payload : Type} (lib : AddressLib Script Payload) (network : ℕ)

def ScriptKey.fromAddress (payload : Payload) : ScriptKey :=
  .address (lib.display payload network) network

def ScriptKey.fromScript (script : Script) : ScriptKey :=
  match lib.payloadOf script with
  | some payload => ScriptKey.fromAddress lib network payload
  | none => .scriptHash (lib.scriptHash script)

def ScriptKey.fromStr (text : Text) : Option ScriptKey :=
  (lib.parse text).map fun address => ScriptKey.fromAddress lib network address.1

/-- The keys of a message are those of scripts, as `create_execution_message` makes them. -/
def ExecutionMessage.Keyed (msg : ExecutionMessage) : Prop :=
  (∃ script, msg.fromKey = ScriptKey.fromScript lib network script) ∧
    ∀ key, msg.toKey = some key → ∃ script, key = ScriptKey.fromScript lib network script

variable {lib network}

/-- Reading a row of the holder table back gives its key when the key is an address, and nothing when
it is a script hash. -/
theorem fromStr_fromScript (lawful : lib.Lawful) (script : Script) :
    ScriptKey.fromStr lib network (ScriptKey.fromScript lib network script).render =
      if (lib.payloadOf script).isSome then some (ScriptKey.fromScript lib network script) else none := by
  unfold ScriptKey.fromStr ScriptKey.fromScript
  cases hpayload : lib.payloadOf script with
  | none => simp [ScriptKey.render, lawful.parse_scriptHash]
  | some payload =>
      obtain ⟨version, hparse⟩ := lawful.parse_display payload network
      simp [ScriptKey.render, ScriptKey.fromAddress, hparse]

/-- Keys of scripts with one text are one key. -/
theorem fromScript_eq_of_render (lawful : lib.Lawful) {script other : Script}
    (hrender : (ScriptKey.fromScript lib network script).render =
      (ScriptKey.fromScript lib network other).render) :
    ScriptKey.fromScript lib network script = ScriptKey.fromScript lib network other := by
  have hread : ScriptKey.fromStr lib network (ScriptKey.fromScript lib network script).render = _ :=
    fromStr_fromScript lawful script
  rw [hrender, fromStr_fromScript lawful other] at hread
  unfold ScriptKey.fromScript at hread hrender ⊢
  cases hscript : lib.payloadOf script with
  | none =>
      cases hother : lib.payloadOf other with
      | none => simpa [hscript, hother, ScriptKey.render] using hrender
      | some payload => simp [hscript, hother] at hread
  | some payload =>
      cases hother : lib.payloadOf other with
      | none => simp [hscript, hother] at hread
      | some payload' => simpa [hscript, hother] using hread.symm

end Keys

/-! ### The index -/

/-- The part of the index the query reads. -/
structure HolderIndex where
  ledger : Ledger
  blockCount : ℕ

def HolderIndex.empty : HolderIndex := { ledger := Ledger.empty, blockCount := 0 }

/-- A block's messages are executed from the first inscription height on. -/
def HolderIndex.indexBlock (env : Env) (firstInscriptionHeight : ℕ) (index : HolderIndex)
    (block : BlockContext × List ExecutionMessage) : HolderIndex where
  ledger :=
    if firstInscriptionHeight ≤ index.blockCount then
      executeMessages env (block.2.map fun msg => (block.1, msg)) index.ledger
    else index.ledger
  blockCount := index.blockCount + 1

def HolderIndex.indexBlocks (env : Env) (firstInscriptionHeight : ℕ)
    (blocks : List (BlockContext × List ExecutionMessage)) : HolderIndex :=
  blocks.foldl (HolderIndex.indexBlock env firstInscriptionHeight) HolderIndex.empty

/-- The values of a tick in the holder table, in the order of the multimap. -/
def Ledger.holderTexts (ledger : Ledger) (key : TickKey) : List Text :=
  Finset.sort ((ledger.tokenHolder.filter fun row => row.1 = key).image Prod.snd)

/-- `get_drc20_token_holder`. -/
def getDrc20TokenHolder {Script Payload : Type} (lib : AddressLib Script Payload) (network : ℕ)
    (env : Env) (firstInscriptionHeight : ℕ) (index : HolderIndex) (tick : Tick) : List ScriptKey :=
  if firstInscriptionHeight ≤ index.blockCount then
    (index.ledger.holderTexts (env.lowerHex tick)).filterMap (ScriptKey.fromStr lib network)
  else []

/-! ### The table and the balances -/

/-- A token lists exactly the owners of a positive balance. -/
def Listed (holders : Finset (TickKey × Text)) (balances : Balances) : Prop :=
  ∀ key owner, (key, owner) ∈ holders ↔ 0 < overallAt balances owner key

namespace Listed

variable {holders : Finset (TickKey × Text)} {balances : Balances} {key : TickKey} {owner : Text}
  {balance : Balance}

theorem empty : Listed ∅ ∅ := by
  intro key owner
  simp [overallAt]

/-- An owner that is left with something is listed. -/
theorem credit (listed : Listed holders balances) (hpos : 0 < balance.overallBalance) :
    Listed (insert (key, owner) holders) (balances.insert (owner, key) balance) := by
  intro key' owner'
  rw [Finset.mem_insert, Balanced.overallAt_insert, Prod.mk.injEq, listed key' owner']
  by_cases hplace : owner' = owner ∧ key' = key
  · simp [hplace, hpos]
  · have hother : ¬ (key' = key ∧ owner' = owner) := fun h => hplace ⟨h.2, h.1⟩
    simp [hplace, hother]

/-- A row that keeps its overall balance keeps the listing. -/
theorem keep (listed : Listed holders balances)
    (hsame : balance.overallBalance = overallAt balances owner key) :
    Listed holders (balances.insert (owner, key) balance) := by
  intro key' owner'
  rw [Balanced.overallAt_insert, listed key' owner']
  split
  · rename_i hplace
    rw [hsame, hplace.1, hplace.2]
  · exact Iff.rfl

/-- An owner that pays out and keeps something stays listed. -/
theorem debit (listed : Listed holders balances) (hpos : 0 < balance.overallBalance)
    (hle : balance.overallBalance ≤ overallAt balances owner key) :
    Listed holders (balances.insert (owner, key) balance) := by
  have hlisted : (key, owner) ∈ holders := (listed key owner).2 (Nat.lt_of_lt_of_le hpos hle)
  have hcredit : Listed (insert (key, owner) holders) _ := listed.credit hpos
  rwa [Finset.insert_eq_of_mem hlisted] at hcredit

/-- An owner that pays out everything is taken off the list. -/
theorem remove (listed : Listed holders balances) (hzero : balance.overallBalance = 0) :
    Listed (holders.erase (key, owner)) (balances.insert (owner, key) balance) := by
  intro key' owner'
  rw [Finset.mem_erase, Balanced.overallAt_insert, listed key' owner']
  by_cases hplace : owner' = owner ∧ key' = key
  · simp [hplace, hzero]
  · have hother : (key', owner') ≠ (key, owner) := by
      intro heq
      cases heq
      exact hplace ⟨rfl, rfl⟩
    simp [hplace, hother]

/-- A row that is written twice counts once. -/
theorem overwrite {first : Balance} (listed : Listed holders (balances.insert (owner, key) balance)) :
    Listed holders ((balances.insert (owner, key) first).insert (owner, key) balance) := by
  intro key' owner'
  have hlisted := listed key' owner'
  rw [Balanced.overallAt_insert] at hlisted ⊢
  rw [Balanced.overallAt_insert]
  split
  · rename_i hplace
    rwa [if_pos hplace] at hlisted
  · rename_i hplace
    rwa [if_neg hplace] at hlisted

end Listed

/-- The table lists the owners, which are known, and every amount inscribed for transfer is positive. -/
structure HoldersListed (Known : Text → Prop) (ledger : Ledger) : Prop where
  listed : Listed ledger.tokenHolder ledger.tokenBalance
  known : ∀ {key owner}, (key, owner) ∈ ledger.tokenHolder → Known owner
  logged : ∀ {place log}, ledger.transferableLog.lookup place = some log → 0 < log.amount

namespace HoldersListed

variable {Known : Text → Prop} {env : Env} {ledger : Ledger}

theorem empty : HoldersListed Known Ledger.empty where
  listed := Listed.empty
  known h := by simp [Ledger.empty] at h
  logged h := by simp [Ledger.empty] at h

theorem balanceOf_overall (env : Env) (ledger : Ledger) (owner : ScriptKey) (tick : Tick) :
    (ledger.balanceOf env owner tick).overallBalance =
      overallAt ledger.tokenBalance owner.render (env.lowerHex tick) :=
  (Balanced.stored_amounts ledger.tokenBalance owner.render (env.lowerHex tick) tick).1

/-- Listing a known owner keeps the owners known. -/
theorem known_insert {holders : Finset (TickKey × Text)} {key : TickKey} {owner : Text}
    (howner : Known owner) (hknown : ∀ {key owner}, (key, owner) ∈ holders → Known owner)
    {key' : TickKey} {owner' : Text} (hrow : (key', owner') ∈ insert (key, owner) holders) :
    Known owner' := by
  rcases Finset.mem_insert.1 hrow with heq | hold
  · cases heq
    exact howner
  · exact hknown hold

theorem mintTo (inv : HoldersListed Known ledger) {owner : ScriptKey} {tick : Tick}
    {info : TokenInfo} {amount height : ℕ} (howner : Known owner.render) (hpos : 0 < amount) :
    HoldersListed Known (ledger.mintTo env owner tick info amount height) where
  listed := inv.listed.credit (Nat.lt_of_lt_of_le hpos (Nat.le_add_left _ _))
  known := known_insert howner inv.known
  logged := inv.logged

theorem inscribeFor (inv : HoldersListed Known ledger) {owner : ScriptKey} {tick : Tick}
    {info : TokenInfo} {msg : ExecutionMessage} {amount : ℕ} (hpos : 0 < amount) :
    HoldersListed Known (ledger.inscribeFor env owner tick info msg amount) where
  listed := inv.listed.keep (balanceOf_overall env ledger owner tick)
  known := inv.known
  logged := by
    intro place log hrow
    rcases lookup_insert_cases hrow with ⟨-, rfl⟩ | ⟨-, hold⟩
    · exact hpos
    · exact inv.logged hold

theorem amount_pos (inv : HoldersListed Known ledger) {owner : ScriptKey} {id : InscriptionId}
    {log : TransferableLog} (hlog : ledger.getTransferableById owner id = some log) :
    0 < log.amount := by
  obtain ⟨⟨place, stored⟩, hrow, rfl⟩ := List.mem_map.1 (List.mem_of_find?_eq_some hlog)
  exact inv.logged (AList.mem_lookup_iff.2 (List.mem_filter.1 hrow).1)

/-- The listing after a debit and a credit.  The receiver is listed before the sender is taken off,
and the two are told apart by their keys, so their texts have to differ with the keys. -/
theorem listed_moved (inv : HoldersListed Known ledger) {sender receiver : ScriptKey} {tick : Tick}
    {amount : ℕ} (hkeys : sender.render = receiver.render → sender = receiver) (hpos : 0 < amount)
    (hcovered : amount ≤ (ledger.balanceOf env sender tick).overallBalance) :
    Listed
      (if (ledger.balanceOf env sender tick).overallBalance = amount ∧ sender ≠ receiver then
        (insert (env.lowerHex tick, receiver.render) ledger.tokenHolder).erase
          (env.lowerHex tick, sender.render)
      else insert (env.lowerHex tick, receiver.render) ledger.tokenHolder)
      ((ledger.debit env sender tick amount).credit env receiver tick amount).tokenBalance := by
  have hsender := balanceOf_overall env ledger sender tick
  have hcredit : 0 < (((ledger.debit env sender tick amount).balanceOf env receiver tick).credit
      amount).overallBalance := Nat.lt_of_lt_of_le hpos (Nat.le_add_left _ _)
  by_cases hself : sender = receiver
  · subst hself
    rw [if_neg fun h => h.2 rfl]
    exact (inv.listed.credit hcredit).overwrite
  · by_cases hall : (ledger.balanceOf env sender tick).overallBalance = amount
    · rw [if_pos ⟨hall, hself⟩]
      have hne : (env.lowerHex tick, receiver.render) ≠ (env.lowerHex tick, sender.render) :=
        fun heq => hself (hkeys (congrArg Prod.snd heq).symm)
      rw [Finset.erase_insert_of_ne hne]
      have hzero : ((ledger.balanceOf env sender tick).debit amount).overallBalance = 0 :=
        Nat.sub_eq_zero_of_le hall.le
      exact (inv.listed.remove hzero).credit hcredit
    · rw [if_neg fun h => hall h.1]
      have hrest : 0 < ((ledger.balanceOf env sender tick).debit amount).overallBalance :=
        Nat.sub_pos_of_lt (Nat.lt_of_le_of_ne hcovered (Ne.symm hall))
      have hle : ((ledger.balanceOf env sender tick).debit amount).overallBalance ≤
          overallAt ledger.tokenBalance sender.render (env.lowerHex tick) :=
        (Nat.sub_le _ _).trans hsender.le
      exact (inv.listed.debit hrest hle).credit hcredit

theorem moveTo (inv : HoldersListed Known ledger) {sender receiver : ScriptKey} {tick : Tick}
    {id : InscriptionId} {amount : ℕ} (hreceiver : Known receiver.render)
    (hkeys : sender.render = receiver.render → sender = receiver) (hpos : 0 < amount)
    (hcovered : amount ≤ (ledger.balanceOf env sender tick).overallBalance) :
    HoldersListed Known (ledger.moveTo env sender receiver tick id amount) := by
  have hmoved := inv.listed_moved hkeys hpos hcovered
  unfold Ledger.moveTo
  dsimp only
  constructor
  · split
    · rename_i hgone
      rwa [if_pos hgone] at hmoved
    · rename_i hstays
      rwa [if_neg hstays] at hmoved
  · intro key owner hrow
    split at hrow
    · exact known_insert hreceiver inv.known (Finset.mem_of_mem_erase hrow)
    · exact known_insert hreceiver inv.known hrow
  · intro place log hrow
    obtain ⟨-, hold⟩ := lookup_erase_cases hrow
    have hbefore : ledger.transferableLog.lookup place = some log := by
      split at hold <;> exact hold
    exact inv.logged hbefore

end HoldersListed

/-! ### Messages -/

section Messages

variable {Known : Text → Prop} {env : Env} {ledger : Ledger} {context : BlockContext}
  {msg : ExecutionMessage}

/-- A mint is rejected when it asks for nothing or nothing is left. -/
theorem mint_amount_pos (mint : Mint) :
    wp (processMint env context msg mint) (fun event _ => ∀ amount, event.amount = some amount →
      0 < amount) (fun _ _ => True) ledger := by
  unfold processMint
  refine wp_orExit (fun _ => trivial) fun script _ => ?_
  refine wp_ofExcept (fun _ _ => trivial) fun tick _ => wp_read ?_
  refine wp_orExit (fun _ => trivial) fun info _ => ?_
  refine wp_ofNum (fun _ _ => trivial) fun num _ => wp_exitIf (fun _ => trivial) fun hscale => ?_
  refine wp_exitIf (fun _ => trivial) fun hnonzero => wp_exitIf (fun _ => trivial) fun _ => ?_
  refine wp_exitIf (fun _ => trivial) fun hleft => ?_
  have hscale : num.scale ≤ info.decimal := by simpa using hscale
  have hrequested := Num.checkedMul_tenPow_is hscale
  have hunits := mt hrequested.isZero_iff.2 (Bool.eq_false_iff.1 hnonzero)
  have hleft : info.minted < info.supply := by
    rw [← (Num.ofNat_is info.minted).lt_iff (Num.ofNat_is info.supply)]
    simpa using hleft
  obtain ⟨amt, hcut, hamt⟩ := cutOff_is hrequested hleft
  refine wp_ofNum_ok hcut (wp_read ?_)
  refine wp_ofNum (fun _ _ => trivial) fun overall _ => wp_write (wp_write ?_)
  refine wp_ofNum (fun _ _ => trivial) fun newMinted _ => wp_write ?_
  refine wp_ofNum (fun _ _ => trivial) fun amount hamount => wp_pure ?_
  obtain rfl := hamt.of_checkedToU128 hamount
  intro amount hevent
  cases hevent
  exact lt_min (Nat.pos_of_ne_zero hunits) (Nat.sub_pos_of_lt hleft)

theorem inscribeTransfer_amount_pos (transfer : Transfer) :
    wp (processInscribeTransfer env msg transfer) (fun event _ => ∀ amount,
      event.amount = some amount → 0 < amount) (fun _ _ => True) ledger := by
  unfold processInscribeTransfer
  refine wp_orExit (fun _ => trivial) fun script _ => ?_
  refine wp_ofExcept (fun _ _ => trivial) fun tick _ => wp_read ?_
  refine wp_orExit (fun _ => trivial) fun info _ => ?_
  refine wp_ofNum (fun _ _ => trivial) fun num _ => wp_exitIf (fun _ => trivial) fun hscale => ?_
  refine wp_exitIf (fun _ => trivial) fun hnonzero => wp_read ?_
  have hscale : num.scale ≤ info.decimal := by simpa using hscale
  have hrequested := Num.checkedMul_tenPow_is hscale
  have hnonzero := (Bool.or_eq_false_iff.1 hnonzero).1
  have hunits := mt hrequested.isZero_iff.2 (Bool.eq_false_iff.1 hnonzero)
  refine wp_ofNum (fun _ _ => trivial) fun available _ => wp_exitIf (fun _ => trivial) fun _ => ?_
  refine wp_ofNum (fun _ _ => trivial) fun newTransferable _ => ?_
  refine wp_ofNum (fun _ _ => trivial) fun amount hamount => ?_
  refine wp_write (wp_write (wp_write (wp_pure ?_)))
  obtain rfl := hrequested.of_checkedToU128 hamount
  intro amount hevent
  cases hevent
  exact Nat.pos_of_ne_zero hunits

/-- The operation names its amount itself. -/
def Operation.Requests (op : Operation) : Prop :=
  (∃ mint, op = .mint mint) ∨ ∃ transfer, op = .inscribeTransfer transfer

theorem amount_pos_processMessage (hrequests : msg.op.Requests) :
    wp (processMessage env context msg) (fun event _ => ∀ amount, event.amount = some amount →
      0 < amount) (fun _ _ => True) ledger := by
  unfold processMessage
  rcases hrequests with ⟨mint, hop⟩ | ⟨transfer, hop⟩
  · rw [hop]
    exact mint_amount_pos mint
  · rw [hop]
    exact inscribeTransfer_amount_pos transfer

/-- The keys of a message are known, and equal when their texts are. -/
structure ExecutionMessage.ToldApart (Known : Text → Prop) (msg : ExecutionMessage) : Prop where
  sender : Known msg.fromKey.render
  receiver : ∀ key, msg.toKey = some key → Known key.render
  apart : ∀ key, msg.toKey = some key → msg.fromKey.render = key.render → msg.fromKey = key

/-- What an accepted message does keeps the listing. -/
theorem HoldersListed.applies {amount : Option ℕ} {after : Ledger} (inv : HoldersListed Known ledger)
    (told : msg.ToldApart Known) (hpos : msg.op.Requests → ∀ units, amount = some units → 0 < units)
    (happlies : Applies env context msg ledger amount after) : HoldersListed Known after := by
  cases happlies with
  | deploy => exact ⟨inv.listed, inv.known, inv.logged⟩
  | mint hop hscript => exact inv.mintTo (told.receiver _ hscript) (hpos (.inl ⟨_, hop⟩) _ rfl)
  | inscribeTransfer hop => exact inv.inscribeFor (hpos (.inr ⟨_, hop⟩) _ rfl)
  | transfer hop hlog hoverall =>
      cases hto : msg.toKey with
      | none => exact inv.moveTo told.sender (fun _ => rfl) (inv.amount_pos hlog) hoverall
      | some key =>
          exact inv.moveTo (told.receiver key hto) (told.apart key hto) (inv.amount_pos hlog) hoverall

/-- One message keeps the listing and what was issued. -/
theorem HoldersListed.executeMessage (inv : HoldersListed Known ledger)
    (issued : Issued env ledger.tokenInfo ledger.tokenBalance) (told : msg.ToldApart Known) :
    HoldersListed Known (executeMessage env context msg ledger) := by
  have hexplained : Explained env context msg ledger _ := explained_processMessage issued
  have hpos : msg.op.Requests → wp (processMessage env context msg)
      (fun event _ => ∀ amount, event.amount = some amount → 0 < amount) (fun _ _ => True) ledger :=
    amount_pos_processMessage
  unfold Explained wp at hexplained
  unfold wp at hpos
  unfold Drc20.executeMessage
  generalize (processMessage env context msg).result ledger = result at hexplained hpos
  obtain ⟨error | event, after⟩ := result
  · obtain rfl : after = ledger := hexplained
    exact ⟨inv.listed, inv.known, inv.logged⟩
  · obtain ⟨happlies, -⟩ := hexplained
    have hafter := inv.applies told hpos happlies
    exact ⟨hafter.listed, hafter.known, hafter.logged⟩

end Messages

/-! ### Runs -/

section Runs

variable {Script Payload : Type} {lib : AddressLib Script Payload} {network : ℕ} {env : Env}
  {firstInscriptionHeight : ℕ}

def ScriptText (lib : AddressLib Script Payload) (network : ℕ) (text : Text) : Prop :=
  ∃ script, text = (ScriptKey.fromScript lib network script).render

theorem ExecutionMessage.Keyed.toldApart (lawful : lib.Lawful) {msg : ExecutionMessage}
    (keyed : msg.Keyed lib network) : msg.ToldApart (ScriptText lib network) := by
  obtain ⟨⟨script, hfrom⟩, hkeys⟩ := keyed
  constructor
  · exact ⟨script, by rw [hfrom]⟩
  · intro key hto
    obtain ⟨other, rfl⟩ := hkeys key hto
    exact ⟨other, rfl⟩
  · intro key hto hrender
    obtain ⟨other, rfl⟩ := hkeys key hto
    rw [hfrom] at hrender ⊢
    exact fromScript_eq_of_render lawful hrender

theorem holdersListed_executeMessages (lawful : lib.Lawful)
    (messages : List (BlockContext × ExecutionMessage))
    (hkeyed : ∀ message ∈ messages, message.2.Keyed lib network) {ledger : Ledger}
    (inv : HoldersListed (ScriptText lib network) ledger)
    (issued : Issued env ledger.tokenInfo ledger.tokenBalance) :
    HoldersListed (ScriptText lib network) (executeMessages env messages ledger) := by
  induction messages generalizing ledger with
  | nil => exact inv
  | cons message messages ih =>
      obtain ⟨hfirst, hrest⟩ := List.forall_mem_cons.1 hkeyed
      obtain ⟨-, -, -, hissued⟩ := decides_executeMessage issued message.1 message.2
      exact ih hrest (inv.executeMessage issued (hfirst.toldApart lawful)) hissued

/-- The state of the index between blocks.  Below the first inscription height nothing was executed. -/
structure HolderIndex.Kept (Known : Text → Prop) (env : Env) (firstInscriptionHeight : ℕ)
    (index : HolderIndex) : Prop where
  listed : HoldersListed Known index.ledger
  issued : Issued env index.ledger.tokenInfo index.ledger.tokenBalance
  early : index.blockCount ≤ firstInscriptionHeight → index.ledger = Ledger.empty

theorem HolderIndex.Kept.indexBlock (lawful : lib.Lawful) {index : HolderIndex}
    (kept : index.Kept (ScriptText lib network) env firstInscriptionHeight)
    (block : BlockContext × List ExecutionMessage) (hkeyed : ∀ msg ∈ block.2, msg.Keyed lib network) :
    (index.indexBlock env firstInscriptionHeight block).Kept (ScriptText lib network) env
      firstInscriptionHeight := by
  have hmessages : ∀ message ∈ block.2.map fun msg => (block.1, msg),
      message.2.Keyed lib network := by
    simpa using hkeyed
  unfold HolderIndex.indexBlock
  by_cases hactive : firstInscriptionHeight ≤ index.blockCount
  · rw [if_pos hactive]
    exact ⟨holdersListed_executeMessages lawful _ hmessages kept.listed kept.issued,
      issued_executeMessages env _ kept.issued, fun hlow => by simp at hlow; omega⟩
  · rw [if_neg hactive]
    exact ⟨kept.listed, kept.issued, fun _ => kept.early (by omega)⟩

theorem HolderIndex.kept_indexBlocks (lawful : lib.Lawful) (firstInscriptionHeight : ℕ)
    (blocks : List (BlockContext × List ExecutionMessage))
    (hkeyed : ∀ block ∈ blocks, ∀ msg ∈ block.2, msg.Keyed lib network) :
    (HolderIndex.indexBlocks env firstInscriptionHeight blocks).Kept (ScriptText lib network) env
      firstInscriptionHeight := by
  unfold HolderIndex.indexBlocks
  have hstart : HolderIndex.empty.Kept (ScriptText lib network) env firstInscriptionHeight :=
    ⟨HoldersListed.empty, Issued.empty env, fun _ => rfl⟩
  generalize HolderIndex.empty = index at hstart
  induction blocks generalizing index with
  | nil => exact hstart
  | cons block blocks ih =>
      obtain ⟨hfirst, hrest⟩ := List.forall_mem_cons.1 hkeyed
      exact ih hrest _ (hstart.indexBlock lawful block hfirst)

/-! ### The query -/

/-- An owner has a positive balance of a token. -/
def Owns (env : Env) (ledger : Ledger) (owner : ScriptKey) (tick : Tick) : Prop :=
  0 < overallAt ledger.tokenBalance owner.render (env.lowerHex tick)

/-- The query returns exactly the owners, each once. -/
def HoldersReturned (lib : AddressLib Script Payload) (network : ℕ) (env : Env)
    (firstInscriptionHeight : ℕ) (index : HolderIndex) (tick : Tick) : Prop :=
  (getDrc20TokenHolder lib network env firstInscriptionHeight index tick).Nodup ∧
    ∀ key, key ∈ getDrc20TokenHolder lib network env firstInscriptionHeight index tick ↔
      ∃ script, key = ScriptKey.fromScript lib network script ∧ Owns env index.ledger key tick

theorem mem_holderTexts {ledger : Ledger} {key : TickKey} {owner : Text} :
    owner ∈ ledger.holderTexts key ↔ (key, owner) ∈ ledger.tokenHolder := by
  simp [Ledger.holderTexts]

/-- The query returns the owners that have an address. -/
theorem mem_getDrc20TokenHolder (lawful : lib.Lawful) {index : HolderIndex}
    (kept : index.Kept (ScriptText lib network) env firstInscriptionHeight) (tick : Tick)
    (key : ScriptKey) :
    key ∈ getDrc20TokenHolder lib network env firstInscriptionHeight index tick ↔
      ∃ script, key = ScriptKey.fromScript lib network script ∧ (lib.payloadOf script).isSome ∧
        Owns env index.ledger key tick := by
  unfold getDrc20TokenHolder
  split
  · rw [List.mem_filterMap]
    constructor
    · rintro ⟨owner, howner, hread⟩
      rw [mem_holderTexts] at howner
      obtain ⟨script, rfl⟩ := kept.listed.known howner
      rw [fromStr_fromScript lawful] at hread
      split at hread
      · rename_i haddress
        cases hread
        exact ⟨script, rfl, haddress, (kept.listed.listed _ _).1 howner⟩
      · cases hread
    · rintro ⟨script, rfl, haddress, howns⟩
      refine ⟨_, mem_holderTexts.2 ((kept.listed.listed _ _).2 howns), ?_⟩
      rw [fromStr_fromScript lawful, if_pos haddress]
  · rename_i hearly
    have hempty := kept.early (by omega)
    simp [Owns, hempty, Ledger.empty, overallAt]

/-- No owner is returned twice: what is read back renders as the row it was read from. -/
theorem nodup_getDrc20TokenHolder (lawful : lib.Lawful) {index : HolderIndex}
    (kept : index.Kept (ScriptText lib network) env firstInscriptionHeight) (tick : Tick) :
    (getDrc20TokenHolder lib network env firstInscriptionHeight index tick).Nodup := by
  unfold getDrc20TokenHolder
  split
  · have hread : ∀ owner ∈ index.ledger.holderTexts (env.lowerHex tick), ∀ key,
        ScriptKey.fromStr lib network owner = some key → key.render = owner := by
      intro owner howner key hkey
      obtain ⟨script, rfl⟩ := kept.listed.known (mem_holderTexts.1 howner)
      rw [fromStr_fromScript lawful] at hkey
      split at hkey <;> cases hkey
      rfl
    have hnodup : (index.ledger.holderTexts (env.lowerHex tick)).Nodup := Finset.sort_nodup ..
    rw [List.Nodup, List.pairwise_filterMap]
    refine hnodup.imp_of_mem ?_
    intro owner owner' howner howner' hne key hkey key' hkey' heq
    rw [← hread owner howner key hkey, ← hread owner' howner' key' hkey', heq] at hne
    exact hne rfl
  · exact List.nodup_nil

/-- After every run of blocks from the empty index, a token lists exactly the owners of a positive
balance, and the query returns them exactly when all of them have an address. -/
theorem holders_returned_iff (lib : AddressLib Script Payload) (lawful : lib.Lawful) (network : ℕ)
    (env : Env) (firstInscriptionHeight : ℕ) (blocks : List (BlockContext × List ExecutionMessage))
    (hkeyed : ∀ block ∈ blocks, ∀ msg ∈ block.2, msg.Keyed lib network) (tick : Tick) :
    let index := HolderIndex.indexBlocks env firstInscriptionHeight blocks
    (∀ owner : ScriptKey, (env.lowerHex tick, owner.render) ∈ index.ledger.tokenHolder ↔
        Owns env index.ledger owner tick) ∧
      (HoldersReturned lib network env firstInscriptionHeight index tick ↔
        ∀ script, Owns env index.ledger (ScriptKey.fromScript lib network script) tick →
          (lib.payloadOf script).isSome) := by
  intro index
  have kept : index.Kept (ScriptText lib network) env firstInscriptionHeight :=
    HolderIndex.kept_indexBlocks lawful firstInscriptionHeight blocks hkeyed
  refine ⟨fun owner => kept.listed.listed _ _, ?_⟩
  have hmem := mem_getDrc20TokenHolder lawful kept tick
  constructor
  · rintro ⟨-, hexact⟩ script howns
    obtain ⟨other, heq, haddress, -⟩ := (hmem _).1 ((hexact _).2 ⟨script, rfl, howns⟩)
    have hread : ScriptKey.fromStr lib network (ScriptKey.fromScript lib network script).render = _ :=
      fromStr_fromScript lawful script
    rw [heq, fromStr_fromScript lawful other, if_pos haddress] at hread
    by_contra hnone
    rw [if_neg hnone] at hread
    cases hread
  · intro haddressed
    refine ⟨nodup_getDrc20TokenHolder lawful kept tick, fun key => ?_⟩
    rw [hmem]
    constructor
    · rintro ⟨script, hkey, -, howns⟩
      exact ⟨script, hkey, howns⟩
    · rintro ⟨script, rfl, howns⟩
      exact ⟨script, rfl, haddressed script howns, howns⟩

end Runs

/-! ### Two runs -/

def sampleHash : Text := List.replicate 40 '0'

def sampleAddress : Text := "D596YFweJQuHY1BbjazZYmAbt8jJPbKehC".toList

/-- Scripts as their hex.  The library on the scripts of the runs: a pay-to-public-key-hash script,
which has an address, and `OP_TRUE`, which has none. -/
def sampleLib : AddressLib Text Text where
  payloadOf script :=
    if script.take 6 = "76a914".toList then some ((script.drop 6).take 40) else none
  display payload _ := if payload = sampleHash then sampleAddress else 'Z' :: payload
  parse text :=
    if text = sampleAddress then some (sampleHash, 0)
    else match text with
      | 'Z' :: payload => some (payload, 0)
      | _ => none
  scriptHash script :=
    if script = "51".toList then "da1745e9b549bd0bfa1a569971c77eba30cd5a4b".toList else 'h' :: script

theorem ne_sampleAddress {first : Char} (rest : Text) (hfirst : first ≠ 'D') :
    first :: rest ≠ sampleAddress := by
  intro heq
  have hhead : some first = some 'D' := congrArg List.head? heq
  exact hfirst (Option.some.inj hhead)

theorem sampleLib_lawful : sampleLib.Lawful where
  parse_display payload network := by
    refine ⟨0, ?_⟩
    by_cases hsample : payload = sampleHash
    · have hdisplay : sampleLib.display payload network = sampleAddress := if_pos hsample
      rw [hdisplay, hsample]
      decide
    · have hdisplay : sampleLib.display payload network = 'Z' :: payload := if_neg hsample
      have hne : 'Z' :: payload ≠ sampleAddress := ne_sampleAddress payload (by decide)
      rw [hdisplay]
      change (if 'Z' :: payload = sampleAddress then some (sampleHash, 0) else some (payload, 0)) = _
      exact if_neg hne
  parse_scriptHash script := by
    by_cases htrue : script = "51".toList
    · subst htrue
      decide
    · have hhash : sampleLib.scriptHash script = 'h' :: script := if_neg htrue
      have hne : 'h' :: script ≠ sampleAddress := ne_sampleAddress script (by decide)
      rw [hhash]
      change (if 'h' :: script = sampleAddress then some (sampleHash, 0) else none) = _
      exact if_neg hne

def sampleTick : Tick := ⟨"dogi".toList, by decide⟩

def sampleScript : Text := "76a914".toList ++ sampleHash ++ "88ac".toList

def sampleMessage (n : ℕ) (receiver : Text) (op : Operation) : ExecutionMessage where
  txid := n
  inscriptionId := ⟨n, 0⟩
  inscriptionNumber := n
  newSatpoint := ⟨⟨n, 0⟩, 0⟩
  fromKey := ScriptKey.fromScript sampleLib 0 sampleScript
  toKey := some (ScriptKey.fromScript sampleLib 0 receiver)
  op := op

theorem sampleMessage_keyed (n : ℕ) (receiver : Text) (op : Operation) :
    (sampleMessage n receiver op).Keyed sampleLib 0 :=
  ⟨⟨sampleScript, rfl⟩, fun _ hto => ⟨receiver, (Option.some.inj hto).symm⟩⟩

/-- A token deployed from the sample address and minted to a script. -/
def mintedTo (script : Text) : List (BlockContext × List ExecutionMessage) :=
  [({ blockheight := 0, blockhash := 0, blocktime := 0, reorgEpoch := 0 },
    [sampleMessage 1 sampleScript (.deploy ⟨"dogi".toList, "1000".toList, none, some "0".toList⟩),
      sampleMessage 2 script (.mint ⟨"dogi".toList, "100".toList⟩)])]

theorem mintedTo_keyed (script : Text) :
    ∀ block ∈ mintedTo script, ∀ msg ∈ block.2, msg.Keyed sampleLib 0 := by
  simp [mintedTo, sampleMessage_keyed]

/-- The token minted to the sample address: its one holder is returned. -/
theorem mintedToAddress_returned :
    HoldersReturned sampleLib 0 asciiEnv 0
      (HolderIndex.indexBlocks asciiEnv 0 (mintedTo sampleScript)) sampleTick := by
  obtain ⟨hlisted, hreturned⟩ := holders_returned_iff sampleLib sampleLib_lawful 0 asciiEnv 0
    (mintedTo sampleScript) (mintedTo_keyed _) sampleTick
  refine hreturned.2 fun script howns => ?_
  have hrow := (hlisted _).2 howns
  have hholders : (HolderIndex.indexBlocks asciiEnv 0
      (mintedTo sampleScript)).ledger.tokenHolder =
        {(asciiEnv.lowerHex sampleTick, sampleAddress)} := by decide
  rw [hholders, Finset.mem_singleton, Prod.mk.injEq] at hrow
  by_contra hnone
  have hread : ScriptKey.fromStr sampleLib 0 (ScriptKey.fromScript sampleLib 0 script).render = _ :=
    fromStr_fromScript sampleLib_lawful script
  rw [if_neg hnone, hrow.2] at hread
  cases hread

/-- The token minted to `OP_TRUE`: the script owns it and is listed, and the query returns no one. -/
theorem mintedToScript_not_returned :
    ¬ HoldersReturned sampleLib 0 asciiEnv 0
      (HolderIndex.indexBlocks asciiEnv 0 (mintedTo "51".toList)) sampleTick := by
  rintro ⟨-, hexact⟩
  have hnone : getDrc20TokenHolder sampleLib 0 asciiEnv 0
      (HolderIndex.indexBlocks asciiEnv 0 (mintedTo "51".toList)) sampleTick = [] := by
    decide +kernel
  have howns : Owns asciiEnv (HolderIndex.indexBlocks asciiEnv 0 (mintedTo "51".toList)).ledger
      (ScriptKey.fromScript sampleLib 0 "51".toList) sampleTick := by
    unfold Owns
    decide
  have hmem := (hexact _).2 ⟨"51".toList, rfl, howns⟩
  rw [hnone] at hmem
  cases hmem

end OrdDogecoin.Drc20
