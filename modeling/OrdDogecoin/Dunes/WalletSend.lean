/-
Module: OrdDogecoin.Dunes.WalletSend
Purpose: What the index makes of a funded `send` of a dune.  The edict names output 2 and reads the amount
  zero as everything, so the outcome depends on where the node puts the change and on whether the
  requested amount is zero.
Trusted boundary: as in OrdDogecoin.Dunes.Wallet
Main exports: Funded.dunestone, SendsExactly, sent_iff
-/
import OrdDogecoin.Dunes.Processing
import Mathlib.Data.Nat.Bitwise

namespace OrdDogecoin.Dunes

open Chain
open KeyTable
open Option (bind_eq_some_iff bind_some bind_eq_bind)

/-! ### The funded transaction -/

theorem isOpReturn_encipher (dunestone : Dunestone) : isOpReturn dunestone.encipher = true := rfl

theorem ChangeOutput.spendable (change : ChangeOutput) :
    isOpReturn change.output.scriptPubkey = false := change.address.spendable

theorem AddressScript.postage_spendable (address : AddressScript) :
    isOpReturn address.postage.scriptPubkey = false := address.spendable

section Funded

variable {tables : DuneTables} {unfunded : Unfunded} {change : Option ChangeOutput} {tx : Transaction}

/-- The dunestone in front of the outputs is read back, wherever the change is put. -/
theorem Funded.dunestone {dunestone : Dunestone} {rest : List TxOut}
    (funded : Funded tables unfunded change tx)
    (houtputs : unfunded.output = ⟨0, dunestone.encipher⟩ :: rest) (inRange : dunestone.InRange)
    (hvalid : ∀ edict ∈ dunestone.edicts, edict.ValidFor tx.output.length)
    (hplain : ∀ etching ∈ dunestone.etching, etching.terms = none ∧ etching.turbo = false) :
    Dunestone.fromTransaction tx = some dunestone.sorted := by
  obtain ⟨before, after, htx, hbefore⟩ : ∃ before after,
      tx.output = before ++ ⟨0, dunestone.encipher⟩ :: after ∧
        ∀ output ∈ before, ¬ Marked output ∧ ¬ BreaksOff output := by
    have hfunded := funded.outputs
    rw [houtputs] at hfunded
    cases change with
    | none => exact ⟨[], rest, hfunded, by simp⟩
    | some inserted =>
        cases hposition : inserted.position with
        | zero =>
            rw [withChange, hposition] at hfunded
            refine ⟨[inserted.output], rest, hfunded, fun output hmem => ?_⟩
            rw [List.mem_singleton.1 hmem]
            exact inserted.address.passed rfl
        | succ position =>
            rw [withChange, hposition] at hfunded
            exact ⟨[], rest.insertIdx position inserted.output, hfunded, by simp⟩
  refine (decipher_encipher_iff tx before after _ dunestone htx rfl
    (fun output hmem => (hbefore output hmem).1) inRange hvalid).2
    ⟨fun output hmem => (hbefore output hmem).2, hplain⟩

/-- The node's own inputs bring no dunes. -/
theorem Funded.inputTotal (funded : Funded tables unfunded change tx) (id : ℕ) :
    tables.inputTotal tx id =
      (unfunded.input.map fun outpoint => tables.amountOn outpoint id).sum := by
  obtain ⟨added, hperm, hnone⟩ := funded.inputs
  have hadded : ((added.map fun outpoint => tables.amountOn outpoint id)).sum = 0 := by
    refine List.sum_eq_zero fun amount hmem => ?_
    obtain ⟨outpoint, houtpoint, rfl⟩ := List.mem_map.1 hmem
    rw [DuneTables.amountOn, hnone outpoint houtpoint]
    rfl
  rw [DuneTables.inputTotal, (hperm.map _).sum_eq, List.map_append, List.sum_append, hadded,
    Nat.add_zero]

end Funded

/-! ### The edict of a send -/

theorem claim_of_lt {id : ℕ} (hlt : id < 2 ^ 48) : claim id = none := by
  have hbit : id &&& claimBit = 0 := by
    rw [claimBit, Nat.one_shiftLeft, Nat.and_two_pow, Nat.testBit_lt_two_pow hlt]
    rfl
  rw [claim, if_neg (not_not.2 hbit)]

section Send

variable {overflow : Overflow} {tables : DuneTables} {id amount : ℕ}

/-- The edict moves what it takes to output 2. -/
theorem applyDunestone_send (block : BlockInfo) (index : ℕ) {tx : Transaction} {unallocated : Amounts}
    (houtputs : 2 < tx.output.length) (hpos : id ≠ 0) (hlt : id < 2 ^ 48)
    (hfits : amountAt unallocated id ≤ maxU128) :
    ∃ pools, applyDunestone block index tx (sendDunestone id amount) unallocated tables overflow.add
        overflow.sub = some (pools, tables) ∧
      pools.allocated = (List.replicate tx.output.length ∅).set 2
        (amountsOf id (taken (amountAt unallocated id) amount)) ∧
      ∀ other, amountAt pools.unallocated other + amountAt (amountsOf id
        (taken (amountAt unallocated id) amount)) other = amountAt unallocated other := by
  have hclaims : claims [{ id := id, amount := amount, output := 2 }] = [] := by
    simp [claims, claim_of_lt hlt]
  -- the edict alone
  obtain ⟨pools, hedict, hmintable, hallocated, hrest⟩ : ∃ pools,
      applyEdict none { id := id, amount := amount, output := 2 }
        (initialPools tables block.height tx.output.length
          [{ id := id, amount := amount, output := 2 }] unallocated) overflow.add overflow.sub =
        some pools ∧ pools.mintable = ∅ ∧
      pools.allocated = (List.replicate tx.output.length ∅).set 2
        (amountsOf id (taken (amountAt unallocated id) amount)) ∧
      ∀ other, amountAt pools.unallocated other + amountAt (amountsOf id
        (taken (amountAt unallocated id) amount)) other = amountAt unallocated other := by
    rw [applyEdict, initialPools, hclaims]
    rw [if_neg (by simpa using houtputs), if_neg hpos, claim_of_lt hlt]
    dsimp only
    cases hlookup : unallocated.lookup id with
    | none =>
        have hzero : taken (amountAt unallocated id) amount = 0 := by
          have hle := taken_le (amountAt unallocated id) amount
          rw [amountAt, hlookup] at hle ⊢
          exact Nat.le_zero.1 hle
        have hnothing : amountsOf id 0 = ∅ := rfl
        rw [hzero, hnothing, List.set_replicate_self]
        refine ⟨_, rfl, rfl, rfl, fun other => ?_⟩
        rw [amountAt_empty]
        rfl
    | some balance =>
        have hbalance : amountAt unallocated id = balance := amountAt_of_lookup hlookup
        rw [hbalance] at hfits ⊢
        dsimp only
        rw [moveAmount_empty overflow houtputs id hfits amount]
        refine ⟨_, rfl, rfl, rfl, fun other => ?_⟩
        dsimp only
        rw [amountAt_insert, amountAt_amountsOf]
        have hle := taken_le balance amount
        split
        next hsame =>
          rw [hsame, hbalance]
          omega
        next => rfl
  refine ⟨pools, ?_, hallocated, hrest⟩
  rw [applyDunestone]
  dsimp only [sendDunestone, allocation, Option.map_none]
  rw [applyEdictsAndMints, if_neg Bool.false_ne_true]
  dsimp only [applyEdicts]
  rw [hedict]
  simp only [bind_eq_bind, bind_some, hmintable]
  rfl

end Send

/-! ### The outputs of a send -/

/-- The output that gets what a funded send leaves over. -/
def sendDefault (change : Option ChangeOutput) : ℕ := if change.any (·.position = 0) then 0 else 1

/-- The change, where there is one, stands behind the recipient. -/
def ChangeLast (change : Option ChangeOutput) : Prop := ∀ inserted ∈ change, inserted.position = 3

/-- What a transaction with the outputs of a send looks like. -/
structure SendLayout (change : Option ChangeOutput) (outputs : List TxOut) : Prop where
  enough : 2 < outputs.length
  default : defaultOutput outputs none = some (sendDefault change)
  returns : ∀ k output, outputs[k]? = some output → isOpReturn output.scriptPubkey = true →
    k ≠ 2 ∧ k ≠ sendDefault change
  places : ∀ vout ∈ movedTo change 2 :: walletOutputs change 1, vout < outputs.length

variable {change : Option ChangeOutput}

theorem sendLayout (dunestone : Dunestone) (first second : AddressScript)
    (hposition : ∀ inserted ∈ change, inserted.position ≤ 3) :
    SendLayout change (withChange change
      [⟨0, dunestone.encipher⟩, first.postage, second.postage]) := by
  have hreturn := isOpReturn_encipher dunestone
  have hfirst := first.postage_spendable
  have hsecond := second.postage_spendable
  cases change with
  | none =>
      refine ⟨by simp [withChange], ?_, ?_, by simp [movedTo, walletOutputs, withChange]⟩
      · simp [defaultOutput, withChange, sendDefault, List.findIdx?_cons, hreturn, hfirst]
      · intro k output houtput
        rcases k with _ | _ | _ | k <;> simp [withChange] at houtput <;> subst houtput <;>
          simp_all [sendDefault]
  | some inserted =>
      have hinserted := inserted.spendable
      have hcases : inserted.position = 0 ∨ inserted.position = 1 ∨ inserted.position = 2 ∨
          inserted.position = 3 := by
        have hle := hposition inserted rfl
        omega
      rcases hcases with hplace | hplace | hplace | hplace <;>
        refine ⟨by simp [withChange, hplace], ?_, ?_, by
          simp [movedTo, walletOutputs, withChange, hplace]⟩
      all_goals first
        | simp [defaultOutput, withChange, sendDefault, List.findIdx?_cons, hreturn, hfirst, hinserted,
            hplace]
          done
        | intro k output houtput
          rcases k with _ | _ | _ | _ | k <;> simp [withChange, hplace] at houtput <;>
            subst houtput <;> simp_all [sendDefault]

section Sent

variable {overflow : Overflow} {tables : DuneTables} {change : Option ChangeOutput} {tx : Transaction}
  {unfunded : Unfunded} {first second : AddressScript} {id amount : ℕ}

theorem sendDunestone_valid {outputs : ℕ} (houtputs : 2 < outputs) (hle : 2 ^ 16 ≤ id)
    (hlt : id < 2 ^ 48) : ∀ edict ∈ (sendDunestone id amount).edicts, edict.ValidFor outputs := by
  intro edict hmem
  rw [List.mem_singleton.1 hmem]
  have hblock : id >>> 16 ≠ 0 := by
    rw [Nat.shiftRight_eq_div_pow]
    exact Nat.pos_iff_ne_zero.1 (Nat.div_pos hle (by decide))
  have hsmall : id >>> 16 < 2 ^ 64 := by
    rw [Nat.shiftRight_eq_div_pow]
    exact (Nat.div_le_self _ _).trans_lt (hlt.trans (by decide))
  have hid : isDuneId id = true := decide_eq_true hsmall
  rw [Edict.ValidFor, Edict.fromIntegers, hid, Bool.not_true, if_neg Bool.false_ne_true,
    if_neg fun hzero => hblock hzero.1, if_neg (Nat.not_lt.2 houtputs.le)]

theorem sendDunestone_inRange (hfits : amount ≤ maxU128) : (sendDunestone id amount).InRange where
  etching := by simp [sendDunestone]
  pointer := by simp [sendDunestone]
  edicts := by
    intro edict hmem
    rw [List.mem_singleton.1 hmem]
    exact ⟨hfits, show 2 ≤ maxU128 by decide⟩

/-- After a send, output 2 has what the edict takes and the default output everything else. -/
theorem send_processed (block : BlockInfo) (index : ℕ) (funded : Funded tables unfunded change tx)
    (houtputs : unfunded.output =
      [⟨0, (sendDunestone id amount).encipher⟩, first.postage, second.postage])
    (hle : 2 ^ 16 ≤ id) (hlt : id < 2 ^ 48) (hfits : amount ≤ maxU128)
    (hunused : Unused tables tx.txid) {balances : KeyTable OutPoint BalanceRow}
    {unallocated : Amounts} (htake : takeInputs tx.input tables.outpointToBalances ∅ overflow.add =
      some (balances, unallocated)) :
    ∃ after, indexDunes block index tx tables overflow.add overflow.sub = some after ∧
      after.idToEntry = tables.idToEntry ∧
      ∃ left : ℕ → ℕ, (∀ other, left other + amountAt (amountsOf id
          (taken (amountAt unallocated id) amount)) other = amountAt unallocated other) ∧
        ∀ vout < tx.output.length, ∀ other, after.amountOn (tx.outpoint vout) other =
          (if vout = 2 then amountAt (amountsOf id (taken (amountAt unallocated id) amount)) other
            else 0) + if vout = sendDefault change then left other else 0 := by
  have hposition : ∀ inserted ∈ change, inserted.position ≤ 3 := by
    intro inserted hmem
    have hle := funded.position inserted hmem
    rw [houtputs] at hle
    exact hle
  have layout : SendLayout change tx.output := by
    rw [funded.outputs, houtputs]
    exact sendLayout _ first second hposition
  have hread : Dunestone.fromTransaction tx = some (sendDunestone id amount) :=
    funded.dunestone houtputs (sendDunestone_inRange hfits)
      (sendDunestone_valid layout.enough hle hlt) (by simp [sendDunestone])
  obtain ⟨htaken, hrows⟩ := takeInputs_le (fun other => by rw [amountAt_empty]; exact Nat.zero_le _) htake
  have hfresh : Unused { tables with outpointToBalances := balances } tx.txid := by
    intro vout
    by_contra hsome
    obtain ⟨row, hrow⟩ := Option.ne_none_iff_exists'.1 hsome
    have hold := hrows _ row hrow
    rw [hunused] at hold
    cases hold
  have hid : id ≠ 0 := by omega
  obtain ⟨pools, happly, hallocated, hleft⟩ :=
    @applyDunestone_send overflow { tables with outpointToBalances := balances } id amount block index tx
      unallocated layout.enough hid hlt (htaken id)
  have hdefault : sendDefault change < tx.output.length := defaultOutput_lt layout.default
  have hne : sendDefault change ≠ 2 := by
    unfold sendDefault
    split <;> decide
  have hplace : ∀ vout < tx.output.length, pools.allocated[vout]? =
      some (if vout = 2 then amountsOf id (taken (amountAt unallocated id) amount) else ∅) := by
    intro vout hvout
    rw [hallocated, List.getElem?_set, List.length_replicate]
    by_cases hsame : vout = 2
    · rw [if_pos hsame.symm, if_pos layout.enough, if_pos hsame]
    · rw [if_neg (Ne.symm hsame), if_neg hsame, List.getElem?_replicate_of_lt hvout]
  have hhere := hplace _ hdefault
  rw [if_neg hne] at hhere
  obtain ⟨settled, hsettle, hamounts⟩ :=
    @settle_rows overflow tx (sendDunestone id amount) pools
      { tables with outpointToBalances := balances } (sendDefault change) ∅ rfl layout.default
      (by rw [hallocated, List.length_set, List.length_replicate]) hhere
      (fun other => by
        have hother := hleft other
        have hfit := htaken other
        rw [amountAt_empty]
        omega)
      (fun k output houtput hreturn => by
        obtain ⟨hnot, hnotDefault⟩ := layout.returns k output houtput hreturn
        have hk := hplace k (List.getElem?_eq_some_iff.1 houtput).1
        rw [if_neg hnot] at hk
        exact ⟨hnotDefault, hk⟩)
      hfresh
  refine ⟨{ tables with outpointToBalances := settled }, ?_, rfl, amountAt pools.unallocated, hleft, ?_⟩
  · rw [indexDunes, htake, hread]
    dsimp only [bind_eq_bind, bind_some]
    rw [applyIfPresent, happly]
    exact hsettle
  · intro vout hvout other
    rw [DuneTables.amountOn]
    refine (hamounts vout _ (hplace vout hvout) other).trans ?_
    split
    · rfl
    · rw [amountAt_empty]

end Sent

/-! ### Selected inputs -/

theorem balanceOf_le_amountOn (tables : DuneTables) (outpoint : OutPoint) (id : ℕ) :
    tables.balanceOf outpoint id ≤ tables.amountOn outpoint id := by
  unfold DuneTables.balanceOf DuneTables.amountOn
  induction (tables.outpointToBalances.lookup outpoint).getD [] with
  | nil => exact Nat.le_refl _
  | cons pair row ih =>
      rw [pairsAmount_cons, List.find?_cons]
      by_cases hsame : pair.1 = id
      · simp [hsame]
      · simpa [hsame] using ih

section Select

variable {overflow : Overflow} {tables : DuneTables} {id amount : ℕ} {inscribed : OutPoint → Bool}

theorem selectInputs_total {outputs : List OutPoint} :
    ∀ {total reached : ℕ} {input selected : List OutPoint},
      selectInputs overflow tables id amount inscribed outputs total input = some (reached, selected) →
      total ≤ (input.map fun outpoint => tables.amountOn outpoint id).sum →
      reached ≤ (selected.map fun outpoint => tables.amountOn outpoint id).sum := by
  induction outputs with
  | nil =>
      intro total reached input selected hselect hle
      cases hselect
      exact hle
  | cons output outputs ih =>
      intro total reached input selected hselect hle
      rw [selectInputs] at hselect
      split at hselect
      · exact ih hselect hle
      · obtain ⟨⟨sum, chosen⟩, hchosen, hselect⟩ := bind_eq_some_iff.1 hselect
        have hsum : sum ≤ (chosen.map fun outpoint => tables.amountOn outpoint id).sum := by
          unfold addInput at hchosen
          dsimp only at hchosen
          split at hchosen
          · obtain ⟨added, hadded, heq⟩ := Option.map_eq_some_iff.1 hchosen
            cases heq
            have hbalance := balanceOf_le_amountOn tables output id
            have hadd := Overflow.le_of_add hadded
            rw [List.map_append, List.sum_append, List.map_singleton, List.sum_singleton]
            omega
          · cases hchosen
            exact hle
        dsimp only at hselect
        split at hselect
        · cases hselect
          exact hsum
        · exact ih hselect hsum

/-- A request for nothing looks at the first output that is not inscribed. -/
theorem selectInputs_zero {outputs : List OutPoint} {reached : ℕ} {selected : List OutPoint}
    (hselect : selectInputs overflow tables id 0 inscribed outputs 0 [] = some (reached, selected)) :
    (selected.map fun outpoint => tables.amountOn outpoint id).sum = 0 ↔
      ∀ output ∈ outputs.find? fun output => !inscribed output, tables.balanceOf output id = 0 := by
  induction outputs with
  | nil =>
      cases hselect
      simp
  | cons output outputs ih =>
      rw [selectInputs] at hselect
      split at hselect
      next hinscribed =>
        rw [List.find?_cons_of_neg (by simp [hinscribed])]
        exact ih hselect
      next hplain =>
        rw [List.find?_cons_of_pos (by simpa using hplain)]
        obtain ⟨⟨sum, chosen⟩, hchosen, hselect⟩ := bind_eq_some_iff.1 hselect
        dsimp only at hselect
        rw [if_pos (Nat.zero_le sum)] at hselect
        cases hselect
        have hbalance := balanceOf_le_amountOn tables output id
        unfold addInput at hchosen
        dsimp only at hchosen
        split at hchosen
        next hpos =>
          obtain ⟨added, -, heq⟩ := Option.map_eq_some_iff.1 hchosen
          cases heq
          simp only [List.nil_append, List.map_cons, List.map_nil, List.sum_singleton,
            Option.mem_def, Option.some.injEq, forall_eq']
          omega
        next hzero =>
          cases hchosen
          simpa using hzero

end Select

/-! ### When a send does what it says -/

/-- Nothing on the inputs overflows; a positive amount needs the change behind the recipient, and a request
for nothing either the change before the recipient or a first output without the dune. -/
def SendsExactly (tables : DuneTables) (arguments : SendArguments) (change : Option ChangeOutput)
    (tx : Transaction) : Prop :=
  (∀ other, tables.inputTotal tx other ≤ maxU128) ∧
    if arguments.decimal.value = 0 then
      ChangeLast change → ∀ id ∈ tables.duneToId.lookup arguments.dune,
        ∀ output ∈ arguments.dunicOutputs.find? fun output => !arguments.inscribed output,
          tables.balanceOf output id = 0
    else ChangeLast change

theorem toAmount_spec {decimal : Decimal} {divisibility amount : ℕ}
    (hamount : decimal.toAmount divisibility = some amount) :
    amount ≤ maxU128 ∧ (amount = 0 ↔ decimal.value = 0) := by
  unfold Decimal.toAmount at hamount
  split at hamount
  · cases hamount
  · dsimp only at hamount
    split at hamount
    · cases hamount
    · rename_i hfits
      cases hamount
      have hpos : 10 ^ (divisibility - decimal.scale) ≠ 0 := Nat.pos_iff_ne_zero.1 (Nat.pow_pos (by decide))
      exact ⟨by omega, by rw [Nat.mul_eq_zero, or_iff_left hpos]⟩

variable {overflow : Overflow} {tables : DuneTables}

theorem sendDunes_parts {arguments : SendArguments} {unfunded : Unfunded}
    (hsend : sendDunes overflow tables arguments = some unfunded) :
    ∃ id entry amount total, tables.dune arguments.dune = some (id, entry) ∧
      arguments.decimal.toAmount entry.divisibility = some amount ∧
      selectInputs overflow tables id amount arguments.inscribed arguments.dunicOutputs 0 [] =
        some (total, unfunded.input) ∧ amount ≤ total ∧
      unfunded.output = [⟨0, (sendDunestone id amount).encipher⟩, arguments.change.postage,
        arguments.recipient.postage] := by
  obtain ⟨⟨id, amount⟩, hrequest, hsend⟩ := bind_eq_some_iff.1 hsend
  obtain ⟨⟨found, entry⟩, hdune, hrequest⟩ := bind_eq_some_iff.1 hrequest
  obtain ⟨converted, hamount, hrequest⟩ := bind_eq_some_iff.1 hrequest
  cases hrequest
  obtain ⟨⟨total, input⟩, hselect, hsend⟩ := bind_eq_some_iff.1 hsend
  dsimp only at hsend
  split at hsend
  · cases hsend
  · rename_i henough
    cases hsend
    exact ⟨id, entry, amount, total, hdune, hamount, hselect, Nat.le_of_not_lt henough, rfl⟩

/-- The outcome of a send, in terms of what the inputs brought. -/
theorem sent_iff_of_amounts {tables after : DuneTables} {tx : Transaction} {id amount : ℕ}
    {brought left moved : ℕ → ℕ}
    (hposition : ∀ inserted ∈ change, inserted.position ≤ 3)
    (hentries : after.idToEntry = tables.idToEntry)
    (hleft : ∀ other, left other + moved other = brought other)
    (hmoved : ∀ other, other ≠ id → moved other = 0)
    (hamounts : ∀ vout ∈ movedTo change 2 :: walletOutputs change 1, ∀ other,
      after.amountOn (tx.outpoint vout) other =
        (if vout = 2 then moved other else 0) + if vout = sendDefault change then left other else 0) :
    Sent tables after tx change id amount ↔
      (∀ other, brought other = tables.inputTotal tx other) ∧
        (ChangeLast change → moved id = amount) ∧ (¬ ChangeLast change → amount = 0) := by
  have hcases : (movedTo change 2 = 2 ∧ ChangeLast change) ∨
      (movedTo change 2 = 3 ∧ ¬ ChangeLast change) := by
    cases change with
    | none => exact .inl ⟨rfl, by simp [ChangeLast]⟩
    | some inserted =>
        have hle := hposition inserted rfl
        by_cases hlast : inserted.position = 3
        · exact .inl ⟨by simp [movedTo, hlast], by simp [ChangeLast, hlast]⟩
        · refine .inr ⟨?_, by simp [ChangeLast, hlast]⟩
          rw [movedTo, if_pos (by omega)]
  have hdefault : sendDefault change ≠ 2 ∧ sendDefault change ≠ 3 := by
    unfold sendDefault
    split <;> decide
  -- whatever the order of the outputs, they share what the inputs brought
  have hshared : ∀ other, ((walletOutputs change 1).map fun vout =>
      after.amountOn (tx.outpoint vout) other).sum +
        after.amountOn (tx.outpoint (movedTo change 2)) other = brought other := by
    intro other
    have hsum := hleft other
    have hwallet := List.forall_mem_cons.1 hamounts
    rw [hwallet.1 other, List.map_congr_left fun vout hmem => hwallet.2 vout hmem other]
    cases change with
    | none =>
        simp [walletOutputs, movedTo, sendDefault]
        omega
    | some inserted =>
        have hle := hposition inserted rfl
        have hplaces : inserted.position = 0 ∨ inserted.position = 1 ∨ inserted.position = 2 ∨
            inserted.position = 3 := by omega
        rcases hplaces with hplace | hplace | hplace | hplace <;>
          simp [walletOutputs, movedTo, sendDefault, hplace] <;> omega
  have hreceived : (∀ other, after.amountOn (tx.outpoint (movedTo change 2)) other =
      if other = id then amount else 0) ↔
        (ChangeLast change → moved id = amount) ∧ (¬ ChangeLast change → amount = 0) := by
    have hrecipient := hamounts _ List.mem_cons_self
    rcases hcases with ⟨hplace, hlast⟩ | ⟨hplace, hlast⟩
    · rw [hplace] at hrecipient ⊢
      simp only [if_neg (Ne.symm hdefault.1), if_true, Nat.add_zero] at hrecipient
      constructor
      · intro hall
        refine ⟨fun _ => ?_, fun hnot => absurd hlast hnot⟩
        rw [← hrecipient, hall, if_pos rfl]
      · intro hcond other
        rw [hrecipient]
        split
        next hsame => rw [hsame, hcond.1 hlast]
        next hother => exact hmoved other hother
    · rw [hplace] at hrecipient ⊢
      simp only [if_neg (Ne.symm hdefault.2), if_neg (show (3 : ℕ) ≠ 2 by decide), Nat.add_zero]
        at hrecipient
      constructor
      · intro hall
        refine ⟨fun hyes => absurd hyes hlast, fun _ => ?_⟩
        have hid := hall id
        rw [hrecipient, if_pos rfl] at hid
        exact hid.symm
      · intro hcond other
        rw [hrecipient, hcond.2 hlast, ite_self]
  constructor
  · intro sent
    refine ⟨fun other => ?_, hreceived.1 sent.received⟩
    rw [← hshared, sent.kept]
  · rintro ⟨htotal, hcond⟩
    exact ⟨hreceived.2 hcond, fun other => by rw [hshared, htotal], fun other => by rw [hentries]⟩

/-- The condition of a send, in terms of what its inputs hold of the dune. -/
theorem sendsExactly_iff {arguments : SendArguments} {tx : Transaction} {id amount total : ℕ}
    {input : List OutPoint}
    (hname : tables.duneToId.lookup arguments.dune = some id)
    (hzero : amount = 0 ↔ arguments.decimal.value = 0)
    (hselect : selectInputs overflow tables id amount arguments.inscribed arguments.dunicOutputs 0 [] =
      some (total, input)) (henough : amount ≤ total)
    (htotal : tables.inputTotal tx id = (input.map fun outpoint => tables.amountOn outpoint id).sum) :
    SendsExactly tables arguments change tx ↔
      (∀ other, tables.inputTotal tx other ≤ maxU128) ∧
        (ChangeLast change → taken (tables.inputTotal tx id) amount = amount) ∧
          (¬ ChangeLast change → amount = 0) := by
  have hcovered : amount ≤ tables.inputTotal tx id := by
    rw [htotal]
    exact henough.trans (selectInputs_total hselect (Nat.zero_le _))
  -- the condition on a request for nothing is that nothing of the dune is spent
  have hnothing : amount = 0 → (tables.inputTotal tx id = 0 ↔
      ∀ id ∈ tables.duneToId.lookup arguments.dune,
        ∀ output ∈ arguments.dunicOutputs.find? fun output => !arguments.inscribed output,
          tables.balanceOf output id = 0) := by
    intro hamountZero
    rw [hamountZero] at hselect
    rw [htotal, selectInputs_zero hselect, hname]
    simp
  refine and_congr_right fun _ => ?_
  by_cases hamountZero : amount = 0
  · rw [if_pos (hzero.1 hamountZero), ← hnothing hamountZero, taken, if_pos hamountZero, hamountZero]
    simp
  · have htaken : taken (tables.inputTotal tx id) amount = amount := by
      rw [taken, if_neg hamountZero, Nat.min_eq_left hcovered]
    rw [if_neg fun hvalue => hamountZero (hzero.2 hvalue), htaken]
    simp [hamountZero]

/-- Once the inputs have been taken, the outcome of a send is decided. -/
theorem sent_iff_of_takeInputs (block : BlockInfo) (index : ℕ)
    {unfunded : Unfunded} {tx : Transaction} {id amount : ℕ}
    {first second : AddressScript} (funded : Funded tables unfunded change tx)
    (houtputs : unfunded.output =
      [⟨0, (sendDunestone id amount).encipher⟩, first.postage, second.postage])
    (hle : 2 ^ 16 ≤ id) (hlt : id < 2 ^ 48) (hfits : amount ≤ maxU128)
    (hunused : Unused tables tx.txid) {balances : KeyTable OutPoint BalanceRow}
    {unallocated : Amounts} (htake : takeInputs tx.input tables.outpointToBalances ∅ overflow.add =
      some (balances, unallocated)) :
    (∃ after, indexDunes block index tx tables overflow.add overflow.sub = some after ∧
        Sent tables after tx change id amount) ↔
      (∀ other, amountAt unallocated other = tables.inputTotal tx other) ∧
        (ChangeLast change → taken (amountAt unallocated id) amount = amount) ∧
          (¬ ChangeLast change → amount = 0) := by
  have hposition : ∀ inserted ∈ change, inserted.position ≤ 3 := by
    intro inserted hmem
    have hbound := funded.position inserted hmem
    rw [houtputs] at hbound
    exact hbound
  have layout : SendLayout change tx.output := by
    rw [funded.outputs, houtputs]
    exact sendLayout _ _ _ hposition
  obtain ⟨after, hindex, hentries, left, hleft, hamounts⟩ :=
    send_processed block index funded houtputs hle hlt hfits hunused htake
  have hmoved : ∀ other, amountAt (amountsOf id (taken (amountAt unallocated id) amount)) other =
      if other = id then taken (amountAt unallocated id) amount else 0 := amountAt_amountsOf _ _
  have hsent := @sent_iff_of_amounts change tables after tx id amount _ left _ hposition hentries hleft
    (fun other hother => by rw [hmoved, if_neg hother])
    (fun vout hmem => hamounts vout (layout.places vout hmem))
  rw [hmoved, if_pos rfl] at hsent
  rw [← hsent, hindex]
  simp only [Option.some.injEq, exists_eq_left']

/-- A send whose dunes have ids in range does what it says exactly under the condition. -/
theorem sent_iff (block : BlockInfo) (index : ℕ) {arguments : SendArguments} {unfunded : Unfunded}
    {tx : Transaction} (hids : ∀ id, HasEntry tables.idToEntry id → 2 ^ 16 ≤ id ∧ id < 2 ^ 48)
    (hsend : sendDunes overflow tables arguments = some unfunded)
    (funded : Funded tables unfunded change tx) (hunused : Unused tables tx.txid) :
    (∃ after id amount, arguments.request tables = some (id, amount) ∧
        indexDunes block index tx tables overflow.add overflow.sub = some after ∧
        Sent tables after tx change id amount) ↔ SendsExactly tables arguments change tx := by
  obtain ⟨id, entry, amount, total, hdune, hamount, hselect, henough, houtputs⟩ := sendDunes_parts hsend
  obtain ⟨found, hname, hentry⟩ := bind_eq_some_iff.1 hdune
  obtain ⟨row, hrow, heq⟩ := bind_eq_some_iff.1 hentry
  cases heq
  obtain ⟨hle, hlt⟩ := hids id (by rw [HasEntry, hrow]; rfl)
  obtain ⟨hfits, hzero⟩ := toAmount_spec hamount
  have hrequest : arguments.request tables = some (id, amount) := by
    rw [SendArguments.request, hdune]
    dsimp only [bind_eq_bind, bind_some]
    rw [hamount]
    rfl
  have houtcome := @sent_iff_of_takeInputs change overflow tables block index unfunded tx id amount _ _
    funded houtputs hle hlt hfits hunused
  rw [sendsExactly_iff hname hzero hselect henough (funded.inputTotal id)]
  constructor
  · rintro ⟨after, other, sameAmount, hrequested, hindex, sent⟩
    cases hrequest.symm.trans hrequested
    obtain ⟨⟨balances, unallocated⟩, htake, -⟩ := bind_eq_some_iff.1 hindex
    obtain ⟨hsame, hmoved, hkept⟩ := (houtcome htake).1 ⟨after, hindex, sent⟩
    have hbrought := (takeInputs_le (fun other => by rw [amountAt_empty]; exact Nat.zero_le _) htake).1
    refine ⟨fun other => ?_, ?_, hkept⟩
    · rw [← hsame]
      exact hbrought other
    · rw [← hsame]
      exact hmoved
  · rintro ⟨hbound, hmoved, hkept⟩
    obtain ⟨balances, unallocated, htake, hbrought⟩ :=
      @takeInputs_total overflow tx.input tables.outpointToBalances ∅ funded.distinct
        (fun other => by rw [amountAt_empty, Nat.zero_add]; exact hbound other)
    have hsame : ∀ other, amountAt unallocated other = tables.inputTotal tx other := by
      intro other
      rw [hbrought, amountAt_empty, Nat.zero_add]
      rfl
    obtain ⟨after, hindex, sent⟩ := (houtcome htake).2 ⟨hsame, by rwa [hsame], hkept⟩
    exact ⟨after, id, amount, hrequest, hindex, sent⟩

end OrdDogecoin.Dunes
