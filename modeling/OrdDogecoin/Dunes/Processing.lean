/-
Module: OrdDogecoin.Dunes.Processing
Purpose: What `index_dunes` writes for each output, in a build that panics on overflow and in one that
  wraps: the amounts of the inputs, the amounts given to the outputs by one edict and by the default
  output, and the rows written for them.
Trusted boundary: none
Main exports: takeInputs_total, moveAmount_empty, writeOutputs_rows
-/
import OrdDogecoin.Dunes.Wallet

namespace OrdDogecoin.Dunes

open Chain
open KeyTable
open Option (bind_eq_some_iff bind_some bind_eq_bind)

/-! ### Scripts of addresses -/

theorem isOpReturn_of_instructions {script : Script} {rest : List (Option Instruction)}
    (hinstructions : instructions script = some (.op opReturn) :: rest) : isOpReturn script = true := by
  cases script with
  | nil => cases hinstructions
  | cons code bytes =>
      rw [instructions, List.length_cons, instructionsFrom] at hinstructions
      split at hinstructions
      next =>
        dsimp only at hinstructions
        split at hinstructions
        · cases hinstructions
        · split at hinstructions <;> cases hinstructions
      next =>
        split at hinstructions
        · split at hinstructions <;> cases hinstructions
        · cases hinstructions
          rfl

/-- An output that pays an address is passed over in the search for a dunestone. -/
theorem AddressScript.passed (address : AddressScript) {output : TxOut}
    (hscript : output.scriptPubkey = address.script) : ¬ Marked output ∧ ¬ BreaksOff output := by
  have hplain : ∀ rest, instructions output.scriptPubkey ≠ some (.op opReturn) :: rest := by
    intro rest hinstructions
    rw [hscript] at hinstructions
    have hreturn := isOpReturn_of_instructions hinstructions
    rw [address.spendable] at hreturn
    cases hreturn
  constructor
  · rintro ⟨rest, hinstructions⟩
    exact hplain _ hinstructions
  · rintro (⟨rest, hinstructions⟩ | ⟨rest, hinstructions⟩)
    · apply address.whole
      rw [← hscript, hinstructions]
      exact List.mem_cons_self
    · exact hplain _ hinstructions

/-! ### Inputs -/

section Inputs

variable {overflow : Overflow}

theorem Overflow.add_of_checked {a b sum : ℕ} (hsum : checkedAdd a b = some sum) :
    overflow.add a b = some sum := by
  unfold checkedAdd at hsum
  split at hsum
  next hle =>
    cases hsum
    exact overflow.add_of_le hle
  next => cases hsum

theorem Overflow.add_le {a b sum : ℕ} (hsum : overflow.add a b = some sum) : sum ≤ maxU128 := by
  have hmax : maxU128 + 1 = 2 ^ 128 := rfl
  cases overflow with
  | panics =>
      change checkedAdd a b = some sum at hsum
      unfold checkedAdd at hsum
      split at hsum
      next hle =>
        cases hsum
        exact hle
      next => cases hsum
  | wraps =>
      cases hsum
      have hlt := Nat.mod_lt (a + b) (show 0 < 2 ^ 128 by decide)
      omega

/-- Credits that do not overflow are the same in both builds. -/
theorem creditAll_of_checked {list : List (ℕ × ℕ)} :
    ∀ {amounts credited : Amounts}, creditAll amounts list = some credited →
      creditAll amounts list overflow.add = some credited := by
  induction list with
  | nil => exact fun hcredit => hcredit
  | cons pair list ih =>
      intro amounts credited hcredit
      obtain ⟨id, amount⟩ := pair
      obtain ⟨first, hfirst, hrest⟩ := bind_eq_some_iff.1 hcredit
      obtain ⟨sum, hsum, heq⟩ := bind_eq_some_iff.1 hfirst
      cases heq
      rw [creditAll, credit, Overflow.add_of_checked hsum]
      exact ih hrest

theorem creditAll_le {list : List (ℕ × ℕ)} :
    ∀ {amounts credited : Amounts}, (∀ id, amountAt amounts id ≤ maxU128) →
      creditAll amounts list overflow.add = some credited → ∀ id, amountAt credited id ≤ maxU128 := by
  induction list with
  | nil =>
      intro amounts credited hle hcredit
      cases hcredit
      exact hle
  | cons pair list ih =>
      intro amounts credited hle hcredit
      obtain ⟨first, hfirst, hrest⟩ := bind_eq_some_iff.1 hcredit
      obtain ⟨sum, hsum, heq⟩ := bind_eq_some_iff.1 hfirst
      cases heq
      refine ih (fun id => ?_) hrest
      rw [amountAt_insert]
      split
      · exact Overflow.add_le hsum
      · exact hle id

/-- Taking the inputs leaves amounts that fit, whatever the build. -/
theorem takeInputs_le {inputs : List TxIn} :
    ∀ {balances after : KeyTable OutPoint BalanceRow} {amounts taken : Amounts},
      (∀ id, amountAt amounts id ≤ maxU128) →
      takeInputs inputs balances amounts overflow.add = some (after, taken) →
      (∀ id, amountAt taken id ≤ maxU128) ∧
        ∀ outpoint row, after.lookup outpoint = some row → balances.lookup outpoint = some row := by
  induction inputs with
  | nil =>
      intro balances after amounts taken hle htake
      cases htake
      exact ⟨hle, fun _ _ hrow => hrow⟩
  | cons input inputs ih =>
      intro balances after amounts taken hle htake
      obtain ⟨credited, hcredited, htake⟩ := bind_eq_some_iff.1 htake
      obtain ⟨hfits, hrows⟩ := ih (creditAll_le hle hcredited) htake
      exact ⟨hfits, fun outpoint row hrow => (lookup_erase_cases (hrows outpoint row hrow)).2⟩

/-- Distinct inputs whose amounts fit are added up. -/
theorem takeInputs_total {inputs : List TxIn} :
    ∀ {balances : KeyTable OutPoint BalanceRow} {amounts : Amounts},
      (inputs.map TxIn.previousOutput).Nodup →
      (∀ id, amountAt amounts id + ((inputs.map TxIn.previousOutput).map fun outpoint =>
        pairsAmount id ((balances.lookup outpoint).getD [])).sum ≤ maxU128) →
      ∃ after taken, takeInputs inputs balances amounts overflow.add = some (after, taken) ∧
        ∀ id, amountAt taken id = amountAt amounts id +
          ((inputs.map TxIn.previousOutput).map fun outpoint =>
            pairsAmount id ((balances.lookup outpoint).getD [])).sum := by
  induction inputs with
  | nil =>
      intro balances amounts _ _
      exact ⟨balances, amounts, rfl, fun id => rfl⟩
  | cons input inputs ih =>
      intro balances amounts hnodup hfits
      obtain ⟨hnew, hnodup⟩ := List.nodup_cons.1 hnodup
      -- the rows of the other inputs are not touched
      have hkept : ∀ id, ((inputs.map TxIn.previousOutput).map fun outpoint =>
          pairsAmount id (((balances.erase input.previousOutput).lookup outpoint).getD [])).sum =
          ((inputs.map TxIn.previousOutput).map fun outpoint =>
            pairsAmount id ((balances.lookup outpoint).getD [])).sum := by
        intro id
        refine congrArg List.sum (List.map_congr_left fun outpoint hmem => ?_)
        have hne : outpoint ≠ input.previousOutput := fun heq => hnew (heq ▸ hmem)
        rw [AList.lookup_erase_ne hne]
      simp only [List.map_cons, List.sum_cons] at hfits ⊢
      obtain ⟨credited, hcredited, -, hamounts⟩ :=
        @creditAll_spec (fun _ => True) ((balances.lookup input.previousOutput).getD []) amounts
          (fun _ _ _ => trivial) (fun _ _ => trivial) (fun id => by
            have hid := hfits id
            omega)
      obtain ⟨after, taken, htake, htaken⟩ :=
        @ih (balances.erase input.previousOutput) credited hnodup (fun id => by
          have hid := hfits id
          rw [hamounts, hkept]
          omega)
      refine ⟨after, taken, ?_, fun id => ?_⟩
      · rw [takeInputs, creditAll_of_checked hcredited]
        exact htake
      · rw [htaken, hamounts, hkept]
        omega

end Inputs

/-! ### One edict -/

def amountsOf (id amount : ℕ) : Amounts := if 0 < amount then AList.singleton id amount else ∅

theorem amountAt_amountsOf (id amount other : ℕ) :
    amountAt (amountsOf id amount) other = if other = id then amount else 0 := by
  unfold amountsOf
  split
  next =>
    have hinsert : (AList.singleton id amount : Amounts) = (∅ : Amounts).insert id amount := rfl
    rw [hinsert, amountAt_insert, amountAt_empty]
  next hzero =>
    rw [amountAt_empty, Nat.eq_zero_of_not_pos hzero, ite_self]

/-- Moving out of a balance to an output that has nothing yet. -/
theorem moveAmount_empty (overflow : Overflow) {outputs output : ℕ} (houtput : output < outputs)
    (id : ℕ) {balance : ℕ} (hfits : balance ≤ maxU128) (amount : ℕ) :
    moveAmount (List.replicate outputs ∅) output id balance amount overflow.add overflow.sub =
      some (balance - taken balance amount,
        (List.replicate outputs ∅).set output (amountsOf id (taken balance amount))) := by
  have hle := taken_le balance amount
  have hget : (List.replicate outputs (∅ : Amounts))[output]? = some ∅ :=
    List.getElem?_replicate_of_lt houtput
  rw [moveAmount]
  by_cases hpos : 0 < taken balance amount
  · rw [if_pos hpos, overflow.sub_of_le hle hfits, allocate, hget]
    have hsum : overflow.add (((∅ : Amounts).lookup id).getD 0) (taken balance amount) =
        some (taken balance amount) := by
      rw [AList.lookup_empty, Option.getD_none, overflow.add_of_le (by omega), Nat.zero_add]
    simp only [bind_eq_bind, bind_some, credit, hsum, amountsOf, if_pos hpos]
    rfl
  · have hzero := Nat.eq_zero_of_not_pos hpos
    have hsame : (List.replicate outputs (∅ : Amounts)).set output ∅ = List.replicate outputs ∅ := by
      rw [List.set_replicate_self]
    rw [if_neg hpos, hzero, amountsOf, if_neg (Nat.lt_irrefl 0), hsame, Nat.sub_zero]

/-! ### Rows -/

variable {outputs : List (TxOut × Amounts)} {overflow : Overflow}

/-- Every output but those of `OP_RETURN` gets the row of its amounts; those have nothing to burn. -/
theorem writeOutputs_rows (txid : Txid) :
    ∀ {vout : ℕ} {balances : KeyTable OutPoint BalanceRow} {burned : Amounts},
      (∀ number, balances.lookup ⟨txid, number⟩ = none ∨ number < vout) →
      (∀ pair ∈ outputs, isOpReturn pair.1.scriptPubkey = true → pair.2 = ∅) →
      ∃ after, writeOutputs txid vout outputs balances burned overflow.add = some (after, burned) ∧
        (∀ k pair, outputs[k]? = some pair → ∀ id,
          pairsAmount id ((after.lookup ⟨txid, vout + k⟩).getD []) = amountAt pair.2 id) ∧
        ∀ outpoint, outpoint.txid ≠ txid ∨ outpoint.vout < vout →
          after.lookup outpoint = balances.lookup outpoint := by
  induction outputs with
  | nil =>
      intro vout balances burned _ _
      exact ⟨balances, rfl, fun k pair hpair => by simp at hpair, fun _ _ => rfl⟩
  | cons output outputs ih =>
      intro vout balances burned hfresh hplain
      obtain ⟨txOut, amounts⟩ := output
      obtain ⟨hhere, hplain⟩ := List.forall_mem_cons.1 hplain
      -- what is written for this output
      have hwritten : ∃ balances', writeOutputs txid vout ((txOut, amounts) :: outputs) balances burned
            overflow.add = writeOutputs txid (vout + 1) outputs balances' burned overflow.add ∧
          (∀ id, pairsAmount id ((balances'.lookup ⟨txid, vout⟩).getD []) = amountAt amounts id) ∧
          ∀ outpoint, outpoint ≠ ⟨txid, vout⟩ →
            balances'.lookup outpoint = balances.lookup outpoint := by
        have hnone : balances.lookup ⟨txid, vout⟩ = none :=
          (hfresh vout).resolve_right (Nat.lt_irrefl vout)
        by_cases hempty : amounts.entries.isEmpty
        · refine ⟨balances, by rw [writeOutputs, if_pos hempty], fun id => ?_, fun _ _ => rfl⟩
          rw [hnone, amountAt_of_isEmpty hempty]
          rfl
        · have hspendable : ¬ isOpReturn txOut.scriptPubkey = true := by
            intro hreturn
            have hnothing : amounts = ∅ := hhere hreturn
            rw [hnothing] at hempty
            exact hempty rfl
          refine ⟨balances.insert ⟨txid, vout⟩ (balanceRow amounts), ?_, fun id => ?_, ?_⟩
          · rw [writeOutputs, if_neg hempty, if_neg hspendable]
          · rw [AList.lookup_insert, Option.getD_some, pairsAmount_balanceRow]
          · exact fun outpoint hne => AList.lookup_insert_ne hne
      obtain ⟨balances', hwrite, hrow, hothers⟩ := hwritten
      have hfresh' : ∀ number, balances'.lookup ⟨txid, number⟩ = none ∨ number < vout + 1 := by
        intro number
        rcases hfresh number with hnone | hlt
        · by_cases hsame : number = vout
          · exact .inr (by omega)
          · refine .inl ?_
            rw [hothers _ fun heq => hsame (congrArg OutPoint.vout heq), hnone]
        · exact .inr (by omega)
      obtain ⟨after, hafter, hrows, hkept⟩ := @ih (vout + 1) balances' burned hfresh' hplain
      refine ⟨after, hwrite.trans hafter, ?_, ?_⟩
      · intro k pair hpair id
        cases k with
        | zero =>
            cases hpair
            rw [Nat.add_zero, hkept ⟨txid, vout⟩ (.inr (Nat.lt_succ_self vout))]
            exact hrow id
        | succ k =>
            rw [List.getElem?_cons_succ] at hpair
            rw [← hrows k pair hpair id, show vout + (k + 1) = vout + 1 + k by omega]
      · intro outpoint hout
        rw [hkept outpoint (hout.imp_right fun hlt => by omega)]
        refine hothers outpoint fun heq => ?_
        rw [heq] at hout
        rcases hout with hne | hlt
        · exact hne rfl
        · exact Nat.lt_irrefl vout hlt

/-- Outputs without amounts leave no trace. -/
theorem writeOutputs_nothing (txid : Txid) :
    ∀ {vout : ℕ} {balances : KeyTable OutPoint BalanceRow} {burned : Amounts},
      (∀ pair ∈ outputs, pair.2 = ∅) →
      writeOutputs txid vout outputs balances burned overflow.add = some (balances, burned) := by
  induction outputs with
  | nil => exact fun _ => rfl
  | cons output outputs ih =>
      intro vout balances burned hempty
      obtain ⟨txOut, amounts⟩ := output
      obtain ⟨hhere, hrest⟩ := List.forall_mem_cons.1 hempty
      have hnothing : amounts = ∅ := hhere
      rw [hnothing]
      exact ih hrest

/-- One output with amounts gets a row, or has them burned. -/
theorem writeOutputs_single (txid : Txid) :
    ∀ {vout k : ℕ} {balances : KeyTable OutPoint BalanceRow} {burned amounts : Amounts} {txOut : TxOut},
      outputs[k]? = some (txOut, amounts) → amounts.entries.isEmpty = false →
      (∀ j pair, outputs[j]? = some pair → j ≠ k → pair.2 = ∅) →
      writeOutputs txid vout outputs balances burned overflow.add =
        if isOpReturn txOut.scriptPubkey then
          (creditAll burned (pairs amounts) overflow.add).map (Prod.mk balances)
        else some (balances.insert ⟨txid, vout + k⟩ (balanceRow amounts), burned) := by
  induction outputs with
  | nil =>
      intro vout k balances burned amounts txOut hhere
      simp at hhere
  | cons output outputs ih =>
      intro vout k balances burned amounts txOut hhere hfull hothers
      cases k with
      | zero =>
          cases hhere
          have hrest : ∀ pair ∈ outputs, pair.2 = ∅ := by
            intro pair hmem
            obtain ⟨j, hj⟩ := List.mem_iff_getElem?.1 hmem
            exact hothers (j + 1) pair hj (Nat.succ_ne_zero j)
          rw [writeOutputs, if_neg (by rw [hfull]; exact Bool.false_ne_true)]
          split
          · cases creditAll burned (pairs amounts) overflow.add with
            | none => rfl
            | some burned => exact writeOutputs_nothing txid hrest
          · exact writeOutputs_nothing txid hrest
      | succ k =>
          obtain ⟨first, none⟩ := output
          have hfirst : none = ∅ := hothers 0 _ rfl (Nat.succ_ne_zero k).symm
          cases hfirst
          have hshift : vout + (k + 1) = vout + 1 + k := by omega
          rw [hshift, ← ih hhere hfull fun j pair hj hne => hothers (j + 1) pair hj (by omega)]
          rfl

/-! ### Settling -/

theorem positive_eq_nil {amounts : Amounts} (hzero : ∀ id, amountAt amounts id = 0) :
    positive amounts = [] := by
  refine List.filter_eq_nil_iff.2 fun pair hmem hpos => ?_
  have hamount : amountAt amounts pair.1 = pair.2 := amountAt_of_lookup (mem_pairs.1 hmem)
  rw [hzero] at hamount
  rw [← hamount] at hpos
  exact absurd hpos (by decide)

/-- What no edict has given away goes to the default output; every output gets its row and nothing is
burned. -/
theorem settle_rows {tx : Transaction} {dunestone : Dunestone} {pools : Pools}
    {tables : DuneTables} {vout : ℕ} {here : Amounts} (hplain : dunestone.cenotaph = false)
    (hdefault : defaultOutput tx.output dunestone.pointer = some vout)
    (hlength : pools.allocated.length = tx.output.length)
    (hhere : pools.allocated[vout]? = some here)
    (hfits : ∀ id, amountAt here id + amountAt pools.unallocated id ≤ maxU128)
    (hreturns : ∀ k output, tx.output[k]? = some output → isOpReturn output.scriptPubkey = true →
      k ≠ vout ∧ pools.allocated[k]? = some ∅)
    (hunused : Unused tables tx.txid) :
    ∃ balances, settle tx (some dunestone) pools tables overflow.add =
        some { tables with outpointToBalances := balances } ∧
      ∀ k amounts, pools.allocated[k]? = some amounts → ∀ id,
        pairsAmount id ((balances.lookup ⟨tx.txid, k⟩).getD []) =
          amountAt amounts id + if k = vout then amountAt pools.unallocated id else 0 := by
  obtain ⟨credited, hcredited, -, hamounts⟩ :=
    @creditAll_spec (fun _ => True) (positive pools.unallocated) here (fun _ _ _ => trivial)
      (fun _ _ => trivial) (fun id => by rw [pairsAmount_positive]; exact hfits id)
  have hsettled : settleUnallocated tx.output dunestone.pointer dunestone.cenotaph pools.unallocated
      pools.allocated overflow.add = some (pools.allocated.set vout credited, ∅) := by
    rw [settleUnallocated, hplain, if_neg Bool.false_ne_true, hdefault]
    dsimp only
    rw [hhere, bind_eq_bind, bind_some, creditAll_of_checked hcredited]
    rfl
  have hplace : vout < pools.allocated.length := (List.getElem?_eq_some_iff.1 hhere).1
  -- the outputs of `OP_RETURN` are not the default one and have been given nothing
  have hburned : ∀ pair ∈ tx.output.zip (pools.allocated.set vout credited),
      isOpReturn pair.1.scriptPubkey = true → pair.2 = ∅ := by
    intro pair hmem hreturn
    obtain ⟨k, hk⟩ := List.mem_iff_getElem?.1 hmem
    obtain ⟨houtput, hamounts⟩ := List.getElem?_zip_eq_some.1 hk
    obtain ⟨hne, hnothing⟩ := hreturns k _ houtput hreturn
    rw [List.getElem?_set_ne (Ne.symm hne), hnothing] at hamounts
    exact (Option.some.inj hamounts).symm
  obtain ⟨balances, hwritten, hrows, -⟩ :=
    @writeOutputs_rows _ overflow tx.txid 0 tables.outpointToBalances ∅
      (fun number => .inl (hunused number)) hburned
  refine ⟨balances, ?_, fun k amounts hk id => ?_⟩
  · rw [settle]
    dsimp only [Option.map_some, Option.getD_some, bind_some]
    rw [hsettled, bind_eq_bind, bind_some]
    dsimp only
    rw [hwritten, bind_eq_bind, bind_some]
    rfl
  · have hlt : k < tx.output.length := hlength ▸ (List.getElem?_eq_some_iff.1 hk).1
    have hoption : tx.output[k]? = some tx.output[k] := List.getElem?_eq_getElem hlt
    by_cases hsame : k = vout
    · have hset : (pools.allocated.set vout credited)[k]? = some credited := by
        rw [hsame, List.getElem?_set_self hplace]
      have hrow := hrows k (tx.output[k], credited) (List.getElem?_zip_eq_some.2 ⟨hoption, hset⟩) id
      rw [hsame, hhere] at hk
      cases hk
      rw [Nat.zero_add] at hrow
      rw [hrow, if_pos hsame, hamounts, pairsAmount_positive]
    · have hset : (pools.allocated.set vout credited)[k]? = some amounts := by
        rw [List.getElem?_set_ne (Ne.symm hsame), hk]
      have hrow := hrows k (tx.output[k], amounts) (List.getElem?_zip_eq_some.2 ⟨hoption, hset⟩) id
      rw [Nat.zero_add] at hrow
      rw [hrow, if_neg hsame, Nat.add_zero]

end OrdDogecoin.Dunes
