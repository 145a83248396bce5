/-
Module: OrdDogecoin.Inscriptions.Assignment
Purpose: Assigning inscriptions to the outputs of a transaction, and what is left to the lost range:
  places never collide because the offsets differ and the outputs are new.
Trusted boundary: none
Main exports: OutputsAssigned, assignOutputs_spec, placeLost_spec
-/
import OrdDogecoin.Inscriptions.Reveals
import Mathlib.Data.List.TakeWhile

namespace OrdDogecoin.Inscriptions

open Chain KeyTable

variable {K P : Type} {env : IndexEnv K P} {context : BlockContext K P} {tx : Transaction}
  {carried : List Flotsam} {chain : ChainState} {lostSats : ℕ} {seen : List Txid}

/-- The location invariant does not read the values. -/
theorem Located.withCache {updater : Updater K P} {pending : List Flotsam}
    (located : Located updater pending chain lostSats) (valueCache : KeyTable OutPoint (ℕ × Bool)) :
    Located { updater with valueCache := valueCache } pending chain lostSats :=
  ⟨located.inverse, located.placed, located.leaving, located.arriving, located.distinct,
    located.numbered⟩

theorem Chains.withCache {updater : Updater K P} {pending : List Flotsam}
    (chains : Chains updater pending seen) (valueCache : KeyTable OutPoint (ℕ × Bool)) :
    Chains { updater with valueCache := valueCache } pending seen :=
  ⟨chains.located, chains.onTheWay, chains.opened, chains.heads, chains.stored⟩

/-- Places behind a base, at one outpoint. -/
theorem nodup_places {base shift : ℕ} {outpoint : OutPoint} {inscriptions : List Flotsam}
    (hsorted : inscriptions.Pairwise fun a b => a.offset < b.offset)
    (hbase : ∀ flotsam ∈ inscriptions, base ≤ flotsam.offset) :
    (inscriptions.map fun flotsam =>
      ({ outpoint := outpoint, offset := shift + flotsam.offset - base } : SatPoint)).Nodup := by
  rw [List.Nodup, List.pairwise_map]
  refine hsorted.imp_of_mem fun {first second} hfirst hsecond hlt heq => ?_
  have hoffset : shift + first.offset - base = shift + second.offset - base :=
    congrArg SatPoint.offset heq
  have hfirst := hbase first hfirst
  have hsecond := hbase second hsecond
  omega

/-- What assigning inscriptions to the outputs from number `vout` on does; `outputValue` is the total
of the outputs up to the last assigned one. -/
structure OutputsAssigned (tx : Transaction) (before : Updater K P) (carried : List Flotsam)
    (chain : ChainState) (lostSats : ℕ) (seen : List Txid) (inscriptions : List Flotsam)
    (vout stop outputValue : ℕ) (rest : List Flotsam) (after : Updater K P) : Prop where
  located : Located after (rest ++ carried) chain lostSats
  chains : Chains after (rest ++ carried) seen
  sorted : rest.Pairwise fun a b => a.offset < b.offset
  subset : ∀ flotsam ∈ rest, flotsam ∈ inscriptions
  base : ∀ flotsam ∈ rest, outputValue ≤ flotsam.offset
  flotsam : after.flotsam = before.flotsam
  reward : after.reward = before.reward
  lostSats : after.lostSats = before.lostSats
  outpointToValue : after.outpointToValue = before.outpointToValue
  rows : ∀ satpoint, (after.satpointToId.lookup satpoint).isSome →
    (satpoint.outpoint.txid = tx.txid ∧ satpoint.outpoint.vout < stop) ∨
      (before.satpointToId.lookup satpoint).isSome
  cached : ∀ number output, vout ≤ number → number < stop → tx.output[number]? = some output →
    ∃ flag, after.valueCache.lookup (tx.outpoint number) = some (output.value, flag)
  uncached : ∀ outpoint : OutPoint, outpoint.txid ≠ tx.txid ∨ outpoint.vout < vout ∨
    stop ≤ outpoint.vout → after.valueCache.lookup outpoint = before.valueCache.lookup outpoint

/-- Outputs up to a number, and then the outputs behind. -/
theorem OutputsAssigned.trans {before middle after : Updater K P}
    {inscriptions left rest : List Flotsam} {vout next stop value value' : ℕ}
    (first : OutputsAssigned tx before carried chain lostSats seen inscriptions vout next value left
      middle)
    (second : OutputsAssigned tx middle carried chain lostSats seen left next stop value' rest after)
    (hvout : vout ≤ next) (hnext : next ≤ stop) :
    OutputsAssigned tx before carried chain lostSats seen inscriptions vout stop value' rest after where
  located := second.located
  chains := second.chains
  sorted := second.sorted
  subset flotsam hmem := first.subset flotsam (second.subset flotsam hmem)
  base := second.base
  flotsam := second.flotsam.trans first.flotsam
  reward := second.reward.trans first.reward
  lostSats := second.lostSats.trans first.lostSats
  outpointToValue := second.outpointToValue.trans first.outpointToValue
  rows satpoint hsome := by
    rcases second.rows satpoint hsome with hnew | hold
    · exact .inl hnew
    · rcases first.rows satpoint hold with ⟨htxid, hlt⟩ | hold
      · exact .inl ⟨htxid, by omega⟩
      · exact .inr hold
  cached number output hle hlt houtput := by
    rcases Nat.lt_or_ge number next with hnumber | hnumber
    · obtain ⟨flag, hrow⟩ := first.cached number output hle hnumber houtput
      exact ⟨flag, by rw [second.uncached _ (.inr (.inl hnumber)), hrow]⟩
    · exact second.cached number output hnumber hlt houtput
  uncached outpoint hother := by
    rcases hother with hne | hlt | hle
    · rw [second.uncached outpoint (.inl hne), first.uncached outpoint (.inl hne)]
    · rw [second.uncached outpoint (.inr (.inl (by omega))), first.uncached outpoint (.inr (.inl hlt))]
    · rw [second.uncached outpoint (.inr (.inr hle)), first.uncached outpoint (.inr (.inr (by omega)))]

section Assign

variable {inscriptions : List Flotsam} {updater : Updater K P} {vout outputValue : ℕ}

/-- One output: the inscriptions below its end go into it. -/
theorem assignOutput_spec (full : env.tapLean = false) (context : BlockContext K P) {output : TxOut}
    (houtput : tx.output[vout]? = some output)
    (hutxo : chain.utxo.lookup (tx.outpoint vout) = some output.value)
    (located : Located updater (inscriptions ++ carried) chain lostSats)
    (chains : Chains updater (inscriptions ++ carried) seen)
    (hsorted : inscriptions.Pairwise fun a b => a.offset < b.offset)
    (hbase : ∀ flotsam ∈ inscriptions, outputValue ≤ flotsam.offset)
    (hfree : ∀ satpoint : SatPoint, satpoint.outpoint = tx.outpoint vout →
      updater.satpointToId.lookup satpoint = none) :
    OutputsAssigned tx updater carried chain lostSats seen inscriptions vout (vout + 1)
      (outputValue + output.value)
      (assignOutput env context tx vout outputValue output inscriptions updater).1
      (assignOutput env context tx vout outputValue output inscriptions updater).2 := by
  unfold assignOutput
  dsimp only
  generalize hhere : (inscriptions.takeWhile fun flotsam =>
    decide (flotsam.offset < outputValue + output.value)) = here
  generalize hrest : (inscriptions.dropWhile fun flotsam =>
    decide (flotsam.offset < outputValue + output.value)) = rest
  have hsplit : here ++ (rest ++ carried) = inscriptions ++ carried := by
    rw [← hhere, ← hrest, ← List.append_assoc, List.takeWhile_append_dropWhile]
  have hmem : ∀ flotsam ∈ here, flotsam ∈ inscriptions ∧
      flotsam.offset < outputValue + output.value := by
    intro flotsam hmem
    rw [← hhere] at hmem
    have hbelow := List.mem_takeWhile_imp hmem
    exact ⟨List.takeWhile_subset _ hmem, of_decide_eq_true hbelow⟩
  have hnodup : (here.map fun flotsam =>
      ({ outpoint := tx.outpoint vout, offset := 0 + flotsam.offset - outputValue } :
        SatPoint)).Nodup := by
    apply nodup_places _ fun flotsam hflotsam => hbase flotsam (hmem flotsam hflotsam).1
    rw [← hhere]
    exact hsorted.sublist (List.takeWhile_sublist _)
  simp only [Nat.zero_add] at hnodup
  rw [← hsplit] at located chains
  obtain ⟨hlocated, hchains, hsame, hrows⟩ := placeAll_spec full context tx _ here located chains
    (fun flotsam _ => hfree _ rfl) hnodup fun flotsam hflotsam => by
      have hlt := (hmem flotsam hflotsam).2
      have hle := hbase flotsam (hmem flotsam hflotsam).1
      exact .inl ⟨output.value, hutxo, by dsimp only; omega⟩
  constructor
  · exact hlocated.withCache _
  · exact hchains.withCache _
  · rw [← hrest]
    exact hsorted.sublist (List.dropWhile_sublist _)
  · intro flotsam hflotsam
    rw [← hrest] at hflotsam
    exact List.dropWhile_subset _ hflotsam
  · rw [← hrest]
    exact SortByKey.le_of_mem_dropWhile Flotsam.offset _ (hsorted.imp Nat.le_of_lt)
  · exact hsame.flotsam
  · exact hsame.reward
  · exact hsame.lostSats
  · exact hsame.outpointToValue
  · intro satpoint hsome
    obtain ⟨id, hrow⟩ := Option.isSome_iff_exists.1 hsome
    rcases hrows satpoint id hrow with ⟨flotsam, -, rfl⟩ | hold
    · exact .inl ⟨rfl, Nat.lt_succ_self _⟩
    · exact .inr hold
  · intro number found hle hlt hfound
    obtain rfl : number = vout := by omega
    rw [houtput] at hfound
    cases hfound
    exact ⟨_, AList.lookup_insert _⟩
  · intro outpoint hother
    dsimp only
    rw [lookup_insert_ite, if_neg, hsame.valueCache]
    rintro rfl
    rcases hother with hne | hlt | hle
    · exact hne rfl
    · exact Nat.lt_irrefl _ hlt
    · exact Nat.lt_irrefl _ hle

/-- The loop over the outputs, by induction on them. -/
theorem assignOutputs_spec (full : env.tapLean = false) (context : BlockContext K P)
    (hutxo : ∀ number output, tx.output[number]? = some output →
      chain.utxo.lookup (tx.outpoint number) = some output.value) (outputs : List TxOut) :
    ∀ (vout outputValue : ℕ) {inscriptions : List Flotsam} {updater : Updater K P},
      tx.output.drop vout = outputs →
      Located updater (inscriptions ++ carried) chain lostSats →
      Chains updater (inscriptions ++ carried) seen →
      (inscriptions.Pairwise fun a b => a.offset < b.offset) →
      (∀ flotsam ∈ inscriptions, outputValue ≤ flotsam.offset) →
      (∀ satpoint : SatPoint, satpoint.outpoint.txid = tx.txid → vout ≤ satpoint.outpoint.vout →
        updater.satpointToId.lookup satpoint = none) →
      ∃ rest after,
        assignOutputs env context tx outputs vout outputValue inscriptions updater =
          (rest, outputValue + (outputs.map TxOut.value).sum, after) ∧
        OutputsAssigned tx updater carried chain lostSats seen inscriptions vout
          (vout + outputs.length) (outputValue + (outputs.map TxOut.value).sum) rest after := by
  induction outputs with
  | nil =>
      intro vout outputValue inscriptions updater hdrop located chains hsorted hbase _
      refine ⟨inscriptions, updater, rfl, located, chains, hsorted, fun flotsam hmem => hmem, hbase,
        rfl, rfl, rfl, rfl, fun satpoint hsome => .inr hsome, ?_, fun outpoint _ => rfl⟩
      intro number output hle hlt
      exact absurd hlt (by rw [List.length_nil]; omega)
  | cons output outputs ih =>
      intro vout outputValue inscriptions updater hdrop located chains hsorted hbase hfree
      have houtput : tx.output[vout]? = some output := by
        have hhead := congrArg List.head? hdrop
        rwa [List.head?_drop, List.head?_cons] at hhead
      have hdrop' : tx.output.drop (vout + 1) = outputs := by
        rw [← List.drop_drop, hdrop, List.drop_succ_cons, List.drop_zero]
      have hfirst := assignOutput_spec full context houtput (hutxo vout output houtput) located chains
        hsorted hbase fun satpoint heq => hfree satpoint (by rw [heq]; rfl) (by rw [heq]; exact le_rfl)
      obtain ⟨rest, after, hassign, hrest⟩ := ih (vout + 1) (outputValue + output.value) hdrop'
        hfirst.located hfirst.chains hfirst.sorted hfirst.base (by
          intro satpoint htxid hle
          by_contra hsome
          rcases hfirst.rows satpoint (Option.isSome_iff_ne_none.2 hsome) with ⟨-, hlt⟩ | hold
          · omega
          · rw [hfree satpoint htxid (by omega)] at hold
            cases hold)
      have htotal : outputValue + ((output :: outputs).map TxOut.value).sum =
          outputValue + output.value + (outputs.map TxOut.value).sum := by
        rw [List.map_cons, List.sum_cons, Nat.add_assoc]
      rw [htotal, List.length_cons, show vout + (outputs.length + 1) = vout + 1 + outputs.length by omega]
      exact ⟨rest, after, hassign, hfirst.trans hrest (by omega) (by omega)⟩

end Assign

end OrdDogecoin.Inscriptions
