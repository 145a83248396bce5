/-
Module: OrdDogecoin.Inscriptions.Inputs
Purpose: The loop over the inputs: when the value of every unspent output can be found, it returns
  the total the chain counts and exactly the inscriptions on the spent outputs, in the order of
  their offsets.
Trusted boundary: none
Main exports: Values, Taken, takeInputs_spec
-/
import OrdDogecoin.Inscriptions.Location
import OrdDogecoin.Lib.SortByKey

namespace OrdDogecoin.Inscriptions

open Chain KeyTable

variable {K P : Type} {env : IndexEnv K P} {context : BlockContext K P}

/-! ### Values -/

/-- The value of an output as a relevant transaction finds it. -/
def knownValue (env : IndexEnv K P) (valueCache : KeyTable OutPoint (ℕ × Bool))
    (outpointToValue : KeyTable OutPoint ℕ) (outpoint : OutPoint) : Option ℕ :=
  ((valueCache.lookup outpoint).map Prod.fst).or
    ((outpointToValue.lookup outpoint).or (env.nodeValue outpoint))

/-- The right value is found for every unspent output. -/
def Values (env : IndexEnv K P) (valueCache : KeyTable OutPoint (ℕ × Bool))
    (outpointToValue : KeyTable OutPoint ℕ) (utxo : UtxoSet) : Prop :=
  ∀ outpoint value, utxo.lookup outpoint = some value →
    knownValue env valueCache outpointToValue outpoint = some value

def Updater.withValues (updater : Updater K P) (valueCache : KeyTable OutPoint (ℕ × Bool))
    (outpointToValue : KeyTable OutPoint ℕ) (tapPrefetched : List OutPoint) : Updater K P :=
  { updater with
    valueCache := valueCache
    outpointToValue := outpointToValue
    tapPrefetched := tapPrefetched }

/-- Taking values changes nothing else. -/
theorem exists_withValues_of_inputValueOf {relevant : Bool} {outpoint : OutPoint} {value : ℕ}
    {updater after : Updater K P}
    (hvalue : inputValueOf env relevant outpoint updater = some (value, after)) :
    ∃ cache table prefetched, after = updater.withValues cache table prefetched := by
  unfold inputValueOf at hvalue
  split at hvalue
  · cases hvalue
    exact ⟨_, _, _, rfl⟩
  · split at hvalue
    · cases hvalue
      exact ⟨_, _, _, rfl⟩
    · split at hvalue
      · obtain ⟨found, -, hvalue⟩ := Option.map_eq_some_iff.1 hvalue
        cases hvalue
        exact ⟨_, _, _, rfl⟩
      · split at hvalue
        · obtain ⟨found, -, hvalue⟩ := Option.map_eq_some_iff.1 hvalue
          cases hvalue
          exact ⟨_, _, _, rfl⟩
        · cases hvalue
          exact ⟨_, _, _, rfl⟩

theorem exists_withValues_of_takeInputs {relevant : Bool} {txid : Txid} {inputs : List TxIn} :
    ∀ {start total : ℕ} {updater after : Updater K P} {found : List Flotsam},
      takeInputs env context relevant txid inputs start updater = some (total, found, after) →
      ∃ cache table prefetched, after = updater.withValues cache table prefetched := by
  induction inputs with
  | nil =>
      intro start total updater after found htake
      cases htake
      exact ⟨_, _, _, rfl⟩
  | cons input inputs ih =>
      intro start total updater after found htake
      rw [takeInputs] at htake
      split at htake
      · exact ih htake
      · obtain ⟨⟨value, middle⟩, hvalue, htake⟩ := Option.bind_eq_some_iff.1 htake
        obtain ⟨⟨sum, rest, last⟩, hrest, htake⟩ := Option.bind_eq_some_iff.1 htake
        cases htake
        obtain ⟨cache, table, prefetched, rfl⟩ := exists_withValues_of_inputValueOf hvalue
        obtain ⟨cache', table', prefetched', rfl⟩ := ih hrest
        exact ⟨cache', table', prefetched', rfl⟩

/-- Taking one value removes it from where it was found. -/
theorem inputValueOf_spec (updater : Updater K P) {outpoint : OutPoint} {value : ℕ}
    (hknown : knownValue env updater.valueCache updater.outpointToValue outpoint = some value) :
    ∃ cache table prefetched,
      inputValueOf env true outpoint updater =
        some (value, updater.withValues cache table prefetched) ∧
      ∀ other, other ≠ outpoint →
        knownValue env cache table other =
          knownValue env updater.valueCache updater.outpointToValue other := by
  unfold knownValue at hknown
  unfold inputValueOf
  cases hcache : updater.valueCache.lookup outpoint with
  | some row =>
      rw [hcache] at hknown
      obtain rfl : row.1 = value := Option.some.inj hknown
      refine ⟨updater.valueCache.erase outpoint, updater.outpointToValue, updater.tapPrefetched, rfl,
        fun other hne => ?_⟩
      rw [knownValue, lookup_erase_ite, if_neg hne, knownValue]
  | none =>
      rw [hcache, Option.map_none, Option.none_or] at hknown
      cases htable : updater.outpointToValue.lookup outpoint with
      | some found =>
          rw [htable] at hknown
          obtain rfl : found = value := Option.some.inj hknown
          refine ⟨updater.valueCache, updater.outpointToValue.erase outpoint, updater.tapPrefetched,
            rfl, fun other hne => ?_⟩
          rw [knownValue, lookup_erase_ite, if_neg hne, knownValue]
      | none =>
          rw [htable, Option.none_or] at hknown
          dsimp only
          rw [hknown]
          split
          · exact ⟨_, _, _, rfl, fun other hne => rfl⟩
          · exact ⟨updater.valueCache, updater.outpointToValue, updater.tapPrefetched, rfl,
              fun other hne => rfl⟩

/-! ### Inscriptions on an output -/

section OnOutput

variable {satpointToId : KeyTable SatPoint InscriptionId} {outpoint : OutPoint}

theorem mem_inscriptionsOnOutput {row : SatPoint × InscriptionId} :
    row ∈ inscriptionsOnOutput satpointToId outpoint ↔
      satpointToId.lookup row.1 = some row.2 ∧ row.1.outpoint = outpoint := by
  obtain ⟨satpoint, id⟩ := row
  unfold inscriptionsOnOutput
  rw [List.mem_insertionSort, List.mem_map]
  constructor
  · rintro ⟨⟨found, label⟩, hmem, heq⟩
    rw [List.mem_filter, decide_eq_true_eq] at hmem
    cases heq
    exact ⟨AList.mem_lookup_iff.2 hmem.1, hmem.2⟩
  · rintro ⟨hrow, houtpoint⟩
    refine ⟨⟨satpoint, id⟩, ?_, rfl⟩
    rw [List.mem_filter, decide_eq_true_eq]
    exact ⟨AList.mem_lookup_iff.1 hrow, houtpoint⟩

/-- The rows of one output come in the order of their offsets, which differ. -/
theorem pairwise_inscriptionsOnOutput (satpointToId : KeyTable SatPoint InscriptionId)
    (outpoint : OutPoint) :
    (inscriptionsOnOutput satpointToId outpoint).Pairwise fun a b => a.1.offset < b.1.offset := by
  apply SortByKey.pairwise_insertionSort fun row : SatPoint × InscriptionId => row.1.offset
  rw [List.map_map]
  -- rows of one output that share the offset share the key
  have hnodup : (satpointToId.entries.filter fun row => row.1.outpoint = outpoint).Nodup :=
    satpointToId.nodupKeys.nodup.filter _
  apply hnodup.map_on
  rintro ⟨first, id⟩ hfirst ⟨second, id'⟩ hsecond heq
  rw [List.mem_filter, decide_eq_true_eq] at hfirst hsecond
  obtain ⟨hfirst, houtpoint⟩ := hfirst
  obtain ⟨hsecond, houtpoint'⟩ := hsecond
  have hkey : first = second := by
    obtain ⟨o, n⟩ := first
    obtain ⟨o', n'⟩ := second
    cases houtpoint
    cases houtpoint'
    cases heq
    rfl
  subst hkey
  rw [← AList.mem_lookup_iff] at hfirst hsecond
  rw [hfirst] at hsecond
  rw [Option.some.inj hsecond]

end OnOutput

/-! ### The loop -/

/-- What the loop over the inputs finds between `start` and `total`. -/
structure Taken (satpointToId : KeyTable SatPoint InscriptionId) (outpoints : List OutPoint)
    (start total : ℕ) (found : List Flotsam) : Prop where
  covers : ∀ satpoint id, satpointToId.lookup satpoint = some id → satpoint.outpoint ∈ outpoints →
    ∃ flotsam ∈ found, flotsam.origin = .old satpoint
  rows : ∀ flotsam ∈ found, ∃ satpoint, flotsam.origin = .old satpoint ∧
    satpoint.outpoint ∈ outpoints ∧ satpointToId.lookup satpoint = some flotsam.inscriptionId
  range : ∀ flotsam ∈ found, start ≤ flotsam.offset ∧ flotsam.offset < total
  sorted : found.Pairwise fun a b => a.offset < b.offset
  origins : (found.map Flotsam.origin).Nodup

namespace Taken

variable {satpointToId : KeyTable SatPoint InscriptionId} {txid : Txid}

theorem nil (satpointToId : KeyTable SatPoint InscriptionId) (start : ℕ) :
    Taken satpointToId [] start start [] where
  covers _ _ _ hmem := absurd hmem List.not_mem_nil
  rows _ hmem := absurd hmem List.not_mem_nil
  range _ hmem := absurd hmem List.not_mem_nil
  sorted := List.Pairwise.nil
  origins := List.nodup_nil

/-- One more input in front. -/
theorem cons {updater : Updater K P} {outpoint : OutPoint} {outpoints : List OutPoint}
    {start value total : ℕ} {rest : List Flotsam}
    (hinside : ∀ satpoint id, updater.satpointToId.lookup satpoint = some id →
      satpoint.outpoint = outpoint → satpoint.offset < value)
    (hfresh : outpoint ∉ outpoints) (hle : start + value ≤ total)
    (taken : Taken updater.satpointToId outpoints (start + value) total rest) :
    Taken updater.satpointToId (outpoint :: outpoints) start total
      (inputFlotsam updater txid start outpoint ++ rest) := by
  have hhead : ∀ flotsam ∈ inputFlotsam updater txid start outpoint, ∃ satpoint,
      flotsam.origin = .old satpoint ∧ satpoint.outpoint = outpoint ∧
        updater.satpointToId.lookup satpoint = some flotsam.inscriptionId ∧
        flotsam.offset = start + satpoint.offset ∧ satpoint.offset < value := by
    intro flotsam hmem
    obtain ⟨⟨satpoint, id⟩, hrow, rfl⟩ := List.mem_map.1 hmem
    obtain ⟨hrow, houtpoint⟩ := mem_inscriptionsOnOutput.1 hrow
    exact ⟨satpoint, rfl, houtpoint, hrow, rfl, hinside satpoint id hrow houtpoint⟩
  constructor
  · intro satpoint id hrow hmem
    rcases List.mem_cons.1 hmem with heq | hmem
    · refine ⟨_, List.mem_append_left _ (List.mem_map_of_mem (mem_inscriptionsOnOutput.2
        (show updater.satpointToId.lookup (satpoint, id).1 = some (satpoint, id).2 ∧ _ from
          ⟨hrow, heq⟩))), rfl⟩
    · obtain ⟨flotsam, hflotsam, horigin⟩ := taken.covers satpoint id hrow hmem
      exact ⟨flotsam, List.mem_append_right _ hflotsam, horigin⟩
  · intro flotsam hmem
    rcases List.mem_append.1 hmem with hmem | hmem
    · obtain ⟨satpoint, horigin, houtpoint, hrow, -⟩ := hhead flotsam hmem
      exact ⟨satpoint, horigin, houtpoint ▸ List.mem_cons_self, hrow⟩
    · obtain ⟨satpoint, horigin, houtpoint, hrow⟩ := taken.rows flotsam hmem
      exact ⟨satpoint, horigin, List.mem_cons_of_mem _ houtpoint, hrow⟩
  · intro flotsam hmem
    rcases List.mem_append.1 hmem with hmem | hmem
    · obtain ⟨satpoint, -, -, -, hoffset, hlt⟩ := hhead flotsam hmem
      omega
    · have hrange := taken.range flotsam hmem
      omega
  · rw [List.pairwise_append]
    refine ⟨?_, taken.sorted, ?_⟩
    · rw [inputFlotsam, List.pairwise_map]
      exact (pairwise_inscriptionsOnOutput _ _).imp fun h => Nat.add_lt_add_left h start
    · intro flotsam hmem other hother
      obtain ⟨satpoint, -, -, -, hoffset, hlt⟩ := hhead flotsam hmem
      have hrange := taken.range other hother
      omega
  · rw [List.map_append, List.nodup_append]
    refine ⟨?_, taken.origins, ?_⟩
    · rw [inputFlotsam, List.map_map]
      -- the origins of one input are its rows, which differ in their offsets
      have hsorted := pairwise_inscriptionsOnOutput updater.satpointToId outpoint
      rw [List.Nodup, List.pairwise_map]
      refine hsorted.imp fun {a b} hlt heq => ?_
      have hsame : a.1 = b.1 := Origin.old.inj heq
      rw [hsame] at hlt
      exact Nat.lt_irrefl _ hlt
    · rintro origin hmem other hother rfl
      obtain ⟨flotsam, hflotsam, rfl⟩ := List.mem_map.1 hmem
      obtain ⟨found, hfound, horigin⟩ := List.mem_map.1 hother
      obtain ⟨satpoint, hold, houtpoint, -⟩ := hhead flotsam hflotsam
      obtain ⟨satpoint', hold', houtpoint', -⟩ := taken.rows found hfound
      rw [hold, hold'] at horigin
      cases horigin
      exact hfresh (houtpoint ▸ houtpoint')

end Taken

/-- Inputs that are spent exist. -/
theorem isSome_of_spendInputs {inputs : List TxIn} :
    ∀ {utxo utxo' : UtxoSet} {total : ℕ}, spendInputs inputs utxo = some (total, utxo') →
      ∀ outpoint ∈ inputs.map TxIn.previousOutput, (utxo.lookup outpoint).isSome := by
  induction inputs with
  | nil =>
      intro utxo utxo' total hspend outpoint hmem
      exact absurd hmem List.not_mem_nil
  | cons input inputs ih =>
      intro utxo utxo' total hspend outpoint hmem
      obtain ⟨value, hvalue, hspend⟩ := Option.bind_eq_some_iff.1 hspend
      obtain ⟨⟨rest, found⟩, hrest, -⟩ := Option.bind_eq_some_iff.1 hspend
      rw [List.map_cons, List.mem_cons] at hmem
      rcases hmem with rfl | hmem
      · rw [hvalue]
        rfl
      · have hfound := ih hrest outpoint hmem
        rw [lookup_erase_ite] at hfound
        split at hfound
        · cases hfound
        · exact hfound

section Carried

variable {satpointToId : KeyTable SatPoint InscriptionId} {inputs : List TxIn} {chain : ChainState}
  {utxo : UtxoSet} {tx : Transaction} {start total sum : ℕ} {found carried : List Flotsam}

/-- Two inscriptions on their way with one id are one: their rows are the same. -/
theorem Taken.distinct_append
    (taken : Taken satpointToId (inputs.map TxIn.previousOutput) start total found)
    (hspend : spendInputs inputs chain.utxo = some (sum, utxo))
    (honce : ∀ {satpoint satpoint' id}, satpointToId.lookup satpoint = some id →
      satpointToId.lookup satpoint' = some id → satpoint = satpoint')
    (hdistinct : (carried.map Flotsam.inscriptionId).Nodup)
    (hleaving : ∀ flotsam ∈ carried, ∀ satpoint, flotsam.origin = .old satpoint →
      satpointToId.lookup satpoint = some flotsam.inscriptionId ∧
        chain.utxo.lookup satpoint.outpoint = none ∧ satpoint.outpoint.txid ∈ chain.seen)
    (harriving : ∀ flotsam ∈ carried, ∀ fee inscription, flotsam.origin = .new fee inscription →
      ∀ satpoint, satpointToId.lookup satpoint ≠ some flotsam.inscriptionId) :
    ((found ++ carried).map Flotsam.inscriptionId).Nodup := by
  rw [List.map_append, List.nodup_append]
  refine ⟨?_, hdistinct, ?_⟩
  · rw [List.Nodup, List.pairwise_map]
    have horigins := List.pairwise_map.1 taken.origins
    refine horigins.imp_of_mem fun {first second} hfirst hsecond hne heq => hne ?_
    obtain ⟨satpoint, horigin, -, hrow⟩ := taken.rows first hfirst
    obtain ⟨satpoint', horigin', -, hrow'⟩ := taken.rows second hsecond
    rw [horigin, horigin', honce hrow (heq ▸ hrow')]
  · rintro id hmem other hother rfl
    obtain ⟨flotsam, hflotsam, rfl⟩ := List.mem_map.1 hmem
    obtain ⟨pending, hpending, heq⟩ := List.mem_map.1 hother
    obtain ⟨satpoint, -, hinput, hrow⟩ := taken.rows flotsam hflotsam
    cases horigin : pending.origin with
    | old old =>
        obtain ⟨hrow', hgone, -⟩ := hleaving pending hpending old horigin
        rw [heq] at hrow'
        obtain rfl := honce hrow hrow'
        have hspent := isSome_of_spendInputs hspend _ hinput
        rw [hgone] at hspent
        cases hspent
    | new fee inscription =>
        rw [← heq] at hrow
        exact absurd hrow (harriving pending hpending fee inscription horigin satpoint)

/-- The outputs that inscriptions on their way come from are gone once the transaction has spent its
inputs. -/
theorem Taken.leaving_append (known : chain.Known) (hfresh : tx.txid ∉ chain.seen)
    (taken : Taken satpointToId (inputs.map TxIn.previousOutput) start total found)
    (hspend : spendInputs inputs chain.utxo = some (sum, utxo))
    (hleaving : ∀ flotsam ∈ carried, ∀ satpoint, flotsam.origin = .old satpoint →
      satpointToId.lookup satpoint = some flotsam.inscriptionId ∧
        chain.utxo.lookup satpoint.outpoint = none ∧ satpoint.outpoint.txid ∈ chain.seen)
    (flotsam : Flotsam) (hmem : flotsam ∈ found ++ carried) (satpoint : SatPoint)
    (horigin : flotsam.origin = .old satpoint) :
    satpointToId.lookup satpoint = some flotsam.inscriptionId ∧
      (chain.after tx utxo).utxo.lookup satpoint.outpoint = none ∧
        satpoint.outpoint.txid ∈ (chain.after tx utxo).seen := by
  have hother : ∀ {outpoint : OutPoint}, outpoint.txid ∈ chain.seen → outpoint.txid ≠ tx.txid :=
    fun hseen heq => hfresh (heq ▸ hseen)
  rcases List.mem_append.1 hmem with hmem | hmem
  · obtain ⟨satpoint', horigin', hinput, hrow⟩ := taken.rows flotsam hmem
    rw [horigin] at horigin'
    cases horigin'
    obtain ⟨value, hvalue⟩ := Option.isSome_iff_exists.1 (isSome_of_spendInputs hspend _ hinput)
    have hseen := known.2 _ value hvalue
    refine ⟨hrow, ?_, List.mem_cons_of_mem _ hseen⟩
    rw [lookup_after_of_ne (hother hseen), lookup_spendInputs hspend, if_pos hinput]
  · obtain ⟨hrow, hgone, hseen⟩ := hleaving flotsam hmem satpoint horigin
    refine ⟨hrow, ?_, List.mem_cons_of_mem _ hseen⟩
    rw [lookup_after_of_ne (hother hseen), lookup_spendInputs hspend, hgone, ite_self]

end Carried

/-- The loop over the inputs of a relevant transaction, by induction on them. -/
theorem takeInputs_spec (context : BlockContext K P) (txid : Txid) {inputs : List TxIn} :
    ∀ {utxo utxo' : UtxoSet} {sum : ℕ} (start : ℕ) (updater : Updater K P),
      spendInputs inputs utxo = some (sum, utxo') → utxo.lookup OutPoint.null = none →
      Values env updater.valueCache updater.outpointToValue utxo →
      (∀ satpoint id value, updater.satpointToId.lookup satpoint = some id →
        utxo.lookup satpoint.outpoint = some value → satpoint.offset < value) →
      ∃ found cache table prefetched,
        takeInputs env context true txid inputs start updater =
          some (start + sum, found, updater.withValues cache table prefetched) ∧
        Taken updater.satpointToId (inputs.map TxIn.previousOutput) start (start + sum) found ∧
        Values env cache table utxo' := by
  induction inputs with
  | nil =>
      intro utxo utxo' sum start updater hspend _ values _
      cases hspend
      exact ⟨[], updater.valueCache, updater.outpointToValue, updater.tapPrefetched, rfl,
        Taken.nil updater.satpointToId start, values⟩
  | cons input inputs ih =>
      intro utxo utxo' sum start updater hspend hnull values hinside
      obtain ⟨value, hvalue, hspend⟩ := Option.bind_eq_some_iff.1 hspend
      obtain ⟨⟨rest, left⟩, hrest, hspend⟩ := Option.bind_eq_some_iff.1 hspend
      cases hspend
      have hne : input.previousOutput ≠ OutPoint.null := by
        intro heq
        rw [heq, hnull] at hvalue
        cases hvalue
      obtain ⟨cache, table, prefetched, hinput, hothers⟩ :=
        inputValueOf_spec updater (values _ value hvalue)
      have hvalues : Values env cache table (utxo.erase input.previousOutput) := by
        intro outpoint found hfound
        obtain ⟨hother, hfound⟩ := lookup_erase_cases hfound
        rw [hothers outpoint hother]
        exact values outpoint found hfound
      have hnull' : (utxo.erase input.previousOutput).lookup OutPoint.null = none := by
        rw [lookup_erase_ite]
        split
        · rfl
        · exact hnull
      obtain ⟨found, cache', table', prefetched', htake, taken, hvalues'⟩ :=
        ih (start + value) (updater.withValues cache table prefetched) hrest hnull' hvalues
          fun satpoint id found hrow hfound =>
            hinside satpoint id found hrow (lookup_erase_cases hfound).2
      refine ⟨inputFlotsam updater txid start input.previousOutput ++ found, cache', table',
        prefetched', ?_, ?_, hvalues'⟩
      · rw [takeInputs, if_neg hne, hinput]
        simp only [Option.bind_eq_bind, Option.bind_some, htake]
        rw [Nat.add_assoc]
        rfl
      · rw [List.map_cons]
        have htotal : start + (value + rest) = start + value + rest := by omega
        rw [htotal]
        refine Taken.cons (fun satpoint id hrow houtpoint => ?_) ?_ (by omega) taken
        · exact hinside satpoint id value hrow (houtpoint ▸ hvalue)
        · intro hmem
          have hagain := isSome_of_spendInputs hrest _ hmem
          rw [AList.lookup_erase] at hagain
          cases hagain

end OrdDogecoin.Inscriptions
