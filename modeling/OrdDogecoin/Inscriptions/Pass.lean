/-
Module: OrdDogecoin.Inscriptions.Pass
Purpose: The parts of the pass over a transaction keep the location invariant: spending the inputs,
  reading the envelope, assigning inscriptions to outputs, and settling the rest.
Trusted boundary: none
Main exports: Yields, readEnvelope_spec, assignOutputs_spec
-/
import OrdDogecoin.Inscriptions.Inputs

namespace OrdDogecoin.Inscriptions

open Chain KeyTable

variable {K P : Type} {env : IndexEnv K P} {context : BlockContext K P} {tx : Transaction}

/-! ### Results that may panic -/

/-- A result meets a condition, and there is one unless overflow checks stop the program. -/
def Yields {α : Type} (env : IndexEnv K P) (result : Option α) (post : α → Prop) : Prop :=
  (∀ value, result = some value → post value) ∧ (env.overflowChecks = false → result.isSome)

namespace Yields

variable {α β : Type} {post : α → Prop} {post' : β → Prop}

theorem some {value : α} (hpost : post value) : Yields env (Option.some value) post :=
  ⟨fun _ hfound => Option.some.inj hfound ▸ hpost, fun _ => rfl⟩

theorem bind {result : Option α} {rest : α → Option β} (yields : Yields env result post)
    (hrest : ∀ value, post value → Yields env (rest value) post') :
    Yields env (result.bind rest) post' := by
  constructor
  · intro value hvalue
    obtain ⟨middle, hmiddle, hvalue⟩ := Option.bind_eq_some_iff.1 hvalue
    exact (hrest middle (yields.1 middle hmiddle)).1 value hvalue
  · intro hchecks
    obtain ⟨middle, hmiddle⟩ := Option.isSome_iff_exists.1 (yields.2 hchecks)
    rw [hmiddle, Option.bind_some]
    exact (hrest middle (yields.1 middle hmiddle)).2 hchecks

theorem result {result : Option α} (yields : Yields env result post) :
    Yields env result fun value => result = Option.some value ∧ post value :=
  ⟨fun value hvalue => ⟨hvalue, yields.1 value hvalue⟩, yields.2⟩

theorem sub (a b : ℕ) : Yields env (env.sub a b) fun value => b ≤ a → value = a - b := by
  unfold IndexEnv.sub
  split
  next hle => exact some fun _ => rfl
  next hlt =>
    split
    next hchecks => exact ⟨fun _ h => (by cases h), fun h => by rw [hchecks] at h; cases h⟩
    next => exact some fun hle => absurd hle hlt

end Yields

/-! ### The list of inscriptions on their way -/

/-- What the location invariant reads of an inscription on its way. -/
def Flotsam.key (flotsam : Flotsam) : InscriptionId × Origin := (flotsam.inscriptionId, flotsam.origin)

section Perm

variable {updater : Updater K P} {pending pending' : List Flotsam}

theorem exists_of_perm (hperm : (pending.map Flotsam.key).Perm (pending'.map Flotsam.key))
    {flotsam : Flotsam} (hmem : flotsam ∈ pending') :
    ∃ other ∈ pending, other.inscriptionId = flotsam.inscriptionId ∧ other.origin = flotsam.origin := by
  have hkey := hperm.mem_iff.2 (List.mem_map_of_mem hmem)
  obtain ⟨other, hother, heq⟩ := List.mem_map.1 hkey
  exact ⟨other, hother, congrArg Prod.fst heq, congrArg Prod.snd heq⟩

/-- Order and offsets of the list do not matter. -/
theorem Located.of_perm {chain : ChainState} {lostSats : ℕ}
    (located : Located updater pending chain lostSats)
    (hperm : (pending.map Flotsam.key).Perm (pending'.map Flotsam.key)) :
    Located updater pending' chain lostSats where
  inverse := located.inverse
  placed satpoint id hrow := by
    rcases located.placed satpoint id hrow with hsettled | ⟨flotsam, hmem, horigin⟩
    · exact .inl hsettled
    · obtain ⟨other, hother, -, heq⟩ := exists_of_perm hperm.symm hmem
      exact .inr ⟨other, hother, heq.trans horigin⟩
  leaving flotsam hmem satpoint horigin := by
    obtain ⟨other, hother, hid, heq⟩ := exists_of_perm hperm hmem
    rw [← hid]
    exact located.leaving other hother satpoint (heq.trans horigin)
  arriving flotsam hmem fee inscription horigin := by
    obtain ⟨other, hother, hid, heq⟩ := exists_of_perm hperm hmem
    rw [← hid]
    exact located.arriving other hother fee inscription (heq.trans horigin)
  distinct := by
    have hids := hperm.map Prod.fst
    rw [List.map_map, List.map_map] at hids
    exact hids.nodup_iff.1 located.distinct
  numbered := located.numbered

theorem Unused.of_perm {id : InscriptionId} (unused : Unused updater pending id)
    (hperm : (pending.map Flotsam.key).Perm (pending'.map Flotsam.key)) :
    Unused updater pending' id := by
  refine ⟨unused.1, fun flotsam hmem => ?_⟩
  obtain ⟨other, hother, hid, -⟩ := exists_of_perm hperm hmem
  rw [← hid]
  exact unused.2 other hother

theorem Chains.of_perm {seen : List Txid} (chains : Chains updater pending seen)
    (hperm : (pending.map Flotsam.key).Perm (pending'.map Flotsam.key)) :
    Chains updater pending' seen where
  located := chains.located
  onTheWay flotsam hmem := by
    obtain ⟨other, hother, hid, -⟩ := exists_of_perm hperm hmem
    rw [← hid]
    exact chains.onTheWay other hother
  opened key txids hrow := by
    obtain ⟨hkey, head, rest, heq, hhead, hunused⟩ := chains.opened key txids hrow
    exact ⟨hkey, head, rest, heq, hhead, hunused.of_perm hperm⟩
  heads := chains.heads
  stored := chains.stored

end Perm

/-! ### Spending the inputs -/

section Spend

variable {updater : Updater K P} {carried found : List Flotsam} {lostSats start total sum : ℕ}
  {chain : ChainState} {utxo : UtxoSet}

/-- No inscription sits on an output of a transaction that was not seen. -/
theorem Located.lookup_fresh (located : Located updater carried chain lostSats)
    (known : chain.Known) {txid : Txid} (hzero : txid ≠ 0) (hfresh : txid ∉ chain.seen)
    {satpoint : SatPoint} (htxid : satpoint.outpoint.txid = txid) :
    updater.satpointToId.lookup satpoint = none := by
  by_contra hsome
  obtain ⟨id, hrow⟩ := Option.ne_none_iff_exists'.1 hsome
  have hseen : satpoint.outpoint.txid ∉ chain.seen := by
    rw [htxid]
    exact hfresh
  rcases located.placed satpoint id hrow with hsettled | ⟨flotsam, hmem, horigin⟩
  · rcases hsettled with ⟨value, hvalue, -⟩ | ⟨hnull, -⟩
    · exact hseen (known.2 _ value hvalue)
    · rw [hnull] at htxid
      exact hzero htxid.symm
  · exact hseen (located.leaving flotsam hmem satpoint horigin).2.2

/-- The inscriptions on the inputs join those on their way. -/
theorem Located.spend (located : Located updater carried chain lostSats) (known : chain.Known)
    (hfresh : tx.txid ∉ chain.seen)
    (hspend : spendInputs tx.input chain.utxo = some (sum, utxo))
    (taken : Taken updater.satpointToId (tx.input.map TxIn.previousOutput) start total found)
    (cache : KeyTable OutPoint (ℕ × Bool)) (table : KeyTable OutPoint ℕ) (prefetched : List OutPoint) :
    Located (updater.withValues cache table prefetched) (found ++ carried)
      (ChainState.after chain tx utxo) lostSats := by
  have hother : ∀ {outpoint : OutPoint}, outpoint.txid ∈ chain.seen → outpoint.txid ≠ tx.txid :=
    fun hseen heq => hfresh (heq ▸ hseen)
  constructor
  · exact located.inverse
  · intro satpoint id hrow
    rcases located.placed satpoint id hrow with hsettled | ⟨flotsam, hmem, horigin⟩
    · rcases hsettled with ⟨value, hvalue, hlt⟩ | hlost
      · by_cases hinput : satpoint.outpoint ∈ tx.input.map TxIn.previousOutput
        · obtain ⟨flotsam, hmem, horigin⟩ := taken.covers satpoint id hrow hinput
          exact .inr ⟨flotsam, List.mem_append_left _ hmem, horigin⟩
        · refine .inl (.inl ⟨value, ?_, hlt⟩)
          rw [lookup_after_of_ne (hother (known.2 _ value hvalue)), lookup_spendInputs hspend,
            if_neg hinput, hvalue]
      · exact .inl (.inr hlost)
    · exact .inr ⟨flotsam, List.mem_append_right _ hmem, horigin⟩
  · exact taken.leaving_append known hfresh hspend located.leaving
  · intro flotsam hmem fee inscription horigin
    rcases List.mem_append.1 hmem with hmem | hmem
    · obtain ⟨satpoint, hold, -⟩ := taken.rows flotsam hmem
      rw [horigin] at hold
      cases hold
    · exact located.arriving flotsam hmem fee inscription horigin
  · refine taken.distinct_append hspend located.inverse.injective located.distinct located.leaving ?_
    intro flotsam hmem fee inscription horigin satpoint hrow
    have hnone := located.arriving flotsam hmem fee inscription horigin
    rw [(located.inverse _ _).1 hrow] at hnone
    cases hnone
  · exact located.numbered

theorem Chains.spend (chains : Chains updater carried chain.seen)
    (inverse : Inverse updater.satpointToId updater.idToSatpoint)
    (taken : Taken updater.satpointToId (tx.input.map TxIn.previousOutput) start total found)
    (cache : KeyTable OutPoint (ℕ × Bool)) (table : KeyTable OutPoint ℕ) (prefetched : List OutPoint) :
    Chains (updater.withValues cache table prefetched) (found ++ carried) chain.seen := by
  have hlocated : ∀ {flotsam}, flotsam ∈ found →
      ∃ satpoint, updater.idToSatpoint.lookup flotsam.inscriptionId = some satpoint := by
    intro flotsam hmem
    obtain ⟨satpoint, -, -, hrow⟩ := taken.rows flotsam hmem
    exact ⟨satpoint, (inverse _ _).1 hrow⟩
  constructor
  · exact chains.located
  · intro flotsam hmem
    rcases List.mem_append.1 hmem with hmem | hmem
    · obtain ⟨satpoint, hrow⟩ := hlocated hmem
      exact chains.located _ satpoint hrow
    · exact chains.onTheWay flotsam hmem
  · intro key txids hrow
    obtain ⟨hkey, head, rest, heq, hhead, hunused⟩ := chains.opened key txids hrow
    refine ⟨hkey, head, rest, heq, hhead, hunused.1, fun flotsam hmem hid => ?_⟩
    rcases List.mem_append.1 hmem with hmem | hmem
    · obtain ⟨satpoint, hrow⟩ := hlocated hmem
      rw [hid, hunused.1] at hrow
      cases hrow
    · exact hunused.2 flotsam hmem hid
  · exact chains.heads
  · exact chains.stored

end Spend

end OrdDogecoin.Inscriptions
