/-
Module: OrdDogecoin.Inscriptions.Reveals
Purpose: Reading the envelope of a transaction: the chain of partial reveals moves on or ends, and a
  complete one gives a new inscription at offset zero with an id that was never used.
Trusted boundary: none
Main exports: completesInscription, unused_chainId, readEnvelope_spec
-/
import OrdDogecoin.Inscriptions.Pass

namespace OrdDogecoin.Inscriptions

open Chain KeyTable

variable {K P : Type} {env : IndexEnv K P} {tx : Transaction} {updater : Updater K P}
  {pending : List Flotsam} {seen : List Txid} {first : TxIn} {inputs : List TxIn}

/-- Whether the transaction, behind the chain it continues, completes an inscription. -/
def completesInscription (tables : Tables K P) (tx : Transaction) : Bool :=
  match parsedEnvelope tables tx with
  | some (.complete _) => true
  | _ => false

/-- The updater with other tables of chains and contents. -/
def Updater.withChains (updater : Updater K P) (partialTxidToTxids : KeyTable Txid (List Txid))
    (txidToTx : KeyTable Txid Transaction) (idToTxids : KeyTable InscriptionId (List Txid)) :
    Updater K P :=
  { updater with
    partialTxidToTxids := partialTxidToTxids
    txidToTx := txidToTx
    idToTxids := idToTxids }

/-- Reading the envelope changes the chains and contents only. -/
theorem exists_withChains_of_readEnvelope {inputValue : ℕ} {found inscriptions : List Flotsam}
    {after : Updater K P}
    (hread : readEnvelope env tx inputValue found updater = some (inscriptions, after)) :
    ∃ partialTxidToTxids txidToTx idToTxids,
      after = updater.withChains partialTxidToTxids txidToTx idToTxids := by
  unfold readEnvelope at hread
  split at hread
  · cases hread
    exact ⟨_, _, _, rfl⟩
  · split at hread
    · cases hread
      exact ⟨_, _, _, rfl⟩
    · cases hread
      exact ⟨_, _, _, rfl⟩
    · obtain ⟨fee, -, hread⟩ := Option.bind_eq_some_iff.1 hread
      cases hread
      exact ⟨_, _, _, rfl⟩
    · cases hread

/-! ### Chains -/

/-- The chain that a transaction continues: none, or the stored one of its first input. -/
theorem partialChain_cases (updater : Updater K P) (hinput : tx.input = first :: inputs) :
    (updater.partialTxidToTxids.lookup first.previousOutput.txid = none ∧
        partialChain updater.toTables tx = []) ∨
      ∃ txids, updater.partialTxidToTxids.lookup first.previousOutput.txid = some txids ∧
        partialChain updater.toTables tx = txids := by
  unfold partialChain
  rw [hinput]
  cases hrow : updater.partialTxidToTxids.lookup first.previousOutput.txid with
  | none => exact .inl ⟨rfl, by simp [hrow]⟩
  | some txids => exact .inr ⟨txids, rfl, by simp [hrow]⟩

theorem mapM_isSome {α β : Type} {f : α → Option β} {items : List α}
    (hitems : ∀ item ∈ items, (f item).isSome) : (items.mapM f).isSome := by
  induction items with
  | nil => rfl
  | cons item items ih =>
      obtain ⟨value, hvalue⟩ := Option.isSome_iff_exists.1 (hitems item List.mem_cons_self)
      obtain ⟨values, hvalues⟩ := Option.isSome_iff_exists.1
        (ih fun other hmem => hitems other (List.mem_cons_of_mem _ hmem))
      simp [List.mapM_cons, hvalue, hvalues]

/-- The transactions of a chain are stored, so the parse does not panic. -/
theorem parsedEnvelope_isSome (chains : Chains updater pending seen)
    (hinput : tx.input = first :: inputs) : (parsedEnvelope updater.toTables tx).isSome := by
  have hstored : ∀ txid ∈ partialChain updater.toTables tx,
      (updater.txidToTx.lookup txid).isSome := by
    rcases partialChain_cases updater hinput with ⟨-, hnil⟩ | ⟨txids, hrow, heq⟩
    · rw [hnil]
      exact fun txid hmem => absurd hmem List.not_mem_nil
    · rw [heq]
      exact chains.stored _ txids hrow
  obtain ⟨txs, htxs⟩ := Option.isSome_iff_exists.1 (mapM_isSome hstored)
  simp [parsedEnvelope, hinput, htxs]

theorem Chains.see (chains : Chains updater pending seen) (txid : Txid) :
    Chains updater pending (txid :: seen) where
  located id satpoint hrow := List.mem_cons_of_mem _ (chains.located id satpoint hrow)
  onTheWay flotsam hmem := List.mem_cons_of_mem _ (chains.onTheWay flotsam hmem)
  opened key txids hrow := by
    obtain ⟨hkey, head, rest, heq, hhead, hunused⟩ := chains.opened key txids hrow
    exact ⟨List.mem_cons_of_mem _ hkey, head, rest, heq, List.mem_cons_of_mem _ hhead, hunused⟩
  heads := chains.heads
  stored := chains.stored

/-- A transaction that was not seen is not used as an id. -/
theorem Chains.unused_fresh (chains : Chains updater pending seen) (hfresh : tx.txid ∉ seen) :
    Unused updater pending ⟨tx.txid, 0⟩ := by
  constructor
  · by_contra hsome
    obtain ⟨satpoint, hrow⟩ := Option.ne_none_iff_exists'.1 hsome
    exact hfresh (chains.located _ satpoint hrow)
  · intro flotsam hmem heq
    have hseen := chains.onTheWay flotsam hmem
    rw [heq] at hseen
    exact hfresh hseen

/-- The id of the chain that a new transaction completes or continues. -/
theorem Chains.unused_chainId (chains : Chains updater pending seen) (hfresh : tx.txid ∉ seen)
    (hinput : tx.input = first :: inputs) :
    Unused updater pending (chainId updater.toTables tx) ∧
      (chainId updater.toTables tx).txid ∈ tx.txid :: seen := by
  unfold chainId
  rcases partialChain_cases updater hinput with ⟨-, hnil⟩ | ⟨txids, hrow, heq⟩
  · rw [hnil]
    exact ⟨chains.unused_fresh hfresh, List.mem_cons_self⟩
  · obtain ⟨-, head, rest, hcons, hhead, hunused⟩ := chains.opened _ txids hrow
    rw [heq, hcons]
    exact ⟨hunused, List.mem_cons_of_mem _ hhead⟩

/-- The heads of all other chains differ from it. -/
theorem Chains.head_ne_chainId (chains : Chains updater pending seen) (hfresh : tx.txid ∉ seen)
    (hinput : tx.input = first :: inputs) {key head : Txid} {rest : List Txid}
    (hrow : updater.partialTxidToTxids.lookup key = some (head :: rest))
    (hkey : key ≠ first.previousOutput.txid) : (chainId updater.toTables tx).txid ≠ head := by
  unfold chainId
  rcases partialChain_cases updater hinput with ⟨-, hnil⟩ | ⟨txids, hprevious, heq⟩
  · rw [hnil]
    rintro rfl
    obtain ⟨-, head', rest', hcons, hhead, -⟩ := chains.opened key _ hrow
    cases hcons
    exact hfresh hhead
  · obtain ⟨-, head', rest', hcons, -⟩ := chains.opened _ txids hprevious
    rw [heq, hcons]
    rintro rfl
    rw [hcons] at hprevious
    exact hkey (chains.heads _ _ _ _ _ hrow hprevious)

/-! ### Continuing and completing -/

/-- A chain that goes on is keyed by the new transaction. -/
theorem Chains.continued (chains : Chains updater pending seen) (hfresh : tx.txid ∉ seen)
    (hinput : tx.input = first :: inputs) :
    Chains (continueChain first.previousOutput.txid tx updater) pending (tx.txid :: seen) := by
  obtain ⟨hunused, hseen⟩ := chains.unused_chainId hfresh hinput
  have hchain : ∃ rest, partialChain updater.toTables tx ++ [tx.txid] =
      (chainId updater.toTables tx).txid :: rest := by
    unfold chainId
    cases partialChain updater.toTables tx with
    | nil => exact ⟨[], rfl⟩
    | cons head rest => exact ⟨rest ++ [tx.txid], rfl⟩
  obtain ⟨rest, hchain⟩ := hchain
  have hrows : ∀ {key txids},
      (continueChain first.previousOutput.txid tx updater).partialTxidToTxids.lookup key =
        some txids →
      (key = tx.txid ∧ txids = (chainId updater.toTables tx).txid :: rest) ∨
        (key ≠ first.previousOutput.txid ∧ updater.partialTxidToTxids.lookup key = some txids) := by
    intro key txids hrow
    rcases lookup_insert_cases hrow with ⟨rfl, rfl⟩ | ⟨-, hold⟩
    · exact .inl ⟨rfl, hchain⟩
    · exact .inr (lookup_erase_cases hold)
  constructor
  · exact (chains.see tx.txid).located
  · exact (chains.see tx.txid).onTheWay
  · intro key txids hrow
    rcases hrows hrow with ⟨rfl, rfl⟩ | ⟨-, hold⟩
    · exact ⟨List.mem_cons_self, _, rest, rfl, hseen, hunused⟩
    · exact (chains.see tx.txid).opened key txids hold
  · intro key key' head rest' rest'' hrow hrow'
    rcases hrows hrow with ⟨rfl, heq⟩ | ⟨hne, hold⟩
    · rcases hrows hrow' with ⟨rfl, -⟩ | ⟨hne', hold'⟩
      · rfl
      · obtain ⟨rfl, -⟩ := List.cons.inj heq
        exact absurd rfl (chains.head_ne_chainId hfresh hinput hold' hne')
    · rcases hrows hrow' with ⟨rfl, heq'⟩ | ⟨-, hold'⟩
      · obtain ⟨rfl, -⟩ := List.cons.inj heq'
        exact absurd rfl (chains.head_ne_chainId hfresh hinput hold hne)
      · exact chains.heads key key' head rest' rest'' hold hold'
  · intro key txids hrow txid hmem
    have hstored : ∀ {txid}, (updater.txidToTx.lookup txid).isSome →
        ((updater.txidToTx.insert tx.txid tx).lookup txid).isSome := by
      intro txid hsome
      rw [lookup_insert_ite]
      split
      · rfl
      · exact hsome
    rcases hrows hrow with ⟨rfl, rfl⟩ | ⟨-, hold⟩
    · rw [← hchain, List.mem_append, List.mem_singleton] at hmem
      rcases hmem with hmem | rfl
      · apply hstored
        rcases partialChain_cases updater hinput with ⟨-, hnil⟩ | ⟨txids, hrow, heq⟩
        · rw [hnil] at hmem
          exact absurd hmem List.not_mem_nil
        · rw [heq] at hmem
          exact chains.stored _ txids hrow txid hmem
      · exact Option.isSome_iff_exists.2 ⟨tx, AList.lookup_insert _⟩
    · exact hstored (chains.stored key txids hold txid hmem)

/-- A chain that is complete is gone, and its first reveal is the id of an inscription on its way. -/
theorem Chains.completed (chains : Chains updater pending seen) (hfresh : tx.txid ∉ seen)
    (hinput : tx.input = first :: inputs) {flotsam : Flotsam}
    (hid : flotsam.inscriptionId = chainId updater.toTables tx) :
    Chains (completeChain first.previousOutput.txid tx true updater) (flotsam :: pending)
      (tx.txid :: seen) := by
  have hrows : ∀ {key txids},
      (completeChain first.previousOutput.txid tx true
        updater).partialTxidToTxids.lookup key = some txids →
      key ≠ first.previousOutput.txid ∧ updater.partialTxidToTxids.lookup key = some txids :=
    fun hrow => lookup_erase_cases hrow
  constructor
  · exact (chains.see tx.txid).located
  · intro other hmem
    rcases List.mem_cons.1 hmem with rfl | hmem
    · rw [hid]
      exact (chains.unused_chainId hfresh hinput).2
    · exact (chains.see tx.txid).onTheWay other hmem
  · intro key txids hrow
    obtain ⟨hne, hold⟩ := hrows hrow
    obtain ⟨hkey, head, rest, rfl, hhead, hunused⟩ := (chains.see tx.txid).opened key txids hold
    refine ⟨hkey, head, rest, rfl, hhead, hunused.1, fun other hmem heq => ?_⟩
    rcases List.mem_cons.1 hmem with rfl | hmem
    · rw [hid] at heq
      exact chains.head_ne_chainId hfresh hinput hold hne (congrArg InscriptionId.txid heq)
    · exact hunused.2 other hmem heq
  · intro key key' head rest rest' hrow hrow'
    exact chains.heads key key' head rest rest' (hrows hrow).2 (hrows hrow').2
  · intro key txids hrow txid hmem
    have hsome := chains.stored key txids (hrows hrow).2 txid hmem
    change ((updater.txidToTx.insert tx.txid tx).lookup txid).isSome
    rw [lookup_insert_ite]
    split
    · rfl
    · exact hsome

/-! ### The envelope -/

variable {chain : ChainState} {lostSats : ℕ}

/-- The location invariant does not read the chains. -/
theorem Located.withChains (located : Located updater pending chain lostSats)
    (partialTxidToTxids : KeyTable Txid (List Txid)) (txidToTx : KeyTable Txid Transaction)
    (idToTxids : KeyTable InscriptionId (List Txid)) :
    Located (updater.withChains partialTxidToTxids txidToTx idToTxids) pending chain lostSats :=
  ⟨located.inverse, located.placed, located.leaving, located.arriving, located.distinct,
    located.numbered⟩

/-- A new inscription joins those on their way. -/
theorem Located.arrive (located : Located updater pending chain lostSats) {flotsam : Flotsam}
    (hunused : Unused updater pending flotsam.inscriptionId) {fee : ℕ} {inscription : Inscription}
    (horigin : flotsam.origin = .new fee inscription) :
    Located updater (flotsam :: pending) chain lostSats where
  inverse := located.inverse
  placed satpoint id hrow := by
    rcases located.placed satpoint id hrow with hsettled | ⟨other, hmem, hold⟩
    · exact .inl hsettled
    · exact .inr ⟨other, List.mem_cons_of_mem _ hmem, hold⟩
  leaving other hmem satpoint hold := by
    rcases List.mem_cons.1 hmem with rfl | hmem
    · rw [horigin] at hold
      cases hold
    · exact located.leaving other hmem satpoint hold
  arriving other hmem fee' inscription' hnew := by
    rcases List.mem_cons.1 hmem with rfl | hmem
    · exact hunused.1
    · exact located.arriving other hmem fee' inscription' hnew
  distinct := by
    rw [List.map_cons, List.nodup_cons]
    refine ⟨fun hmem => ?_, located.distinct⟩
    obtain ⟨other, hother, heq⟩ := List.mem_map.1 hmem
    exact hunused.2 other hother heq
  numbered := located.numbered

/-- What reading the envelope gives: the inscriptions to assign, with distinct offsets inside the
inputs, and the updater, changed in its chains only. -/
structure EnvelopeRead (updater : Updater K P) (carried : List Flotsam) (chain : ChainState)
    (lostSats inputValue : ℕ) (seen : List Txid) (result : List Flotsam × Updater K P) : Prop where
  located : Located result.2 (result.1 ++ carried) chain lostSats
  chains : Chains result.2 (result.1 ++ carried) seen
  offsets : (result.1.map Flotsam.offset).Nodup
  range : ∀ flotsam ∈ result.1, flotsam.offset < inputValue
  same : ∃ partialTxidToTxids txidToTx idToTxids,
    result.2 = updater.withChains partialTxidToTxids txidToTx idToTxids

theorem readEnvelope_spec (full : env.tapLean = false) {found carried : List Flotsam}
    {inputValue : ℕ} (located : Located updater (found ++ carried) chain lostSats)
    (chains : Chains updater (found ++ carried) seen) (hfresh : tx.txid ∉ seen)
    (hinput : tx.input = first :: inputs) (hoffsets : (found.map Flotsam.offset).Nodup)
    (hrange : ∀ flotsam ∈ found, flotsam.offset < inputValue)
    (hfunded : completesInscription updater.toTables tx = true → 0 < inputValue) :
    Yields env (readEnvelope env tx inputValue found updater)
      (EnvelopeRead updater carried chain lostSats inputValue (tx.txid :: seen)) := by
  unfold readEnvelope
  split
  next =>
    exact Yields.some ⟨located, chains.see tx.txid, hoffsets, hrange, _, _, _, rfl⟩
  next hzero =>
    obtain ⟨parsed, hparsed⟩ := Option.isSome_iff_exists.1 (parsedEnvelope_isSome chains hinput)
    rw [hinput, hparsed]
    cases parsed with
    | none => exact Yields.some ⟨located, chains.see tx.txid, hoffsets, hrange, _, _, _, rfl⟩
    | part =>
        exact Yields.some ⟨located.withChains _ _ _, chains.continued hfresh hinput, hoffsets,
          hrange, _, _, _, rfl⟩
    | complete inscription =>
        have hpos : 0 < inputValue := hfunded (by rw [completesInscription, hparsed])
        have hkeeps : env.keeps inscription = true := by simp [IndexEnv.keeps, full]
        dsimp only
        rw [hkeeps]
        refine (Yields.sub inputValue tx.outputValue).bind fun fee _ => Yields.some ?_
        have hperm : ∀ flotsam : Flotsam, ((flotsam :: (found ++ carried)).map Flotsam.key).Perm
            ((found ++ [flotsam] ++ carried).map Flotsam.key) := by
          intro flotsam
          apply List.Perm.map
          rw [List.append_assoc]
          exact List.perm_middle.symm
        constructor
        · apply Located.of_perm _ (hperm _)
          exact (located.arrive (chains.unused_chainId hfresh hinput).1 rfl).withChains _ _ _
        · apply Chains.of_perm _ (hperm _)
          exact chains.completed hfresh hinput rfl
        · rw [List.map_append, List.nodup_append]
          refine ⟨hoffsets, List.nodup_singleton _, ?_⟩
          rintro offset hmem other hother rfl
          obtain ⟨flotsam, hflotsam, rfl⟩ := List.mem_map.1 hmem
          rw [List.map_singleton, List.mem_singleton] at hother
          apply hzero
          rw [List.any_eq_true]
          exact ⟨flotsam, hflotsam, decide_eq_true hother⟩
        · intro flotsam hmem
          rcases List.mem_append.1 hmem with hmem | hmem
          · exact hrange flotsam hmem
          · rw [List.mem_singleton.1 hmem]
            exact hpos
        · exact ⟨_, _, _, rfl⟩

end OrdDogecoin.Inscriptions
