/-
Module: OrdDogecoin.Inscriptions.Tracking
Purpose: The history of all moves.  An inscription is inscribed once, moves at most once within a
  transaction, and leaves the outputs of the transaction it is named after with its first move.  The
  location table keeps enough of the history for this, in both modes and also where two inscriptions
  collide.
Trusted boundary: none
Main exports: History, Tracked.arrive, Tracked.place
-/
import OrdDogecoin.Inscriptions.Queue

namespace OrdDogecoin.Inscriptions

open Chain KeyTable
open List (mem_cons_self mem_cons_of_mem mem_append mem_map not_mem_nil mem_cons map_cons map_append nodup_cons nodup_nil map_map)

/-! ### Histories -/

/-- The transaction and the inscription of a move. -/
def Move.key (move : Move) : Txid × InscriptionId := (move.txid, move.inscriptionId)

/-- A transfer away from the transaction that the inscription is named after. -/
def Move.LeavesHome (move : Move) : Prop :=
  move.isNew = false ∧ move.oldSatpoint.outpoint.txid = move.inscriptionId.txid

/-- What a list of moves, in the order of the chain, promises. -/
structure History (moves : List Move) : Prop where
  /-- A transaction moves an inscription once, ... -/
  keys : (moves.map Move.key).Nodup
  /-- ... an inscription is inscribed once, ... -/
  inscribed : ((moves.filter Move.isNew).map Move.inscriptionId).Nodup
  /-- ... and a transfer away from its own transaction is its first. -/
  first : moves.Pairwise fun earlier later => earlier.inscriptionId = later.inscriptionId →
    earlier.isNew = false → ¬ later.LeavesHome

def Made (moves : List Move) (id : InscriptionId) : Prop := ∃ move ∈ moves, move.inscriptionId = id

namespace History

theorem nil : History [] := ⟨nodup_nil, nodup_nil, List.Pairwise.nil⟩

theorem sublist {moves others : List Move} (history : History moves) (hsublist : others.Sublist moves) :
    History others where
  keys := history.keys.sublist (hsublist.map _)
  inscribed := history.inscribed.sublist ((hsublist.filter _).map _)
  first := history.first.sublist hsublist

/-- Transfers of a new transaction, of inscriptions that are not at home or never moved. -/
theorem append_transfers {moves transfers : List Move} (history : History moves) (txid : Txid)
    (hfresh : ∀ move ∈ moves, move.txid ≠ txid)
    (htransfers : ∀ move ∈ transfers, move.txid = txid ∧ move.isNew = false)
    (hdistinct : (transfers.map Move.inscriptionId).Nodup)
    (hfirst : ∀ earlier ∈ moves, ∀ later ∈ transfers,
      earlier.inscriptionId = later.inscriptionId → earlier.isNew = false → ¬ later.LeavesHome) :
    History (moves ++ transfers) := by
  constructor
  · rw [map_append, List.nodup_append]
    refine ⟨history.keys, ?_, ?_⟩
    · rw [List.Nodup, List.pairwise_map]
      exact (List.pairwise_map.1 hdistinct).imp fun hne heq => hne (congrArg Prod.snd heq)
    · rintro key hmem other hother rfl
      obtain ⟨move, hmove, rfl⟩ := mem_map.1 hmem
      obtain ⟨transfer, htransfer, heq⟩ := mem_map.1 hother
      have htxid : transfer.txid = move.txid := congrArg Prod.fst heq
      exact hfresh move hmove (htxid.symm.trans (htransfers transfer htransfer).1)
  · have hnone : transfers.filter Move.isNew = [] := by
      rw [List.filter_eq_nil_iff]
      intro move hmem
      rw [(htransfers move hmem).2]
      exact Bool.false_ne_true
    rw [List.filter_append, hnone, List.append_nil]
    exact history.inscribed
  · rw [List.pairwise_append]
    refine ⟨history.first, ?_, hfirst⟩
    exact (List.pairwise_map.1 hdistinct).imp fun hne heq => absurd heq hne

/-- A new inscription, in front of the transfers of its transaction. -/
theorem insert_new {moves transfers : List Move} {new : Move} (history : History (moves ++ transfers))
    (hnew : new.isNew = true) (hmade : ¬ Made (moves ++ transfers) new.inscriptionId) :
    History (moves ++ new :: transfers) := by
  constructor
  · rw [map_append, map_cons, List.nodup_middle, ← map_append, nodup_cons]
    refine ⟨fun hmem => ?_, history.keys⟩
    obtain ⟨move, hmove, heq⟩ := mem_map.1 hmem
    exact hmade ⟨move, hmove, congrArg Prod.snd heq⟩
  · rw [List.filter_append, List.filter_cons_of_pos hnew, map_append, map_cons,
      List.nodup_middle, ← map_append, ← List.filter_append, nodup_cons]
    refine ⟨fun hmem => ?_, history.inscribed⟩
    obtain ⟨move, hmove, heq⟩ := mem_map.1 hmem
    exact hmade ⟨move, List.mem_of_mem_filter hmove, heq⟩
  · obtain ⟨hmoves, htransfers, hcross⟩ := List.pairwise_append.1 history.first
    rw [List.pairwise_append, List.pairwise_cons]
    refine ⟨hmoves, ⟨fun later hlater heq => ?_, htransfers⟩, fun earlier hearlier later hlater => ?_⟩
    · exact absurd ⟨later, List.mem_append_right _ hlater, heq.symm⟩ hmade
    · rcases mem_cons.1 hlater with rfl | hlater
      · exact fun heq => absurd ⟨earlier, List.mem_append_left _ hearlier, heq⟩ hmade
      · exact hcross earlier hearlier later hlater

end History

/-! ### Open chains of partial reveals -/

/-- Every open chain has a first reveal of a kind, its own. -/
structure OpenChains (partialTxidToTxids : KeyTable Txid (List Txid)) (free : Txid → Prop) : Prop where
  heads : ∀ key txids, partialTxidToTxids.lookup key = some txids →
    ∃ head rest, txids = head :: rest ∧ free head
  once : ∀ key key' head rest rest', partialTxidToTxids.lookup key = some (head :: rest) →
    partialTxidToTxids.lookup key' = some (head :: rest') → key = key'

namespace OpenChains

variable {partialTxidToTxids : KeyTable Txid (List Txid)} {free : Txid → Prop} {previous txid : Txid}

theorem mono (opened : OpenChains partialTxidToTxids free) {free' : Txid → Prop}
    (hfree : ∀ head, free head → free' head) : OpenChains partialTxidToTxids free' where
  heads key txids hrow := by
    obtain ⟨head, rest, heq, hhead⟩ := opened.heads key txids hrow
    exact ⟨head, rest, heq, hfree head hhead⟩
  once := opened.once

/-- The chain that a transaction continues, with the transaction. -/
theorem exists_chain (opened : OpenChains partialTxidToTxids free) (previous txid : Txid) :
    ∃ head rest, (partialTxidToTxids.lookup previous).getD [] ++ [txid] = head :: rest ∧
      (free head ∨ head = txid) ∧
      ∀ key rest', partialTxidToTxids.lookup key = some (head :: rest') →
        head = txid ∨ key = previous := by
  cases hrow : partialTxidToTxids.lookup previous with
  | none => exact ⟨txid, [], rfl, .inr rfl, fun _ _ _ => .inl rfl⟩
  | some txids =>
      obtain ⟨head, rest, rfl, hfree⟩ := opened.heads previous txids hrow
      exact ⟨head, rest ++ [txid], rfl, .inl hfree,
        fun key rest' hkey => .inr (opened.once key previous head rest' rest hkey hrow)⟩

/-- The chain goes on: it is now keyed by the transaction. -/
theorem continued (opened : OpenChains partialTxidToTxids free) (hfree : free txid)
    (hother : ∀ key rest, partialTxidToTxids.lookup key ≠ some (txid :: rest)) :
    OpenChains ((partialTxidToTxids.erase previous).insert txid
      ((partialTxidToTxids.lookup previous).getD [] ++ [txid])) free := by
  obtain ⟨head, rest, hchain, hhead, honce⟩ := opened.exists_chain previous txid
  rw [hchain]
  have hold : ∀ {key rest'}, partialTxidToTxids.lookup key = some (head :: rest') → key = previous := by
    intro key rest' hrow
    rcases honce key rest' hrow with rfl | heq
    · exact absurd hrow (hother key rest')
    · exact heq
  constructor
  · intro key txids hrow
    rcases lookup_insert_cases hrow with ⟨-, rfl⟩ | ⟨-, hrow⟩
    · rcases hhead with hhead | rfl
      · exact ⟨head, rest, rfl, hhead⟩
      · exact ⟨head, rest, rfl, hfree⟩
    · exact opened.heads key txids (lookup_erase_cases hrow).2
  · intro key key' first rest' rest'' hrow hrow'
    rcases lookup_insert_cases hrow with ⟨rfl, heq⟩ | ⟨-, hrow⟩
    · rcases lookup_insert_cases hrow' with ⟨rfl, -⟩ | ⟨-, hrow'⟩
      · rfl
      · cases heq
        obtain ⟨hne, hrow'⟩ := lookup_erase_cases hrow'
        exact absurd (hold hrow') hne
    · obtain ⟨hne, hkept⟩ := lookup_erase_cases hrow
      rcases lookup_insert_cases hrow' with ⟨rfl, heq⟩ | ⟨-, hrow'⟩
      · cases heq
        exact absurd (hold hkept) hne
      · exact opened.once key key' first rest' rest'' hkept (lookup_erase_cases hrow').2

/-- The chain is complete: its first reveal is no longer one of an open chain. -/
theorem completed (opened : OpenChains partialTxidToTxids free) {head : Txid} {rest : List Txid}
    (hchain : (partialTxidToTxids.lookup previous).getD [] ++ [txid] = head :: rest)
    (hother : ∀ key rest, partialTxidToTxids.lookup key ≠ some (txid :: rest)) :
    OpenChains (partialTxidToTxids.erase previous) fun other => free other ∧ other ≠ head := by
  obtain ⟨first, rest', heq, -, honce⟩ := opened.exists_chain previous txid
  rw [hchain] at heq
  cases heq
  constructor
  · intro key txids hrow
    obtain ⟨hne, hrow⟩ := lookup_erase_cases hrow
    obtain ⟨other, tail, rfl, hfree⟩ := opened.heads key txids hrow
    refine ⟨other, tail, rfl, hfree, ?_⟩
    rintro rfl
    rcases honce key tail hrow with rfl | heq
    · exact hother key tail hrow
    · exact hne heq
  · intro key key' first tail tail' hrow hrow'
    exact opened.once key key' first tail tail' (lookup_erase_cases hrow).2 (lookup_erase_cases hrow').2

end OpenChains

/-! ### The location table and the history -/

/-- What location table and open chains know about the history, while the inscriptions of `queue` are on
their way. -/
structure Tracked (satpointToId : KeyTable SatPoint InscriptionId)
    (partialTxidToTxids : KeyTable Txid (List Txid)) (queue : List Flotsam) (chain : ChainState)
    (moves : List Move) : Prop where
  history : History moves
  seen : ∀ move ∈ moves, move.txid ∈ chain.seen ∧ move.inscriptionId.txid ∈ chain.seen
  rowSeen : ∀ satpoint id, satpointToId.lookup satpoint = some id →
    satpoint.outpoint = OutPoint.null ∨ satpoint.outpoint.txid ∈ chain.seen
  inside : ∀ satpoint id value, satpointToId.lookup satpoint = some id →
    chain.utxo.lookup satpoint.outpoint = some value → satpoint.offset < value
  once : ∀ satpoint satpoint' id, satpointToId.lookup satpoint = some id →
    satpointToId.lookup satpoint' = some id → satpoint = satpoint'
  made : ∀ satpoint id, satpointToId.lookup satpoint = some id → Made moves id
  /-- An inscription in an unspent output of the transaction it is named after never moved. -/
  home : ∀ satpoint id, satpointToId.lookup satpoint = some id →
    (chain.utxo.lookup satpoint.outpoint).isSome → satpoint.outpoint.txid = id.txid →
    ∀ move ∈ moves, move.inscriptionId = id → move.isNew = true
  leaving : ∀ flotsam ∈ queue, ∀ satpoint, flotsam.origin = .old satpoint →
    satpointToId.lookup satpoint = some flotsam.inscriptionId ∧
      chain.utxo.lookup satpoint.outpoint = none ∧ satpoint.outpoint.txid ∈ chain.seen
  arriving : ∀ flotsam ∈ queue, ∀ fee inscription, flotsam.origin = .new fee inscription →
    ∀ satpoint, satpointToId.lookup satpoint ≠ some flotsam.inscriptionId
  onTheWay : ∀ flotsam ∈ queue, Made moves flotsam.inscriptionId
  distinct : (queue.map Flotsam.inscriptionId).Nodup
  opened : OpenChains partialTxidToTxids fun head =>
    head ∈ chain.seen ∧ ¬ Made moves { txid := head, index := 0 }

namespace Tracked

variable {satpointToId : KeyTable SatPoint InscriptionId}
  {partialTxidToTxids : KeyTable Txid (List Txid)} {queue found carried : List Flotsam}
  {chain : ChainState} {moves : List Move} {tx : Transaction}

/-- A new database over any chain. -/
theorem empty (chain : ChainState) : Tracked ∅ ∅ [] chain [] where
  history := .nil
  seen _ hmem := absurd hmem not_mem_nil
  rowSeen _ _ hrow := by cases hrow
  inside _ _ _ hrow := by cases hrow
  once _ _ _ hrow := by cases hrow
  made _ _ hrow := by cases hrow
  home _ _ hrow := by cases hrow
  leaving _ hmem := absurd hmem not_mem_nil
  arriving _ hmem := absurd hmem not_mem_nil
  onTheWay _ hmem := absurd hmem not_mem_nil
  distinct := nodup_nil
  opened := ⟨fun _ _ hrow => (by cases hrow), fun _ _ _ _ _ hrow => (by cases hrow)⟩

theorem made_seen (tracked : Tracked satpointToId partialTxidToTxids queue chain moves)
    {id : InscriptionId} (hmade : Made moves id) : id.txid ∈ chain.seen := by
  obtain ⟨move, hmem, rfl⟩ := hmade
  exact (tracked.seen move hmem).2

/-- Order and offsets of the queue do not matter. -/
theorem of_perm (tracked : Tracked satpointToId partialTxidToTxids queue chain moves)
    {queue' : List Flotsam} (hperm : (queue.map Flotsam.key).Perm (queue'.map Flotsam.key)) :
    Tracked satpointToId partialTxidToTxids queue' chain moves where
  history := tracked.history
  seen := tracked.seen
  rowSeen := tracked.rowSeen
  inside := tracked.inside
  once := tracked.once
  made := tracked.made
  home := tracked.home
  leaving flotsam hmem satpoint horigin := by
    obtain ⟨other, hother, hid, heq⟩ := exists_of_perm hperm hmem
    rw [← hid]
    exact tracked.leaving other hother satpoint (heq.trans horigin)
  arriving flotsam hmem fee inscription horigin := by
    obtain ⟨other, hother, hid, heq⟩ := exists_of_perm hperm hmem
    rw [← hid]
    exact tracked.arriving other hother fee inscription (heq.trans horigin)
  onTheWay flotsam hmem := by
    obtain ⟨other, hother, hid, -⟩ := exists_of_perm hperm hmem
    rw [← hid]
    exact tracked.onTheWay other hother
  distinct := by
    have hids := hperm.map Prod.fst
    rw [map_map, map_map] at hids
    exact hids.nodup_iff.1 tracked.distinct
  opened := tracked.opened

/-! ### Spending -/

section Spend

variable {inputs : List TxIn} {sum start total : ℕ} {utxo : UtxoSet}

/-- An unspent output of a row after a transaction was one before and is not spent by it. -/
theorem unspent_before (tracked : Tracked satpointToId partialTxidToTxids queue chain moves)
    (hzero : tx.txid ≠ 0) (hfresh : tx.txid ∉ chain.seen)
    (hspend : spendInputs inputs chain.utxo = some (sum, utxo)) {satpoint : SatPoint}
    {id : InscriptionId} {value : ℕ} (hrow : satpointToId.lookup satpoint = some id)
    (hvalue : (chain.after tx utxo).utxo.lookup satpoint.outpoint = some value) :
    chain.utxo.lookup satpoint.outpoint = some value ∧
      satpoint.outpoint ∉ inputs.map TxIn.previousOutput := by
  rcases lookup_after_cases hvalue with ⟨number, output, heq, -⟩ | hvalue
  · rcases tracked.rowSeen satpoint id hrow with hnull | hseen
    · rw [hnull] at heq
      exact absurd (congrArg OutPoint.txid heq).symm hzero
    · rw [heq] at hseen
      exact absurd hseen hfresh
  · rw [lookup_spendInputs hspend] at hvalue
    split at hvalue
    · cases hvalue
    next hinput => exact ⟨hvalue, hinput⟩

/-- The inscriptions on the inputs join the queue, and their moves the history. -/
theorem spend (tracked : Tracked satpointToId partialTxidToTxids carried chain moves)
    (known : chain.Known) (hzero : tx.txid ≠ 0) (hfresh : tx.txid ∉ chain.seen)
    (hspend : spendInputs inputs chain.utxo = some (sum, utxo))
    (taken : Taken satpointToId (inputs.map TxIn.previousOutput) start total found)
    (hold : ∀ flotsam ∈ found, flotsam.txid = tx.txid ∧ flotsam.origin = .old flotsam.oldSatpoint) :
    Tracked satpointToId partialTxidToTxids (found ++ carried) (chain.after tx utxo)
      (moves ++ found.map Flotsam.move) := by
  have hother : ∀ {outpoint : OutPoint}, outpoint.txid ∈ chain.seen → outpoint.txid ≠ tx.txid :=
    fun hseen heq => hfresh (heq ▸ hseen)
  have hrows : ∀ flotsam ∈ found, flotsam.oldSatpoint.outpoint ∈ inputs.map TxIn.previousOutput ∧
      satpointToId.lookup flotsam.oldSatpoint = some flotsam.inscriptionId := by
    intro flotsam hmem
    obtain ⟨satpoint, horigin, hinput, hrow⟩ := taken.rows flotsam hmem
    rw [(hold flotsam hmem).2] at horigin
    cases horigin
    exact ⟨hinput, hrow⟩
  have htransfers : ∀ move ∈ found.map Flotsam.move, move.txid = tx.txid ∧ move.isNew = false := by
    intro move hmem
    obtain ⟨flotsam, hflotsam, rfl⟩ := mem_map.1 hmem
    obtain ⟨htxid, horigin⟩ := hold flotsam hflotsam
    exact ⟨htxid, by rw [Flotsam.move, horigin]⟩
  have hdistinct := taken.distinct_append hspend (tracked.once _ _ _) tracked.distinct tracked.leaving
    tracked.arriving
  constructor
  · apply tracked.history.append_transfers tx.txid _ htransfers
    · rw [map_append, List.nodup_append] at hdistinct
      rw [map_map]
      exact hdistinct.1
    · intro earlier hearlier later hlater heq hnew hhome
      obtain ⟨flotsam, hflotsam, rfl⟩ := mem_map.1 hlater
      obtain ⟨hinput, hrow⟩ := hrows flotsam hflotsam
      have hmade := tracked.home _ _ hrow (isSome_of_spendInputs hspend _ hinput) hhome.2 earlier
        hearlier heq
      rw [hnew] at hmade
      cases hmade
    · intro move hmem heq
      exact hfresh (heq ▸ (tracked.seen move hmem).1)
  · intro move hmem
    rcases mem_append.1 hmem with hmem | hmem
    · exact ⟨mem_cons_of_mem _ (tracked.seen move hmem).1,
        mem_cons_of_mem _ (tracked.seen move hmem).2⟩
    · obtain ⟨flotsam, hflotsam, rfl⟩ := mem_map.1 hmem
      refine ⟨?_, mem_cons_of_mem _ (tracked.made_seen (tracked.made _ _ (hrows _ hflotsam).2))⟩
      rw [Flotsam.move, (hold flotsam hflotsam).1]
      exact mem_cons_self
  · exact fun satpoint id hrow => (tracked.rowSeen satpoint id hrow).imp_right
      (mem_cons_of_mem _)
  · intro satpoint id value hrow hvalue
    exact tracked.inside satpoint id value hrow
      (tracked.unspent_before hzero hfresh hspend hrow hvalue).1
  · exact tracked.once
  · intro satpoint id hrow
    obtain ⟨move, hmem, hid⟩ := tracked.made satpoint id hrow
    exact ⟨move, List.mem_append_left _ hmem, hid⟩
  · intro satpoint id hrow hsome htxid move hmem hid
    obtain ⟨value, hvalue⟩ := Option.isSome_iff_exists.1 hsome
    obtain ⟨hbefore, hinput⟩ := tracked.unspent_before hzero hfresh hspend hrow hvalue
    rcases mem_append.1 hmem with hmem | hmem
    · exact tracked.home satpoint id hrow (by rw [hbefore]; rfl) htxid move hmem hid
    · obtain ⟨flotsam, hflotsam, rfl⟩ := mem_map.1 hmem
      obtain ⟨hspent, hrow'⟩ := hrows flotsam hflotsam
      obtain rfl : flotsam.inscriptionId = id := hid
      rw [tracked.once _ _ _ hrow hrow'] at hinput
      exact absurd hspent hinput
  · exact taken.leaving_append known hfresh hspend tracked.leaving
  · intro flotsam hmem fee inscription horigin
    rcases mem_append.1 hmem with hmem | hmem
    · rw [(hold flotsam hmem).2] at horigin
      cases horigin
    · exact tracked.arriving flotsam hmem fee inscription horigin
  · intro flotsam hmem
    rcases mem_append.1 hmem with hmem | hmem
    · exact ⟨flotsam.move, List.mem_append_right _ (List.mem_map_of_mem hmem), rfl⟩
    · obtain ⟨move, hmove, hid⟩ := tracked.onTheWay flotsam hmem
      exact ⟨move, List.mem_append_left _ hmove, hid⟩
  · exact hdistinct
  · refine tracked.opened.mono fun head ⟨hseen, hmade⟩ => ⟨mem_cons_of_mem _ hseen, ?_⟩
    rintro ⟨move, hmem, hid⟩
    rcases mem_append.1 hmem with hmem | hmem
    · exact hmade ⟨move, hmem, hid⟩
    · obtain ⟨flotsam, hflotsam, rfl⟩ := mem_map.1 hmem
      obtain ⟨move, hmove, hid'⟩ := tracked.made _ _ (hrows flotsam hflotsam).2
      exact hmade ⟨move, hmove, hid'.trans hid⟩

end Spend

/-! ### Revealing -/

/-- The open chains may change. -/
theorem withChains (tracked : Tracked satpointToId partialTxidToTxids queue chain moves)
    {chains : KeyTable Txid (List Txid)}
    (opened : OpenChains chains fun head =>
      head ∈ chain.seen ∧ ¬ Made moves { txid := head, index := 0 }) :
    Tracked satpointToId chains queue chain moves :=
  { tracked with opened := opened }

/-- A new inscription joins the queue, and the history in front of the transfers of its transaction. -/
theorem arrive {transfers : List Move}
    (tracked : Tracked satpointToId partialTxidToTxids queue chain (moves ++ transfers))
    {flotsam : Flotsam} {fee : ℕ} {inscription : Inscription}
    (horigin : flotsam.origin = .new fee inscription)
    (hmade : ¬ Made (moves ++ transfers) flotsam.inscriptionId) (htxid : flotsam.txid ∈ chain.seen)
    (hseen : flotsam.inscriptionId.txid ∈ chain.seen) {chains : KeyTable Txid (List Txid)}
    (opened : OpenChains chains fun head =>
      (head ∈ chain.seen ∧ ¬ Made (moves ++ transfers) { txid := head, index := 0 }) ∧
        head ≠ flotsam.inscriptionId.txid) :
    Tracked satpointToId chains (flotsam :: queue) chain (moves ++ flotsam.move :: transfers) := by
  have hnew : flotsam.move.isNew = true := by rw [Flotsam.move, horigin]
  have hgrown : ∀ {id}, Made (moves ++ transfers) id → Made (moves ++ flotsam.move :: transfers) id := by
    rintro id ⟨move, hmem, hid⟩
    refine ⟨move, ?_, hid⟩
    rw [mem_append] at hmem
    rw [mem_append, mem_cons]
    exact hmem.imp_right .inr
  have hcases : ∀ move ∈ moves ++ flotsam.move :: transfers,
      move = flotsam.move ∨ move ∈ moves ++ transfers := by
    intro move hmem
    rw [mem_append, mem_cons] at hmem
    rw [mem_append]
    tauto
  constructor
  · exact tracked.history.insert_new hnew hmade
  · intro move hmem
    rcases hcases move hmem with rfl | hmem
    · exact ⟨htxid, hseen⟩
    · exact tracked.seen move hmem
  · exact tracked.rowSeen
  · exact tracked.inside
  · exact tracked.once
  · exact fun satpoint id hrow => hgrown (tracked.made satpoint id hrow)
  · intro satpoint id hrow hsome hhome move hmem hid
    rcases hcases move hmem with rfl | hmem
    · exact hnew
    · exact tracked.home satpoint id hrow hsome hhome move hmem hid
  · intro other hmem satpoint hold
    rcases mem_cons.1 hmem with rfl | hmem
    · rw [horigin] at hold
      cases hold
    · exact tracked.leaving other hmem satpoint hold
  · intro other hmem fee' inscription' harriving satpoint hrow
    rcases mem_cons.1 hmem with rfl | hmem
    · exact hmade (tracked.made satpoint _ hrow)
    · exact tracked.arriving other hmem fee' inscription' harriving satpoint hrow
  · intro other hmem
    rcases mem_cons.1 hmem with rfl | hmem
    · exact ⟨other.move, List.mem_append_right _ mem_cons_self, rfl⟩
    · exact hgrown (tracked.onTheWay other hmem)
  · rw [map_cons, nodup_cons]
    refine ⟨fun hmem => ?_, tracked.distinct⟩
    obtain ⟨other, hother, heq⟩ := mem_map.1 hmem
    exact hmade (heq ▸ tracked.onTheWay other hother)
  · refine opened.mono fun head ⟨⟨hhead, hfree⟩, hne⟩ => ⟨hhead, ?_⟩
    rintro ⟨move, hmem, hid⟩
    rcases hcases move hmem with rfl | hmem
    · exact hne (congrArg InscriptionId.txid hid).symm
    · exact hfree ⟨move, hmem, hid⟩

/-! ### Placing -/

/-- The first inscription of the queue is placed inside an unspent output, or into the lost range. -/
theorem place {flotsam : Flotsam} {satpoint : SatPoint}
    (tracked : Tracked satpointToId partialTxidToTxids (flotsam :: queue) chain moves)
    (known : chain.Known)
    (hplace : (∃ value, chain.utxo.lookup satpoint.outpoint = some value ∧ satpoint.offset < value) ∨
      satpoint.outpoint = OutPoint.null)
    (hhome : satpoint.outpoint.txid = flotsam.inscriptionId.txid →
      ∀ move ∈ moves, move.inscriptionId = flotsam.inscriptionId → move.isNew = true) :
    Tracked
      ((match flotsam.origin with
        | .old old => satpointToId.erase old
        | .new _ _ => satpointToId).insert satpoint flotsam.inscriptionId)
      partialTxidToTxids queue chain moves := by
  have hrows : ∀ {other id}, ((match flotsam.origin with
        | .old old => satpointToId.erase old
        | .new _ _ => satpointToId).insert satpoint flotsam.inscriptionId).lookup other = some id →
      (other = satpoint ∧ id = flotsam.inscriptionId) ∨
        (satpointToId.lookup other = some id ∧ id ≠ flotsam.inscriptionId) := by
    intro other id hrow
    rcases lookup_insert_cases hrow with hnew | ⟨-, hrow⟩
    · exact .inl hnew
    · right
      cases horigin : flotsam.origin with
      | old old =>
          rw [horigin] at hrow
          obtain ⟨hne, hrow⟩ := lookup_erase_cases hrow
          refine ⟨hrow, ?_⟩
          rintro rfl
          exact hne (tracked.once _ _ _ hrow (tracked.leaving flotsam mem_cons_self old horigin).1)
      | new fee inscription =>
          rw [horigin] at hrow
          refine ⟨hrow, ?_⟩
          rintro rfl
          exact tracked.arriving flotsam mem_cons_self fee inscription horigin other hrow
  have hdistinct := nodup_cons.1 tracked.distinct
  have hother : ∀ other ∈ queue, other.inscriptionId ≠ flotsam.inscriptionId := by
    intro other hmem heq
    exact hdistinct.1 (heq ▸ List.mem_map_of_mem hmem)
  constructor
  · exact tracked.history
  · exact tracked.seen
  · intro other id hrow
    rcases hrows hrow with ⟨rfl, -⟩ | ⟨hrow, -⟩
    · rcases hplace with ⟨value, hvalue, -⟩ | hnull
      · exact .inr (known.2 _ value hvalue)
      · exact .inl hnull
    · exact tracked.rowSeen other id hrow
  · intro other id value hrow hvalue
    rcases hrows hrow with ⟨rfl, -⟩ | ⟨hrow, -⟩
    · rcases hplace with ⟨found, hfound, hlt⟩ | hnull
      · rw [hvalue] at hfound
        cases hfound
        exact hlt
      · rw [hnull, lookup_null known] at hvalue
        cases hvalue
    · exact tracked.inside other id value hrow hvalue
  · intro other other' id hrow hrow'
    rcases hrows hrow with ⟨rfl, rfl⟩ | ⟨hrow, hne⟩
    · rcases hrows hrow' with ⟨rfl, -⟩ | ⟨-, hne⟩
      · rfl
      · exact absurd rfl hne
    · rcases hrows hrow' with ⟨-, rfl⟩ | ⟨hrow', -⟩
      · exact absurd rfl hne
      · exact tracked.once _ _ _ hrow hrow'
  · intro other id hrow
    rcases hrows hrow with ⟨-, rfl⟩ | ⟨hrow, -⟩
    · exact tracked.onTheWay flotsam mem_cons_self
    · exact tracked.made other id hrow
  · intro other id hrow hsome htxid
    rcases hrows hrow with ⟨rfl, rfl⟩ | ⟨hrow, -⟩
    · exact hhome htxid
    · exact tracked.home other id hrow hsome htxid
  · intro other hmem old horigin
    obtain ⟨hrow, hgone, hseen⟩ := tracked.leaving other (mem_cons_of_mem _ hmem) old horigin
    refine ⟨?_, hgone, hseen⟩
    have hne : old ≠ satpoint := by
      rintro rfl
      rcases hplace with ⟨value, hvalue, -⟩ | hnull
      · rw [hgone] at hvalue
        cases hvalue
      · rw [hnull] at hseen
        exact known.1 hseen
    rw [lookup_insert_ite, if_neg hne]
    cases hfirst : flotsam.origin with
    | old first =>
        dsimp only
        rw [lookup_erase_ite, if_neg, hrow]
        rintro rfl
        have hsame := (tracked.leaving flotsam mem_cons_self _ hfirst).1
        rw [hrow] at hsame
        exact hother other hmem (Option.some.inj hsame)
    | new fee inscription => exact hrow
  · intro other hmem fee inscription horigin found hrow
    rcases hrows hrow with ⟨-, heq⟩ | ⟨hrow, -⟩
    · exact hother other hmem heq
    · exact tracked.arriving other (mem_cons_of_mem _ hmem) fee inscription horigin found hrow
  · exact fun other hmem => tracked.onTheWay other (mem_cons_of_mem _ hmem)
  · exact hdistinct.2
  · exact tracked.opened

end Tracked

end OrdDogecoin.Inscriptions
