/-
Module: OrdDogecoin.Inscriptions.Location
Purpose: Where inscriptions are.  `Located` says that the two location tables are inverse and that
  every row is at an unspent output, in the lost range, or on its way; moving an inscription to a
  free place keeps it.
Trusted boundary: none
Main exports: Settled, Located.placeAll, Chains
-/
import OrdDogecoin.Inscriptions.Indexing

namespace OrdDogecoin.Inscriptions

open Chain KeyTable

variable {K P : Type} {env : IndexEnv K P} {context : BlockContext K P} {tx : Transaction}

/-! ### One move -/

section Update

variable (env context tx) (flotsam : Flotsam) (satpoint : SatPoint) (updater : Updater K P)

/-- What moving inscriptions leaves alone. -/
structure SameBesidesLocations (before after : Updater K P) : Prop where
  flotsam : after.flotsam = before.flotsam
  reward : after.reward = before.reward
  valueCache : after.valueCache = before.valueCache
  outpointToValue : after.outpointToValue = before.outpointToValue
  partialTxidToTxids : after.partialTxidToTxids = before.partialTxidToTxids
  txidToTx : after.txidToTx = before.txidToTx
  lostSats : after.lostSats = before.lostSats

theorem SameBesidesLocations.refl (updater : Updater K P) : SameBesidesLocations updater updater :=
  ⟨rfl, rfl, rfl, rfl, rfl, rfl, rfl⟩

theorem SameBesidesLocations.trans {first second third : Updater K P}
    (left : SameBesidesLocations first second) (right : SameBesidesLocations second third) :
    SameBesidesLocations first third where
  flotsam := right.flotsam.trans left.flotsam
  reward := right.reward.trans left.reward
  valueCache := right.valueCache.trans left.valueCache
  outpointToValue := right.outpointToValue.trans left.outpointToValue
  partialTxidToTxids := right.partialTxidToTxids.trans left.partialTxidToTxids
  txidToTx := right.txidToTx.trans left.txidToTx
  lostSats := right.lostSats.trans left.lostSats

theorem sameBesidesLocations_update :
    SameBesidesLocations updater
      (updateInscriptionLocation env context tx flotsam satpoint updater) := by
  unfold updateInscriptionLocation enterNewLocation tapHook recordOperation leaveOldLocation
  cases flotsam.origin with
  | old old => exact ⟨rfl, rfl, rfl, rfl, rfl, rfl, rfl⟩
  | new fee inscription => constructor <;> dsimp only <;> split <;> rfl

theorem satpointToId_update :
    (updateInscriptionLocation env context tx flotsam satpoint updater).satpointToId =
      (match flotsam.origin with
        | .old old => updater.satpointToId.erase old
        | .new _ _ => updater.satpointToId).insert satpoint flotsam.inscriptionId := by
  unfold updateInscriptionLocation enterNewLocation tapHook recordOperation leaveOldLocation
  cases flotsam.origin with
  | old old => rfl
  | new fee inscription =>
      dsimp only
      split <;> rfl

theorem nextNumber_update :
    (updateInscriptionLocation env context tx flotsam satpoint updater).nextNumber =
      match flotsam.origin with
      | .old _ => updater.nextNumber
      | .new _ _ => updater.nextNumber + 1 := by
  unfold updateInscriptionLocation enterNewLocation tapHook recordOperation leaveOldLocation
  cases flotsam.origin with
  | old old => rfl
  | new fee inscription =>
      dsimp only
      split <;> rfl

variable (full : env.tapLean = false)

include full

theorem idToSatpoint_update :
    (updateInscriptionLocation env context tx flotsam satpoint updater).idToSatpoint =
      updater.idToSatpoint.insert flotsam.inscriptionId satpoint := by
  unfold updateInscriptionLocation enterNewLocation tapHook recordOperation leaveOldLocation
  cases flotsam.origin with
  | old old => simp [full]
  | new fee inscription => simp [full, IndexEnv.keeps]

theorem numberToId_update :
    (updateInscriptionLocation env context tx flotsam satpoint updater).numberToId =
      match flotsam.origin with
      | .old _ => updater.numberToId
      | .new _ _ => updater.numberToId.insert updater.nextNumber flotsam.inscriptionId := by
  unfold updateInscriptionLocation enterNewLocation tapHook recordOperation leaveOldLocation
  cases flotsam.origin with
  | old old => rfl
  | new fee inscription => simp [full, IndexEnv.keeps]

end Update

/-- A row after a move is the new one, or an old one of another inscription. -/
theorem lookup_update {updater : Updater K P} {flotsam : Flotsam} {satpoint other : SatPoint}
    {id : InscriptionId}
    (hrow : (updateInscriptionLocation env context tx flotsam satpoint updater).satpointToId.lookup
      other = some id) :
    (other = satpoint ∧ id = flotsam.inscriptionId) ∨
      (updater.satpointToId.lookup other = some id ∧ flotsam.origin ≠ .old other) := by
  rw [satpointToId_update] at hrow
  rcases lookup_insert_cases hrow with hnew | ⟨-, hold⟩
  · exact .inl hnew
  · right
    cases horigin : flotsam.origin with
    | old old =>
        rw [horigin] at hold
        obtain ⟨hne, hold⟩ := lookup_erase_cases hold
        refine ⟨hold, fun h => hne ?_⟩
        cases h
        rfl
    | new fee inscription =>
        rw [horigin] at hold
        exact ⟨hold, fun h => by cases h⟩

/-! ### Numbers -/

/-- Exactly the located inscriptions have a number, each its own, and all are below the next one. -/
structure Numbered (numberToId : KeyTable ℕ InscriptionId) (nextNumber : ℕ)
    (idToSatpoint : KeyTable InscriptionId SatPoint) : Prop where
  iff_located : ∀ id, (∃ number, numberToId.lookup number = some id) ↔
    (idToSatpoint.lookup id).isSome
  below : ∀ number id, numberToId.lookup number = some id → number < nextNumber
  once : ∀ number number' id, numberToId.lookup number = some id →
    numberToId.lookup number' = some id → number = number'

namespace Numbered

variable {numberToId : KeyTable ℕ InscriptionId} {nextNumber : ℕ}
  {idToSatpoint : KeyTable InscriptionId SatPoint} {id : InscriptionId}

/-- An inscription that has a location gets another one. -/
theorem keep (numbered : Numbered numberToId nextNumber idToSatpoint)
    (hlocated : (idToSatpoint.lookup id).isSome) (satpoint : SatPoint) :
    Numbered numberToId nextNumber (idToSatpoint.insert id satpoint) where
  iff_located other := by
    rw [numbered.iff_located, lookup_insert_ite]
    split
    next heq =>
      subst heq
      simp [hlocated]
    next => rfl
  below := numbered.below
  once := numbered.once

/-- A new inscription gets the next number and a location. -/
theorem add (numbered : Numbered numberToId nextNumber idToSatpoint)
    (hnew : idToSatpoint.lookup id = none) (satpoint : SatPoint) :
    Numbered (numberToId.insert nextNumber id) (nextNumber + 1)
      (idToSatpoint.insert id satpoint) := by
  have hunnumbered : ∀ {number}, numberToId.lookup number ≠ some id := by
    intro number hnumber
    have hsome := (numbered.iff_located id).1 ⟨number, hnumber⟩
    rw [hnew] at hsome
    cases hsome
  constructor
  · intro other
    rw [lookup_insert_ite]
    constructor
    · rintro ⟨number, hnumber⟩
      rcases lookup_insert_cases hnumber with ⟨-, rfl⟩ | ⟨-, hold⟩
      · rw [if_pos rfl]
        rfl
      · split
        · rfl
        · exact (numbered.iff_located other).1 ⟨number, hold⟩
    · intro hsome
      split at hsome
      next heq =>
        subst heq
        exact ⟨nextNumber, AList.lookup_insert _⟩
      next =>
        obtain ⟨number, hnumber⟩ := (numbered.iff_located other).2 hsome
        have hlt := numbered.below number other hnumber
        exact ⟨number, by rw [AList.lookup_insert_ne (by omega), hnumber]⟩
  · intro number other hnumber
    rcases lookup_insert_cases hnumber with ⟨rfl, -⟩ | ⟨-, hold⟩
    · exact Nat.lt_succ_self _
    · exact Nat.lt_succ_of_lt (numbered.below number other hold)
  · intro number number' other hnumber hnumber'
    rcases lookup_insert_cases hnumber with ⟨rfl, rfl⟩ | ⟨-, hold⟩
    · rcases lookup_insert_cases hnumber' with ⟨rfl, -⟩ | ⟨-, hold'⟩
      · rfl
      · exact absurd hold' hunnumbered
    · rcases lookup_insert_cases hnumber' with ⟨-, rfl⟩ | ⟨-, hold'⟩
      · exact absurd hold hunnumbered
      · exact numbered.once number number' other hold hold'

end Numbered

/-! ### The location invariant -/

/-- A satpoint inside an unspent output, or in the lost range. -/
def Settled (chain : ChainState) (lostSats : ℕ) (satpoint : SatPoint) : Prop :=
  (∃ value, chain.utxo.lookup satpoint.outpoint = some value ∧ satpoint.offset < value) ∨
    (satpoint.outpoint = OutPoint.null ∧ satpoint.offset < lostSats)

/-- The location tables while the inscriptions of `pending` are on their way: their old rows, if they
have one, are still there. -/
structure Located (updater : Updater K P) (pending : List Flotsam) (chain : ChainState)
    (lostSats : ℕ) : Prop where
  inverse : Inverse updater.satpointToId updater.idToSatpoint
  placed : ∀ satpoint id, updater.satpointToId.lookup satpoint = some id →
    Settled chain lostSats satpoint ∨ ∃ flotsam ∈ pending, flotsam.origin = .old satpoint
  leaving : ∀ flotsam ∈ pending, ∀ satpoint, flotsam.origin = .old satpoint →
    updater.satpointToId.lookup satpoint = some flotsam.inscriptionId ∧
      chain.utxo.lookup satpoint.outpoint = none ∧ satpoint.outpoint.txid ∈ chain.seen
  arriving : ∀ flotsam ∈ pending, ∀ fee inscription, flotsam.origin = .new fee inscription →
    updater.idToSatpoint.lookup flotsam.inscriptionId = none
  distinct : (pending.map Flotsam.inscriptionId).Nodup
  numbered : Numbered updater.numberToId updater.nextNumber updater.idToSatpoint

namespace Located

variable {updater : Updater K P} {pending : List Flotsam} {chain : ChainState} {lostSats : ℕ}
  {flotsam : Flotsam} {satpoint : SatPoint}

/-- Both location tables after a move to a free place. -/
theorem inverse_update (located : Located updater (flotsam :: pending) chain lostSats)
    (full : env.tapLean = false) (hfree : updater.satpointToId.lookup satpoint = none) :
    Inverse (updateInscriptionLocation env context tx flotsam satpoint updater).satpointToId
      (updateInscriptionLocation env context tx flotsam satpoint updater).idToSatpoint := by
  rw [satpointToId_update, idToSatpoint_update env context tx flotsam satpoint updater full]
  cases horigin : flotsam.origin with
  | old old =>
      have hleaving := located.leaving flotsam List.mem_cons_self old horigin
      exact located.inverse.move hleaving.1 hfree
  | new fee inscription =>
      have harriving := located.arriving flotsam List.mem_cons_self fee inscription horigin
      exact located.inverse.add hfree harriving

/-- The numbers after a move. -/
theorem numbered_update (located : Located updater (flotsam :: pending) chain lostSats)
    (full : env.tapLean = false) :
    Numbered (updateInscriptionLocation env context tx flotsam satpoint updater).numberToId
      (updateInscriptionLocation env context tx flotsam satpoint updater).nextNumber
      (updateInscriptionLocation env context tx flotsam satpoint updater).idToSatpoint := by
  rw [numberToId_update env context tx flotsam satpoint updater full, nextNumber_update,
    idToSatpoint_update env context tx flotsam satpoint updater full]
  cases horigin : flotsam.origin with
  | old old =>
      have hleaving := located.leaving flotsam List.mem_cons_self old horigin
      apply located.numbered.keep
      rw [(located.inverse old _).1 hleaving.1]
      rfl
  | new fee inscription =>
      exact located.numbered.add
        (located.arriving flotsam List.mem_cons_self fee inscription horigin) satpoint

/-- The other inscriptions on their way keep their rows. -/
theorem leaving_update (located : Located updater (flotsam :: pending) chain lostSats)
    (hfree : updater.satpointToId.lookup satpoint = none) {other : Flotsam} (hmem : other ∈ pending)
    {old : SatPoint} (horigin : other.origin = .old old) :
    (updateInscriptionLocation env context tx flotsam satpoint updater).satpointToId.lookup old =
      some other.inscriptionId := by
  have hrow := (located.leaving other (List.mem_cons_of_mem _ hmem) old horigin).1
  rw [satpointToId_update, lookup_insert_ite, if_neg]
  · cases hfirst : flotsam.origin with
    | old first =>
        dsimp only
        rw [lookup_erase_ite, if_neg, hrow]
        rintro rfl
        have hsame := (located.leaving flotsam List.mem_cons_self _ hfirst).1
        rw [hrow] at hsame
        apply (List.nodup_cons.1 located.distinct).1
        rw [← Option.some.inj hsame]
        exact List.mem_map_of_mem hmem
    | new fee inscription => exact hrow
  · rintro rfl
    rw [hfree] at hrow
    cases hrow

/-- Moving an inscription to a free, settled place. -/
theorem update (located : Located updater (flotsam :: pending) chain lostSats)
    (full : env.tapLean = false) (hfree : updater.satpointToId.lookup satpoint = none)
    (hsettled : Settled chain lostSats satpoint) :
    Located (updateInscriptionLocation env context tx flotsam satpoint updater) pending chain
      lostSats where
  inverse := located.inverse_update full hfree
  placed other id hrow := by
    rcases lookup_update hrow with ⟨rfl, -⟩ | ⟨hold, hne⟩
    · exact .inl hsettled
    · rcases located.placed other id hold with hplace | ⟨found, hfound, horigin⟩
      · exact .inl hplace
      · rcases List.mem_cons.1 hfound with rfl | hfound
        · exact absurd horigin hne
        · exact .inr ⟨found, hfound, horigin⟩
  leaving other hmem old horigin :=
    ⟨located.leaving_update hfree hmem horigin,
      (located.leaving other (List.mem_cons_of_mem _ hmem) old horigin).2⟩
  arriving other hmem fee inscription horigin := by
    rw [idToSatpoint_update env context tx flotsam satpoint updater full, lookup_insert_ite, if_neg]
    · exact located.arriving other (List.mem_cons_of_mem _ hmem) fee inscription horigin
    · intro heq
      apply (List.nodup_cons.1 located.distinct).1
      rw [← heq]
      exact List.mem_map_of_mem hmem
  distinct := (List.nodup_cons.1 located.distinct).2
  numbered := located.numbered_update full

end Located

/-! ### Chains of partial reveals -/

/-- An id that neither has a location nor is on its way to one. -/
def Unused (updater : Updater K P) (pending : List Flotsam) (id : InscriptionId) : Prop :=
  updater.idToSatpoint.lookup id = none ∧ ∀ flotsam ∈ pending, flotsam.inscriptionId ≠ id

/-- Ids come from transactions that were seen, and the first reveal of an open chain is not used as an
id yet, by no other chain either. -/
structure Chains (updater : Updater K P) (pending : List Flotsam) (seen : List Txid) : Prop where
  located : ∀ id satpoint, updater.idToSatpoint.lookup id = some satpoint → id.txid ∈ seen
  onTheWay : ∀ flotsam ∈ pending, flotsam.inscriptionId.txid ∈ seen
  opened : ∀ key txids, updater.partialTxidToTxids.lookup key = some txids →
    key ∈ seen ∧ ∃ head rest, txids = head :: rest ∧ head ∈ seen ∧ Unused updater pending ⟨head, 0⟩
  heads : ∀ key key' head rest rest', updater.partialTxidToTxids.lookup key = some (head :: rest) →
    updater.partialTxidToTxids.lookup key' = some (head :: rest') → key = key'
  stored : ∀ key txids, updater.partialTxidToTxids.lookup key = some txids →
    ∀ txid ∈ txids, (updater.txidToTx.lookup txid).isSome

section Chains

variable {updater : Updater K P} {pending : List Flotsam} {seen : List Txid} {flotsam : Flotsam}
  {satpoint : SatPoint}

theorem Unused.update {id : InscriptionId} (unused : Unused updater (flotsam :: pending) id)
    (full : env.tapLean = false) :
    Unused (updateInscriptionLocation env context tx flotsam satpoint updater) pending id := by
  constructor
  · rw [idToSatpoint_update env context tx flotsam satpoint updater full, lookup_insert_ite, if_neg]
    · exact unused.1
    · exact (unused.2 flotsam List.mem_cons_self).symm
  · exact fun other hmem => unused.2 other (List.mem_cons_of_mem _ hmem)

theorem Chains.update (chains : Chains updater (flotsam :: pending) seen)
    (full : env.tapLean = false) :
    Chains (updateInscriptionLocation env context tx flotsam satpoint updater) pending seen := by
  have same := sameBesidesLocations_update env context tx flotsam satpoint updater
  constructor
  · intro id found hfound
    rw [idToSatpoint_update env context tx flotsam satpoint updater full] at hfound
    rcases lookup_insert_cases hfound with ⟨rfl, -⟩ | ⟨-, hold⟩
    · exact chains.onTheWay flotsam List.mem_cons_self
    · exact chains.located id found hold
  · exact fun other hmem => chains.onTheWay other (List.mem_cons_of_mem _ hmem)
  · intro key txids hrow
    rw [same.partialTxidToTxids] at hrow
    obtain ⟨hkey, head, rest, heq, hhead, hunused⟩ := chains.opened key txids hrow
    exact ⟨hkey, head, rest, heq, hhead, hunused.update full⟩
  · rw [same.partialTxidToTxids]
    exact chains.heads
  · rw [same.partialTxidToTxids, same.txidToTx]
    exact chains.stored

end Chains

/-! ### Several moves -/

/-- Moving a list of inscriptions to distinct, free, settled places, by induction on the list. -/
theorem placeAll_spec (full : env.tapLean = false) (context : BlockContext K P) (tx : Transaction)
    (place : Flotsam → SatPoint) {pending : List Flotsam} {chain : ChainState} {lostSats : ℕ} {seen : List Txid}
    (here : List Flotsam) :
    ∀ {updater : Updater K P}, Located updater (here ++ pending) chain lostSats →
      Chains updater (here ++ pending) seen →
      (∀ flotsam ∈ here, updater.satpointToId.lookup (place flotsam) = none) →
      (here.map place).Nodup → (∀ flotsam ∈ here, Settled chain lostSats (place flotsam)) →
      Located (placeAll env context tx place here updater) pending chain lostSats ∧
        Chains (placeAll env context tx place here updater) pending seen ∧
        SameBesidesLocations updater (placeAll env context tx place here updater) ∧
        ∀ satpoint id, (placeAll env context tx place here updater).satpointToId.lookup satpoint =
          some id → (∃ flotsam ∈ here, satpoint = place flotsam) ∨
            (updater.satpointToId.lookup satpoint).isSome := by
  induction here with
  | nil =>
      intro updater located chains _ _ _
      refine ⟨located, chains, .refl updater, fun satpoint id hrow => .inr ?_⟩
      change updater.satpointToId.lookup satpoint = some id at hrow
      rw [hrow]
      rfl
  | cons flotsam here ih =>
      intro updater located chains hfree hdistinct hsettled
      obtain ⟨hfresh, hdistinct⟩ := List.nodup_cons.1 hdistinct
      have hfirst := hfree flotsam List.mem_cons_self
      have located' : Located (updateInscriptionLocation env context tx flotsam (place flotsam)
          updater) (here ++ pending) chain lostSats :=
        located.update full hfirst (hsettled flotsam List.mem_cons_self)
      have hfree' : ∀ other ∈ here,
          (updateInscriptionLocation env context tx flotsam (place flotsam)
            updater).satpointToId.lookup (place other) = none := by
        intro other hmem
        by_contra hsome
        obtain ⟨id, hrow⟩ := Option.ne_none_iff_exists'.1 hsome
        rcases lookup_update hrow with ⟨heq, -⟩ | ⟨hold, -⟩
        · exact hfresh (heq ▸ List.mem_map_of_mem hmem)
        · rw [hfree other (List.mem_cons_of_mem _ hmem)] at hold
          cases hold
      obtain ⟨hlocated, hchains, hsame, hrows⟩ := ih located' (chains.update full) hfree' hdistinct
        fun other hmem => hsettled other (List.mem_cons_of_mem _ hmem)
      refine ⟨hlocated, hchains, (sameBesidesLocations_update _ _ _ _ _ _).trans hsame, ?_⟩
      intro satpoint id hrow
      rcases hrows satpoint id hrow with ⟨other, hmem, heq⟩ | hold
      · exact .inl ⟨other, List.mem_cons_of_mem _ hmem, heq⟩
      · obtain ⟨id', hold⟩ := Option.isSome_iff_exists.1 hold
        rcases lookup_update hold with ⟨heq, -⟩ | ⟨hold, -⟩
        · exact .inl ⟨flotsam, List.mem_cons_self, heq⟩
        · exact .inr (Option.isSome_iff_exists.2 ⟨id', hold⟩)

end OrdDogecoin.Inscriptions
