/-
Module: OrdDogecoin.Dunes.Edicts
Purpose: The edict loop of the dune updater: what one edict and a whole list of edicts do to the
  pools, and the requests under which no addition or subtraction of the loop leaves `u128`.
Trusted boundary: none
Main exports: premineRequest, EdictsApplied, applyEdicts_spec
-/
import OrdDogecoin.Dunes.Amounts

namespace OrdDogecoin.Dunes

open KeyTable

/-! ### Requests -/

/-- The amounts of the edicts that name an output and satisfy `select`. -/
def requests (outputs : ℕ) (select : ℕ → Bool) (edicts : List Edict) : List ℕ :=
  (edicts.filter fun edict => edict.output < outputs && select edict.id).map Edict.amount

/-- What the edicts ask for of the new dune, counted without regard to what is left of it. -/
def premineRequest (outputs : ℕ) (edicts : List Edict) : ℕ :=
  (requests outputs (· = 0) edicts).sum

/-- The amounts of the edicts that mint a dune. -/
def claimAmounts (outputs id : ℕ) (edicts : List Edict) : List ℕ :=
  requests outputs (fun edictId => claim edictId = some id) edicts

/-- What a list of amounts takes from a balance: an amount of zero takes all of it. -/
def requested (balance : ℕ) (amounts : List ℕ) : ℕ :=
  if 0 ∈ amounts then balance else min balance amounts.sum

/-- What the edicts mint of a dune of which one transaction may mint `balance`. -/
def mintRequest (outputs id balance : ℕ) (edicts : List Edict) : ℕ :=
  requested balance (claimAmounts outputs id edicts)

@[simp] theorem requests_nil (outputs : ℕ) (select : ℕ → Bool) : requests outputs select [] = [] :=
  rfl

theorem requests_cons (outputs : ℕ) (select : ℕ → Bool) (edict : Edict) (edicts : List Edict) :
    requests outputs select (edict :: edicts) =
      if edict.output < outputs ∧ select edict.id then edict.amount :: requests outputs select edicts
      else requests outputs select edicts := by
  rw [requests, List.filter_cons]
  by_cases h : edict.output < outputs ∧ select edict.id
  · rw [if_pos h, if_pos (by simpa using h)]
    rfl
  · rw [if_neg h, if_neg (by simpa using h)]
    rfl

@[simp] theorem requested_nil (balance : ℕ) : requested balance [] = 0 := by simp [requested]

theorem requested_le (balance : ℕ) (amounts : List ℕ) : requested balance amounts ≤ balance := by
  unfold requested
  split
  · exact Nat.le_refl _
  · exact Nat.min_le_left _ _

@[simp] theorem requested_zero (amounts : List ℕ) : requested 0 amounts = 0 :=
  Nat.le_zero.1 (requested_le 0 amounts)

/-- The first amount takes its part, the others take theirs from the rest. -/
theorem requested_cons (balance amount : ℕ) (amounts : List ℕ) :
    requested balance (amount :: amounts) =
      taken balance amount + requested (balance - taken balance amount) amounts := by
  by_cases hamount : amount = 0
  · subst hamount
    simp [requested, taken]
  · by_cases hzero : 0 ∈ amounts
    · rw [requested, requested, if_pos (List.mem_cons_of_mem _ hzero), if_pos hzero]
      have hle := taken_le balance amount
      omega
    · have hcons : 0 ∉ amount :: amounts := by
        rw [List.mem_cons]
        rintro (h | h)
        · exact hamount h.symm
        · exact hzero h
      rw [requested, requested, if_neg hcons, if_neg hzero, taken, if_neg hamount, List.sum_cons]
      omega

theorem claim_zero : claim 0 = none := by decide

/-! ### The pools of a run of edicts -/

/-- What is left of the new issuance, if `id` is the new dune. -/
def newAmount (newId : Option ℕ) (pools : Pools) (id : ℕ) : ℕ :=
  if newId = some id then pools.issuance else 0

/-- Everything of a dune that the inputs, the outputs, the remaining edicts and the new issuance
can put on outputs. -/
def reach (newId : Option ℕ) (edicts : List Edict) (pools : Pools) (id : ℕ) : ℕ :=
  amountAt pools.unallocated id + allocatedTotal pools.allocated id +
    mintRequest pools.allocated.length id (amountAt pools.mintable id) edicts +
    newAmount newId pools id

/-- The edicts ask for amounts that fit. -/
structure EdictsFit (newId : Option ℕ) (edicts : List Edict) (pools : Pools) : Prop where
  premine : newId.isSome → pools.premine + premineRequest pools.allocated.length edicts ≤ maxU128
  issued : pools.issuance + pools.premine ≤ maxU128
  room : ∀ id, reach newId edicts pools id ≤ maxU128

structure PoolsWithin (ids : ℕ → Prop) (pools : Pools) : Prop where
  unallocated : Within ids pools.unallocated
  mintable : Within ids pools.mintable
  allocated : AllWithin ids pools.allocated

/-- What the edicts of a list `edicts` in front of `rest` have done to the pools. -/
structure EdictsApplied (newId : Option ℕ) (edicts rest : List Edict) (before after : Pools) :
    Prop where
  length : after.allocated.length = before.allocated.length
  reach : ∀ id, reach newId rest after id = reach newId edicts before id
  mintable : ∀ id, amountAt after.mintable id +
      mintRequest before.allocated.length id (amountAt before.mintable id) edicts =
    amountAt before.mintable id +
      mintRequest before.allocated.length id (amountAt after.mintable id) rest
  keys : ∀ id, (after.mintable.lookup id).isSome = (before.mintable.lookup id).isSome
  premine : newId.isSome → after.premine + premineRequest before.allocated.length rest =
    before.premine + premineRequest before.allocated.length edicts
  issued : after.issuance + after.premine ≤ maxU128
  within : ∀ ids : ℕ → Prop, (∀ id, newId = some id → ids id) → PoolsWithin ids before →
    PoolsWithin ids after

variable {newId : Option ℕ} {edict : Edict} {edicts rest : List Edict} {before middle after : Pools}

/-- The remaining edicts still fit. -/
theorem EdictsApplied.fit (applied : EdictsApplied newId edicts rest before after)
    (fit : EdictsFit newId edicts before) : EdictsFit newId rest after where
  premine hnew := by
    rw [applied.length, applied.premine hnew]
    exact fit.premine hnew
  issued := applied.issued
  room id := by
    rw [applied.reach]
    exact fit.room id

theorem EdictsApplied.refl (fit : EdictsFit newId edicts before) :
    EdictsApplied newId edicts edicts before before where
  length := rfl
  reach _ := rfl
  mintable _ := rfl
  keys _ := rfl
  premine _ := rfl
  issued := fit.issued
  within _ _ hwithin := hwithin

theorem EdictsApplied.trans {others : List Edict}
    (first : EdictsApplied newId edicts others before middle)
    (second : EdictsApplied newId others rest middle after) :
    EdictsApplied newId edicts rest before after where
  length := second.length.trans first.length
  reach id := (second.reach id).trans (first.reach id)
  mintable id := by
    have hfirst := first.mintable id
    have hsecond := second.mintable id
    rw [first.length] at hsecond
    omega
  keys id := (second.keys id).trans (first.keys id)
  premine hnew := by
    have hfirst := first.premine hnew
    have hsecond := second.premine hnew
    rw [first.length] at hsecond
    exact hsecond.trans hfirst
  issued := second.issued
  within ids hnew hwithin := second.within ids hnew (first.within ids hnew hwithin)

/-- An edict that moves nothing. -/
theorem EdictsApplied.skip (fit : EdictsFit newId (edict :: rest) before)
    (hmint : ∀ id, mintRequest before.allocated.length id (amountAt before.mintable id)
        (edict :: rest) =
      mintRequest before.allocated.length id (amountAt before.mintable id) rest)
    (hpremine : newId.isSome → premineRequest before.allocated.length (edict :: rest) =
      premineRequest before.allocated.length rest) :
    EdictsApplied newId (edict :: rest) rest before before where
  length := rfl
  reach id := by rw [Dunes.reach, Dunes.reach, hmint]
  mintable id := by rw [hmint]
  keys _ := rfl
  premine hnew := by rw [hpremine hnew]
  issued := fit.issued
  within _ _ hwithin := hwithin

/-! ### Requests of the first edict -/

theorem mintRequest_cons_of_not {outputs id balance : ℕ}
    (hnot : ¬ (edict.output < outputs ∧ claim edict.id = some id)) :
    mintRequest outputs id balance (edict :: rest) = mintRequest outputs id balance rest := by
  rw [mintRequest, claimAmounts, requests_cons, if_neg (by simpa using hnot)]
  rfl

theorem mintRequest_cons {outputs id balance : ℕ} (houtput : edict.output < outputs)
    (hclaim : claim edict.id = some id) :
    mintRequest outputs id balance (edict :: rest) =
      taken balance edict.amount +
        mintRequest outputs id (balance - taken balance edict.amount) rest := by
  rw [mintRequest, claimAmounts, requests_cons, if_pos ⟨houtput, by simpa using hclaim⟩,
    requested_cons]
  rfl

theorem premineRequest_cons_of_not {outputs : ℕ} (hnot : ¬ (edict.output < outputs ∧ edict.id = 0)) :
    premineRequest outputs (edict :: rest) = premineRequest outputs rest := by
  rw [premineRequest, requests_cons, if_neg (by simpa using hnot)]
  rfl

theorem premineRequest_cons {outputs : ℕ} (houtput : edict.output < outputs) (hid : edict.id = 0) :
    premineRequest outputs (edict :: rest) = edict.amount + premineRequest outputs rest := by
  rw [premineRequest, requests_cons, if_pos ⟨houtput, by simpa using hid⟩, List.sum_cons]
  rfl

/-! ### The three kinds of edict -/

/-- An edict of the new dune. -/
theorem applyEdict_new {id : ℕ} (fit : EdictsFit (some id) (edict :: rest) before)
    (houtput : edict.output < before.allocated.length) (hid : edict.id = 0) :
    ∃ after, applyEdict (some id) edict before = some after ∧
      EdictsApplied (some id) (edict :: rest) rest before after := by
  have hclaim : claim edict.id = none := by rw [hid, claim_zero]
  have hmint : ∀ other balance, mintRequest before.allocated.length other balance (edict :: rest) =
      mintRequest before.allocated.length other balance rest :=
    fun other balance => mintRequest_cons_of_not fun h => by simp [hclaim] at h
  have hroom := fit.room id
  have htaken := taken_le before.issuance edict.amount
  have hpremine := fit.premine rfl
  rw [premineRequest_cons houtput hid] at hpremine
  have hadd : checkedAdd before.premine edict.amount = some (before.premine + edict.amount) :=
    if_pos (by omega)
  have hbound : allocatedTotal before.allocated id + taken before.issuance edict.amount ≤
      maxU128 := by
    rw [reach, newAmount, if_pos rfl] at hroom
    omega
  obtain ⟨allocated, hmove, hspec⟩ := moveAmount_spec edict.amount houtput hbound
  refine ⟨{ before with
    premine := before.premine + edict.amount
    issuance := before.issuance - taken before.issuance edict.amount
    allocated := allocated }, ?_, ?_⟩
  · rw [applyEdict, if_neg (Nat.not_le.2 houtput), if_pos hid, hadd, hmove]
    rfl
  · refine
      { length := hspec.length
        reach := fun other => ?_
        mintable := fun other => by rw [hmint]
        keys := fun _ => rfl
        premine := fun _ => ?_
        issued := ?_
        within := fun ids hnew hwithin =>
          ⟨hwithin.unallocated, hwithin.mintable,
            hspec.within ids hwithin.allocated (hnew id rfl)⟩ }
    · have htotal := hspec.total other
      simp only [reach, newAmount, hmint, hspec.length, htotal, Option.some.injEq]
      split <;> omega
    · rw [premineRequest_cons houtput hid, Nat.add_assoc]
    · have hissued := fit.issued
      change before.issuance - taken before.issuance edict.amount +
        (before.premine + edict.amount) ≤ maxU128
      unfold taken
      split <;> omega

/-- An edict that mints. -/
theorem applyEdict_claim {id : ℕ} (fit : EdictsFit newId (edict :: rest) before)
    (houtput : edict.output < before.allocated.length) (hclaim : claim edict.id = some id) :
    ∃ after, applyEdict newId edict before = some after ∧
      EdictsApplied newId (edict :: rest) rest before after := by
  have hid : edict.id ≠ 0 := by
    intro h
    rw [h, claim_zero] at hclaim
    cases hclaim
  have hpremine : premineRequest before.allocated.length (edict :: rest) =
      premineRequest before.allocated.length rest :=
    premineRequest_cons_of_not fun h => hid h.2
  have hother : ∀ other balance, other ≠ id →
      mintRequest before.allocated.length other balance (edict :: rest) =
        mintRequest before.allocated.length other balance rest := by
    intro other balance hne
    refine mintRequest_cons_of_not fun h => hne ?_
    rw [hclaim] at h
    exact (Option.some.inj h.2).symm
  cases hlookup : before.mintable.lookup id with
  | none =>
      refine ⟨before, ?_, EdictsApplied.skip fit (fun other => ?_) fun _ => hpremine⟩
      · rw [applyEdict.eq_def, if_neg (Nat.not_le.2 houtput), if_neg hid, hclaim]
        simp only [hlookup]
      · by_cases hne : other = id
        · have hzero : amountAt before.mintable other = 0 := by rw [hne, amountAt, hlookup]; rfl
          rw [hzero, mintRequest, requested_zero, mintRequest, requested_zero]
        · exact hother other _ hne
  | some balance =>
      have hbalance : amountAt before.mintable id = balance := amountAt_of_lookup hlookup
      have hroom := fit.room id
      rw [reach, hbalance, mintRequest_cons houtput hclaim] at hroom
      have htaken := taken_le balance edict.amount
      obtain ⟨allocated, hmove, hspec⟩ :=
        moveAmount_spec edict.amount houtput
          (show allocatedTotal before.allocated id + taken balance edict.amount ≤ maxU128 by omega)
      refine ⟨{ before with
        mintable := before.mintable.insert id (balance - taken balance edict.amount)
        allocated := allocated }, ?_, ?_⟩
      · rw [applyEdict.eq_def, if_neg (Nat.not_le.2 houtput), if_neg hid, hclaim]
        simp only [hlookup, hmove]
        rfl
      · refine
          { length := hspec.length
            reach := fun other => ?_
            mintable := fun other => ?_
            keys := fun other => ?_
            premine := fun _ => by rw [hpremine]
            issued := fit.issued
            within := fun ids hnew hwithin =>
              ⟨hwithin.unallocated,
                hwithin.mintable.insert (hwithin.mintable _ _ hlookup),
                hspec.within ids hwithin.allocated (hwithin.mintable _ _ hlookup)⟩ }
        · have htotal := hspec.total other
          simp only [reach, newAmount, hspec.length, htotal, amountAt_insert]
          by_cases hne : other = id
          · subst hne
            rw [if_pos rfl, if_pos rfl, hbalance, mintRequest_cons houtput hclaim]
            omega
          · rw [if_neg hne, if_neg (Ne.symm hne), hother other _ hne]
            rfl
        · simp only [amountAt_insert]
          by_cases hne : other = id
          · subst hne
            rw [if_pos rfl, hbalance, mintRequest_cons houtput hclaim]
            omega
          · rw [if_neg hne, hother other _ hne]
        · change ((before.mintable.insert id _).lookup other).isSome = _
          rw [lookup_insert_ite]
          split
          next heq => rw [heq, hlookup]; rfl
          next => rfl

/-- An edict of a dune that came in with the inputs. -/
theorem applyEdict_transfer (fit : EdictsFit newId (edict :: rest) before)
    (houtput : edict.output < before.allocated.length) (hid : edict.id ≠ 0)
    (hclaim : claim edict.id = none) :
    ∃ after, applyEdict newId edict before = some after ∧
      EdictsApplied newId (edict :: rest) rest before after := by
  have hpremine : premineRequest before.allocated.length (edict :: rest) =
      premineRequest before.allocated.length rest :=
    premineRequest_cons_of_not fun h => hid h.2
  have hmint : ∀ other balance, mintRequest before.allocated.length other balance (edict :: rest) =
      mintRequest before.allocated.length other balance rest :=
    fun other balance => mintRequest_cons_of_not fun h => by simp [hclaim] at h
  cases hlookup : before.unallocated.lookup edict.id with
  | none =>
      refine ⟨before, ?_, EdictsApplied.skip fit (fun other => hmint other _) fun _ => hpremine⟩
      rw [applyEdict.eq_def, if_neg (Nat.not_le.2 houtput), if_neg hid, hclaim]
      simp only [hlookup]
  | some balance =>
      have hbalance : amountAt before.unallocated edict.id = balance := amountAt_of_lookup hlookup
      have hroom := fit.room edict.id
      rw [reach, hbalance] at hroom
      have htaken := taken_le balance edict.amount
      obtain ⟨allocated, hmove, hspec⟩ :=
        moveAmount_spec edict.amount houtput
          (show allocatedTotal before.allocated edict.id + taken balance edict.amount ≤ maxU128 by
            omega)
      refine ⟨{ before with
        unallocated := before.unallocated.insert edict.id (balance - taken balance edict.amount)
        allocated := allocated }, ?_, ?_⟩
      · rw [applyEdict.eq_def, if_neg (Nat.not_le.2 houtput), if_neg hid, hclaim]
        simp only [hlookup, hmove]
        rfl
      · refine
          { length := hspec.length
            reach := fun other => ?_
            mintable := fun other => by rw [hmint]
            keys := fun _ => rfl
            premine := fun _ => by rw [hpremine]
            issued := fit.issued
            within := fun ids hnew hwithin =>
              ⟨hwithin.unallocated.insert (hwithin.unallocated _ _ hlookup),
                hwithin.mintable,
                hspec.within ids hwithin.allocated (hwithin.unallocated _ _ hlookup)⟩ }
        have htotal := hspec.total other
        simp only [reach, newAmount, hspec.length, htotal, amountAt_insert, hmint]
        by_cases hne : other = edict.id
        · subst hne
          rw [if_pos rfl, if_pos rfl, hbalance]
          omega
        · rw [if_neg hne, if_neg (Ne.symm hne)]
          rfl

/-! ### The loop -/

/-- One edict of requests that fit. -/
theorem applyEdict_spec (fit : EdictsFit newId (edict :: rest) before) :
    ∃ after, applyEdict newId edict before = some after ∧
      EdictsApplied newId (edict :: rest) rest before after := by
  by_cases houtput : edict.output < before.allocated.length
  · by_cases hid : edict.id = 0
    · cases newId with
      | some id => exact applyEdict_new fit houtput hid
      | none =>
          refine ⟨before, ?_, EdictsApplied.skip fit (fun other => ?_) fun hnew => ?_⟩
          · rw [applyEdict, if_neg (Nat.not_le.2 houtput), if_pos hid]
          · exact mintRequest_cons_of_not fun h => by simp [hid, claim_zero] at h
          · cases hnew
    · cases hclaim : claim edict.id with
      | some id => exact applyEdict_claim fit houtput hclaim
      | none => exact applyEdict_transfer fit houtput hid hclaim
  · -- an output number at or behind the last output is skipped
    refine ⟨before, if_pos (Nat.not_lt.1 houtput), ?_⟩
    exact EdictsApplied.skip fit (fun other => mintRequest_cons_of_not fun h => houtput h.1)
      fun _ => premineRequest_cons_of_not fun h => houtput h.1

/-- The whole loop, by induction on the edicts: it ends and moves what was asked. -/
theorem applyEdicts_spec (edicts : List Edict) {before : Pools}
    (fit : EdictsFit newId edicts before) :
    ∃ after, applyEdicts newId edicts before = some after ∧
      EdictsApplied newId edicts [] before after := by
  induction edicts generalizing before with
  | nil => exact ⟨before, rfl, EdictsApplied.refl fit⟩
  | cons edict rest ih =>
      obtain ⟨middle, hmiddle, hfirst⟩ := applyEdict_spec fit
      obtain ⟨after, hafter, hrest⟩ := ih (hfirst.fit fit)
      refine ⟨after, ?_, hfirst.trans hrest⟩
      rw [applyEdicts, hmiddle]
      exact hafter

end OrdDogecoin.Dunes
