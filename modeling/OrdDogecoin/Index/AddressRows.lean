/-
Module: OrdDogecoin.Index.AddressRows
Purpose: The rows of each output while some addresses are pending: the rows of an unspent indexed output are in
  the cache or in the tables, and nothing else has rows, but for pending addresses, whose row in
  `OUTPOINT_TO_ADDRESS` may be missing and whose rows may be stale after spending.  Indexing a valid block and
  committing keep this.
Trusted boundary: as in OrdDogecoin.Index.AddressIndex
Main exports: RowsAt, Tracked.indexTransactions, Tracked.commit
-/
import OrdDogecoin.Index.AddressIndex

namespace OrdDogecoin.Index

open Chain
open KeyTable

/-! ### The rows of one output -/

/-- All rows under one outpoint. -/
structure RowsAt (tables : AddressTables) (outpoint : OutPoint) (cache : Option (ℕ × AddressBytes))
    (value : Option ℕ) (address : Option AddressBytes) : Prop where
  cache_eq : tables.valueCache.lookup outpoint = cache
  value_eq : tables.outpointToValue.lookup outpoint = value
  address_eq : tables.outpointToAddress.lookup outpoint = address
  listed_iff : ∀ text, (text, outpoint) ∈ tables.addressToOutpoint ↔ address = some text

/-- The address row a commit writes for a script. -/
def AddressEnv.storedAddress (env : AddressEnv) (script : Script) : Option AddressBytes :=
  if env.cacheAddress script = noAddress then none else some (env.cacheAddress script)

/-- Two states of the tables with the same rows under an outpoint. -/
structure SameRows (tables tables' : AddressTables) (outpoint : OutPoint) : Prop where
  cache : tables'.valueCache.lookup outpoint = tables.valueCache.lookup outpoint
  value : tables'.outpointToValue.lookup outpoint = tables.outpointToValue.lookup outpoint
  address : tables'.outpointToAddress.lookup outpoint = tables.outpointToAddress.lookup outpoint
  listed : ∀ text, (text, outpoint) ∈ tables'.addressToOutpoint ↔
    (text, outpoint) ∈ tables.addressToOutpoint

/-- The rows of an outpoint that is not unspent: stale rows may be left of pending addresses. -/
structure SpentRows (tables : AddressTables) (pending : AddressBytes → Prop) (seen : List Txid)
    (outpoint : OutPoint) : Prop where
  cache : tables.valueCache.lookup outpoint = none
  value : tables.outpointToValue.lookup outpoint = none
  address : tables.outpointToAddress.lookup outpoint = none
  stale : ∀ text, (text, outpoint) ∈ tables.addressToOutpoint →
    pending text ∧ outpoint.txid ∈ seen

/-- The rows of an unspent output in the tables: a pending address may not be recorded. -/
structure StoredRows (env : AddressEnv) (tables : AddressTables) (pending : AddressBytes → Prop)
    (outpoint : OutPoint) (output : TxOut) : Prop where
  cache : tables.valueCache.lookup outpoint = none
  value : tables.outpointToValue.lookup outpoint = some output.value
  listed : ∀ text, (text, outpoint) ∈ tables.addressToOutpoint ↔
    env.storedAddress output.scriptPubkey = some text
  address : tables.outpointToAddress.lookup outpoint = env.storedAddress output.scriptPubkey ∨
    tables.outpointToAddress.lookup outpoint = none ∧
      ∀ text, env.storedAddress output.scriptPubkey = some text → pending text

/-- The rows of an outpoint, by the unspent indexed output under it. -/
def PendingRows (env : AddressEnv) (tables : AddressTables) (pending : AddressBytes → Prop)
    (seen : List Txid) (outpoint : OutPoint) : Option TxOut → Prop
  | none => SpentRows tables pending seen outpoint
  | some output =>
      RowsAt tables outpoint (some (output.value, env.cacheAddress output.scriptPubkey)) none none ∨
        StoredRows env tables pending outpoint output

section Rows

variable {env : AddressEnv} {tables tables' : AddressTables} {pending : AddressBytes → Prop}
  {seen seen' : List Txid} {outpoint : OutPoint} {found : Option TxOut}

theorem SameRows.rowsAt (same : SameRows tables tables' outpoint) {cache : Option (ℕ × AddressBytes)}
    {value : Option ℕ} {address : Option AddressBytes}
    (rows : RowsAt tables outpoint cache value address) :
    RowsAt tables' outpoint cache value address where
  cache_eq := same.cache.trans rows.cache_eq
  value_eq := same.value.trans rows.value_eq
  address_eq := same.address.trans rows.address_eq
  listed_iff text := (same.listed text).trans (rows.listed_iff text)

theorem SameRows.trans {first second third : AddressTables} {outpoint : OutPoint}
    (same : SameRows first second outpoint) (same' : SameRows second third outpoint) :
    SameRows first third outpoint where
  cache := same'.cache.trans same.cache
  value := same'.value.trans same.value
  address := same'.address.trans same.address
  listed text := (same'.listed text).trans (same.listed text)

/-- Nothing is left of an outpoint. -/
theorem spentRows_of_rowsAt (rows : RowsAt tables outpoint none none none) :
    SpentRows tables pending seen outpoint where
  cache := rows.cache_eq
  value := rows.value_eq
  address := rows.address_eq
  stale text hmem := nomatch (rows.listed_iff text).1 hmem

theorem SpentRows.frame (rows : SpentRows tables pending seen outpoint)
    (same : SameRows tables tables' outpoint) : SpentRows tables' pending seen outpoint where
  cache := same.cache.trans rows.cache
  value := same.value.trans rows.value
  address := same.address.trans rows.address
  stale text hmem := rows.stale text ((same.listed text).1 hmem)

theorem StoredRows.frame {output : TxOut} (rows : StoredRows env tables pending outpoint output)
    (same : SameRows tables tables' outpoint) : StoredRows env tables' pending outpoint output where
  cache := same.cache.trans rows.cache
  value := same.value.trans rows.value
  listed text := (same.listed text).trans (rows.listed text)
  address := by
    rw [same.address]
    exact rows.address

theorem PendingRows.frame (rows : PendingRows env tables pending seen outpoint found)
    (same : SameRows tables tables' outpoint) : PendingRows env tables' pending seen outpoint found := by
  cases found with
  | none => exact SpentRows.frame rows same
  | some output =>
      rcases rows with hrows | hrows
      · exact .inl (same.rowsAt hrows)
      · exact .inr (hrows.frame same)

theorem PendingRows.mono (rows : PendingRows env tables pending seen outpoint found)
    (hseen : ∀ txid ∈ seen, txid ∈ seen') : PendingRows env tables pending seen' outpoint found := by
  cases found with
  | none =>
      have hrows : SpentRows tables pending seen outpoint := rows
      exact { hrows with stale := fun text hmem => (hrows.stale text hmem).imp_right (hseen _) }
  | some output => exact rows

end Rows

/-! ### Spending -/

/-- What spending leaves of an output. -/
structure SpentLeaving (tables : AddressTables) (pending : AddressBytes → Prop) (seen : List Txid)
    (outpoint : OutPoint) (tables' : AddressTables) : Prop where
  spent : SpentRows tables' pending seen outpoint
  others : ∀ other, other ≠ outpoint → SameRows tables tables' other
  transactions : tables'.transactions = tables.transactions

section Spend

variable {env : AddressEnv} {tables : AddressTables} {pending : AddressBytes → Prop} {seen : List Txid}
  {outpoint : OutPoint}

theorem mem_erase_of_ne {listed : Finset (AddressBytes × OutPoint)} {text address : AddressBytes}
    {other : OutPoint} (hne : other ≠ outpoint) :
    (text, other) ∈ listed.erase (address, outpoint) ↔ (text, other) ∈ listed := by
  rw [Finset.mem_erase, Ne, Prod.mk.injEq]
  tauto

/-- An output whose address is not recorded: its listing is found by the transaction index or it stays
as one of a pending address. -/
theorem leaving_of_unrecorded {output : TxOut} (rows : StoredRows env tables pending outpoint output)
    (haddress : tables.outpointToAddress.lookup outpoint = none)
    (hpending : ∀ text, env.storedAddress output.scriptPubkey = some text → pending text)
    (hseen : outpoint.txid ∈ seen)
    (hstored : ∀ tx, tables.transactions.lookup outpoint.txid = some tx →
      tx.output[outpoint.vout]? = some output) :
    ∃ tables', AddressTables.unlistByTransaction env
        { tables with outpointToValue := tables.outpointToValue.erase outpoint } outpoint =
        some tables' ∧ SpentLeaving tables pending seen outpoint tables' := by
  have hleaving : SpentLeaving tables pending seen outpoint
      { tables with outpointToValue := tables.outpointToValue.erase outpoint } :=
    { spent :=
        { cache := rows.cache
          value := AList.lookup_erase _ _
          address := haddress
          stale := fun text hmem => ⟨hpending text ((rows.listed text).1 hmem), hseen⟩ }
      others := fun other hne =>
        ⟨rfl, AList.lookup_erase_ne hne, rfl, fun text => Iff.rfl⟩
      transactions := rfl }
  unfold AddressTables.unlistByTransaction
  cases htx : tables.transactions.lookup outpoint.txid with
  | none => exact ⟨_, rfl, hleaving⟩
  | some tx =>
      simp only [hstored tx htx, Option.bind_eq_bind, Option.bind_some]
      cases htext : env.addressFromScript output.scriptPubkey with
      | none => exact ⟨_, rfl, hleaving⟩
      | some address =>
          refine ⟨_, rfl, ?_, fun other hne => ?_, rfl⟩
          · have hspent := hleaving.spent
            exact
              { hspent with
                stale := fun text hmem => hspent.stale text (Finset.mem_of_mem_erase hmem) }
          · have hother := hleaving.others other hne
            exact
              { hother with
                listed := fun text => (mem_erase_of_ne hne).trans (hother.listed text) }

/-- An output whose address is recorded leaves no row. -/
theorem leaving_of_recorded {output : TxOut} {address : AddressBytes}
    (rows : StoredRows env tables pending outpoint output)
    (haddress : env.storedAddress output.scriptPubkey = some address) :
    SpentLeaving tables pending seen outpoint
      { tables with
        outpointToValue := tables.outpointToValue.erase outpoint
        outpointToAddress := tables.outpointToAddress.erase outpoint
        addressToOutpoint := tables.addressToOutpoint.erase (address, outpoint) } where
  spent :=
    { cache := rows.cache
      value := AList.lookup_erase _ _
      address := AList.lookup_erase _ _
      stale := fun text hmem => by
        obtain ⟨hne, hmem⟩ := Finset.mem_erase.1 hmem
        have htext := (rows.listed text).1 hmem
        rw [haddress] at htext
        cases htext
        exact absurd rfl hne }
  others := fun other hne =>
    ⟨rfl, AList.lookup_erase_ne hne, AList.lookup_erase_ne hne, fun text => mem_erase_of_ne hne⟩
  transactions := rfl

/-- Spending never panics, and leaves rows of pending addresses at most. -/
theorem spendOutput_leaving {found : Option TxOut}
    (rows : PendingRows env tables pending seen outpoint found)
    (hseen : found.isSome → outpoint.txid ∈ seen)
    (hstored : ∀ output tx, found = some output →
      tables.transactions.lookup outpoint.txid = some tx → tx.output[outpoint.vout]? = some output) :
    ∃ tables', tables.spendOutput env outpoint = some tables' ∧
      SpentLeaving tables pending seen outpoint tables' := by
  unfold AddressTables.spendOutput
  cases found with
  | none =>
      have hrows : SpentRows tables pending seen outpoint := rows
      rw [if_neg (by simp [hrows.cache]), if_neg (by simp [hrows.value])]
      exact ⟨tables, rfl, hrows, fun _ _ => ⟨rfl, rfl, rfl, fun _ => Iff.rfl⟩, rfl⟩
  | some output =>
      rcases rows with hrows | hrows
      · rw [if_pos (by simp [hrows.cache_eq])]
        refine ⟨_, rfl, spentRows_of_rowsAt { hrows with cache_eq := AList.lookup_erase _ _ }, ?_, rfl⟩
        exact fun other hne => ⟨AList.lookup_erase_ne hne, rfl, rfl, fun _ => Iff.rfl⟩
      · rw [if_neg (by simp [hrows.cache]), if_pos (by simp [hrows.value])]
        have hunrecorded := @leaving_of_unrecorded env tables pending seen outpoint output hrows
        dsimp only
        cases hlookup : tables.outpointToAddress.lookup outpoint with
        | none =>
            refine hunrecorded hlookup (fun text htext => ?_) (hseen rfl) fun tx htx =>
              hstored output tx rfl htx
            rcases hrows.address with hrecorded | ⟨-, hpending⟩
            · rw [hlookup, htext] at hrecorded
              cases hrecorded
            · exact hpending text htext
        | some address =>
            rcases hrows.address with hrecorded | ⟨hnone, -⟩
            · exact ⟨_, rfl, leaving_of_recorded hrows (hrecorded.symm.trans hlookup)⟩
            · rw [hnone] at hlookup
              cases hlookup

end Spend

/-! ### Indexing -/

/-- The invariant of the tables. -/
structure Tracked (env : AddressEnv) (tables : AddressTables) (pending : AddressBytes → Prop)
    (seen : List Txid) (utxo : UtxoSet) (indexed : List Transaction) : Prop where
  rows : ∀ outpoint, PendingRows env tables pending seen outpoint (unspentIn utxo indexed outpoint)
  stored : ∀ txid tx, tables.transactions.lookup txid = some tx →
    indexed.find? (fun other => other.txid = txid) = some tx

section Step

variable {env : AddressEnv} {tables : AddressTables} {pending : AddressBytes → Prop}
  {seen : List Txid} {utxo : UtxoSet} {indexed : List Transaction} {tx : Transaction}

theorem findOutput_cons (tx : Transaction) (outpoint : OutPoint) :
    findOutput (tx :: indexed) outpoint =
      if tx.txid = outpoint.txid then tx.output[outpoint.vout]? else findOutput indexed outpoint := by
  unfold findOutput
  by_cases htxid : tx.txid = outpoint.txid
  · rw [if_pos htxid, List.find?_cons_of_pos (by simpa using htxid)]
    rfl
  · rw [if_neg htxid, List.find?_cons_of_neg (by simpa using htxid)]

theorem unspentIn_erase (outpoint other : OutPoint) :
    unspentIn (utxo.erase outpoint) indexed other =
      if other = outpoint then none else unspentIn utxo indexed other := by
  unfold unspentIn
  rw [lookup_erase_ite]
  by_cases hsame : other = outpoint
  · simp [hsame]
  · simp [hsame]

/-- A new transaction has no unspent output yet. -/
theorem unspentIn_cons_of_new
    (hnew : ∀ outpoint value, utxo.lookup outpoint = some value → outpoint.txid ≠ tx.txid)
    (outpoint : OutPoint) :
    unspentIn utxo (tx :: indexed) outpoint = unspentIn utxo indexed outpoint := by
  unfold unspentIn
  cases hvalue : utxo.lookup outpoint with
  | none => rfl
  | some value => simp [findOutput_cons, (hnew outpoint value hvalue).symm]

/-- A new transaction is indexed under its id. -/
theorem stored_storeTransaction
    (hstored : ∀ txid tx, tables.transactions.lookup txid = some tx →
      indexed.find? (fun other => other.txid = txid) = some tx)
    (hfresh : ∀ other ∈ indexed, other.txid ≠ tx.txid) (txid : Txid) (other : Transaction)
    (hother : (tables.storeTransaction env tx).transactions.lookup txid = some other) :
    (tx :: indexed).find? (fun other => other.txid = txid) = some other := by
  unfold AddressTables.storeTransaction at hother
  by_cases htxid : tx.txid = txid
  · subst htxid
    rw [List.find?_cons_of_pos (by simp)]
    split at hother
    · rw [AList.lookup_insert] at hother
      exact hother
    · have hfound := hstored tx.txid other hother
      exact absurd (by simpa using List.find?_some hfound)
        (hfresh other (List.mem_of_find?_eq_some hfound))
  · rw [List.find?_cons_of_neg (by simpa using htxid)]
    refine hstored txid other ?_
    split at hother
    · rcases lookup_insert_cases hother with ⟨heq, -⟩ | ⟨-, hold⟩
      · exact absurd heq.symm htxid
      · exact hold
    · exact hother

theorem unspentIn_after {chain : ChainState} (outpoint : OutPoint) :
    unspentIn (chain.after tx utxo).utxo (tx :: indexed) outpoint =
      if outpoint.txid = tx.txid then tx.output[outpoint.vout]?
      else unspentIn utxo (tx :: indexed) outpoint := by
  unfold unspentIn
  rw [findOutput_cons]
  by_cases htxid : outpoint.txid = tx.txid
  · rw [if_pos htxid, if_pos htxid.symm]
    cases houtput : tx.output[outpoint.vout]? with
    | none => rw [ite_self]
    | some output =>
        have hnamed : outpoint = tx.outpoint outpoint.vout := by
          obtain ⟨txid, vout⟩ := outpoint
          exact congrArg (fun id => OutPoint.mk id vout) htxid
        rw [if_pos]
        rw [hnamed, lookup_after_output houtput]
        rfl
  · rw [if_neg htxid, lookup_after_of_ne htxid]

/-- What is cached after a transaction: its own outputs, and what was cached before. -/
theorem lookup_cacheOutputs (env : AddressEnv) (tables : AddressTables) (tx : Transaction)
    (outpoint : OutPoint) :
    (tables.cacheOutputs env tx).valueCache.lookup outpoint =
      ((if outpoint.txid = tx.txid then tx.output[outpoint.vout]? else none).map fun output =>
        (output.value, env.cacheAddress output.scriptPubkey)).or
        (tables.valueCache.lookup outpoint) := by
  unfold AddressTables.cacheOutputs
  have hcache := lookup_insertOutputs
    (fun output => (output.value, env.cacheAddress output.scriptPubkey)) tx.txid tx.output 0
    tables.valueCache outpoint
  rw [Nat.zero_add, Nat.sub_zero] at hcache
  rw [hcache]
  by_cases htxid : outpoint.txid = tx.txid
  · cases houtput : tx.output[outpoint.vout]? with
    | none =>
        have hge := List.getElem?_eq_none_iff.1 houtput
        rw [if_neg (by omega), if_pos htxid]
        rfl
    | some output =>
        have hlt := (List.getElem?_eq_some_iff.1 houtput).1
        rw [if_pos ⟨htxid, Nat.zero_le _, hlt⟩, if_pos htxid]
        rfl
  · rw [if_neg fun h => htxid h.1, if_neg htxid]
    rfl

theorem unspentIn_of_new
    (hnew : ∀ outpoint value, utxo.lookup outpoint = some value → outpoint.txid ≠ tx.txid)
    {outpoint : OutPoint} (htxid : outpoint.txid = tx.txid) :
    unspentIn utxo indexed outpoint = none := by
  unfold unspentIn
  cases hvalue : utxo.lookup outpoint with
  | none => rfl
  | some value => exact absurd htxid (hnew outpoint value hvalue)

/-- The input of a coinbase spends nothing. -/
theorem foldlM_spendInput_coinbase (hcoinbase : tx.isCoinbase = true)
    (hlength : tx.input.length = 1) (tables : AddressTables) :
    tx.input.foldlM (AddressTables.spendInput env) tables = some tables := by
  obtain ⟨input, hinput⟩ := List.length_eq_one_iff.1 hlength
  have hnull : input.previousOutput = OutPoint.null := by
    simpa [Transaction.isCoinbase, hinput] using hcoinbase
  simp [hinput, AddressTables.spendInput, hnull]

/-- An input that spends an existing output. -/
theorem Tracked.spendInput (tracked : Tracked env tables pending seen utxo indexed)
    {input : TxIn} {value : ℕ} (hnull : utxo.lookup OutPoint.null = none)
    (hseen : ∀ outpoint value, utxo.lookup outpoint = some value → outpoint.txid ∈ seen)
    (hvalue : utxo.lookup input.previousOutput = some value) :
    ∃ tables', tables.spendInput env input = some tables' ∧
      Tracked env tables' pending seen (utxo.erase input.previousOutput) indexed := by
  have hspends : input.previousOutput ≠ OutPoint.null := by
    intro heq
    rw [heq, hnull] at hvalue
    cases hvalue
  unfold AddressTables.spendInput
  rw [if_neg hspends]
  have hstored : ∀ output tx, unspentIn utxo indexed input.previousOutput = some output →
      tables.transactions.lookup input.previousOutput.txid = some tx →
      tx.output[input.previousOutput.vout]? = some output := by
    intro output tx hunspent htx
    rw [unspentIn, if_pos (by simp [hvalue]), findOutput, tracked.stored _ tx htx] at hunspent
    exact hunspent
  obtain ⟨tables', hspend, leaving⟩ := spendOutput_leaving (tracked.rows input.previousOutput)
    (fun _ => hseen _ value hvalue) hstored
  refine ⟨tables', hspend, fun other => ?_, fun txid tx htx => ?_⟩
  · rw [unspentIn_erase]
    split
    next heq =>
      rw [heq]
      exact leaving.spent
    next hne => exact (tracked.rows other).frame (leaving.others other hne)
  · rw [leaving.transactions] at htx
    exact tracked.stored txid tx htx

/-- The inputs of a transaction, one by one. -/
theorem Tracked.spendInputs {inputs : List TxIn} :
    ∀ {tables : AddressTables} {utxo utxo' : UtxoSet} {total : ℕ},
      Tracked env tables pending seen utxo indexed → utxo.lookup OutPoint.null = none →
      (∀ outpoint value, utxo.lookup outpoint = some value → outpoint.txid ∈ seen) →
      spendInputs inputs utxo = some (total, utxo') →
      ∃ tables', inputs.foldlM (AddressTables.spendInput env) tables = some tables' ∧
        Tracked env tables' pending seen utxo' indexed := by
  induction inputs with
  | nil =>
      intro tables utxo utxo' total tracked hnull hseen hspend
      cases hspend
      exact ⟨tables, rfl, tracked⟩
  | cons input inputs ih =>
      intro tables utxo utxo' total tracked hnull hseen hspend
      obtain ⟨value, hvalue, hspend⟩ := Option.bind_eq_some_iff.1 hspend
      obtain ⟨⟨rest, found⟩, hrest, hspend⟩ := Option.bind_eq_some_iff.1 hspend
      cases hspend
      obtain ⟨middle, hmiddle, tracked⟩ := tracked.spendInput hnull hseen hvalue
      have hnull' : (utxo.erase input.previousOutput).lookup OutPoint.null = none := by
        rw [lookup_erase_ite, hnull, ite_self]
      have hseen' : ∀ outpoint value, (utxo.erase input.previousOutput).lookup outpoint = some value →
          outpoint.txid ∈ seen :=
        fun outpoint value hfound => hseen outpoint value (lookup_erase_cases hfound).2
      obtain ⟨tables', hfold, tracked⟩ := ih tracked hnull' hseen' hrest
      exact ⟨tables', by rw [List.foldlM_cons, hmiddle]; exact hfold, tracked⟩

/-- A new transaction is indexed: none of its outputs exists yet. -/
theorem Tracked.storeTransaction (tracked : Tracked env tables pending seen utxo indexed)
    (hfresh : ∀ other ∈ indexed, other.txid ≠ tx.txid)
    (hnew : ∀ outpoint value, utxo.lookup outpoint = some value → outpoint.txid ≠ tx.txid) :
    Tracked env (tables.storeTransaction env tx) pending seen utxo (tx :: indexed) := by
  refine ⟨fun outpoint => ?_, stored_storeTransaction tracked.stored hfresh⟩
  rw [unspentIn_cons_of_new hnew]
  refine (tracked.rows outpoint).frame ?_
  unfold AddressTables.storeTransaction
  split
  · exact ⟨rfl, rfl, rfl, fun _ => Iff.rfl⟩
  · exact ⟨rfl, rfl, rfl, fun _ => Iff.rfl⟩

/-- The outputs of a new transaction go to the cache; no stale row is theirs. -/
theorem Tracked.cacheOutputs {chain : ChainState}
    (tracked : Tracked env tables pending chain.seen utxo (tx :: indexed))
    (hnew : ∀ outpoint value, utxo.lookup outpoint = some value → outpoint.txid ≠ tx.txid)
    (hunseen : tx.txid ∉ chain.seen) :
    Tracked env (tables.cacheOutputs env tx) pending (tx.txid :: chain.seen)
      (chain.after tx utxo).utxo (tx :: indexed) := by
  refine ⟨fun outpoint => ?_, tracked.stored⟩
  have hcache := lookup_cacheOutputs env tables tx outpoint
  have hold := tracked.rows outpoint
  rw [unspentIn_after]
  suffices hrows : PendingRows env (tables.cacheOutputs env tx) pending chain.seen outpoint _ from
    hrows.mono fun txid hmem => List.mem_cons_of_mem _ hmem
  by_cases htxid : outpoint.txid = tx.txid
  · rw [unspentIn_of_new hnew htxid] at hold
    have hrows : SpentRows tables pending chain.seen outpoint := hold
    have hnone : RowsAt tables outpoint none none none :=
      ⟨hrows.cache, hrows.value, hrows.address, fun text => iff_of_false
        (fun hmem => hunseen (htxid ▸ (hrows.stale text hmem).2)) nofun⟩
    rw [if_pos htxid, hrows.cache, Option.or_none] at hcache
    rw [if_pos htxid]
    cases houtput : tx.output[outpoint.vout]? with
    | none =>
        rw [houtput] at hcache
        exact spentRows_of_rowsAt { hnone with cache_eq := hcache }
    | some output =>
        rw [houtput] at hcache
        exact .inl { hnone with cache_eq := hcache }
  · rw [if_neg htxid, Option.map_none, Option.none_or] at hcache
    rw [if_neg htxid]
    exact hold.frame ⟨hcache, rfl, rfl, fun _ => Iff.rfl⟩

/-- One transaction of a valid block is indexed. -/
theorem Tracked.indexTransaction {chain chain' : ChainState} {reward reward' : ℕ}
    (tracked : Tracked env tables pending chain.seen chain.utxo indexed) (known : chain.Known)
    (hseen : ∀ other ∈ indexed, other.txid ∈ chain.seen)
    (hvalid : ChainState.applyTransaction (chain, reward) tx = some (chain', reward')) :
    ∃ tables', tables.indexTransaction env tx = some tables' ∧
      Tracked env tables' pending chain'.seen chain'.utxo (tx :: indexed) := by
  obtain ⟨-, hfresh, hcases⟩ := applyTransaction_cases hvalid
  have hnew : ∀ outpoint value, chain.utxo.lookup outpoint = some value →
      outpoint.txid ≠ tx.txid := by
    intro outpoint value hvalue heq
    exact hfresh (heq ▸ known.2 outpoint value hvalue)
  have hstored := tracked.storeTransaction
    (fun other hother heq => hfresh (heq ▸ hseen other hother)) hnew
  unfold AddressTables.indexTransaction
  rcases hcases with ⟨hcoinbase, hlength, -, -, rfl⟩ | ⟨total, utxo, -, -, hspend, -, -, rfl⟩
  · rw [foldlM_spendInput_coinbase hcoinbase hlength]
    exact ⟨_, rfl, hstored.cacheOutputs hnew hfresh⟩
  · obtain ⟨tables', hfold, tracked'⟩ :=
      hstored.spendInputs (lookup_null known) known.2 hspend
    refine ⟨_, by rw [hfold]; rfl, tracked'.cacheOutputs (fun outpoint value hvalue => ?_) hfresh⟩
    exact hnew outpoint value (subset_of_spendInputs hspend outpoint value hvalue)

/-- A valid transaction leaves the chain known and its own id seen. -/
theorem known_of_applyTransaction {chain chain' : ChainState} {reward reward' : ℕ}
    (known : chain.Known)
    (hvalid : ChainState.applyTransaction (chain, reward) tx = some (chain', reward')) :
    chain'.Known ∧ chain'.seen = tx.txid :: chain.seen := by
  obtain ⟨hzero, -, ⟨-, -, -, -, rfl⟩ | ⟨total, utxo, -, -, hspend, -, -, rfl⟩⟩ :=
    applyTransaction_cases hvalid
  · exact ⟨known_after known hzero fun _ _ hvalue => hvalue, rfl⟩
  · exact ⟨known_after known hzero (subset_of_spendInputs hspend), rfl⟩

/-- The ids of the indexed transactions stay among the seen ones. -/
theorem seen_cons_of_applyTransaction {chain chain' : ChainState} {reward reward' : ℕ}
    {indexed : List Transaction}
    (hvalid : ChainState.applyTransaction (chain, reward) tx = some (chain', reward'))
    (known : chain.Known) (hseen : ∀ other ∈ indexed, other.txid ∈ chain.seen) :
    ∀ other ∈ tx :: indexed, other.txid ∈ chain'.seen := by
  obtain ⟨-, hids⟩ := known_of_applyTransaction known hvalid
  intro other hother
  rw [hids]
  rcases List.mem_cons.1 hother with rfl | hother
  · exact List.mem_cons_self
  · exact List.mem_cons_of_mem _ (hseen other hother)

/-- The transactions of a valid block are all indexed. -/
theorem Tracked.indexTransactions {txs : List Transaction} :
    ∀ {tables : AddressTables} {start final : ChainState × ℕ} {indexed : List Transaction},
      Tracked env tables pending start.1.seen start.1.utxo indexed → start.1.Known →
      (∀ tx ∈ indexed, tx.txid ∈ start.1.seen) →
      txs.foldlM ChainState.applyTransaction start = some final →
      ∃ tables', txs.foldlM (AddressTables.indexTransaction env) tables = some tables' ∧
        Tracked env tables' pending final.1.seen final.1.utxo (txs.reverse ++ indexed) := by
  induction txs with
  | nil =>
      intro tables start final indexed tracked known hseen hfold
      cases hfold
      exact ⟨tables, rfl, tracked⟩
  | cons tx txs ih =>
      intro tables start final indexed tracked known hseen hfold
      rw [List.foldlM_cons] at hfold
      obtain ⟨⟨chain, reward⟩, hvalid, hfold⟩ := Option.bind_eq_some_iff.1 hfold
      obtain ⟨middle, hindex, tracked⟩ := tracked.indexTransaction known hseen hvalid
      obtain ⟨tables', hrest, result⟩ := ih tracked (known_of_applyTransaction known hvalid).1
        (seen_cons_of_applyTransaction hvalid known hseen) hfold
      rw [List.reverse_cons, List.append_assoc, List.singleton_append]
      exact ⟨tables', by rw [List.foldlM_cons, hindex]; exact hrest, result⟩

end Step

/-! ### Commits -/

section Commit

variable {env : AddressEnv} {tables : AddressTables} {pending : AddressBytes → Prop}
  {seen : List Txid} {utxo : UtxoSet} {indexed : List Transaction} {outpoint : OutPoint}

def rowAddress (row : ℕ × AddressBytes) : Option AddressBytes :=
  if row.2 = noAddress then none else some row.2

theorem rowsAt_persist_self (row : ℕ × AddressBytes) (rows : RowsAt tables outpoint none none none) :
    RowsAt (tables.persist outpoint row) outpoint none (some row.1) (rowAddress row) := by
  have hunlisted : ∀ text, (text, outpoint) ∉ tables.addressToOutpoint := fun text hmem =>
    nomatch (rows.listed_iff text).1 hmem
  unfold AddressTables.persist rowAddress
  by_cases haddress : row.2 = noAddress
  · rw [if_pos haddress, if_neg (not_not.2 haddress)]
    exact { rows with value_eq := by simp }
  · rw [if_neg haddress, if_pos haddress]
    refine ⟨rows.cache_eq, by simp, by simp, fun text => ?_⟩
    rw [Finset.mem_insert, Prod.mk.injEq, Option.some_inj]
    constructor
    · rintro (⟨heq, -⟩ | hmem)
      · exact heq.symm
      · exact absurd hmem (hunlisted text)
    · exact fun heq => .inl ⟨heq.symm, rfl⟩

theorem sameRows_persist {key outpoint : OutPoint} (row : ℕ × AddressBytes) (hne : outpoint ≠ key) :
    SameRows tables (tables.persist key row) outpoint := by
  have hvalue : (tables.outpointToValue.insert key row.1).lookup outpoint =
      tables.outpointToValue.lookup outpoint := AList.lookup_insert_ne hne
  unfold AddressTables.persist
  by_cases haddress : row.2 = noAddress
  · rw [if_neg (not_not.2 haddress)]
    exact ⟨rfl, hvalue, rfl, fun text => Iff.rfl⟩
  · rw [if_pos haddress]
    refine ⟨rfl, hvalue, AList.lookup_insert_ne hne, fun text => ?_⟩
    rw [Finset.mem_insert, Prod.mk.injEq]
    exact or_iff_right fun h => hne h.2

/-- Writing out cached rows under other outpoints. -/
theorem sameRows_foldl_persist {cached : List (Sigma fun _ : OutPoint => ℕ × AddressBytes)} :
    ∀ {tables : AddressTables}, outpoint ∉ cached.keys →
      SameRows tables (cached.foldl (fun tables row => tables.persist row.1 row.2) tables) outpoint := by
  induction cached with
  | nil => exact fun _ => ⟨rfl, rfl, rfl, fun text => Iff.rfl⟩
  | cons head cached ih =>
      intro tables hmem
      rw [List.keys_cons, List.mem_cons, not_or] at hmem
      exact (sameRows_persist head.2 hmem.1).trans (ih hmem.2)

/-- Writing out a cached row, with others under other outpoints. -/
theorem rowsAt_foldl_persist {row : ℕ × AddressBytes}
    {cached : List (Sigma fun _ : OutPoint => ℕ × AddressBytes)} :
    ∀ {tables : AddressTables}, cached.NodupKeys → cached.dlookup outpoint = some row →
      RowsAt tables outpoint none none none →
      RowsAt (cached.foldl (fun tables row => tables.persist row.1 row.2) tables) outpoint none
        (some row.1) (rowAddress row) := by
  induction cached with
  | nil => exact fun _ hlookup => nomatch hlookup
  | cons head cached ih =>
      intro tables hnodup hlookup rows
      obtain ⟨key, first⟩ := head
      rw [List.nodupKeys_cons] at hnodup
      by_cases hkey : outpoint = key
      · subst hkey
        rw [List.dlookup_cons_eq] at hlookup
        cases hlookup
        exact (sameRows_foldl_persist hnodup.1).rowsAt (rowsAt_persist_self row rows)
      · rw [List.dlookup_cons_ne _ _ hkey] at hlookup
        exact ih hnodup.2 hlookup ((sameRows_persist first hkey).rowsAt rows)

/-- What is not cached stays as it is. -/
theorem sameRows_commit (hcache : tables.valueCache.lookup outpoint = none) :
    SameRows tables tables.commit outpoint := by
  have hfold := @sameRows_foldl_persist outpoint tables.valueCache.entries
    { tables with valueCache := ∅ } (List.dlookup_eq_none.1 hcache)
  exact { hfold with cache := hfold.cache.trans hcache.symm }

/-- A cached row moves to the tables. -/
theorem rowsAt_commit {row : ℕ × AddressBytes} (rows : RowsAt tables outpoint (some row) none none) :
    RowsAt tables.commit outpoint none (some row.1) (rowAddress row) :=
  rowsAt_foldl_persist tables.valueCache.nodupKeys rows.cache_eq
    { rows with cache_eq := AList.lookup_empty _ }

theorem transactions_commit : tables.commit.transactions = tables.transactions := by
  have hfold : ∀ (cached : List (Sigma fun _ : OutPoint => ℕ × AddressBytes)) (start : AddressTables),
      (cached.foldl (fun tables row => tables.persist row.1 row.2) start).transactions =
        start.transactions := by
    intro cached
    induction cached with
    | nil => exact fun start => rfl
    | cons head cached ih =>
        intro start
        rw [List.foldl_cons, ih]
        unfold AddressTables.persist
        split <;> rfl
  exact hfold _ _

/-- A commit writes both rows of a cached output. -/
theorem Tracked.commit (tracked : Tracked env tables pending seen utxo indexed) :
    Tracked env tables.commit pending seen utxo indexed := by
  refine ⟨fun outpoint => ?_, fun txid tx htx => ?_⟩
  · have hold := tracked.rows outpoint
    cases hfound : unspentIn utxo indexed outpoint with
    | none =>
        rw [hfound] at hold
        exact hold.frame (sameRows_commit (SpentRows.cache hold))
    | some output =>
        rw [hfound] at hold
        rcases hold with hrows | hrows
        · have hcommitted := rowsAt_commit hrows
          exact .inr ⟨hcommitted.cache_eq, hcommitted.value_eq, hcommitted.listed_iff,
            .inl hcommitted.address_eq⟩
        · exact .inr (hrows.frame (sameRows_commit hrows.cache))
  · rw [transactions_commit] at htx
    exact tracked.stored txid tx htx

end Commit

end OrdDogecoin.Index
