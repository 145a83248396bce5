/-
Module: OrdDogecoin.Index.AddressListing
Purpose: The address tables over every run of blocks and commits, without a pending address.  After a
  commit they are one relation, and it is the right one exactly when no unspent indexed output has an
  address whose text does not fit the address field.
Trusted boundary: as in OrdDogecoin.Index.AddressIndex; the text of an address has no zero byte
Main exports: AddressState.Sound, AddressState.Sound.step, listsUnspent_iff_fits
-/
import OrdDogecoin.Index.AddressRows

namespace OrdDogecoin.Index

open Chain
open KeyTable

/-! ### Runs -/

/-- The invariant of a run. -/
structure AddressState.Sound (env : AddressEnv) (state : AddressState) : Prop where
  known : state.chain.Known
  seen : ∀ tx ∈ state.indexed, tx.txid ∈ state.chain.seen
  tracked : Tracked env state.tables (fun _ => False) state.chain.seen state.chain.utxo state.indexed
  unindexed : state.height ≤ env.firstInscriptionHeight → state.indexed = []

section Run

variable {env : AddressEnv} {state state' : AddressState}

theorem AddressState.start_sound : AddressState.start.Sound env where
  known := ⟨by simp [AddressState.start], by simp [AddressState.start]⟩
  seen := by simp [AddressState.start]
  tracked :=
    { rows := fun outpoint => ⟨rfl, rfl, rfl, fun text hmem => by
        simp [AddressState.start, AddressTables.empty] at hmem⟩
      stored := by simp [AddressState.start, AddressTables.empty] }
  unindexed := fun _ => rfl

theorem known_of_foldlM {txs : List Transaction} :
    ∀ {start final : ChainState × ℕ} {indexed : List Transaction}, start.1.Known →
      (∀ tx ∈ indexed, tx.txid ∈ start.1.seen) →
      txs.foldlM ChainState.applyTransaction start = some final →
      final.1.Known ∧ ∀ tx ∈ txs.reverse ++ indexed, tx.txid ∈ final.1.seen := by
  induction txs with
  | nil =>
      intro start final indexed known hseen hfold
      cases hfold
      exact ⟨known, hseen⟩
  | cons tx txs ih =>
      intro start final indexed known hseen hfold
      rw [List.foldlM_cons] at hfold
      obtain ⟨⟨chain, reward⟩, hvalid, hfold⟩ := Option.bind_eq_some_iff.1 hfold
      rw [List.reverse_cons, List.append_assoc, List.singleton_append]
      exact ih (known_of_applyTransaction known hvalid).1
        (seen_cons_of_applyTransaction hvalid known hseen) hfold

/-- Without indexed transactions the tables do not depend on the chain. -/
theorem Tracked.of_nil {tables : AddressTables} {seen : List Txid} {utxo : UtxoSet}
    (tracked : Tracked env tables (fun _ => False) seen utxo []) (seen' : List Txid) (utxo' : UtxoSet) :
    Tracked env tables (fun _ => False) seen' utxo' [] := by
  have hnone : ∀ (set : UtxoSet) outpoint, unspentIn set [] outpoint = none :=
    fun set outpoint => ite_self none
  refine ⟨fun outpoint => ?_, tracked.stored⟩
  have hrows := tracked.rows outpoint
  rw [hnone] at hrows ⊢
  have hspent : SpentRows tables (fun _ => False) seen outpoint := hrows
  exact { hspent with stale := fun text hmem => (hspent.stale text hmem).1.elim }

/-- After a commit every row is in the tables. -/
theorem Tracked.committed {tables : AddressTables} {seen : List Txid} {utxo : UtxoSet}
    {indexed : List Transaction} (tracked : Tracked env tables (fun _ => False) seen utxo indexed)
    (outpoint : OutPoint) :
    RowsAt tables.commit outpoint none ((unspentIn utxo indexed outpoint).map TxOut.value)
      ((unspentIn utxo indexed outpoint).bind fun output => env.storedAddress output.scriptPubkey) := by
  have hrows := tracked.rows outpoint
  cases hfound : unspentIn utxo indexed outpoint with
  | none =>
      rw [hfound] at hrows
      have hspent : SpentRows tables (fun _ => False) seen outpoint := hrows
      refine (sameRows_commit hspent.cache).rowsAt ⟨hspent.cache, hspent.value, hspent.address,
        fun text => iff_of_false (fun hmem => (hspent.stale text hmem).1) ?_⟩
      exact fun hnone => by cases hnone
  | some output =>
      rw [hfound] at hrows
      rcases hrows with hcached | hstored
      · exact rowsAt_commit hcached
      · refine (sameRows_commit hstored.cache).rowsAt ⟨hstored.cache, hstored.value, ?_, fun text =>
          (hstored.listed text).trans Iff.rfl⟩
        rcases hstored.address with hrecorded | ⟨hnone, hpending⟩
        · exact hrecorded
        · exact hnone.trans (Option.eq_none_iff_forall_ne_some.2 hpending).symm

/-- Every valid block is indexed. -/
theorem AddressState.Sound.block (sound : state.Sound env) {block : BlockData} {chain : ChainState}
    (hvalid : state.chain.applyBlock (env.subsidy state.height) block = some chain) :
    ∃ state', state.step env (.block block) = some state' ∧ state'.Sound env := by
  have applied := blockApplied_of_applyBlock hvalid
  obtain ⟨-, -, final, -, -, -, hfold, rfl⟩ := applyBlock_cases hvalid
  obtain ⟨known, hseen⟩ := known_of_foldlM sound.known sound.seen hfold
  obtain ⟨tables, htables, tracked⟩ :=
    sound.tracked.indexTransactions sound.known sound.seen hfold
  unfold AddressState.step
  simp only [hvalid, Option.bind_eq_bind, Option.bind_some]
  by_cases hheight : env.firstInscriptionHeight ≤ state.height
  · rw [if_pos hheight, htables]
    exact ⟨_, rfl, known, hseen, tracked, fun hbelow => absurd hbelow (by
      change ¬ state.height + 1 ≤ env.firstInscriptionHeight
      omega)⟩
  · rw [if_neg hheight]
    have hnil := sound.unindexed (by omega)
    refine ⟨_, rfl, known, fun tx htx => ?_, ?_, fun _ => hnil⟩
    · exact (applied.seen tx.txid).2 (.inr (sound.seen tx htx))
    · have tracked := sound.tracked
      change Tracked env state.tables _ final.1.seen final.1.utxo state.indexed
      rw [hnil] at tracked ⊢
      exact tracked.of_nil _ _

theorem AddressState.Sound.step (sound : state.Sound env) {action : AddressAction}
    (hstep : state.step env action = some state') : state'.Sound env := by
  cases action with
  | block block =>
      obtain ⟨chain, hvalid, -⟩ := Option.bind_eq_some_iff.1 hstep
      obtain ⟨next, hnext, sound⟩ := sound.block hvalid
      rw [hnext] at hstep
      cases hstep
      exact sound
  | commit =>
      cases hstep
      exact { sound with tracked := sound.tracked.commit }

/-- The states of a run of blocks and commits. -/
def AddressState.Reachable (env : AddressEnv) (state : AddressState) : Prop :=
  Run.Reaches (AddressState.step env) (fun _ _ => True) AddressState.start state

theorem AddressState.Reachable.sound (reachable : state.Reachable env) : state.Sound env :=
  Run.Reaches.invariant (AddressState.Sound env) (fun sound _ hstep => sound.step hstep) reachable
    AddressState.start_sound

end Run

/-! ### The listing -/

/-- The text of an address has no zero byte. -/
def AddressEnv.Lawful (env : AddressEnv) : Prop :=
  ∀ script address, env.addressFromScript script = some address → 0 ∉ address

/-- Every unspent indexed output with an address has one whose text fits the address field. -/
def AddressState.Fits (env : AddressEnv) (state : AddressState) : Prop :=
  ∀ outpoint output address, state.unspentOutput outpoint = some output →
    env.addressFromScript output.scriptPubkey = some address → address.length = addressWidth

section Listing

variable {env : AddressEnv}

/-- An address row is written for an address of the right width, and for no other script. -/
theorem storedAddress_eq_some_iff (lawful : env.Lawful) (script : Script) (address : AddressBytes) :
    env.storedAddress script = some address ↔
      env.addressFromScript script = some address ∧ address.length = addressWidth := by
  unfold AddressEnv.storedAddress AddressEnv.cacheAddress
  cases htext : env.addressFromScript script with
  | none => simp
  | some text =>
      have hzeros : text ≠ noAddress := by
        rintro rfl
        exact lawful script _ htext (by decide)
      by_cases hwidth : text.length = addressWidth
      · simp only [if_pos hwidth, if_neg hzeros, Option.some_inj]
        exact ⟨fun heq => ⟨heq, heq ▸ hwidth⟩, And.left⟩
      · simp only [if_neg hwidth, if_true, Option.some_inj]
        exact ⟨fun h => (nomatch h), fun ⟨heq, hlength⟩ => absurd (heq ▸ hlength) hwidth⟩

/-- What the tables list after a commit, whatever the addresses are. -/
theorem listed_commit_iff {state : AddressState} (sound : state.Sound env) (lawful : env.Lawful)
    (address : AddressBytes) (outpoint : OutPoint) :
    (address, outpoint) ∈ state.tables.commit.addressToOutpoint ↔
      ∃ output, state.unspentOutput outpoint = some output ∧
        env.addressFromScript output.scriptPubkey = some address ∧ address.length = addressWidth := by
  have hrows := sound.tracked.committed outpoint
  rw [hrows.listed_iff address, Option.bind_eq_some_iff]
  exact exists_congr fun output =>
    and_congr Iff.rfl (storedAddress_eq_some_iff lawful output.scriptPubkey address)

/-- Along every run of valid blocks and commits, every valid block is indexed, and after a commit the
address tables list the unspent indexed outputs by their addresses exactly when the text of each of
these addresses has 34 bytes. -/
theorem listsUnspent_iff_fits (env : AddressEnv) (lawful : env.Lawful) (state : AddressState)
    (reachable : state.Reachable env) :
    (∀ block, (state.chain.applyBlock (env.subsidy state.height) block).isSome →
      (state.step env (.block block)).isSome) ∧
    ∃ committed, state.step env .commit = some committed ∧
      (committed.ListsUnspent env ↔ committed.Fits env) := by
  have sound := reachable.sound
  constructor
  · intro block hvalid
    obtain ⟨chain, hchain⟩ := Option.isSome_iff_exists.1 hvalid
    obtain ⟨next, hnext, -⟩ := sound.block hchain
    rw [hnext]
    rfl
  · refine ⟨{ state with tables := state.tables.commit }, rfl, ?_, ?_⟩
    · intro lists outpoint output address hunspent haddress
      obtain ⟨found, -, -, hwidth⟩ := (listed_commit_iff sound lawful address outpoint).1
        ((lists.lists address outpoint).2 ⟨output, hunspent, haddress⟩)
      exact hwidth
    · intro fits
      constructor
      · intro address outpoint
        have hrows := sound.tracked.committed outpoint
        rw [hrows.listed_iff address]
        change _ ↔ state.tables.commit.outpointToAddress.lookup outpoint = some address
        rw [hrows.address_eq]
      · intro address outpoint
        refine (listed_commit_iff sound lawful address outpoint).trans (exists_congr fun output => ?_)
        constructor
        · exact fun ⟨hunspent, haddress, _⟩ => ⟨hunspent, haddress⟩
        · exact fun ⟨hunspent, haddress⟩ =>
            ⟨hunspent, haddress, fits outpoint output address hunspent haddress⟩

end Listing

/-! ### Two scripts on the regression-test chain -/

def asciiBytes (text : String) : AddressBytes := text.toList.map fun c => UInt8.ofNat c.toNat

def zeroPubkeyHash : Script := [0x76, 0xa9, 0x14] ++ List.replicate 20 0 ++ [0x88, 0xac]

def zeroScriptHash : Script := [0xa9, 0x14] ++ List.replicate 20 0 ++ [0x87]

/-- The addresses of these scripts with the version bytes 111 and 196: the second has 35 letters. -/
def regtestAddress (script : Script) : Option AddressBytes :=
  if script = zeroPubkeyHash then some (asciiBytes "mfWxJ45yp2SFn7UciZyNpvDKrzbhyfKrY8")
  else if script = zeroScriptHash then some (asciiBytes "2MsFDzHRUAMpjHxKyoEHU3aMCMsVtMqs1PV")
  else none

def regtestAddressEnv : AddressEnv where
  firstInscriptionHeight := 0
  indexTransactions := false
  subsidy := fun _ => 100
  addressFromScript := regtestAddress

theorem regtestAddressEnv_lawful : regtestAddressEnv.Lawful := by
  intro script address haddress
  change regtestAddress script = some address at haddress
  unfold regtestAddress at haddress
  split at haddress
  · cases haddress
    decide
  · split at haddress
    · cases haddress
      decide
    · cases haddress

/-- A coinbase that pays to one script, and a block of it. -/
def payingCoinbase (script : Script) : Transaction where
  txid := 1
  input := [{ previousOutput := OutPoint.null }]
  output := [{ value := 100, scriptPubkey := script }]

def payingBlock (script : Script) : AddressAction :=
  .block { header := { blockHash := 1, prevBlockhash := 0 }, txdata := [payingCoinbase script] }

theorem reachable_payingBlock (script : Script) :
    ∃ state : AddressState, state.Reachable regtestAddressEnv ∧
      state.indexed = [payingCoinbase script] ∧
      state.unspentOutput ⟨1, 0⟩ = some { value := 100, scriptPubkey := script } :=
  ⟨_, .tail (payingBlock script) .refl trivial rfl, rfl, rfl⟩

/-- An output that pays to a public key hash is listed. -/
theorem zeroPubkeyHash_listed :
    ∃ state : AddressState, state.Reachable regtestAddressEnv ∧
      state.unspentOutput ⟨1, 0⟩ = some { value := 100, scriptPubkey := zeroPubkeyHash } ∧
      ∃ committed, state.step regtestAddressEnv .commit = some committed ∧
        committed.ListsUnspent regtestAddressEnv := by
  obtain ⟨state, reachable, hindexed, hunspent⟩ := reachable_payingBlock zeroPubkeyHash
  obtain ⟨-, committed, hcommit, hiff⟩ :=
    listsUnspent_iff_fits regtestAddressEnv regtestAddressEnv_lawful state reachable
  refine ⟨state, reachable, hunspent, committed, hcommit, hiff.2 ?_⟩
  cases hcommit
  intro outpoint output address houtput haddress
  have hpaid : output.scriptPubkey = zeroPubkeyHash := by
    unfold AddressState.unspentOutput unspentIn at houtput
    dsimp only at houtput
    rw [hindexed, findOutput_cons] at houtput
    split at houtput
    · split at houtput
      · have hmem := List.mem_of_getElem? houtput
        rw [List.mem_singleton.1 hmem]
      · cases houtput
    · cases houtput
  rw [hpaid] at haddress
  cases haddress
  decide

/-- An output that pays to a script hash is unspent and has an address, and is not listed. -/
theorem zeroScriptHash_not_listed :
    ¬ ∀ (env : AddressEnv) (state committed : AddressState), env.Lawful → state.Reachable env →
      state.step env .commit = some committed → committed.ListsUnspent env := by
  intro hall
  obtain ⟨state, reachable, -, hunspent⟩ := reachable_payingBlock zeroScriptHash
  have lists := hall regtestAddressEnv state _ regtestAddressEnv_lawful reachable rfl
  have haddress : regtestAddressEnv.addressFromScript zeroScriptHash =
      some (asciiBytes "2MsFDzHRUAMpjHxKyoEHU3aMCMsVtMqs1PV") := by decide
  obtain ⟨-, -, -, hwidth⟩ := (listed_commit_iff reachable.sound regtestAddressEnv_lawful _ _).1
    ((lists.lists _ ⟨1, 0⟩).2 ⟨_, hunspent, haddress⟩)
  exact absurd hwidth (by decide)

end OrdDogecoin.Index
