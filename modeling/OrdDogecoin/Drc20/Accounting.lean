/-
Module: OrdDogecoin.Drc20.Accounting
Purpose: The books of the DRC-20 ledger.  `Issued` is the invariant of the infos and the balances,
  `Balanced` the one over the four tables that carry amounts; each lemma after them is one bookkeeping
  step (a token deployed, an amount minted, inscribed for transfer, moved) on tables alone, free of the
  handlers' checks.
Trusted boundary: as in OrdDogecoin.Drc20.Ledger
Main exports: Issued, Balanced.inscribe, Balanced.move
-/
import OrdDogecoin.Drc20.Ledger

namespace OrdDogecoin.Drc20

open Chain
open KeyTable

/-- Tables of token infos, balances, inscribe-transfer records and transferable logs. -/
abbrev Infos := KeyTable TickKey TokenInfo

abbrev Balances := KeyTable (Text × TickKey) Balance

abbrev Records := KeyTable InscriptionId TransferInfo

abbrev Logs := KeyTable (Text × TickKey × InscriptionId) TransferableLog

/-- The sum of the overall balances of a token. -/
def overallTotal (key : TickKey) (balances : Balances) : ℕ :=
  totalWhere (fun place => place.2 = key) Balance.overallBalance balances

/-- The sum of the amounts of the logs of an owner and token. -/
def loggedTotal (script : Text) (key : TickKey) (logs : Logs) : ℕ :=
  totalWhere (fun place => place.1 = script ∧ place.2.1 = key) TransferableLog.amount logs

/-- An owner's balances of a token, zero without a row. -/
def overallAt (balances : Balances) (script : Text) (key : TickKey) : ℕ :=
  valueAt Balance.overallBalance balances (script, key)

def transferableAt (balances : Balances) (script : Text) (key : TickKey) : ℕ :=
  valueAt Balance.transferableBalance balances (script, key)

/-! ### Balance rows -/

namespace Balanced

variable {env : Env}

/-- The stored balance of an owner, or a new one, has the amounts of its place. -/
theorem stored_amounts (balances : Balances) (script : Text) (key : TickKey) (tick : Tick) :
    ((balances.lookup (script, key)).getD (Balance.new tick)).overallBalance =
        overallAt balances script key ∧
      ((balances.lookup (script, key)).getD (Balance.new tick)).transferableBalance =
        transferableAt balances script key := by
  unfold overallAt transferableAt valueAt
  cases balances.lookup (script, key) <;> exact ⟨rfl, rfl⟩

/-- The stored balance of an owner, or a new one, has a tick of its key. -/
theorem stored_tick (balances : Balances) (script : Text) (tick : Tick)
    (hrows : ∀ {balance}, balances.lookup (script, env.lowerHex tick) = some balance →
      env.lowerHex balance.tick = env.lowerHex tick) :
    env.lowerHex ((balances.lookup (script, env.lowerHex tick)).getD (Balance.new tick)).tick =
      env.lowerHex tick := by
  cases hrow : balances.lookup (script, env.lowerHex tick) with
  | none => rfl
  | some balance => exact hrows hrow

theorem overallAt_le_total (balances : Balances) (script : Text) (key : TickKey) :
    overallAt balances script key ≤ overallTotal key balances :=
  valueAt_le_totalWhere (fun place : Text × TickKey => place.2 = key) Balance.overallBalance
    (script, key) rfl fun _ _ _ => Nat.zero_le _

/-- Writing a balance row changes the sum of its own token by the change of the row. -/
theorem overallTotal_insert (balances : Balances) (script : Text) (key other : TickKey)
    (balance : Balance) :
    overallTotal other (balances.insert (script, key) balance) +
        (if key = other then overallAt balances script key else 0) =
      overallTotal other balances + (if key = other then balance.overallBalance else 0) := by
  unfold overallTotal overallAt
  by_cases hkey : key = other
  · rw [if_pos hkey, if_pos hkey]
    exact totalWhere_insert (fun place => place.2 = other) Balance.overallBalance (script, key) hkey
      balances balance
  · rw [if_neg hkey, if_neg hkey]
    exact totalWhere_insert_of_not (fun place => place.2 = other) Balance.overallBalance
      (script, key) hkey balances balance

theorem overallAt_insert (balances : Balances) (script other : Text) (key key' : TickKey)
    (balance : Balance) :
    overallAt (balances.insert (script, key) balance) other key' =
      if other = script ∧ key' = key then balance.overallBalance
      else overallAt balances other key' := by
  simp only [overallAt, valueAt_insert_ite, Prod.mk.injEq]

theorem transferableAt_insert (balances : Balances) (script other : Text) (key key' : TickKey)
    (balance : Balance) :
    transferableAt (balances.insert (script, key) balance) other key' =
      if other = script ∧ key' = key then balance.transferableBalance
      else transferableAt balances other key' := by
  simp only [transferableAt, valueAt_insert_ite, Prod.mk.injEq]

end Balanced

/-! ### What was issued -/

/-- Every balance is of a deployed token under its own key, and the balances of a token add up to what
was minted of it.  Unlike `Balanced` this holds for inscriptions inscribed twice, too. -/
structure Issued (env : Env) (infos : Infos) (balances : Balances) : Prop where
  balance_tick : ∀ {script key balance}, balances.lookup (script, key) = some balance →
    env.lowerHex balance.tick = key
  deployed : ∀ {script key balance}, balances.lookup (script, key) = some balance →
    (infos.lookup key).isSome
  minted_eq : ∀ {key info}, infos.lookup key = some info → overallTotal key balances = info.minted
  minted_le : ∀ {key info}, infos.lookup key = some info → info.minted ≤ info.supply
  supply_lt : ∀ {key info}, infos.lookup key = some info → info.supply < 2 ^ 128

namespace Issued

variable {env : Env} {infos : Infos} {balances : Balances} {key : TickKey}

theorem empty (env : Env) : Issued env ∅ ∅ where
  balance_tick h := by simp at h
  deployed h := by simp at h
  minted_eq h := by simp at h
  minted_le h := by simp at h
  supply_lt h := by simp at h

theorem deploy (issued : Issued env infos balances) {info : TokenInfo}
    (hnew : infos.lookup key = none) (hminted : info.minted = 0) (hsupply : info.supply < 2 ^ 128) :
    Issued env (infos.insert key info) balances := by
  have hzero : overallTotal key balances = 0 := by
    apply totalWhere_eq_zero
    rintro ⟨script, other⟩ balance hrow rfl
    have hdeployed := issued.deployed hrow
    simp [hnew] at hdeployed
  constructor
  · exact issued.balance_tick
  · intro script other balance hrow
    have hold := issued.deployed hrow
    rw [lookup_insert_ite]
    split
    · rfl
    · exact hold
  · intro other found hfound
    rcases lookup_insert_cases hfound with ⟨rfl, rfl⟩ | ⟨-, hold⟩
    · rw [hzero, hminted]
    · exact issued.minted_eq hold
  · intro other found hfound
    rcases lookup_insert_cases hfound with ⟨rfl, rfl⟩ | ⟨-, hold⟩
    · rw [hminted]
      exact Nat.zero_le _
    · exact issued.minted_le hold
  · intro other found hfound
    rcases lookup_insert_cases hfound with ⟨rfl, rfl⟩ | ⟨-, hold⟩
    · exact hsupply
    · exact issued.supply_lt hold

/-- Writing a row of a deployed token keeps the rows in their places. -/
theorem places_insert (issued : Issued env infos balances) {script : Text} {balance : Balance}
    (htick : env.lowerHex balance.tick = key) (hdeployed : (infos.lookup key).isSome)
    {script' : Text} {key' : TickKey} {balance' : Balance}
    (hrow : (balances.insert (script, key) balance).lookup (script', key') = some balance') :
    env.lowerHex balance'.tick = key' ∧ (infos.lookup key').isSome := by
  rcases lookup_insert_cases hrow with ⟨hplace, rfl⟩ | ⟨-, hold⟩
  · cases hplace
    exact ⟨htick, hdeployed⟩
  · exact ⟨issued.balance_tick hold, issued.deployed hold⟩

/-- A row and the count of what was minted grow by the same amount. -/
theorem mint (issued : Issued env infos balances) {script : Text} {info info' : TokenInfo}
    {balance : Balance} {amount : ℕ} (hinfo : infos.lookup key = some info)
    (hle : info.minted + amount ≤ info.supply) (htick : env.lowerHex balance.tick = key)
    (hoverall : balance.overallBalance = overallAt balances script key + amount)
    (hsupply : info'.supply = info.supply) (hminted : info'.minted = info.minted + amount) :
    Issued env (infos.insert key info') (balances.insert (script, key) balance) := by
  have hdeployed : (infos.lookup key).isSome := by
    rw [hinfo]
    rfl
  constructor
  · exact fun hrow => (issued.places_insert htick hdeployed hrow).1
  · intro script' key' balance' hrow
    have hold := (issued.places_insert htick hdeployed hrow).2
    rw [lookup_insert_ite]
    split
    · rfl
    · exact hold
  · intro other found hfound
    have haccount := Balanced.overallTotal_insert balances script key other balance
    rcases lookup_insert_cases hfound with ⟨rfl, rfl⟩ | ⟨hne, hold⟩
    · rw [if_pos rfl, if_pos rfl, issued.minted_eq hinfo] at haccount
      omega
    · rw [if_neg (Ne.symm hne), if_neg (Ne.symm hne), issued.minted_eq hold] at haccount
      omega
  · intro other found hfound
    rcases lookup_insert_cases hfound with ⟨rfl, rfl⟩ | ⟨-, hold⟩
    · omega
    · exact issued.minted_le hold
  · intro other found hfound
    rcases lookup_insert_cases hfound with ⟨rfl, rfl⟩ | ⟨-, hold⟩
    · rw [hsupply]
      exact issued.supply_lt hinfo
    · exact issued.supply_lt hold

/-- Rows may be rewritten in their places when no total changes. -/
theorem rebalance (issued : Issued env infos balances) {balances' : Balances}
    (hplaces : ∀ {script key balance}, balances'.lookup (script, key) = some balance →
      env.lowerHex balance.tick = key ∧ (infos.lookup key).isSome)
    (htotal : ∀ key, overallTotal key balances' = overallTotal key balances) :
    Issued env infos balances' where
  balance_tick hrow := (hplaces hrow).1
  deployed hrow := (hplaces hrow).2
  minted_eq hinfo := (htotal _).trans (issued.minted_eq hinfo)
  minted_le := issued.minted_le
  supply_lt := issued.supply_lt

/-- A row keeps its overall balance. -/
theorem keepOverall (issued : Issued env infos balances) {script : Text} {balance : Balance}
    (htick : env.lowerHex balance.tick = key) (hdeployed : (infos.lookup key).isSome)
    (hoverall : balance.overallBalance = overallAt balances script key) :
    Issued env infos (balances.insert (script, key) balance) := by
  apply issued.rebalance (issued.places_insert htick hdeployed)
  intro other
  have haccount := Balanced.overallTotal_insert balances script key other balance
  rw [hoverall] at haccount
  omega

/-- What one row loses another gains. -/
theorem move (issued : Issued env infos balances) {sender receiver : Text}
    {debited credited : Balance} {amount : ℕ} (hdeployed : (infos.lookup key).isSome)
    (hdebitTick : env.lowerHex debited.tick = key) (hcreditTick : env.lowerHex credited.tick = key)
    (hdebit : debited.overallBalance + amount = overallAt balances sender key)
    (hcredit : credited.overallBalance =
      overallAt (balances.insert (sender, key) debited) receiver key + amount) :
    Issued env infos
      ((balances.insert (sender, key) debited).insert (receiver, key) credited) := by
  apply issued.rebalance
  · intro script key' balance hrow
    rcases lookup_insert_cases hrow with ⟨hplace, rfl⟩ | ⟨-, hold⟩
    · cases hplace
      exact ⟨hcreditTick, hdeployed⟩
    · exact issued.places_insert hdebitTick hdeployed hold
  · intro other
    have hafterDebit := Balanced.overallTotal_insert balances sender key other debited
    have hafterCredit := Balanced.overallTotal_insert (balances.insert (sender, key) debited) receiver
      key other credited
    split_ifs at hafterDebit hafterCredit <;> omega

theorem overallAt_le_minted (issued : Issued env infos balances) {info : TokenInfo}
    (hinfo : infos.lookup key = some info) (script : Text) :
    overallAt balances script key ≤ info.minted := by
  rw [← issued.minted_eq hinfo]
  exact Balanced.overallAt_le_total balances script key

end Issued

/-! ### The books -/

/-- The invariant of the four tables, for a ledger that has seen the inscriptions `seen`. -/
structure Balanced (env : Env) (seen : InscriptionId → Prop) (infos : Infos) (balances : Balances)
    (records : Records) (logs : Logs) : Prop where
  info_tick : ∀ {key info}, infos.lookup key = some info → env.lowerHex info.tick = key
  balance_tick : ∀ {script key balance}, balances.lookup (script, key) = some balance →
    env.lowerHex balance.tick = key
  log_place : ∀ {script key id log}, logs.lookup (script, key, id) = some log →
    log.owner.render = script ∧ env.lowerHex log.tick = key ∧ log.inscriptionId = id
  deployed : ∀ {script key balance}, balances.lookup (script, key) = some balance →
    (infos.lookup key).isSome
  minted_eq : ∀ {key info}, infos.lookup key = some info → overallTotal key balances = info.minted
  minted_le : ∀ {key info}, infos.lookup key = some info → info.minted ≤ info.supply
  supply_lt : ∀ {key info}, infos.lookup key = some info → info.supply < 2 ^ 128
  transferable_eq : ∀ script key, transferableAt balances script key = loggedTotal script key logs
  transferable_le : ∀ script key, transferableAt balances script key ≤ overallAt balances script key
  record_of_log : ∀ {script key id log}, logs.lookup (script, key, id) = some log →
    records.lookup id = some { tick := log.tick, amt := log.amount }
  log_of_record : ∀ {id info}, records.lookup id = some info →
    ∃ script key log, logs.lookup (script, key, id) = some log
  seen_of_record : ∀ {id info}, records.lookup id = some info → seen id
  log_unique : ∀ {script key script' key' id log log'}, logs.lookup (script, key, id) = some log →
    logs.lookup (script', key', id) = some log' → script = script' ∧ key = key'

theorem Balanced.empty (env : Env) (seen : InscriptionId → Prop) : Balanced env seen ∅ ∅ ∅ ∅ where
  info_tick h := by simp at h
  balance_tick h := by simp at h
  log_place h := by simp at h
  deployed h := by simp at h
  minted_eq h := by simp at h
  minted_le h := by simp at h
  supply_lt h := by simp at h
  transferable_eq script key := by simp [transferableAt, loggedTotal]
  transferable_le script key := by simp [transferableAt]
  record_of_log h := by simp at h
  log_of_record h := by simp at h
  seen_of_record h := by simp at h
  log_unique h := by simp at h

namespace Balanced

variable {env : Env} {seen : InscriptionId → Prop} {infos : Infos} {balances : Balances}
  {records : Records} {logs : Logs} {key : TickKey}

theorem issued (balanced : Balanced env seen infos balances records logs) :
    Issued env infos balances :=
  ⟨balanced.balance_tick, balanced.deployed, balanced.minted_eq, balanced.minted_le,
    balanced.supply_lt⟩

/-- Seeing more inscriptions keeps the books. -/
theorem see (balanced : Balanced env seen infos balances records logs)
    {seen' : InscriptionId → Prop} (hmore : ∀ id, seen id → seen' id) :
    Balanced env seen' infos balances records logs :=
  { balanced with seen_of_record := fun hrecord => hmore _ (balanced.seen_of_record hrecord) }

/-! ### Log rows -/

theorem loggedTotal_insert (logs : Logs) (script other : Text) (key key' : TickKey)
    (id : InscriptionId) (log : TransferableLog) (hfresh : logs.lookup (script, key, id) = none) :
    loggedTotal other key' (logs.insert (script, key, id) log) =
      loggedTotal other key' logs + if other = script ∧ key' = key then log.amount else 0 := by
  unfold loggedTotal
  by_cases hplace : other = script ∧ key' = key
  · obtain ⟨rfl, rfl⟩ := hplace
    have haccount := totalWhere_insert (fun place => place.1 = other ∧ place.2.1 = key')
      TransferableLog.amount (other, key', id) ⟨rfl, rfl⟩ logs log
    rw [valueAt, hfresh] at haccount
    simpa using haccount
  · have hother : ¬ (script = other ∧ key = key') := fun h => hplace ⟨h.1.symm, h.2.symm⟩
    rw [if_neg hplace, Nat.add_zero]
    exact totalWhere_insert_of_not (fun place => place.1 = other ∧ place.2.1 = key')
      TransferableLog.amount (script, key, id) hother logs log

theorem loggedTotal_erase {logs : Logs} {script : Text} {id : InscriptionId} {log : TransferableLog}
    (hlog : logs.lookup (script, key, id) = some log) (other : Text) (key' : TickKey) :
    loggedTotal other key' (logs.erase (script, key, id)) +
        (if other = script ∧ key' = key then log.amount else 0) = loggedTotal other key' logs := by
  unfold loggedTotal
  by_cases hplace : other = script ∧ key' = key
  · obtain ⟨rfl, rfl⟩ := hplace
    have haccount := totalWhere_erase (fun place => place.1 = other ∧ place.2.1 = key')
      TransferableLog.amount (other, key', id) ⟨rfl, rfl⟩ logs
    rw [valueAt_of_lookup TransferableLog.amount hlog] at haccount
    simpa using haccount
  · have hother : ¬ (script = other ∧ key = key') := fun h => hplace ⟨h.1.symm, h.2.symm⟩
    rw [if_neg hplace, Nat.add_zero]
    exact totalWhere_erase_of_not (fun place => place.1 = other ∧ place.2.1 = key')
      TransferableLog.amount (script, key, id) hother logs

/-! ### Bookkeeping steps -/

/-- A token is deployed with nothing minted. -/
theorem deploy (balanced : Balanced env seen infos balances records logs) {info : TokenInfo}
    (hnew : infos.lookup key = none) (htick : env.lowerHex info.tick = key)
    (hminted : info.minted = 0) (hsupply : info.supply < 2 ^ 128) :
    Balanced env seen (infos.insert key info) balances records logs := by
  have issued := balanced.issued.deploy hnew hminted hsupply
  refine { balanced with info_tick := ?_, deployed := issued.deployed, minted_eq := issued.minted_eq,
                         minted_le := issued.minted_le, supply_lt := issued.supply_lt }
  intro other found hfound
  rcases lookup_insert_cases hfound with ⟨rfl, rfl⟩ | ⟨-, hold⟩
  · exact htick
  · exact balanced.info_tick hold

/-- An amount is minted to an owner and counted in the token's info. -/
theorem mint (balanced : Balanced env seen infos balances records logs) {script : Text}
    {info info' : TokenInfo} {balance : Balance} {amount : ℕ} (hinfo : infos.lookup key = some info)
    (hle : info.minted + amount ≤ info.supply) (htick : env.lowerHex balance.tick = key)
    (hoverall : balance.overallBalance = overallAt balances script key + amount)
    (htransferable : balance.transferableBalance = transferableAt balances script key)
    (htick' : info'.tick = info.tick) (hsupply : info'.supply = info.supply)
    (hminted : info'.minted = info.minted + amount) :
    Balanced env seen (infos.insert key info') (balances.insert (script, key) balance) records logs := by
  have issued := balanced.issued.mint hinfo hle htick hoverall hsupply hminted
  refine { balanced with info_tick := ?_, balance_tick := issued.balance_tick,
                         deployed := issued.deployed, minted_eq := issued.minted_eq,
                         minted_le := issued.minted_le, supply_lt := issued.supply_lt,
                         transferable_eq := ?_, transferable_le := ?_ }
  · intro other found hfound
    rcases lookup_insert_cases hfound with ⟨rfl, rfl⟩ | ⟨-, hold⟩
    · rw [htick']
      exact balanced.info_tick hinfo
    · exact balanced.info_tick hold
  · intro script' key'
    rw [transferableAt_insert, ← balanced.transferable_eq]
    split
    next hplace => rw [htransferable, hplace.1, hplace.2]
    next => rfl
  · intro script' key'
    have hbefore := balanced.transferable_le script' key'
    rw [transferableAt_insert, overallAt_insert]
    split
    next hplace =>
      obtain ⟨rfl, rfl⟩ := hplace
      omega
    next => exact hbefore

/-- An amount of an owner's balance is inscribed for transfer under a fresh inscription. -/
theorem inscribe (balanced : Balanced env seen infos balances records logs) {script : Text}
    {id : InscriptionId} {balance : Balance} {log : TransferableLog} {record : TransferInfo}
    (hdeployed : (infos.lookup key).isSome) (hfresh : records.lookup id = none) (hseen : seen id)
    (hrecord : record = { tick := log.tick, amt := log.amount })
    (htick : env.lowerHex balance.tick = key)
    (hoverall : balance.overallBalance = overallAt balances script key)
    (htransferable : balance.transferableBalance = transferableAt balances script key + log.amount)
    (hle : transferableAt balances script key + log.amount ≤ overallAt balances script key)
    (hplace : log.owner.render = script ∧ env.lowerHex log.tick = key ∧ log.inscriptionId = id) :
    Balanced env seen infos (balances.insert (script, key) balance)
      (records.insert id record) (logs.insert (script, key, id) log) := by
  have hnone : ∀ {script' key' log'}, logs.lookup (script', key', id) = some log' → False := by
    intro script' key' log' hlog
    cases (balanced.record_of_log hlog).symm.trans hfresh
  have hnew : logs.lookup (script, key, id) = none :=
    Option.eq_none_iff_forall_ne_some.2 fun _ hlog => hnone hlog
  have issued := balanced.issued.keepOverall htick hdeployed hoverall
  refine { balanced with balance_tick := issued.balance_tick, log_place := ?_,
                         deployed := issued.deployed, minted_eq := issued.minted_eq,
                         transferable_eq := ?_, transferable_le := ?_, record_of_log := ?_,
                         log_of_record := ?_, seen_of_record := ?_, log_unique := ?_ }
  · intro script' key' id' log' hlog
    rcases lookup_insert_cases hlog with ⟨heq, rfl⟩ | ⟨-, hold⟩
    · cases heq
      exact hplace
    · exact balanced.log_place hold
  · intro script' key'
    rw [transferableAt_insert, loggedTotal_insert logs script script' key key' id log hnew,
      ← balanced.transferable_eq]
    split
    next heq => rw [htransferable, heq.1, heq.2]
    next => rw [Nat.add_zero]
  · intro script' key'
    have hbefore := balanced.transferable_le script' key'
    rw [transferableAt_insert, overallAt_insert]
    split
    next =>
      rw [htransferable, hoverall]
      exact hle
    next => exact hbefore
  · intro script' key' id' log' hlog
    rcases lookup_insert_cases hlog with ⟨heq, rfl⟩ | ⟨-, hold⟩
    · cases heq
      rw [AList.lookup_insert, hrecord]
    · have hid : id' ≠ id := by
        rintro rfl
        exact hnone hold
      rw [AList.lookup_insert_ne hid]
      exact balanced.record_of_log hold
  · intro id' info' hrecord
    rcases lookup_insert_cases hrecord with ⟨rfl, -⟩ | ⟨hne, hold⟩
    · exact ⟨script, key, log, AList.lookup_insert logs⟩
    · obtain ⟨script', key', log', hlog⟩ := balanced.log_of_record hold
      refine ⟨script', key', log', ?_⟩
      rw [AList.lookup_insert_ne]
      · exact hlog
      · intro heq
        cases heq
        exact hne rfl
  · intro id' info' hrecord'
    rcases lookup_insert_cases hrecord' with ⟨rfl, -⟩ | ⟨-, hold⟩
    · exact hseen
    · exact balanced.seen_of_record hold
  · intro script₁ key₁ script₂ key₂ id' log₁ log₂ hlog₁ hlog₂
    rcases lookup_insert_cases hlog₁ with ⟨heq₁, -⟩ | ⟨-, hold₁⟩ <;>
      rcases lookup_insert_cases hlog₂ with ⟨heq₂, -⟩ | ⟨-, hold₂⟩
    · cases heq₁
      cases heq₂
      exact ⟨rfl, rfl⟩
    · cases heq₁
      exact (hnone hold₂).elim
    · cases heq₂
      exact (hnone hold₁).elim
    · exact balanced.log_unique hold₁ hold₂

/-- A logged amount moves from its owner to a receiver, who may be the owner. -/
theorem move (balanced : Balanced env seen infos balances records logs) {sender receiver : Text}
    {id : InscriptionId} {log : TransferableLog} {debited credited : Balance}
    (hdeployed : (infos.lookup key).isSome) (hlog : logs.lookup (sender, key, id) = some log)
    (hdebitTick : env.lowerHex debited.tick = key)
    (hdebit : debited.overallBalance + log.amount = overallAt balances sender key)
    (hdebitTransferable :
      debited.transferableBalance + log.amount = transferableAt balances sender key)
    (hcreditTick : env.lowerHex credited.tick = key)
    (hcredit : credited.overallBalance =
      overallAt (balances.insert (sender, key) debited) receiver key + log.amount)
    (hcreditTransferable : credited.transferableBalance =
      transferableAt (balances.insert (sender, key) debited) receiver key) :
    Balanced env seen infos ((balances.insert (sender, key) debited).insert (receiver, key) credited)
      (records.erase id) (logs.erase (sender, key, id)) := by
  have issued := balanced.issued.move hdeployed hdebitTick hcreditTick hdebit hcredit
  -- the credit does not change what the receiver can transfer
  have htransferable : ∀ script' key', transferableAt
      ((balances.insert (sender, key) debited).insert (receiver, key) credited) script' key' =
        transferableAt (balances.insert (sender, key) debited) script' key' := by
    intro script' key'
    rw [transferableAt_insert]
    split
    next heq => rw [hcreditTransferable, heq.1, heq.2]
    next => rfl
  have hrecorded : ∀ {script' key' id' log'}, (logs.erase (sender, key, id)).lookup
      (script', key', id') = some log' → id' ≠ id ∧ logs.lookup (script', key', id') = some log' := by
    intro script' key' id' log' hlog'
    obtain ⟨hne, hold⟩ := lookup_erase_cases hlog'
    refine ⟨?_, hold⟩
    rintro rfl
    obtain ⟨rfl, rfl⟩ := balanced.log_unique hlog hold
    exact hne rfl
  refine { balanced with balance_tick := issued.balance_tick, log_place := ?_,
                         deployed := issued.deployed, minted_eq := issued.minted_eq,
                         transferable_eq := ?_, transferable_le := ?_, record_of_log := ?_,
                         log_of_record := ?_, seen_of_record := ?_, log_unique := ?_ }
  · intro script' key' id' log' hlog'
    exact balanced.log_place (hrecorded hlog').2
  · intro script' key'
    have hlogged := loggedTotal_erase hlog script' key'
    have hbefore := balanced.transferable_eq script' key'
    rw [htransferable, transferableAt_insert]
    split
    next heq =>
      rw [if_pos heq] at hlogged
      obtain ⟨rfl, rfl⟩ := heq
      omega
    next hne =>
      rw [if_neg hne] at hlogged
      omega
  · intro script' key'
    have hbefore := balanced.transferable_le script' key'
    have hfirst : transferableAt (balances.insert (sender, key) debited) script' key' ≤
        overallAt (balances.insert (sender, key) debited) script' key' := by
      rw [transferableAt_insert, overallAt_insert]
      split
      next heq =>
        obtain ⟨rfl, rfl⟩ := heq
        omega
      next => exact hbefore
    rw [htransferable, overallAt_insert]
    split
    next heq =>
      obtain ⟨rfl, rfl⟩ := heq
      omega
    next => exact hfirst
  · intro script' key' id' log' hlog'
    obtain ⟨hne, hold⟩ := hrecorded hlog'
    rw [AList.lookup_erase_ne hne]
    exact balanced.record_of_log hold
  · intro id' info' hrecord
    obtain ⟨hne, hold⟩ := lookup_erase_cases hrecord
    obtain ⟨script', key', log', hlog'⟩ := balanced.log_of_record hold
    refine ⟨script', key', log', ?_⟩
    rw [AList.lookup_erase_ne]
    · exact hlog'
    · intro heq
      cases heq
      exact hne rfl
  · intro id' info' hrecord
    exact balanced.seen_of_record (lookup_erase_cases hrecord).2
  · intro script₁ key₁ script₂ key₂ id' log₁ log₂ hlog₁ hlog₂
    exact balanced.log_unique (hrecorded hlog₁).2 (hrecorded hlog₂).2

end Balanced

end OrdDogecoin.Drc20
