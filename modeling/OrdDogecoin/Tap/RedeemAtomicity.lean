/-
Module: OrdDogecoin.Tap.RedeemAtomicity
Purpose: A redeem is done as a whole or leaves the store as it was, provided that each of its items has
  an amount and that no staking configuration it lists has a duration or a delay that JSON cannot hold;
  either ends the process.  No signature is used by two redeems or authorities.
Trusted boundary: none
Main exports: RedeemDone, authStep_sound, tokenAuth_safe_iff_amounts
-/
import OrdDogecoin.Tap.Redeem
import OrdDogecoin.Lib.Run

namespace OrdDogecoin.Tap

open AtomicBatch Slices
open Proc (guard_bind_eq_some)
open Option (bind_eq_some_iff map_eq_some_iff bind_some bind_eq_bind)

/-! ### What a redeem must leave -/

section Specification

variable (env : AuthEnv) (context : TapContext) (handlers : AuthHandlers)

/-- The actions were processed one after the other, each with success. -/
inductive ProcessedInOrder (input : ProofInput) : ℕ → List Json → TapKv → List Json → TapKv → Prop where
  | nil {index : ℕ} {kv : TapKv} : ProcessedInOrder input index [] kv [] kv
  | cons {index : ℕ} {action done : Json} {actions rest : List Json} {kv next last : TapKv}
      (head : (processAction env handlers input index action).exec lengthRow kv = (some done, next))
      (tail : ProcessedInOrder input (index + 1) actions next rest last) :
      ProcessedInOrder input index (action :: actions) kv (done :: rest) last

def isRedeem (created : AuthCreated) : Bool :=
  (tokenAuthJson env context created).any fun json =>
    (json.get "cancel").isNone && (json.get "redeem").isSome

/-- A redeem with its signature, hash and salt. -/
def redeemBody (created : AuthCreated) : Option (Json × Json × Json × Json) := do
  let json ← tokenAuthJson env context created
  guard (json.get "cancel").isNone
  let redeem ← json.get "redeem"
  let signed ← signedFields json
  some (redeem, signed)

def listedItems (redeem : Json) : List Json := ((redeem.get "items").bind Json.asArray).getD []

/-- The actions that a redeem lists.  They count from the activation of proofs on. -/
def listedActions (redeem : Json) : List Json :=
  if featureEnabled env context .tokenAuthorityStakingUpgradeActivation then
    (redeemActions redeem).getD []
  else []

/-- Every item of a redeem that passes its checks has an amount. -/
def AmountsGiven (created : AuthCreated) (kv : TapKv) : Prop :=
  ∀ redeem sig hash salt plan, redeemBody env context created = some (redeem, sig, hash, salt) →
    redeemPlan env context handlers kv.get (inscriptionText created.inscriptionId) redeem sig hash
      salt = .ok plan →
    ∀ item ∈ listedItems redeem, (item.get "amt").isSome

/-- The durations and the delay of an action that configures staking. -/
def actionNumbers (rows : TapKey → Option TapRow) (link : Option TokenAuthRecord) (ins : Text)
    (earlier : List Json) (action : Json) : List ℤ :=
  if certMisplaced env action || !configuresStaking env action then []
  else link.elim [] fun link => stakingNumbers env (isDeployed rows)
    (isConfigured rows ins earlier.length) link.ins action

/-- The durations and the delays of the staking configurations in a list of actions, up to the first
action that is refused. -/
def configNumbers (rows : TapKey → Option TapRow) (link : Option TokenAuthRecord) (ins : Text) :
    List Json → List Json → List ℤ
  | _, [] => []
  | earlier, action :: actions =>
      actionNumbers env rows link ins earlier action ++
        match validateProofAction env handlers rows link ins earlier action with
        | .ok normal => configNumbers rows link ins (earlier ++ [normal]) actions
        | .error _ => []

/-- The durations and the delays that a redeem lists for staking are below `2^64`. -/
def NumbersFit (created : AuthCreated) (kv : TapKv) : Prop :=
  ∀ redeem sig hash salt plan, redeemBody env context created = some (redeem, sig, hash, salt) →
    redeemChecks env context kv.get redeem sig hash salt = some plan →
    ∀ n ∈ configNumbers env handlers kv.get plan.link (inscriptionText created.inscriptionId) []
      (plan.actions.getD []), n < 2 ^ 64

/-- All of a redeem was done, as on a copy of the store: the items were sent, the listed actions
processed in order, the record appended and the signature noted, and nothing else. -/
structure RedeemDone (redeem : Json) (plan : RedeemPlan) (iaddr : Address) (place : RecordPlace)
    (kv after sent acted : TapKv) (processed : List Json) (length : ℕ) : Prop where
  closed : after.batch = none
  items : sendItems handlers plan.addr place plan.items kv.copy = some sent
  listed : (plan.actions.getD []).length = (listedActions env context redeem).length
  actions : ProcessedInOrder env handlers (plan.input iaddr place) 0 (plan.actions.getD []) sent
    processed acted
  appended : acted.nextLength lengthRow { table := "tr", parts := [plan.addr] } = some length
  counted : after.get { table := "tr", parts := [plan.addr] } = some (lengthRow.write length)
  record : after.get (listItem "tri" [plan.addr] (lastIndex length)) =
    some (.redeem (plan.record iaddr place (plan.actions.map fun _ => processed)))
  replay : after.get { table := "tah", parts := [plan.compactSig] } = some (.text [])
  rows : ∀ key, after.get key =
    ((recordRedeem (plan.record iaddr place (plan.actions.map fun _ => processed))
      plan.compactSig).exec lengthRow acted).2.get key
  lens : after.lens =
    ((recordRedeem (plan.record iaddr place (plan.actions.map fun _ => processed))
      plan.compactSig).exec lengthRow acted).2.lens ∪ kv.lens

/-- The inscription is indexed without a panic, no batch stays open, and a redeem is done as a whole or
leaves every row and every cached length. -/
def CreatedSafely (created : AuthCreated) (kv : TapKv) : Prop :=
  ∃ after, indexTokenAuthCreated env context handlers created kv = some after ∧ after.batch = none ∧
    (isRedeem env context created → after = kv ∨
      ∃ redeem sig hash salt plan sent acted processed length,
        redeemBody env context created = some (redeem, sig, hash, salt) ∧
        redeemPlan env context handlers kv.get (inscriptionText created.inscriptionId) redeem sig
          hash salt = .ok plan ∧
        RedeemDone env context handlers redeem plan created.ownerAddress (created.place context) kv
          after sent acted processed length)

end Specification

/-- No batch is open, and the lengths of the lists of redeems can be read. -/
structure ReadyKv (kv : TapKv) : Prop where
  closed : kv.batch = none
  readable : ∀ addr row, kv.get { table := "tr", parts := [addr] } = some row →
    (lengthRow.read row).isSome

/-! ### The programs of redeems and authorities -/

section Programs

variable {guarded : TapKey → Prop}

/-- A list whose tables are not guarded. -/
theorem tapSetListRecord_avoids {lengthTable itemTable : String} {parts : List Text} {data : TapRow}
    {next : Option ℕ → TapProgram Unit}
    (htables : ∀ key, guarded key → key.table ∉ [lengthTable, itemTable])
    (rest : ∀ length, (next length).Avoids guarded) :
    (tapSetListRecord lengthTable itemTable parts data next).Avoids guarded := by
  apply Program.Avoids.append
  · intro hguarded
    exact htables _ hguarded (by simp)
  · intro index hguarded
    exact htables _ hguarded (by simp [listItem])
  · exact rest

theorem logRecord_avoids {lengthTable itemTable : String} {log : Text} {place : RecordPlace}
    {data : TapRow} {next : TapProgram Unit}
    (htables : ∀ key, guarded key →
      key.table ∉ [lengthTable, itemTable, "tx", "txi", "blck", "blcki"])
    (rest : next.Avoids guarded) :
    (logRecord lengthTable itemTable log place data next).Avoids guarded := by
  simp only [List.mem_cons, List.not_mem_nil, or_false, not_or] at htables
  apply tapSetListRecord_avoids
  · intro key hguarded
    simp [htables key hguarded]
  · intro length
    cases length with
    | none => exact rest
    | some length =>
        apply tapSetListRecord_avoids
        · intro key hguarded
          simp [htables key hguarded]
        · intro _
          apply tapSetListRecord_avoids
          · intro key hguarded
            simp [htables key hguarded]
          · exact fun _ => rest

/-- The tables that authorities and redeems write, beside replay rows and the lists of redeems. -/
def authTables : List String :=
  ["a", "al", "ali", "tx", "txi", "blck", "blcki", "tri", "trins", "sftr", "sftri", "ta", "tai", "tains",
    "sfta", "sftai", "tac"]

/-- The guarded rows are in other tables. -/
def OutsideAuth (guarded : TapKey → Prop) : Prop := ∀ key, guarded key → key.table ∉ authTables

theorem OutsideAuth.tables {tables : List String} (outside : OutsideAuth guarded)
    (htables : tables ⊆ authTables) : ∀ key, guarded key → key.table ∉ tables :=
  fun key hkey hmem => outside key hkey (htables hmem)

theorem outsideAuth_guardedKey : OutsideAuth guardedKey := by
  rintro key (hkey | hkey) <;> rw [hkey] <;> decide

theorem accumulate_avoids (outside : OutsideAuth guarded) (log : String) (entry : TokenAuthEntry) :
    (accumulate log entry).Avoids guarded := by
  apply Program.Avoids.put
  · exact fun hkey => outside _ hkey (by simp [authTables])
  · apply tapSetListRecord_avoids (outside.tables (by decide))
    intro _
    exact logRecord_avoids (outside.tables (by decide)) (.pure _)

/-- The log entries and the replay row of a redeem. -/
def redeemTail (record : TokenAuthRedeemRecord) (compactSig : Text) : TapProgram Unit :=
  logRecord "sftr" "sftri" "ath-rdm".toList record.place (.redeem record)
    (.put { table := "tah", parts := [compactSig] } (.text []) (.pure ()))

theorem redeemTail_avoids (record : TokenAuthRedeemRecord) (compactSig : Text)
    (htables : ∀ key, guarded key → key.table ∉ ["sftr", "sftri", "tx", "txi", "blck", "blcki"])
    (hreplay : ¬ guarded { table := "tah", parts := [compactSig] }) :
    (redeemTail record compactSig).Avoids guarded := by
  apply logRecord_avoids htables
  exact .put hreplay (.pure _)

/-- A redeem leaves every row outside the logs, the list of its address and its own replay row. -/
theorem recordRedeem_avoids (record : TokenAuthRedeemRecord) (compactSig : Text)
    (htables : ∀ key, guarded key →
      key.table ∉ ["tri", "trins", "sftr", "sftri", "tx", "txi", "blck", "blcki"])
    (hlist : ¬ guarded { table := "tr", parts := [record.addr] })
    (hreplay : ¬ guarded { table := "tah", parts := [compactSig] }) :
    (recordRedeem record compactSig).Avoids guarded := by
  have htail : (redeemTail record compactSig).Avoids guarded := by
    apply redeemTail_avoids _ _ _ hreplay
    intro key hguarded hmem
    exact htables key hguarded (List.mem_of_mem_drop (i := 2) hmem)
  apply Program.Avoids.append hlist
  · intro index hguarded
    exact htables _ hguarded (by simp [listItem])
  · intro length
    cases length with
    | none => exact htail
    | some length =>
        apply Program.Avoids.put _ htail
        intro hguarded
        exact htables _ hguarded (by simp)

theorem logRecord_exec (lengthTable itemTable : String) (log : Text) (place : RecordPlace)
    (data : TapRow) (next : TapProgram Unit) (kv : TapKv) :
    ∃ logged, (logRecord lengthTable itemTable log place data next).exec lengthRow kv =
      next.exec lengthRow logged := by
  unfold logRecord tapSetListRecord
  simp only [Program.exec]
  split
  next => exact ⟨_, rfl⟩
  next => exact ⟨_, rfl⟩

theorem get_redeemTail (record : TokenAuthRedeemRecord) (compactSig : Text) (kv : TapKv) :
    ((redeemTail record compactSig).exec lengthRow kv).2.get
      { table := "tah", parts := [compactSig] } = some (.text []) := by
  obtain ⟨logged, hlogged⟩ := logRecord_exec "sftr" "sftri" "ath-rdm".toList record.place
    (.redeem record) (.put { table := "tah", parts := [compactSig] } (.text []) (.pure ())) kv
  unfold redeemTail
  rw [hlogged]
  exact Store.get_put_self _ _ _

/-- The rows of a redeem's record and of its signature. -/
theorem get_recordRedeem (record : TokenAuthRedeemRecord) (compactSig : Text) {kv : TapKv} {length : ℕ}
    (hnext : kv.nextLength lengthRow { table := "tr", parts := [record.addr] } = some length) :
    ((recordRedeem record compactSig).exec lengthRow kv).2.get
        { table := "tr", parts := [record.addr] } = some (lengthRow.write length) ∧
      ((recordRedeem record compactSig).exec lengthRow kv).2.get
        (listItem "tri" [record.addr] (lastIndex length)) = some (.redeem record) ∧
      ((recordRedeem record compactSig).exec lengthRow kv).2.get
        { table := "tah", parts := [compactSig] } = some (.text []) := by
  have hkeys : ∀ index, ({ table := "tr", parts := [record.addr] } : TapKey) ≠
      listItem "tri" [record.addr] index := by
    intro index
    simp [listItem]
  obtain ⟨hlength, hcount, hitem⟩ := kv.get_append_self lengthRow (.redeem record) hkeys hnext
  -- what follows the append leaves the rows of the list
  have hrest : Program.Avoids (fun key : TapKey => key.table = "tr" ∨ key.table = "tri")
      (.put { table := "trins", parts := [record.place.ins] }
        (.pointer (listItem "tri" [record.addr] (length - 1))) (redeemTail record compactSig)) := by
    apply Program.Avoids.put
    · simp
    · apply redeemTail_avoids
      · rintro key (hkey | hkey) <;> simp [hkey]
      · simp
  have hexec : (recordRedeem record compactSig).exec lengthRow kv =
      (Program.put { table := "trins", parts := [record.place.ins] }
        (.pointer (listItem "tri" [record.addr] (length - 1)))
        (redeemTail record compactSig)).exec lengthRow
        (kv.append lengthRow { table := "tr", parts := [record.addr] }
          (listItem "tri" [record.addr]) (.redeem record)).2 := by
    unfold recordRedeem tapSetListRecord
    simp only [Program.exec, hlength]
    rfl
  rw [hexec]
  refine ⟨?_, ?_, ?_⟩
  · rw [hrest.get_exec lengthRow (Or.inl rfl), hcount]
  · rw [hrest.get_exec lengthRow (Or.inr rfl)]
    exact hitem
  · exact get_redeemTail _ _ _

end Programs

/-! ### Items and actions in a batch -/

section Batch

variable {env : AuthEnv} {context : TapContext} {handlers : AuthHandlers} {base store plain : TapKv}

theorem sendItems_eq_none {addr : Address} {place : RecordPlace} :
    ∀ {items : List Json}, (¬ ∀ item ∈ items, (item.get "amt").isSome) → ∀ kv : TapKv,
      sendItems handlers addr place items kv = none
  | [], hmissing, kv => absurd (fun item hitem => absurd hitem List.not_mem_nil) hmissing
  | item :: items, hmissing, kv => by
      unfold sendItems
      cases hamt : item.get "amt" with
      | none => rfl
      | some amt =>
          apply sendItems_eq_none
          intro hitems
          apply hmissing
          intro other hother
          rcases List.mem_cons.1 hother with rfl | hother
          · rw [hamt]
            rfl
          · exact hitems other hother

/-- With their amounts given the items are sent, in the batch as on the copy. -/
theorem sendItems_overlaid {addr : Address} {place : RecordPlace} :
    ∀ {items : List Json} {store plain : TapKv}, (∀ item ∈ items, (item.get "amt").isSome) →
      Overlaid base store plain →
      ∃ sent copy, sendItems handlers addr place items store = some sent ∧
        sendItems handlers addr place items plain = some copy ∧ Overlaid base sent copy
  | [], store, plain, _, overlaid => ⟨store, plain, rfl, rfl, overlaid⟩
  | item :: items, store, plain, hgiven, overlaid => by
      obtain ⟨amt, hamt⟩ := Option.isSome_iff_exists.1 (hgiven item List.mem_cons_self)
      unfold sendItems
      rw [hamt]
      apply sendItems_overlaid
      · exact fun other hother => hgiven other (List.mem_cons_of_mem _ hother)
      · exact (overlaid.exec lengthRow _).2

theorem get_sendItems {guarded : TapKey → Prop} {addr : Address} {place : RecordPlace} {key : TapKey}
    (havoids : ∀ addr item amt place, (handlers.sendItem addr item amt place).Avoids guarded)
    (hkey : guarded key) : ∀ {items : List Json}
    {kv sent : TapKv}, sendItems handlers addr place items kv = some sent →
      sent.get key = kv.get key
  | [], kv, sent, hsent => by
      cases hsent
      rfl
  | item :: items, kv, sent, hsent => by
      unfold sendItems at hsent
      cases hamt : item.get "amt" with
      | none =>
          rw [hamt] at hsent
          cases hsent
      | some amt =>
          rw [hamt] at hsent
          rw [get_sendItems havoids hkey hsent, (havoids _ _ _ _).get_exec lengthRow hkey]

theorem processAction_avoids (input : ProofInput) (index : ℕ) (action : Json) :
    (processAction env handlers input index action).Avoids guardedKey := by
  unfold processAction
  split
  next => exact .pure _
  next op _ =>
    dsimp only
    split
    next => exact handlers.process_avoids _ _ _ _
    next => exact .pure _

theorem processActions_cons (input : ProofInput) (index : ℕ) (action : Json) (actions : List Json)
    (kv : TapKv) :
    processActions env handlers input index (action :: actions) kv =
      match (processAction env handlers input index action).exec lengthRow kv with
      | (none, kv) => (none, kv)
      | (some done, kv) =>
          ((processActions env handlers input (index + 1) actions kv).1.map (done :: ·),
            (processActions env handlers input (index + 1) actions kv).2) := by
  rw [processActions]
  rcases (processAction env handlers input index action).exec lengthRow kv with ⟨_ | done, next⟩
  · rfl
  · rcases hrest : processActions env handlers input (index + 1) actions next with ⟨_ | rest, last⟩
    · simp [hrest]
    · simp [hrest]

/-- The loop over the actions does in the batch what it does on the copy. -/
theorem processActions_overlaid (env : AuthEnv) (handlers : AuthHandlers) (input : ProofInput) :
    ∀ (index : ℕ) (actions : List Json) {store plain : TapKv}, Overlaid base store plain →
      (processActions env handlers input index actions store).1 =
          (processActions env handlers input index actions plain).1 ∧
        Overlaid base (processActions env handlers input index actions store).2
          (processActions env handlers input index actions plain).2
  | index, [], store, plain, overlaid => ⟨rfl, overlaid⟩
  | index, action :: actions, store, plain, overlaid => by
      obtain ⟨hhead, hnext⟩ := overlaid.exec lengthRow (processAction env handlers input index action)
      rw [processActions_cons, processActions_cons]
      rcases hstore : (processAction env handlers input index action).exec lengthRow store with
        ⟨outcome, next⟩
      rcases hplain : (processAction env handlers input index action).exec lengthRow plain with
        ⟨expected, copy⟩
      rw [hstore, hplain] at hhead hnext
      cases hhead
      cases outcome with
      | none => exact ⟨rfl, hnext⟩
      | some done =>
          obtain ⟨htail, hlast⟩ := processActions_overlaid env handlers input (index + 1) actions hnext
          exact ⟨congrArg (Option.map (done :: ·)) htail, hlast⟩

/-- A loop that ends has processed every action. -/
theorem processedInOrder_of_processActions (input : ProofInput) :
    ∀ (index : ℕ) (actions : List Json) {kv : TapKv} {processed : List Json},
      (processActions env handlers input index actions kv).1 = some processed →
      ProcessedInOrder env handlers input index actions kv processed
        (processActions env handlers input index actions kv).2
  | index, [], kv, processed, hdone => by
      cases hdone
      exact .nil
  | index, action :: actions, kv, processed, hdone => by
      rw [processActions_cons] at hdone ⊢
      rcases hhead : (processAction env handlers input index action).exec lengthRow kv with
        ⟨_ | done, next⟩
      · rw [hhead] at hdone
        cases hdone
      · rw [hhead] at hdone
        obtain ⟨rest, hrest, rfl⟩ := map_eq_some_iff.1 hdone
        exact .cons hhead (processedInOrder_of_processActions input (index + 1) actions hrest)

theorem ProcessedInOrder.get_eq {input : ProofInput} {index : ℕ} {actions processed : List Json}
    {kv acted : TapKv} {key : TapKey} (hkey : guardedKey key)
    (done : ProcessedInOrder env handlers input index actions kv processed acted) :
    acted.get key = kv.get key := by
  induction done with
  | nil => rfl
  | @cons index action _ _ _ kv _ _ head _ ih =>
      have hget : ((processAction env handlers input index action).exec lengthRow kv).2.get key =
          kv.get key := (processAction_avoids input index action).get_exec lengthRow hkey kv
      rw [head] at hget
      exact ih.trans hget

end Batch

/-! ### The plan of a redeem -/

section Plan

variable {env : AuthEnv} {context : TapContext} {handlers : AuthHandlers}
variable {rows : TapKey → Option TapRow} {ins : Text} {redeem sig hash salt : Json} {plan : RedeemPlan}

theorem get_normalizeItem {item normal : Json} (hnormal : normalizeItem env context item = some normal) :
    normal.get "amt" = item.get "amt" := by
  unfold normalizeItem at hnormal
  obtain ⟨tick, hnormal⟩ := Proc.of_bind hnormal
  replace hnormal := Proc.of_guard hnormal
  obtain ⟨address, hnormal⟩ := Proc.of_bind hnormal
  replace hnormal := Proc.of_guard hnormal
  cases hnormal
  exact Json.get_set_of_ne (by decide) _ _

theorem mapM_normalizeItem_amounts :
    ∀ {items normal : List Json}, items.mapM (normalizeItem env context) = some normal →
      ((∀ item ∈ normal, (item.get "amt").isSome) ↔ ∀ item ∈ items, (item.get "amt").isSome)
  | [], normal, hnormal => by
      cases hnormal
      rfl
  | item :: items, normal, hnormal => by
      rw [List.mapM_cons] at hnormal
      obtain ⟨head, hhead, hnormal⟩ := bind_eq_some_iff.1 hnormal
      obtain ⟨rest, hrest, hnormal⟩ := bind_eq_some_iff.1 hnormal
      cases hnormal
      simp only [List.forall_mem_cons, get_normalizeItem hhead, mapM_normalizeItem_amounts hrest]

/-- Only the addresses of the items change. -/
theorem redeemItems_spec {items : List Json} {normal : Json}
    (hitems : redeemItems env context redeem = some (items, normal)) :
    ((∀ item ∈ items, (item.get "amt").isSome) ↔
        ∀ item ∈ listedItems redeem, (item.get "amt").isSome) ∧
      redeemActions normal = redeemActions redeem := by
  unfold redeemItems at hitems
  unfold listedItems
  cases hlist : (redeem.get "items").bind Json.asArray with
  | none =>
      rw [hlist] at hitems
      cases hitems
      exact ⟨Iff.rfl, rfl⟩
  | some list =>
      rw [hlist] at hitems
      obtain ⟨found, hfound, hitems⟩ := bind_eq_some_iff.1 hitems
      cases hitems
      constructor
      · exact mapM_normalizeItem_amounts hfound
      · unfold redeemActions
        rw [Json.get_set_of_ne (by decide)]

/-- What the checks of a redeem keep of its items and actions. -/
structure RedeemPlan.Faithful (env : AuthEnv) (context : TapContext) (redeem : Json)
    (plan : RedeemPlan) : Prop where
  amounts : (∀ item ∈ plan.items, (item.get "amt").isSome) ↔
    ∀ item ∈ listedItems redeem, (item.get "amt").isSome
  listed : (plan.actions.getD []).length = (listedActions env context redeem).length
  enabled : plan.actions.isSome →
    featureEnabled env context .tokenAuthorityStakingUpgradeActivation = true

theorem length_countedActions (actions : Option (List Json)) (enabled : Bool) :
    ((actions.filter fun actions => enabled && !actions.isEmpty).getD []).length =
      (if enabled then actions.getD [] else []).length := by
  cases actions with
  | none => simp
  | some actions =>
      cases enabled with
      | false => simp
      | true =>
          cases actions with
          | nil => rfl
          | cons action actions => rfl

/-- A redeem that passes the first checks keeps its items and actions, and its signature is new. -/
theorem redeemChecks_spec (hchecks : redeemChecks env context rows redeem sig hash salt = some plan) :
    plan.Faithful env context redeem ∧
      TapRow.isText (rows { table := "tah", parts := [plan.compactSig] }) = false := by
  unfold redeemChecks at hchecks
  replace hchecks := Proc.of_guard hchecks
  obtain ⟨⟨items, normal⟩, hitems, hchecks⟩ := bind_eq_some_iff.1 hchecks
  obtain ⟨hamounts, -⟩ := redeemItems_spec hitems
  replace hchecks := Proc.of_guard hchecks
  obtain ⟨hash, hchecks⟩ := Proc.of_bind hchecks
  obtain ⟨⟨ok, compactSig, pubkey⟩, hchecks⟩ := Proc.of_bind hchecks
  replace hchecks := Proc.of_guard hchecks
  obtain ⟨hfresh, hchecks⟩ := guard_bind_eq_some.1 hchecks
  have hcounted := length_countedActions (redeemActions redeem)
    (featureEnabled env context .tokenAuthorityStakingUpgradeActivation)
  have henabled : ((redeemActions redeem).filter fun actions =>
      featureEnabled env context .tokenAuthorityStakingUpgradeActivation &&
        !actions.isEmpty).isSome →
      featureEnabled env context .tokenAuthorityStakingUpgradeActivation = true := by
    intro hsome
    obtain ⟨actions, hactions⟩ := Option.isSome_iff_exists.1 hsome
    have hcounts := (Option.filter_eq_some_iff.1 hactions).2
    exact (Bool.and_eq_true _ _ ▸ hcounts).1
  dsimp only at hchecks
  split at hchecks
  next honly =>
    cases hchecks
    rw [Bool.and_eq_true, delegatedOnlyRedeem] at honly
    simp only [Bool.and_eq_true, List.isEmpty_iff] at honly
    exact ⟨⟨by simp [listedItems, honly.2.1.2], hcounted, henabled⟩, by simpa using hfresh⟩
  next =>
    obtain ⟨link, -, rfl⟩ := map_eq_some_iff.1 hchecks
    exact ⟨⟨hamounts, hcounted, henabled⟩, by simpa using hfresh⟩

/-- The validation keeps the number of actions. -/
theorem length_validateLoop {link : Option TokenAuthRecord} :
    ∀ {earlier actions normal : List Json},
      validateLoop env handlers rows link ins earlier actions = .ok normal →
        normal.length = actions.length
  | _, [], normal, hnormal => by
      cases hnormal
      rfl
  | earlier, action :: actions, normal, hnormal => by
      obtain ⟨first, -, hnormal⟩ := Results.bind_eq_ok.1 hnormal
      obtain ⟨rest, hrest, hnormal⟩ := Results.bind_eq_ok.1 hnormal
      cases hnormal
      exact congrArg Nat.succ (length_validateLoop hrest)

/-- A redeem that passes its checks keeps its items and actions, and its signature is new. -/
theorem redeemPlan_spec
    (hplan : redeemPlan env context handlers rows ins redeem sig hash salt = .ok plan) :
    plan.Faithful env context redeem ∧
      TapRow.isText (rows { table := "tah", parts := [plan.compactSig] }) = false := by
  obtain ⟨first, hfirst, hplan⟩ := Results.bind_eq_ok.1 hplan
  obtain ⟨faithful, hfresh⟩ := redeemChecks_spec (orRefuse_eq_ok.1 hfirst)
  cases hactions : first.actions with
  | none =>
      simp only [hactions] at hplan
      cases hplan
      exact ⟨faithful, hfresh⟩
  | some actions =>
      simp only [hactions] at hplan
      obtain ⟨normal, hnormal, hplan⟩ := Results.bind_eq_ok.1 hplan
      obtain ⟨link, -, hplan⟩ := Results.bind_eq_ok.1 hplan
      cases hplan
      have hlength : normal.length = actions.length := by
        unfold validateTokenProofActions at hnormal
        split at hnormal
        · cases hnormal
        · exact length_validateLoop hnormal
      have hlisted := faithful.listed
      rw [hactions] at hlisted
      exact ⟨⟨faithful.amounts, hlength.trans hlisted, fun _ => faithful.enabled (by rw [hactions]; rfl)⟩,
        hfresh⟩

/-! ### Numbers -/

theorem settles_validateProofAction_iff (link : Option TokenAuthRecord) (earlier : List Json)
    (action : Json) : Settles (validateProofAction env handlers rows link ins earlier action) ↔
      ∀ n ∈ actionNumbers env rows link ins earlier action, n < 2 ^ 64 := by
  unfold validateProofAction actionNumbers
  cases certMisplaced env action with
  | true => simp
  | false =>
      cases configuresStaking env action with
      | false => simp
      | true =>
          cases link with
          | none => simp [orRefuse]
          | some link =>
              simp only [orRefuse, Results.ok_bind, Bool.not_true, Bool.or_false, Bool.false_eq_true,
                if_false, if_true, Option.elim_some, settles_bind_ok]
              exact settles_stakingPolicy_iff _ _ _ _ _

/-- The validation of a list of actions ends the process exactly when one of the numbers is too large. -/
theorem settles_validateLoop_iff (link : Option TokenAuthRecord) : ∀ earlier actions : List Json,
    Settles (validateLoop env handlers rows link ins earlier actions) ↔
      ∀ n ∈ configNumbers env handlers rows link ins earlier actions, n < 2 ^ 64
  | earlier, [] => by simp [validateLoop, configNumbers]
  | earlier, action :: actions => by
      have hhead : Settles (validateProofAction env handlers rows link ins earlier action) ↔ _ :=
        settles_validateProofAction_iff link earlier action
      rw [validateLoop, configNumbers, List.forall_mem_append, ← hhead]
      cases hnormal : validateProofAction env handlers rows link ins earlier action with
      | ok normal =>
          simp only [Results.ok_bind, settles_bind_ok, settles_ok, true_and]
          exact settles_validateLoop_iff link _ actions
      | error stop => simp

theorem settles_redeemPlan_iff : Settles (redeemPlan env context handlers rows ins redeem sig hash salt) ↔
    ∀ plan, redeemChecks env context rows redeem sig hash salt = some plan →
      ∀ n ∈ configNumbers env handlers rows plan.link ins [] (plan.actions.getD []), n < 2 ^ 64 := by
  unfold redeemPlan
  cases hchecks : redeemChecks env context rows redeem sig hash salt with
  | none => simp [orRefuse]
  | some plan =>
      simp only [orRefuse, Results.ok_bind, Option.some.injEq, forall_eq']
      cases hactions : plan.actions with
      | none => simp [configNumbers]
      | some actions =>
          have henabled := (redeemChecks_spec hchecks).1.enabled (by rw [hactions]; rfl)
          rw [Option.getD_some, ← settles_validateLoop_iff plan.link [] actions]
          cases actions with
          | nil => simp [validateTokenProofActions, validateLoop]
          | cons action actions =>
              simp only [validateTokenProofActions, henabled, List.isEmpty_cons, Bool.not_true,
                Bool.or_false, Bool.false_eq_true, if_false]
              cases validateLoop env handlers rows plan.link ins [] (action :: actions) with
              | error stop => simp
              | ok normal =>
                  simp only [Results.ok_bind, settles_ok, iff_true]
                  cases plan.link.or (primaryDelegatedLink env rows normal) with
                  | none => exact settles_refused
                  | some link => exact settles_ok _

end Plan

/-! ### The batch of a redeem -/

section Redeem

variable {env : AuthEnv} {context : TapContext} {handlers : AuthHandlers} {kv : TapKv}
variable {redeem : Json} {plan : RedeemPlan} {iaddr : Address} {place : RecordPlace}

/-- An item without an amount ends the process. -/
theorem performRedeem_eq_none (hmissing : ¬ ∀ item ∈ plan.items, (item.get "amt").isSome) :
    performRedeem env context handlers plan iaddr place kv = none := by
  unfold performRedeem
  cases kv.begin with
  | none => rfl
  | some opened => simp [sendItems_eq_none hmissing]

theorem nextLength_isSome {addr : Address} {acted : TapKv} (ready : ReadyKv kv)
    (hget : acted.get { table := "tr", parts := [addr] } = kv.get { table := "tr", parts := [addr] }) :
    ∃ length, acted.nextLength lengthRow { table := "tr", parts := [addr] } = some length := by
  unfold Store.nextLength
  rw [hget]
  cases acted.cachedLength { table := "tr", parts := [addr] } with
  | some length => exact ⟨_, rfl⟩
  | none =>
      cases hrow : kv.get { table := "tr", parts := [addr] } with
      | none => exact ⟨_, rfl⟩
      | some row =>
          obtain ⟨length, hlength⟩ := Option.isSome_iff_exists.1 (ready.readable addr row hrow)
          simp [hlength]

theorem get_copy (hclosed : kv.batch = none) (key : TapKey) : kv.copy.get key = kv.get key := by
  simp [Store.get, Store.copy, hclosed]

/-- Recording and committing what was done in the batch. -/
theorem redeemDone_of_overlaid {opened sent acted : TapKv} {processed : List Json}
    (ready : ReadyKv kv) (faithful : plan.Faithful env context redeem)
    (hsent : sendItems handlers plan.addr place plan.items kv.copy = some sent)
    (hdone : ProcessedInOrder env handlers (plan.input iaddr place) 0 (plan.actions.getD []) sent
      processed acted)
    (overlaid : Overlaid kv opened acted) :
    ∃ length, RedeemDone env context handlers redeem plan iaddr place kv
      (finishRedeem plan iaddr place (plan.actions.map fun _ => processed) opened) sent acted processed
      length := by
  have hrow : acted.get { table := "tr", parts := [plan.addr] } =
      kv.get { table := "tr", parts := [plan.addr] } := by
    rw [hdone.get_eq (Or.inr rfl), get_sendItems handlers.sendItem_avoids (Or.inr rfl) hsent, get_copy ready.closed]
  obtain ⟨length, hlength⟩ := nextLength_isSome ready hrow
  obtain ⟨-, hrecorded⟩ := overlaid.exec lengthRow
    (recordRedeem (plan.record iaddr place (plan.actions.map fun _ => processed)) plan.compactSig)
  obtain ⟨hclosed, hrows, hlens⟩ := hrecorded.commit_spec
  have hget : ∀ key, (finishRedeem plan iaddr place (plan.actions.map fun _ => processed) opened).get
      key = ((recordRedeem (plan.record iaddr place (plan.actions.map fun _ => processed))
        plan.compactSig).exec lengthRow acted).2.get key := by
    intro key
    unfold finishRedeem Store.get
    rw [hclosed, hrecorded.closed]
    exact hrows key
  obtain ⟨hcounted, hrecord, hreplay⟩ := get_recordRedeem
    (plan.record iaddr place (plan.actions.map fun _ => processed)) plan.compactSig hlength
  refine ⟨length, ?_⟩
  constructor
  case closed => exact hclosed
  case items => exact hsent
  case listed => exact faithful.listed
  case actions => exact hdone
  case appended => exact hlength
  case counted => exact (hget _).trans hcounted
  case record => exact (hget _).trans hrecord
  case replay => exact (hget _).trans hreplay
  case rows => exact hget
  case lens => exact hlens

/-- In the batch of the redeem the actions open none of their own. -/
theorem processTokenProofActions_open {batch : Batch TapKey TapRow} (input : ProofInput)
    (actions : List Json) (hopen : kv.batch = some batch)
    (henabled : featureEnabled env context .tokenAuthorityStakingUpgradeActivation = true) :
    processTokenProofActions env context handlers input actions kv =
      some (processActions env handlers input 0 actions kv) := by
  unfold processTokenProofActions
  rcases hrun : processActions env handlers input 0 actions kv with ⟨_ | processed, acted⟩
  · simp [hopen, henabled, hrun]
  · simp [hopen, henabled, hrun]

/-- With every amount given a redeem is refused as a whole or done as a whole. -/
theorem performRedeem_spec (ready : ReadyKv kv) (faithful : plan.Faithful env context redeem)
    (hgiven : ∀ item ∈ plan.items, (item.get "amt").isSome) :
    performRedeem env context handlers plan iaddr place kv = some (none, kv) ∨
      ∃ after sent acted processed length,
        performRedeem env context handlers plan iaddr place kv = some (some plan.compactSig, after) ∧
        RedeemDone env context handlers redeem plan iaddr place kv after sent acted processed
          length := by
  obtain ⟨opened, hbegin⟩ : ∃ opened, kv.begin = some opened := by
    unfold Store.begin
    rw [ready.closed]
    exact ⟨_, rfl⟩
  obtain ⟨sent, copy, hsent, hcopy, overlaid⟩ := sendItems_overlaid hgiven (Overlaid.of_begin hbegin)
  unfold performRedeem
  rw [hbegin, bind_eq_bind, bind_some, hsent]
  rw [bind_eq_bind, bind_some]
  cases hactions : plan.actions with
  | none =>
      have hdone : ProcessedInOrder env handlers (plan.input iaddr place) 0 (plan.actions.getD [])
          copy [] copy := by
        rw [hactions]
        exact .nil
      obtain ⟨length, done⟩ := redeemDone_of_overlaid ready faithful hcopy hdone overlaid
      rw [hactions] at done
      exact .inr ⟨_, _, _, _, _, rfl, done⟩
  | some actions =>
      have henabled := faithful.enabled (by rw [hactions]; rfl)
      obtain ⟨batch, hbatch, -⟩ := overlaid.opened
      obtain ⟨hsame, hlast⟩ := processActions_overlaid env handlers (plan.input iaddr place) 0
        actions overlaid
      simp only [processTokenProofActions_open (plan.input iaddr place) actions hbatch henabled]
      cases houtcome : (processActions env handlers (plan.input iaddr place) 0 actions sent).1 with
      | none =>
          left
          simp only [bind_some, houtcome]
          exact congrArg (fun after => some (none, after)) (hlast.abort_eq ready.closed)
      | some processed =>
          have hdone := processedInOrder_of_processActions (plan.input iaddr place) 0 actions
            (hsame.symm.trans houtcome)
          obtain ⟨length, done⟩ := redeemDone_of_overlaid ready faithful hcopy
            (by rw [hactions]; exact hdone) hlast
          rw [hactions] at done
          simp only [bind_some, houtcome]
          exact .inr ⟨_, _, _, _, _, rfl, done⟩

end Redeem

/-! ### One inscription -/

section Created

variable {env : AuthEnv} {context : TapContext} {handlers : AuthHandlers} {created : AuthCreated}

/-- An inscription that is no signed redeem runs one program outside of any batch; a redeem without a
signature does nothing. -/
theorem tokenAuthCreated_of_no_body (handlers : AuthHandlers)
    (hbody : redeemBody env context created = none) (kv : TapKv) :
    ∃ program : TapProgram Unit, (∀ guarded, OutsideAuth guarded → program.Avoids guarded) ∧
      (isRedeem env context created = true → program = .pure ()) ∧
      tokenAuthCreated env context handlers created kv =
        some (none, (program.exec lengthRow kv).2) := by
  unfold redeemBody at hbody
  unfold isRedeem tokenAuthCreated
  cases hjson : tokenAuthJson env context created with
  | none => exact ⟨.pure (), fun _ _ => .pure _, fun _ => rfl, rfl⟩
  | some json =>
      simp only [hjson, bind_eq_bind, bind_some] at hbody
      simp only [Option.any_some, Bool.and_eq_true]
      cases hcancel : json.get "cancel" with
      | some cancel =>
          exact ⟨_, fun _ outside => accumulate_avoids outside _ _, fun hredeem => by simp at hredeem, rfl⟩
      | none =>
          cases hsigned : signedFields json with
          | none => exact ⟨.pure (), fun _ _ => .pure _, fun _ => rfl, by simp [Program.exec]⟩
          | some signed =>
              cases hredeem : json.get "redeem" with
              | none =>
                  obtain ⟨sig, hash, salt⟩ := signed
                  exact ⟨_, fun _ outside => accumulate_avoids outside _ _,
                    fun hredeem => by simp at hredeem, rfl⟩
              | some redeem => simp [hcancel, hsigned, hredeem] at hbody

theorem tokenAuthCreated_of_body (handlers : AuthHandlers) {redeem sig hash salt : Json}
    (hbody : redeemBody env context created = some (redeem, sig, hash, salt)) (kv : TapKv) :
    tokenAuthCreated env context handlers created kv =
      match redeemPlan env context handlers kv.get (inscriptionText created.inscriptionId) redeem sig
        hash salt with
      | .error .refused => some (none, kv)
      | .error _ => none
      | .ok plan =>
          performRedeem env context handlers plan created.ownerAddress (created.place context) kv := by
  unfold redeemBody at hbody
  obtain ⟨json, hjson, hbody⟩ := bind_eq_some_iff.1 hbody
  obtain ⟨hcancel, hbody⟩ := guard_bind_eq_some.1 hbody
  obtain ⟨found, hredeem, hbody⟩ := bind_eq_some_iff.1 hbody
  obtain ⟨signed, hsigned, hbody⟩ := bind_eq_some_iff.1 hbody
  cases hbody
  unfold tokenAuthCreated
  rw [Option.isNone_iff_eq_none] at hcancel
  rcases hplan : redeemPlan env context handlers kv.get (inscriptionText created.inscriptionId) redeem
    sig hash salt with stop | plan
  · cases stop <;> simp only [hjson, hcancel, hredeem, hsigned, hplan, Option.isSome_none,
      Bool.false_eq_true, if_false]
  · simp only [hjson, hcancel, hredeem, hsigned, hplan, Option.isSome_none, Bool.false_eq_true, if_false]

/-- A new inscription is indexed as it should be exactly when the items of a redeem that passes its checks
have amounts and the numbers of its staking configurations fit. -/
theorem createdSafely_iff {kv : TapKv} (ready : ReadyKv kv) :
    CreatedSafely env context handlers created kv ↔
      AmountsGiven env context handlers created kv ∧ NumbersFit env context handlers created kv := by
  cases hbody : redeemBody env context created with
  | none =>
      obtain ⟨program, -, hredeem, hrun⟩ := tokenAuthCreated_of_no_body handlers hbody kv
      constructor
      · refine fun _ => ⟨fun redeem sig hash salt plan hsome => ?_, fun redeem sig hash salt plan hsome => ?_⟩
        · cases hbody.symm.trans hsome
        · cases hbody.symm.trans hsome
      · intro _
        refine ⟨_, congrArg (Option.map Prod.snd) hrun, program.batch_exec lengthRow ready.closed, ?_⟩
        intro his
        rw [hredeem his]
        exact .inl rfl
  | some body =>
      obtain ⟨redeem, sig, hash, salt⟩ := body
      have hrun := tokenAuthCreated_of_body handlers hbody kv
      have hnumbers : NumbersFit env context handlers created kv ↔ Settles (redeemPlan env context handlers
          kv.get (inscriptionText created.inscriptionId) redeem sig hash salt) := by
        rw [settles_redeemPlan_iff]
        constructor
        · exact fun hfit plan => hfit redeem sig hash salt plan hbody
        · intro hfit redeem' sig' hash' salt' plan hsome
          cases hbody.symm.trans hsome
          exact hfit plan
      rw [hnumbers]
      rcases hplan : redeemPlan env context handlers kv.get (inscriptionText created.inscriptionId)
        redeem sig hash salt with stop | plan
      · rw [hplan] at hrun
        have hgiven : AmountsGiven env context handlers created kv := by
          intro redeem' sig' hash' salt' plan hsome hplanned
          cases hbody.symm.trans hsome
          cases hplan.symm.trans hplanned
        by_cases hstop : stop = .refused
        · rw [hstop] at hrun ⊢
          exact iff_of_true ⟨kv, congrArg (Option.map Prod.snd) hrun, ready.closed, fun _ => .inl rfl⟩
            ⟨hgiven, settles_refused⟩
        · refine iff_of_false ?_ fun h => hstop (h.2 stop rfl)
          rintro ⟨after, hafter, -⟩
          unfold indexTokenAuthCreated at hafter
          rw [hrun] at hafter
          cases stop with
          | refused => exact hstop rfl
          | panicked => cases hafter
          | unfinished => cases hafter
      · rw [hplan] at hrun
        dsimp only at hrun
        obtain ⟨faithful, -⟩ := redeemPlan_spec hplan
        constructor
        · rintro ⟨after, hafter, -⟩
          refine ⟨fun redeem' sig' hash' salt' plan' hsome _ => ?_, settles_ok _⟩
          cases hbody.symm.trans hsome
          by_contra hmissing
          rw [← faithful.amounts] at hmissing
          unfold indexTokenAuthCreated at hafter
          rw [hrun, performRedeem_eq_none hmissing] at hafter
          cases hafter
        · rintro ⟨hgiven, -⟩
          have hitems := faithful.amounts.2 (hgiven _ _ _ _ _ hbody hplan)
          rcases performRedeem_spec ready faithful hitems with
            hrefused | ⟨after, sent, acted, processed, length, hdone, done⟩
          · exact ⟨kv, congrArg (Option.map Prod.snd) (hrun.trans hrefused), ready.closed,
              fun _ => .inl rfl⟩
          · exact ⟨after, congrArg (Option.map Prod.snd) (hrun.trans hdone), done.closed,
              fun _ => .inr ⟨redeem, sig, hash, salt, plan, sent, acted, processed, length, hbody,
                hplan, done⟩⟩

end Created

/-! ### Runs -/

/-- The store is ready, every signature used so far has its replay row, and none was used twice. -/
structure AuthRun.Sound (run : AuthRun) : Prop where
  ready : ReadyKv run.kv
  noted : ∀ sig ∈ run.signed, TapRow.isText (run.kv.get { table := "tah", parts := [sig] }) = true
  nodup : run.signed.Nodup

namespace AuthRun.Sound

variable {run : AuthRun} {after : TapKv}

/-- A step that leaves the guarded rows. -/
theorem frame (sound : run.Sound) (hclosed : after.batch = none)
    (hget : ∀ key, guardedKey key → after.get key = run.kv.get key) :
    AuthRun.Sound { kv := after, signed := run.signed ++ [] } := by
  rw [List.append_nil]
  constructor
  case ready =>
    refine ⟨hclosed, fun addr row hrow => ?_⟩
    rw [hget _ (Or.inr rfl)] at hrow
    exact sound.ready.readable addr row hrow
  case noted =>
    intro sig hsig
    rw [hget _ (Or.inl rfl)]
    exact sound.noted sig hsig
  case nodup => exact sound.nodup

/-- A step that uses up a new signature. -/
theorem sign {sig : Text} (sound : run.Sound) (ready : ReadyKv after)
    (hfresh : TapRow.isText (run.kv.get { table := "tah", parts := [sig] }) = false)
    (hnoted : after.get { table := "tah", parts := [sig] } = some (.text []))
    (hother : ∀ other, other ≠ sig →
      after.get { table := "tah", parts := [other] } = run.kv.get { table := "tah", parts := [other] }) :
    AuthRun.Sound { kv := after, signed := run.signed ++ [sig] } := by
  have hnew : sig ∉ run.signed := by
    intro hmem
    rw [sound.noted sig hmem] at hfresh
    cases hfresh
  constructor
  case ready => exact ready
  case noted =>
    intro other hmem
    by_cases hsame : other = sig
    · rw [hsame, hnoted]
      rfl
    · rw [hother other hsame]
      apply sound.noted
      simpa [hsame] using hmem
  case nodup => simpa [List.nodup_append] using ⟨sound.nodup, fun other hmem hsame => hnew (hsame ▸ hmem)⟩

end AuthRun.Sound

section Steps

variable {env : AuthEnv} {context : TapContext} {handlers : AuthHandlers} {run : AuthRun}

/-- A redeem that is done leaves every guarded row that is not its own. -/
theorem RedeemDone.get_guarded {redeem : Json} {plan : RedeemPlan} {iaddr : Address}
    {place : RecordPlace} {kv after sent acted : TapKv} {processed : List Json} {length : ℕ}
    {key : TapKey} (hclosed : kv.batch = none)
    (done : RedeemDone env context handlers redeem plan iaddr place kv after sent acted processed
      length)
    (hkey : guardedKey key) (hlist : key ≠ { table := "tr", parts := [plan.addr] })
    (hreplay : key ≠ { table := "tah", parts := [plan.compactSig] }) :
    after.get key = kv.get key := by
  have havoids : (recordRedeem (plan.record iaddr place (plan.actions.map fun _ => processed))
      plan.compactSig).Avoids (fun other => other = key) := by
    apply recordRedeem_avoids
    · rintro other rfl
      rcases hkey with hkey | hkey <;> simp [hkey]
    · exact hlist.symm
    · exact hreplay.symm
  rw [done.rows, havoids.get_exec lengthRow rfl, done.actions.get_eq hkey,
    get_sendItems handlers.sendItem_avoids hkey done.items, get_copy hclosed]

/-- The lists of redeems stay readable. -/
theorem RedeemDone.ready {redeem : Json} {plan : RedeemPlan} {iaddr : Address} {place : RecordPlace}
    {kv after sent acted : TapKv} {processed : List Json} {length : ℕ} (ready : ReadyKv kv)
    (done : RedeemDone env context handlers redeem plan iaddr place kv after sent acted processed
      length) : ReadyKv after := by
  refine ⟨done.closed, fun addr row hrow => ?_⟩
  by_cases hsame : addr = plan.addr
  · rw [hsame, done.counted] at hrow
    cases hrow
    rfl
  · rw [done.get_guarded ready.closed (Or.inr rfl) (by simpa using hsame) (by simp)] at hrow
    exact ready.readable addr row hrow

theorem sound_created {created : AuthCreated} {outcome : Option Text × TapKv} (sound : run.Sound)
    (hrun : tokenAuthCreated env context handlers created run.kv = some outcome) :
    AuthRun.Sound { kv := outcome.2, signed := run.signed ++ outcome.1.toList } := by
  have hsame : AuthRun.Sound { kv := run.kv, signed := run.signed ++ [] } :=
    sound.frame sound.ready.closed fun _ _ => rfl
  cases hbody : redeemBody env context created with
  | none =>
      obtain ⟨program, avoids, -, hprogram⟩ := tokenAuthCreated_of_no_body handlers hbody run.kv
      cases hprogram.symm.trans hrun
      exact sound.frame (program.batch_exec lengthRow sound.ready.closed)
        fun key hkey => (avoids _ outsideAuth_guardedKey).get_exec lengthRow hkey _
  | some body =>
      obtain ⟨redeem, sig, hash, salt⟩ := body
      rw [tokenAuthCreated_of_body handlers hbody] at hrun
      rcases hplan : redeemPlan env context handlers run.kv.get
        (inscriptionText created.inscriptionId) redeem sig hash salt with stop | plan
      · rw [hplan] at hrun
        cases stop with
        | refused =>
            cases hrun
            exact hsame
        | panicked => cases hrun
        | unfinished => cases hrun
      · rw [hplan] at hrun
        dsimp only at hrun
        obtain ⟨faithful, hfresh⟩ := redeemPlan_spec hplan
        have hitems : ∀ item ∈ plan.items, (item.get "amt").isSome := by
          by_contra hmissing
          rw [performRedeem_eq_none hmissing] at hrun
          cases hrun
        rcases performRedeem_spec sound.ready faithful hitems with
          hrefused | ⟨after, sent, acted, processed, length, hdone, done⟩
        · cases hrefused.symm.trans hrun
          exact hsame
        · cases hdone.symm.trans hrun
          apply sound.sign (done.ready sound.ready) hfresh done.replay
          intro other hother
          exact done.get_guarded sound.ready.closed (Or.inl rfl) (by simp) (by simpa using hother)

/-- The replay row of an authority, and the end of its entry. -/
def authorityTail (record : TokenAuthRecord) (compactSig : Text) : TapProgram Unit :=
  .put { table := "tah", parts := [compactSig] } (.text [])
    (.del { table := "a", parts := [record.ins] } (.pure ()))

/-- A new authority leaves every guarded row but its own replay row. -/
theorem createAuthority_avoids {guarded : TapKey → Prop} (record : TokenAuthRecord) (compactSig : Text)
    (outside : OutsideAuth guarded) (hreplay : ¬ guarded { table := "tah", parts := [compactSig] }) :
    (createAuthority record compactSig).Avoids guarded := by
  have hrest : (authorityTail record compactSig).Avoids guarded := by
    apply Program.Avoids.put hreplay
    exact .del (fun hkey => outside _ hkey (by simp [authTables])) (.pure _)
  apply tapSetListRecord_avoids (outside.tables (by decide))
  intro length
  cases length with
  | none => exact hrest
  | some length =>
      apply Program.Avoids.put
      · exact fun hkey => outside _ hkey (by simp [authTables])
      · exact logRecord_avoids (outside.tables (by decide)) hrest

theorem get_createAuthority (record : TokenAuthRecord) (compactSig : Text) (kv : TapKv) :
    ((createAuthority record compactSig).exec lengthRow kv).2.get
      { table := "tah", parts := [compactSig] } = some (.text []) := by
  have hrest : ∀ store : TapKv, ((authorityTail record compactSig).exec lengthRow store).2.get
      { table := "tah", parts := [compactSig] } = some (.text []) := by
    intro store
    change ((store.put _ _).del _).get _ = _
    rw [Store.get_del_of_ne (by simp), Store.get_put_self]
  unfold createAuthority tapSetListRecord
  simp only [Program.exec]
  split
  next => exact hrest _
  next length _ =>
    obtain ⟨logged, hlogged⟩ := logRecord_exec "sfta" "sftai" "ath".toList record.place
      (.authority record) (authorityTail record compactSig)
      (((kv.append lengthRow { table := "ta", parts := [record.addr] } (listItem "tai" [record.addr])
        (.authority record)).2).put { table := "tains", parts := [record.ins] }
          (.pointer (listItem "tai" [record.addr] (lastIndex length))))
    have hget := hrest logged
    rw [← hlogged] at hget
    exact hget

theorem authorityRecord_fresh {rows : TapKey → Option TapRow} {moved : AuthMoved}
    {entry : TokenAuthEntry} {record : TokenAuthRecord} {compactSig : Text}
    (hrecord : authorityRecord env context rows moved entry = some (record, compactSig)) :
    TapRow.isText (rows { table := "tah", parts := [compactSig] }) = false := by
  unfold authorityRecord at hrecord
  obtain ⟨sig, hrecord⟩ := Proc.of_bind hrecord
  obtain ⟨hash, hrecord⟩ := Proc.of_bind hrecord
  obtain ⟨salt, hrecord⟩ := Proc.of_bind hrecord
  obtain ⟨auth, hrecord⟩ := Proc.of_bind hrecord
  obtain ⟨⟨ok, found, pubkey⟩, hrecord⟩ := Proc.of_bind hrecord
  replace hrecord := Proc.of_guard hrecord
  obtain ⟨hfresh, hrecord⟩ := guard_bind_eq_some.1 hrecord
  obtain ⟨ticks, hrecord⟩ := Proc.of_bind hrecord
  replace hrecord := Proc.of_guard hrecord
  cases hrecord
  simpa using hfresh

theorem cancelAuthority_avoids {guarded : TapKey → Prop} (outside : OutsideAuth guarded)
    (rows : TapKey → Option TapRow) (entry : TokenAuthEntry) (cancel : Json) {key : TapKey}
    (hkey : ¬ guarded key) : (cancelAuthority rows entry cancel key).Avoids guarded := by
  unfold cancelAuthority
  split
  next => exact .del hkey (.pure _)
  next link _ =>
    apply Program.Avoids.put _ (.del hkey (.pure _))
    exact fun htac => outside _ htac (by simp [authTables])

theorem sound_executed {moved : AuthMoved} (sound : run.Sound) :
    AuthRun.Sound
      { kv := (tokenAuthExecuted env context moved run.kv).2
        signed := run.signed ++ (tokenAuthExecuted env context moved run.kv).1.toList } := by
  have hentry : ¬ guardedKey { table := "a", parts := [inscriptionText moved.inscriptionId] } := by
    rintro (hkey | hkey) <;> simp at hkey
  -- a program that avoids the guarded rows
  have hprogram : ∀ program : TapProgram Unit, program.Avoids guardedKey → AuthRun.Sound
      { kv := (program.exec lengthRow run.kv).2, signed := run.signed ++ [] } := by
    intro program avoids
    exact sound.frame (program.batch_exec lengthRow sound.ready.closed)
      fun key hkey => avoids.get_exec lengthRow hkey _
  unfold tokenAuthExecuted
  dsimp only
  split
  next => exact hprogram _ (.pure ())
  next entry _ =>
    split
    next => exact hprogram _ (.pure ())
    next =>
      split
      next cancel _ => exact hprogram _ (cancelAuthority_avoids outsideAuth_guardedKey _ _ _ hentry)
      next =>
        split
        next => exact hprogram _ (.del hentry (.pure ()))
        next record compactSig hrecord =>
          have havoids : ∀ key, guardedKey key → key ≠ { table := "tah", parts := [compactSig] } →
              ((createAuthority record compactSig).exec lengthRow run.kv).2.get key =
                run.kv.get key := by
            intro key hkey hne
            have avoids : (createAuthority record compactSig).Avoids (fun other => other = key) := by
              apply createAuthority_avoids _ _ _ hne.symm
              rintro other rfl
              exact outsideAuth_guardedKey other hkey
            exact avoids.get_exec lengthRow rfl _
          apply sound.sign
          case ready =>
            refine ⟨Program.batch_exec lengthRow _ sound.ready.closed, fun addr row hrow => ?_⟩
            rw [havoids _ (Or.inr rfl) (by simp)] at hrow
            exact sound.ready.readable addr row hrow
          case hfresh => exact authorityRecord_fresh hrecord
          case hnoted => exact get_createAuthority _ _ _
          case hother =>
            intro other hother
            exact havoids _ (Or.inl rfl) (by simpa using hother)

/-- Every step keeps the replay rows complete. -/
theorem authStep_sound {step : AuthStep} {next : AuthRun} (sound : run.Sound)
    (hstep : authStep env run step = some next) : next.Sound := by
  cases step with
  | created context handlers created =>
      obtain ⟨outcome, houtcome, rfl⟩ := map_eq_some_iff.1 hstep
      exact sound_created sound houtcome
  | executed context moved =>
      cases hstep
      exact sound_executed sound
  | other program avoids =>
      cases hstep
      have hframe := sound.frame (program.batch_exec lengthRow sound.ready.closed)
        fun key hkey => avoids.get_exec lengthRow hkey _
      rwa [List.append_nil] at hframe

end Steps

/-- From a store without an open batch, in every run no signature is used twice, and a new inscription
is indexed without a panic and as a whole exactly when the items of a redeem that passes its checks have
amounts and the durations and delays of the staking configurations it lists are below `2^64`. -/
theorem tokenAuth_safe_iff_amounts (env : AuthEnv) {start : TapKv} {run : AuthRun}
    (ready : ReadyKv start)
    (reaches : Run.Reaches (authStep env) (fun _ _ => True) { kv := start, signed := [] } run) :
    ReadyKv run.kv ∧ run.signed.Nodup ∧ ∀ context handlers created,
      CreatedSafely env context handlers created run.kv ↔
        AmountsGiven env context handlers created run.kv ∧
          NumbersFit env context handlers created run.kv := by
  have sound : run.Sound := by
    apply reaches.invariant AuthRun.Sound
    · exact fun sound _ hstep => authStep_sound sound hstep
    · exact ⟨ready, fun sig hsig => absurd hsig List.not_mem_nil, List.nodup_nil⟩
  exact ⟨sound.ready, sound.nodup, fun context handlers created => createdSafely_iff sound.ready⟩

/-! ### An authority and its redeems -/

def bodyOf (text : String) : List UInt8 := text.toList.map fun c => c.toNat.toUInt8

/-- A signed `token-auth` with one more field. -/
def signedJson (r : String) (field : String) (value : Json) : Json :=
  .object
    [("p".toList, .string "tap".toList), ("op".toList, .string "token-auth".toList),
      ("sig".toList, textObject [("r", r), ("s", "1")]), ("hash".toList, .string "00".toList),
      ("salt".toList, .string "7".toList), (field.toList, value)]

def authorityId : Chain.InscriptionId := { txid := 1, index := 0 }

/-- A redeem under the authority that sends one item. -/
def redeemOf (item : List (String × String)) : Json :=
  .object
    [("items".toList, .array [textObject item]), ("auth".toList, .string (inscriptionText authorityId)),
      ("data".toList, .string [])]

def authorityText : String :=
  "\x7b\"p\":\"tap\",\"op\":\"token-auth\",\"sig\":\x7b\"r\":\"2\",\"s\":\"1\"\x7d," ++
    "\"hash\":\"00\",\"salt\":\"7\",\"auth\":[]\x7d"

def redeemText (amt : String) : String :=
  "\x7b\"p\":\"tap\",\"op\":\"token-auth\",\"sig\":\x7b\"r\":\"3\",\"s\":\"1\"\x7d," ++
    "\"hash\":\"00\",\"salt\":\"7\",\"redeem\":\x7b\"items\":[\x7b\"tick\":\"dog\",\"address\":\"n1\"" ++
    amt ++
    "\x7d],\"auth\":\"0000000000000000000000000000000000000000000000000000000000000001i0\"," ++
    "\"data\":\"\"\x7d\x7d"

/-- The libraries on three bodies, with one key that signs everything. -/
def signedEnv : AuthEnv where
  toProofEnv := { plainEnv with
    parse := fun body =>
      if body = bodyOf authorityText then some (signedJson "2" "auth" (.array []))
      else if body = bodyOf (redeemText ",\"amt\":\"1\"") then
        some (signedJson "3" "redeem" (redeemOf [("tick", "dog"), ("address", "n1"), ("amt", "1")]))
      else if body = bodyOf (redeemText "") then
        some (signedJson "3" "redeem" (redeemOf [("tick", "dog"), ("address", "n1")]))
      else none }
  sha256JsonPlusSalt _ _ := 0
  verifySig sig _ _ := some (true, sig.text "r" ++ sig.text "s", "02".toList)

/-- The internal send of a ticker that is not deployed, and no actions. -/
def itemHandlers : AuthHandlers where
  validateAction _ _ _ _ _ := none
  sendItem _ item _ _ :=
    .get { table := "d", parts := [jsonStringifyLower plainEnv.toTapEnv (item.text "tick")] }
      fun _ => .pure ()
  process _ _ _ _ := .pure none
  sendItem_avoids _ _ _ _ := .get fun _ => .pure _
  process_avoids := refuse_avoids

def newInscription (txid : ℕ) (text : String) : AuthCreated where
  inscriptionId := { txid := txid, index := 0 }
  inscriptionNumber := txid
  satpoint := { outpoint := { txid := txid, vout := 0 }, offset := 0 }
  body := some (bodyOf text)
  ownerAddress := "n1".toList
  parents := []
  outputValueSat := 100000
  timestamp := 0

/-- The authority is inscribed and then moved. -/
def createAuthoritySteps : List AuthStep :=
  [.created plainContext itemHandlers (newInscription 1 authorityText),
    .executed plainContext
      { inscriptionId := authorityId
        newSatpoint := { outpoint := { txid := 2, vout := 0 }, offset := 0 }
        ownerAddress := "n1".toList
        outputValueSat := 100000
        timestamp := 0 }]

def emptyKv : TapKv where
  rows := ∅
  lens := ∅
  batch := none

theorem emptyKv_ready : ReadyKv emptyKv where
  closed := rfl
  readable addr row hrow := by cases hrow

/-- A redeem with an amount is committed after its authority was created. -/
theorem committedRedeem_safe :
    ∃ run, Run.Reaches (authStep signedEnv) (fun _ _ => True) { kv := emptyKv, signed := [] } run ∧
      run.signed = ["21".toList, "31".toList] ∧ ReadyKv run.kv ∧ run.signed.Nodup := by
  have hexec : (Run.exec (authStep signedEnv) (fun _ _ => true)
      (createAuthoritySteps ++
        [.created plainContext itemHandlers (newInscription 3 (redeemText ",\"amt\":\"1\""))])
      { kv := emptyKv, signed := [] }).map AuthRun.signed = some ["21".toList, "31".toList] := by
    decide +kernel
  have hrun : ∃ run, Run.Reaches (authStep signedEnv) (fun _ _ => True)
      { kv := emptyKv, signed := [] } run ∧ run.signed = ["21".toList, "31".toList] :=
    Run.exists_reaches_of_exec (fun _ => trivial) hexec
  obtain ⟨run, reaches, hsigned⟩ := hrun
  obtain ⟨hready, hnodup, -⟩ := tokenAuth_safe_iff_amounts signedEnv emptyKv_ready reaches
  exact ⟨run, reaches, hsigned, hready, hnodup⟩

/-- A redeem whose only item has no amount ends the process with its batch open. -/
theorem redeem_without_amount_panics :
    ∃ run, Run.Reaches (authStep signedEnv) (fun _ _ => True) { kv := emptyKv, signed := [] } run ∧
      ¬ CreatedSafely signedEnv plainContext itemHandlers (newInscription 3 (redeemText "")) run.kv := by
  have hexec : (Run.exec (authStep signedEnv) (fun _ _ => true) createAuthoritySteps
      { kv := emptyKv, signed := [] }).map (fun run => (indexTokenAuthCreated signedEnv plainContext
        itemHandlers (newInscription 3 (redeemText "")) run.kv).isSome) = some false := by
    decide +kernel
  have hrun : ∃ run, Run.Reaches (authStep signedEnv) (fun _ _ => True)
      { kv := emptyKv, signed := [] } run ∧ (indexTokenAuthCreated signedEnv plainContext
        itemHandlers (newInscription 3 (redeemText "")) run.kv).isSome = false :=
    Run.exists_reaches_of_exec (fun _ => trivial) hexec
  obtain ⟨run, reaches, hpanics⟩ := hrun
  refine ⟨run, reaches, ?_⟩
  rintro ⟨after, hafter, -⟩
  rw [hafter] at hpanics
  cases hpanics

end OrdDogecoin.Tap
