/-
Module: OrdDogecoin.Tap.Settlements
Purpose: What opening and settling an obligation do to the rows: the amount that is reserved with the
  source and set free, and what the source and the target hold afterwards, whether they are accounts,
  authorities or pools and whether or not they coincide.
Trusted boundary: none
Main exports: AmountMoved, processObligationOpenAction_spec, processObligationSettleAction_spec
-/
import OrdDogecoin.Tap.Obligations
import OrdDogecoin.Tap.Releases

namespace OrdDogecoin.Tap

open Option (bind_eq_some_iff map_some)
open Proc (of_bind of_guard guard_bind_eq_some wp_read wp_bind wp_write_last)

variable {env : ProofEnv} {context : TapContext} {store after : ProofStore} {tick : TickKey}
  {link : Option TokenAuthCreateRecord}

/-! ### Rows of big integers -/

theorem bigAt_insert {K : Type} [DecidableEq K] (table : KeyTable K ℤ) (key other : K) (n : ℤ) :
    bigAt (table.insert key n) other = if other = key then n else bigAt table other := by
  unfold bigAt
  rw [KeyTable.lookup_insert_ite]
  split <;> rfl

/-- Adding to a row. -/
theorem bigAt_insert_add {K : Type} [DecidableEq K] (table : KeyTable K ℤ) (key other : K) (delta : ℤ) :
    bigAt (table.insert key (bigAt table key + delta)) other =
      bigAt table other + if other = key then delta else 0 := by
  rw [bigAt_insert]
  split
  next hkey => rw [hkey]
  next => rw [add_zero]

theorem bigAt_putAuthorityBalance {auth : Text} {n : ℤ} (key : Text × TickKey) :
    bigAt (store.putAuthorityBalance env auth tick n).ab key =
      if key = (auth, tick) then n else bigAt store.ab key := by
  obtain ⟨abli, abo, hput⟩ := putAuthorityBalance_eq env store auth tick n
  rw [hput]
  exact bigAt_insert _ _ _ _

section Wp

variable {post : Unit → ProofStore → Prop}

theorem wp_tapAddAuthorityBalanceBigint {auth : Text} {tick : TickKey} {delta : ℤ}
    (hpost : 0 ≤ bigAt store.ab (auth, tick) + delta →
      post () (store.putAuthorityBalance env auth tick (bigAt store.ab (auth, tick) + delta))) :
    Proc.wp (tapAddAuthorityBalanceBigint env auth tick delta) post (fun _ _ => True) store := by
  unfold tapAddAuthorityBalanceBigint
  apply wp_read
  exact wp_tapSetAuthorityBalance hpost

theorem wp_tapPutAddressBalanceBigint {address : Address} {tick : TickKey} {n : ℤ}
    (hpost : 0 ≤ n → post () (store.putBalance address tick n)) :
    Proc.wp (tapPutAddressBalanceBigint address tick n) post (fun _ _ => True) store := by
  unfold tapPutAddressBalanceBigint
  apply ProofHandler.wp_require
  intro hnonneg
  exact wp_write_last (hpost (by simpa using hnonneg))

theorem wp_tapAddObligationLocked {source : ObligationTarget} {tick : TickKey} {delta : ℤ}
    (hpost : 0 ≤ bigAt store.oll (source, tick) + delta →
      post ()
        { store with
          oll := store.oll.insert (source, tick) (bigAt store.oll (source, tick) + delta) }) :
    Proc.wp (tapAddObligationLocked source tick delta) post (fun _ _ => True) store := by
  unfold tapAddObligationLocked
  apply ProofHandler.wp_require
  intro _
  apply wp_read
  apply ProofHandler.wp_require
  intro hnonneg
  exact wp_write_last (hpost (by simpa using hnonneg))

end Wp

/-! ### Moving an amount -/

/-- The authority whose balance a source or target uses. -/
def ObligationTarget.authorityId : ObligationTarget → Option Text
  | .authority auth => some auth
  | .pool pid _ => some pid
  | _ => none

/-- A pool whose reserve at a source or target is moved. -/
def AmmPoolRecord.moved (pool : AmmPoolRecord) (pid : Text) (target : ObligationTarget) (amount : ℤ) :
    AmmPoolRecord :=
  { pool with r := fun side => pool.r side + if target = .pool pid side then amount else 0 }

/-- An amount is added to what a source or target holds, and nothing else changes. -/
structure AmountMoved (env : ProofEnv) (target : ObligationTarget) (tick : TickKey) (amount : ℤ)
    (store after : ProofStore) : Prop where
  frame : ∃ b ab abli abo amm, after =
    { store with b := b, ab := ab, abli := abli, abo := abo, amm := amm }
  accounts : ∀ address asked, bigAt after.b (address, asked) = bigAt store.b (address, asked) +
    if target = .account address ∧ asked = tick then amount else 0
  authorities : ∀ auth asked, bigAt after.ab (auth, asked) = bigAt store.ab (auth, asked) +
    if target.authorityId = some auth ∧ asked = tick then amount else 0
  nonneg : ∀ key, 0 ≤ bigAt store.ab key → 0 ≤ bigAt after.ab key
  pools : ∀ pid, after.amm.lookup pid =
    (store.amm.lookup pid).map fun pool => pool.moved pid target amount
  asset : ∀ pid side, target = .pool pid side →
    ∃ pool, store.amm.lookup pid = some pool ∧ pool.tickKey env side = some tick

theorem AmmPoolRecord.moved_of_ne {pool : AmmPoolRecord} {pid : Text} {target : ObligationTarget}
    {amount : ℤ} (hne : ∀ side, target ≠ .pool pid side) : pool.moved pid target amount = pool := by
  unfold AmmPoolRecord.moved
  have hr : (fun side => pool.r side + if target = .pool pid side then amount else 0) = pool.r := by
    funext side
    rw [if_neg (hne side), add_zero]
  rw [hr]

theorem map_moved_of_ne {target : ObligationTarget} {amount : ℤ} {pid : Text}
    (hne : ∀ side, target ≠ .pool pid side) (found : Option AmmPoolRecord) :
    found = found.map fun pool => pool.moved pid target amount := by
  cases found with
  | none => rfl
  | some pool => rw [map_some, AmmPoolRecord.moved_of_ne hne]

theorem AmountMoved.account (store : ProofStore) (address : Address) (tick : TickKey) (amount : ℤ) :
    AmountMoved env (.account address) tick amount store
      (store.putBalance address tick (bigAt store.b (address, tick) + amount)) where
  frame := ⟨_, _, _, _, _, rfl⟩
  accounts other asked := by
    change bigAt (store.b.insert (address, tick) (bigAt store.b (address, tick) + amount)) _ = _
    rw [bigAt_insert_add]
    by_cases hkey : (other, asked) = (address, tick)
    · cases hkey
      simp
    · rw [if_neg hkey, if_neg]
      rintro ⟨heq, rfl⟩
      cases heq
      exact hkey rfl
  authorities auth asked := by simp [ObligationTarget.authorityId, ProofStore.putBalance]
  nonneg key hnonneg := hnonneg
  pools pid := map_moved_of_ne (by intro side hsame; cases hsame) _
  asset pid side hsame := by cases hsame

/-- What putting the balance of an authority moves. -/
theorem authorities_put (store : ProofStore) (auth : Text) (tick : TickKey) (amount : ℤ)
    (target : ObligationTarget) (htarget : target.authorityId = some auth) (other : Text)
    (asked : TickKey) :
    bigAt (store.putAuthorityBalance env auth tick (bigAt store.ab (auth, tick) + amount)).ab
        (other, asked) =
      bigAt store.ab (other, asked) +
        if target.authorityId = some other ∧ asked = tick then amount else 0 := by
  rw [bigAt_putAuthorityBalance, htarget]
  by_cases hkey : (other, asked) = (auth, tick)
  · cases hkey
    simp
  · rw [if_neg hkey, if_neg, add_zero]
    rintro ⟨heq, rfl⟩
    cases heq
    exact hkey rfl

theorem nonneg_put (store : ProofStore) {auth : Text} {n : ℤ} (hnonneg : 0 ≤ n)
    (key : Text × TickKey) (hold : 0 ≤ bigAt store.ab key) :
    0 ≤ bigAt (store.putAuthorityBalance env auth tick n).ab key := by
  rw [bigAt_putAuthorityBalance]
  split
  · exact hnonneg
  · exact hold

theorem AmountMoved.authority (store : ProofStore) (auth : Text) (tick : TickKey) (amount : ℤ)
    (hnonneg : 0 ≤ bigAt store.ab (auth, tick) + amount) :
    AmountMoved env (.authority auth) tick amount store
      (store.putAuthorityBalance env auth tick (bigAt store.ab (auth, tick) + amount)) where
  frame := by
    obtain ⟨abli, abo, hput⟩ := putAuthorityBalance_eq env store auth tick
      (bigAt store.ab (auth, tick) + amount)
    exact ⟨_, _, _, _, _, hput⟩
  accounts address asked := by simp
  authorities := authorities_put store auth tick amount _ rfl
  nonneg := nonneg_put store hnonneg
  pools pid := by
    obtain ⟨abli, abo, hput⟩ := putAuthorityBalance_eq env store auth tick
      (bigAt store.ab (auth, tick) + amount)
    rw [hput]
    exact map_moved_of_ne (by intro side hsame; cases hsame) _
  asset pid side hsame := by cases hsame

theorem tapPool_spec {pid : Text} {side : Fin 2} {pool : AmmPoolRecord}
    (hpool : store.tapPool env pid side tick = some pool) :
    store.amm.lookup pid = some pool ∧ pool.tickKey env side = some tick := by
  unfold ProofStore.tapPool at hpool
  obtain ⟨found, hfound, hpool⟩ := bind_eq_some_iff.1 hpool
  obtain ⟨hasset, hpool⟩ := guard_bind_eq_some.1 hpool
  cases hpool
  exact ⟨hfound, hasset.2⟩

theorem AmountMoved.pool {pid : Text} {side : Fin 2} {pool : AmmPoolRecord}
    (hpool : store.tapPool env pid side tick = some pool) (amount : ℤ)
    (hnonneg : 0 ≤ bigAt store.ab (pid, tick) + amount) :
    AmountMoved env (.pool pid side) tick amount store
      { store.putAuthorityBalance env pid tick (bigAt store.ab (pid, tick) + amount) with
        amm := (store.putAuthorityBalance env pid tick (bigAt store.ab (pid, tick) + amount)).amm.insert
          pid { pool with r := Function.update pool.r side (pool.r side + amount), sh := pool.sh } } := by
  obtain ⟨hfound, hasset⟩ := tapPool_spec hpool
  obtain ⟨abli, abo, hput⟩ := putAuthorityBalance_eq env store pid tick
    (bigAt store.ab (pid, tick) + amount)
  constructor
  · rw [hput]
    exact ⟨_, _, _, _, _, rfl⟩
  · intro address asked
    simp
  · exact authorities_put store pid tick amount _ rfl
  · exact nonneg_put store hnonneg
  · intro other
    rw [hput]
    dsimp only
    rw [KeyTable.lookup_insert_ite]
    by_cases hother : other = pid
    · subst hother
      rw [if_pos rfl, hfound, map_some]
      congr 1
      unfold AmmPoolRecord.moved
      congr 1
      funext asked
      by_cases hside : asked = side
      · subst hside
        simp
      · rw [Function.update_of_ne hside, if_neg, add_zero]
        intro hsame
        cases hsame
        exact hside rfl
    · rw [if_neg hother]
      apply map_moved_of_ne
      intro side hsame
      cases hsame
      exact hother rfl
  · intro asked askedSide hsame
    cases hsame
    exact ⟨pool, hfound, hasset⟩

theorem AmountMoved.burn (store : ProofStore) (tick : TickKey) (amount : ℤ) :
    AmountMoved env .burn tick amount store store where
  frame := ⟨_, _, _, _, _, rfl⟩
  accounts address asked := by simp
  authorities auth asked := by simp [ObligationTarget.authorityId]
  nonneg key hnonneg := hnonneg
  pools pid := map_moved_of_ne (by intro side hsame; cases hsame) _
  asset pid side hsame := by cases hsame

section Wp

variable {post : Unit → ProofStore → Prop}

/-- The source is debited after its reservation is lowered. -/
theorem wp_debitObligationSource {source : ObligationTarget} {tick : TickKey} {amount : ℤ}
    (hpost : 0 ≤ bigAt store.oll (source, tick) + -amount → ∀ after,
      AmountMoved env source tick (-amount)
        { store with
          oll := store.oll.insert (source, tick) (bigAt store.oll (source, tick) + -amount) } after →
      post () after) :
    Proc.wp (debitObligationSource env source tick amount) post (fun _ _ => True) store := by
  unfold debitObligationSource
  apply wp_bind
  apply wp_tapAddObligationLocked
  intro hlocked
  cases source with
  | account address =>
      dsimp only
      apply wp_read
      apply ProofHandler.wp_require
      intro _
      apply wp_write_last
      rw [sub_eq_add_neg]
      exact hpost hlocked _ (.account _ address tick (-amount))
  | authority auth =>
      apply wp_tapAddAuthorityBalanceBigint
      intro hnonneg
      exact hpost hlocked _ (.authority _ auth tick (-amount) hnonneg)
  | pool pid side =>
      dsimp only
      apply wp_read
      apply ProofHandler.wp_get
      intro pool hpool
      apply ProofHandler.wp_require
      intro _
      apply wp_bind
      apply wp_tapAddAuthorityBalanceBigint
      intro hnonneg
      apply wp_write_last
      rw [sub_eq_add_neg]
      exact hpost hlocked _ (.pool hpool (-amount) hnonneg)
  | burn =>
      unfold ProofHandler.require Proc.exitIf
      exact trivial

theorem wp_creditObligationTarget {target : ObligationTarget} {tick : TickKey} {amount : ℤ}
    (hpos : 0 < amount)
    (hpost : ∀ after, AmountMoved env target tick amount store after → post () after) :
    Proc.wp (creditObligationTarget env target tick amount) post (fun _ _ => True) store := by
  unfold creditObligationTarget
  rw [if_neg (by omega)]
  cases target with
  | account address =>
      dsimp only
      apply wp_read
      apply wp_tapPutAddressBalanceBigint
      intro _
      exact hpost _ (.account _ address tick amount)
  | authority auth =>
      apply wp_tapAddAuthorityBalanceBigint
      intro hnonneg
      exact hpost _ (.authority _ auth tick amount hnonneg)
  | pool pid side =>
      dsimp only
      apply wp_read
      apply ProofHandler.wp_get
      intro pool hpool
      apply wp_bind
      apply wp_tapAddAuthorityBalanceBigint
      intro hnonneg
      apply wp_write_last
      exact hpost _ (.pool hpool amount hnonneg)
  | burn => exact Proc.wp_pure (hpost _ (.burn store tick amount))

end Wp

/-! ### Opening -/

/-- What opening an obligation does: its amount is reserved with the source, and it has its row. -/
structure Opened (env : ProofEnv) (id : Text) (obligation : TokenObligationRecord) (tick : TickKey)
    (store after : ProofStore) : Prop where
  fresh : store.ob.lookup id = none
  unconsumed : store.obc.lookup id = none
  opened : obligation.st = .opened
  amount_pos : 0 < obligation.amt
  refund_eq : obligation.rf = obligation.src
  reserved : ∀ source asked, bigAt after.oll (source, asked) = bigAt store.oll (source, asked) +
    if source = obligation.src ∧ asked = tick then obligation.amt else 0
  frame : ∃ oll, after = { store with oll := oll, ob := store.ob.insert id obligation }

theorem bigAt_oll_add (store : ProofStore) (source other : ObligationTarget) (tick asked : TickKey)
    (delta : ℤ) :
    bigAt (store.oll.insert (source, tick) (bigAt store.oll (source, tick) + delta)) (other, asked) =
      bigAt store.oll (other, asked) + if other = source ∧ asked = tick then delta else 0 := by
  rw [bigAt_insert_add]
  by_cases hkey : other = source ∧ asked = tick
  · rw [if_pos hkey, if_pos (by rw [hkey.1, hkey.2])]
  · rw [if_neg hkey, if_neg fun heq => hkey (Prod.mk.injEq _ _ _ _ ▸ heq)]

theorem resolveProtocolAmount_pos {value : Json} {deployed : DeployRecord} {amount : ℤ}
    (hamount : resolveProtocolAmount env context value deployed = some amount) : 0 < amount := by
  unfold resolveProtocolAmount at hamount
  replace hamount := of_guard hamount
  obtain ⟨parsed, hamount⟩ := of_bind hamount
  obtain ⟨_, hamount⟩ := of_bind hamount
  obtain ⟨hpos, hamount⟩ := guard_bind_eq_some.1 hamount
  cases hamount
  exact_mod_cast hpos.1

/-- What `validate_obligation_open_action` has checked. -/
structure OpenChecked (env : ProofEnv) (context : TapContext) (link : Option TokenAuthCreateRecord)
    (place : ActionPlace) (store : ProofStore) (id : Text) (tick : TickKey)
    (obligation : TokenObligationRecord) : Prop where
  id_eq : id = tokenProofLockId place
  fresh : store.ob.lookup id = none
  unconsumed : store.obc.lookup id = none
  opened : obligation.st = .opened
  amount_pos : 0 < obligation.amt
  refund_eq : obligation.rf = obligation.src
  source : ∃ source ctx hash, store.normalizeObligationSource env context source link obligation.amt
    tick ctx hash = some (obligation.src, obligation.tick)

theorem validateObligationOpenAction_spec {action : Json}
    {place : ActionPlace} {id : Text} {obligation : TokenObligationRecord}
    (hvalid : validateObligationOpenAction env context action link place store =
      some (id, tick, obligation)) :
    OpenChecked env context link place store id tick obligation := by
  unfold validateObligationOpenAction at hvalid
  obtain ⟨source, hvalid⟩ := of_bind hvalid
  obtain ⟨amt, hvalid⟩ := of_bind hvalid
  obtain ⟨claim, hvalid⟩ := of_bind hvalid
  obtain ⟨refund, hvalid⟩ := of_bind hvalid
  replace hvalid := of_guard hvalid
  obtain ⟨sourceTick, hvalid⟩ := of_bind hvalid
  obtain ⟨⟨tickKey, deployed⟩, hvalid⟩ := of_bind hvalid
  obtain ⟨amount, hamount, hvalid⟩ := bind_eq_some_iff.1 hvalid
  obtain ⟨_, hvalid⟩ := of_bind hvalid
  obtain ⟨refundAfter, hvalid⟩ := of_bind hvalid
  obtain ⟨_, hvalid⟩ := of_bind hvalid
  obtain ⟨hash, hvalid⟩ := of_bind hvalid
  replace hvalid := of_guard hvalid
  obtain ⟨ctx, hvalid⟩ := of_bind hvalid
  obtain ⟨⟨normal, label⟩, hsource, hvalid⟩ := bind_eq_some_iff.1 hvalid
  obtain ⟨claimed, hvalid⟩ := of_bind hvalid
  obtain ⟨refunded, hvalid⟩ := of_bind hvalid
  obtain ⟨hrefund, hvalid⟩ := guard_bind_eq_some.1 hvalid
  obtain ⟨hfresh, hvalid⟩ := guard_bind_eq_some.1 hvalid
  cases hvalid
  exact
    { id_eq := rfl
      fresh := by simpa using hfresh.1
      unconsumed := by simpa using hfresh.2
      opened := rfl
      amount_pos := resolveProtocolAmount_pos hamount
      refund_eq := hrefund.symm
      source := ⟨source, ctx, hash, hsource⟩ }

/-- What is known of an account as a source. -/
structure AccountSource (env : ProofEnv) (context : TapContext) (link : TokenAuthCreateRecord)
    (store : ProofStore) (amount : ℤ) (tick : TickKey) (label : Text) : Prop where
  tick_eq : ∃ text, label = env.jsToLowercase text ∧ jsonStringifyLower env label = tick
  available : amount ≤ bigAt store.b (link.addr, tick) - bigAt store.t (link.addr, tick) -
    store.lockedAmount env context link.addr tick - bigAt store.oll (.account link.addr, tick)

/-- What is known of an authority as a source. -/
structure AuthoritySource (env : ProofEnv) (link : TokenAuthCreateRecord) (store : ProofStore)
    (amount : ℤ) (tick : TickKey) (label : Text) : Prop where
  tick_eq : ∃ text, label = env.jsToLowercase text ∧ jsonStringifyLower env label = tick
  available : amount ≤ bigAt store.ab (link.ins, tick) - bigAt store.oll (.authority link.ins, tick)

/-- What is known of a pool as a source. -/
structure PoolSource (env : ProofEnv) (store : ProofStore) (pid : Text) (side : Fin 2) (amount : ℤ)
    (tick : TickKey) (label : Text) : Prop where
  pool : ∃ pool, store.amm.lookup pid = some pool ∧ pool.tickKey env side = some tick ∧
    pool.tick env side = some label ∧
    amount ≤ pool.r side - bigAt store.oll (.pool pid side, tick)

/-- The sources that an obligation may have. -/
theorem normalizeObligationSource_cases {source : Json}
    {amount : ℤ} {ctx : Option Json} {hash : Text} {target : ObligationTarget}
    {label : Text}
    (hsource : store.normalizeObligationSource env context source link amount tick ctx hash =
      some (target, label)) :
    ∃ signer, link = some signer ∧
      ((target = .account signer.addr ∧ AccountSource env context signer store amount tick label) ∨
        (target = .authority signer.ins ∧ AuthoritySource env signer store amount tick label) ∨
        ∃ pid side, target = .pool pid side ∧ PoolSource env store pid side amount tick label) := by
  unfold ProofStore.normalizeObligationSource at hsource
  obtain ⟨_, hsource⟩ := of_bind hsource
  obtain ⟨_, hsource⟩ := of_bind hsource
  obtain ⟨signer, hsigner, hsource⟩ := bind_eq_some_iff.1 hsource
  refine ⟨signer, hsigner, ?_⟩
  split at hsource
  · unfold ProofStore.accountSource at hsource
    obtain ⟨_, hsource⟩ := of_bind hsource
    obtain ⟨text, hsource⟩ := of_bind hsource
    obtain ⟨_, hsource⟩ := of_bind hsource
    obtain ⟨_, hsource⟩ := of_bind hsource
    obtain ⟨hchecks, hsource⟩ := guard_bind_eq_some.1 hsource
    obtain ⟨havailable, hsource⟩ := guard_bind_eq_some.1 hsource
    obtain ⟨rfl, rfl⟩ := Prod.mk.inj (Option.some.inj hsource)
    rw [hchecks.1] at havailable ⊢
    exact .inl ⟨rfl, ⟨text, rfl, hchecks.2.1⟩, havailable⟩
  split at hsource
  · unfold ProofStore.authoritySource at hsource
    obtain ⟨_, hsource⟩ := of_bind hsource
    obtain ⟨auth, hsource⟩ := of_bind hsource
    obtain ⟨_, hsource⟩ := of_bind hsource
    obtain ⟨text, hsource⟩ := of_bind hsource
    obtain ⟨hchecks, hsource⟩ := guard_bind_eq_some.1 hsource
    obtain ⟨havailable, hsource⟩ := guard_bind_eq_some.1 hsource
    obtain ⟨rfl, rfl⟩ := Prod.mk.inj (Option.some.inj hsource)
    rw [hchecks.1] at havailable ⊢
    exact .inr (.inl ⟨rfl, ⟨text, rfl, hchecks.2.1⟩, havailable⟩)
  split at hsource
  · unfold ProofStore.poolSource at hsource
    obtain ⟨_, hsource⟩ := of_bind hsource
    obtain ⟨pid, hsource⟩ := of_bind hsource
    obtain ⟨_, hsource⟩ := of_bind hsource
    obtain ⟨side, hsource⟩ := of_bind hsource
    obtain ⟨pool, hpool, hsource⟩ := bind_eq_some_iff.1 hsource
    obtain ⟨hchecks, hsource⟩ := guard_bind_eq_some.1 hsource
    obtain ⟨havailable, hsource⟩ := guard_bind_eq_some.1 hsource
    obtain ⟨found, hfound, hsource⟩ := bind_eq_some_iff.1 hsource
    obtain ⟨rfl, rfl⟩ := Prod.mk.inj (Option.some.inj hsource)
    exact .inr (.inr ⟨pid, side, rfl, pool, hpool, hchecks.2.2.2.2.1, hfound, havailable.1⟩)
  · cases hsource

/-- The key under which the amount is reserved is the key under which it is settled. -/
theorem OpenChecked.tick_eq (lawful : LawfulText env) {place : ActionPlace} {id : Text}
    {obligation : TokenObligationRecord}
    (checked : OpenChecked env context link place store id tick obligation) :
    tick = obligation.tickKey env := by
  have hlower : ∀ text : Text, jsonStringifyLower env (env.jsToLowercase text) =
      jsonStringifyLower env text := by
    intro text
    unfold jsonStringifyLower
    rw [lawful.lower_lower]
  obtain ⟨source, ctx, hash, hsource⟩ := checked.source
  unfold TokenObligationRecord.tickKey
  rw [hlower]
  obtain ⟨signer, -, ⟨-, account⟩ | ⟨-, authority⟩ | ⟨pid, side, -, pool⟩⟩ :=
    normalizeObligationSource_cases hsource
  · obtain ⟨text, -, htick⟩ := account.tick_eq
    exact htick.symm
  · obtain ⟨text, -, htick⟩ := authority.tick_eq
    exact htick.symm
  · obtain ⟨found, -, hkey, hlabel, -⟩ := pool.pool
    unfold AmmPoolRecord.tick at hlabel
    unfold AmmPoolRecord.tickKey at hkey
    obtain ⟨text, htext, hlabel⟩ := Option.map_eq_some_iff.1 hlabel
    rw [htext] at hkey
    rw [← hlabel, hlower]
    exact (Option.some.inj hkey).symm

theorem processObligationOpenAction_spec {action : Json} {place : ActionPlace} :
    Proc.wp (processObligationOpenAction env context action link place)
      (fun _ after => ∃ obligation tick,
        OpenChecked env context link place store (tokenProofLockId place) tick obligation ∧
        Opened env (tokenProofLockId place) obligation tick store after) (fun _ _ => True) store := by
  unfold processObligationOpenAction
  apply wp_read
  apply ProofHandler.wp_get
  rintro ⟨id, tick, obligation⟩ hvalid
  have checked := validateObligationOpenAction_spec hvalid
  cases checked.id_eq
  dsimp only
  apply wp_bind
  apply wp_tapAddObligationLocked
  intro _
  apply wp_write_last
  exact ⟨obligation, tick, checked,
    { fresh := checked.fresh
      unconsumed := checked.unconsumed
      opened := checked.opened
      amount_pos := checked.amount_pos
      refund_eq := checked.refund_eq
      reserved := fun source asked => bigAt_oll_add store obligation.src source tick asked _
      frame := ⟨_, rfl⟩ }⟩

/-! ### Settling -/

/-- What `validate_obligation_settle_action` has checked. -/
structure SettleChecked (env : ProofEnv) (context : TapContext) (action : Json) (store : ProofStore)
    (settle : ObligationSettleValidation) : Prop where
  id_eq : action.text "ob" = settle.id
  action_eq : settleAction (env.toLowercase (action.text "op")) = some settle.action
  unconsumed : store.obc.lookup settle.id = none
  created : store.ob.lookup settle.id = some settle.obligation
  opened : settle.obligation.st = .opened
  target : settle.obligation.target env context settle.action action = some settle.target
  amount_pos : 0 < settle.obligation.amt

theorem validateObligationSettleAction_spec {action : Json} {settle : ObligationSettleValidation}
    (hvalid : validateObligationSettleAction env context action store = some settle) :
    SettleChecked env context action store settle := by
  unfold validateObligationSettleAction at hvalid
  obtain ⟨field, hfield, hvalid⟩ := bind_eq_some_iff.1 hvalid
  obtain ⟨id, hid, hvalid⟩ := bind_eq_some_iff.1 hvalid
  obtain ⟨hunconsumed, hvalid⟩ := guard_bind_eq_some.1 hvalid
  obtain ⟨obligation, hobligation, hvalid⟩ := bind_eq_some_iff.1 hvalid
  obtain ⟨hopened, hvalid⟩ := guard_bind_eq_some.1 hvalid
  obtain ⟨op, hop, hvalid⟩ := bind_eq_some_iff.1 hvalid
  obtain ⟨name, hname, hvalid⟩ := bind_eq_some_iff.1 hvalid
  obtain ⟨settled, hsettled, hvalid⟩ := bind_eq_some_iff.1 hvalid
  obtain ⟨target, htarget, hvalid⟩ := bind_eq_some_iff.1 hvalid
  obtain ⟨hpos, hvalid⟩ := guard_bind_eq_some.1 hvalid
  cases hvalid
  exact
    { id_eq := Json.text_eq hfield hid
      action_eq := by rw [Json.text_eq hop hname]; exact hsettled
      unconsumed := by simpa using hunconsumed.2
      created := hobligation
      opened := hopened
      target := htarget
      amount_pos := hpos }

/-- What a settlement does: the reserved amount is set free, taken from the source and added to the
target, which may be the same. -/
structure Settled (env : ProofEnv) (obligation : TokenObligationRecord) (target : ObligationTarget)
    (store after : ProofStore) : Prop where
  freed : ∀ source asked, bigAt after.oll (source, asked) = bigAt store.oll (source, asked) -
    if source = obligation.src ∧ asked = obligation.tickKey env then obligation.amt else 0
  enough : 0 ≤ bigAt after.oll (obligation.src, obligation.tickKey env)
  accounts : ∀ address asked, bigAt after.b (address, asked) = bigAt store.b (address, asked) -
    (if obligation.src = .account address ∧ asked = obligation.tickKey env then obligation.amt else 0) +
    if target = .account address ∧ asked = obligation.tickKey env then obligation.amt else 0
  authorities : ∀ auth asked, bigAt after.ab (auth, asked) = bigAt store.ab (auth, asked) -
    (if obligation.src.authorityId = some auth ∧ asked = obligation.tickKey env then obligation.amt
      else 0) +
    if target.authorityId = some auth ∧ asked = obligation.tickKey env then obligation.amt else 0
  nonneg : ∀ key, 0 ≤ bigAt store.ab key → 0 ≤ bigAt after.ab key
  pools : ∀ pid, after.amm.lookup pid = (store.amm.lookup pid).map fun pool =>
    (pool.moved pid obligation.src (-obligation.amt)).moved pid target obligation.amt
  sourceAsset : ∀ pid side, obligation.src = .pool pid side →
    ∃ pool, store.amm.lookup pid = some pool ∧ pool.tickKey env side = some (obligation.tickKey env)
  targetAsset : ∀ pid side, target = .pool pid side →
    ∃ pool, store.amm.lookup pid = some pool ∧ pool.tickKey env side = some (obligation.tickKey env)

/-- The rows that a settlement leaves alone, and its records. -/
def SettleFrame (context : TapContext) (settle : ObligationSettleValidation)
    (store after : ProofStore) : Prop :=
  ∃ b oll ab abli abo amm, after =
    { store with
      b := b
      oll := oll
      ab := ab
      abli := abli
      abo := abo
      amm := amm
      ob := store.ob.insert settle.id { settle.obligation with st := settle.action.status }
      obc := store.obc.insert settle.id
        { action := settle.action
          src := settle.obligation.src
          target := settle.target
          tick := settle.obligation.tick
          amt := settle.obligation.amt
          blck := context.height } }

theorem processObligationSettleAction_spec {action : Json} :
    Proc.wp (processObligationSettleAction env context action)
      (fun _ after => ∃ settle, SettleChecked env context action store settle ∧
        Settled env settle.obligation settle.target store after ∧
        SettleFrame context settle store after) (fun _ _ => True) store := by
  unfold processObligationSettleAction
  apply wp_read
  apply ProofHandler.wp_get
  intro settle hvalid
  have checked := validateObligationSettleAction_spec hvalid
  dsimp only
  apply wp_read
  apply ProofHandler.wp_require
  intro _
  apply wp_bind
  apply wp_debitObligationSource
  intro hlocked middle debited
  apply wp_bind
  apply wp_creditObligationTarget checked.amount_pos
  intro credited hcredited
  apply Proc.wp_write
  apply wp_write_last
  obtain ⟨b, ab, abli, abo, amm, hmiddle⟩ := debited.frame
  obtain ⟨b', ab', abli', abo', amm', hafter⟩ := hcredited.frame
  refine ⟨settle, checked, ?_, ?_⟩
  · have holl : credited.oll = store.oll.insert (settle.obligation.src, settle.obligation.tickKey env)
        (bigAt store.oll (settle.obligation.src, settle.obligation.tickKey env) +
          -settle.obligation.amt) := by rw [hafter, hmiddle]
    have hpools : ∀ pid, credited.amm.lookup pid = (store.amm.lookup pid).map fun pool =>
        (pool.moved pid settle.obligation.src (-settle.obligation.amt)).moved pid settle.target
          settle.obligation.amt := by
      intro pid
      rw [hcredited.pools, debited.pools, Option.map_map]
      rfl
    refine ⟨?_, ?_, ?_, ?_, fun key hnonneg => hcredited.nonneg key (debited.nonneg key hnonneg), hpools,
      ?_, ?_⟩
    · intro source asked
      change bigAt credited.oll (source, asked) = _
      rw [holl, bigAt_oll_add]
      split
      · ring
      · ring
    · change 0 ≤ bigAt credited.oll _
      rw [holl, bigAt_insert, if_pos rfl]
      exact hlocked
    · intro address asked
      change bigAt credited.b (address, asked) = _
      rw [hcredited.accounts, debited.accounts]
      split
      · ring
      · ring
    · intro auth asked
      change bigAt credited.ab (auth, asked) = _
      rw [hcredited.authorities, debited.authorities]
      split
      · ring
      · ring
    · exact debited.asset
    · intro pid side htarget
      obtain ⟨pool, hpool, hasset⟩ := hcredited.asset pid side htarget
      rw [debited.pools] at hpool
      obtain ⟨old, hold, rfl⟩ := Option.map_eq_some_iff.1 hpool
      exact ⟨old, hold, hasset⟩
  · rw [hafter, hmiddle]
    exact ⟨_, _, _, _, _, _, rfl⟩

end OrdDogecoin.Tap
