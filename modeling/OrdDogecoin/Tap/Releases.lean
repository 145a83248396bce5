/-
Module: OrdDogecoin.Tap.Releases
Purpose: What the creation and the release of a lock do to the rows: the amount that is bound and set
  free, and who is paid how much when owner, claimant, refund and allocation addresses coincide.
Trusted boundary: none
Main exports: TokenLockRecord.total, ReleaseFrame, processTokenProofReleaseAction_spec
-/
import OrdDogecoin.Tap.Locks
import Mathlib.Tactic.Linarith

namespace OrdDogecoin.Tap

open Option (bind_eq_some_iff)
open Proc (of_bind of_guard guard_bind_eq_some wp_read wp_bind wp_write wp_write_last)

variable {env : ProofEnv} {context : TapContext} {store after : ProofStore} {action : Json}

/-! ### Deltas of accounts -/

def creditsTo (credits : List (Address × ℤ)) (address : Address) : ℤ :=
  ((credits.filter fun credit => credit.1 = address).map Prod.snd).sum

theorem creditsTo_cons (credit : Address × ℤ) (credits : List (Address × ℤ)) (address : Address) :
    creditsTo (credit :: credits) address =
      (if credit.1 = address then credit.2 else 0) + creditsTo credits address := by
  unfold creditsTo
  by_cases haddress : credit.1 = address
  · rw [List.filter_cons_of_pos (by simpa using haddress), if_pos haddress]
    simp
  · rw [List.filter_cons_of_neg (by simpa using haddress), if_neg haddress]
    simp

def deltaAt (deltas : KeyTable Address ℤ) (address : Address) : ℤ := (deltas.lookup address).getD 0

theorem deltaAt_addDelta (deltas : KeyTable Address ℤ) (credit : Address × ℤ) (address : Address)
    (hlow : -2 ^ 127 ≤ deltaAt deltas credit.1 + credit.2)
    (hhigh : deltaAt deltas credit.1 + credit.2 < 2 ^ 127) :
    deltaAt (addDelta deltas credit) address =
      deltaAt deltas address + if credit.1 = address then credit.2 else 0 := by
  unfold addDelta
  change ((deltas.insert credit.1 (wrapI128 (deltaAt deltas credit.1 + credit.2))).lookup address).getD 0
    = _
  rw [KeyTable.lookup_insert_ite, wrapI128_of_range hlow hhigh]
  by_cases haddress : credit.1 = address
  · subst haddress
    rw [if_pos rfl, if_pos rfl]
    rfl
  · rw [if_neg (Ne.symm haddress), if_neg haddress, add_zero]
    rfl

/-- Credits add up, whichever of their addresses coincide. -/
theorem deltaAt_foldl_addDelta (address : Address) :
    ∀ (credits : List (Address × ℤ)) (deltas : KeyTable Address ℤ),
      (∀ credit ∈ credits, 0 ≤ credit.2) → (∀ other, -2 ^ 127 ≤ deltaAt deltas other) →
      (∀ other, deltaAt deltas other + (credits.map Prod.snd).sum < 2 ^ 127) →
      deltaAt (credits.foldl addDelta deltas) address =
        deltaAt deltas address + creditsTo credits address
  | [], deltas, _, _, _ => by simp [creditsTo]
  | credit :: credits, deltas, hnonneg, hlow, hhigh => by
      have hcredit : 0 ≤ credit.2 := hnonneg credit List.mem_cons_self
      have hrest : 0 ≤ (credits.map Prod.snd).sum := by
        apply List.sum_nonneg
        intro amount hamount
        obtain ⟨other, hother, rfl⟩ := List.mem_map.1 hamount
        exact hnonneg other (List.mem_cons_of_mem _ hother)
      simp only [List.map_cons, List.sum_cons] at hhigh
      have hstep : ∀ other, deltaAt (addDelta deltas credit) other =
          deltaAt deltas other + if credit.1 = other then credit.2 else 0 := fun other =>
        deltaAt_addDelta deltas credit other (by linarith [hlow credit.1])
          (by linarith [hhigh credit.1])
      rw [List.foldl_cons, deltaAt_foldl_addDelta address credits, hstep, creditsTo_cons]
      · ring
      · exact fun other hother => hnonneg other (List.mem_cons_of_mem _ hother)
      · intro other
        rw [hstep]
        split
        · linarith [hlow other]
        · linarith [hlow other]
      · intro other
        rw [hstep]
        split
        · linarith [hhigh other]
        · linarith [hhigh other]

/-! ### Writing the balances -/

theorem putBalances_frame (tick : TickKey) :
    ∀ (balances : List (Address × ℤ)) (store : ProofStore),
      ∃ b, store.putBalances tick balances = { store with b := b }
  | [], store => ⟨store.b, rfl⟩
  | row :: balances, store => putBalances_frame tick balances (store.putBalance row.1 tick row.2)

theorem i128At_putBalance {address other : Address} {tick asked : TickKey} {n : ℤ}
    (hlow : -2 ^ 127 ≤ n) (hhigh : n < 2 ^ 127) :
    i128At (store.putBalance address tick n).b other asked =
      if other = address ∧ asked = tick then n else i128At store.b other asked :=
  i128At_insert store.b address other tick asked hlow hhigh

/-- The balances are those before, moved by their deltas. -/
theorem i128At_putBalances (tick : TickKey) (address : Address) (asked : TickKey) :
    ∀ (rows : List (Sigma fun _ : Address => ℤ)) (balances : List (Address × ℤ)) (target : ProofStore),
      rows.NodupKeys → store.balancesAfter tick rows = some balances →
      (∀ other, i128At target.b other tick = i128At store.b other tick ∨ other ∉ rows.keys) →
      i128At (target.putBalances tick balances).b address asked =
        if address ∈ rows.keys ∧ asked = tick then
          i128At store.b address tick + (rows.dlookup address).getD 0
        else i128At target.b address asked
  | [], balances, target, _, hafter, _ => by
      cases hafter
      simp [ProofStore.putBalances]
  | ⟨head, delta⟩ :: rows, balances, target, hnodup, hafter, hagree => by
      unfold ProofStore.balancesAfter at hafter
      obtain ⟨n, hn, hafter⟩ := bind_eq_some_iff.1 hafter
      replace hafter := of_guard hafter
      obtain ⟨rest, hrest, hafter⟩ := bind_eq_some_iff.1 hafter
      cases hafter
      obtain ⟨rfl, hlow, hhigh⟩ := readI128_eq_some hn
      rw [List.nodupKeys_cons] at hnodup
      have hput : target.putBalances tick ((head, i128At store.b head tick + delta) :: rest) =
          (target.putBalance head tick (i128At store.b head tick + delta)).putBalances tick rest := rfl
      rw [hput, i128At_putBalances tick address asked rows rest _ hnodup.2 hrest]
      · rw [i128At_putBalance hlow hhigh]
        by_cases hhead : address = head
        · subst hhead
          simp [hnodup.1]
        · simp [hhead]
      · intro other
        rw [i128At_putBalance hlow hhigh]
        by_cases hhead : other = head
        · exact .inr (hhead ▸ hnodup.1)
        · rw [if_neg fun hsame => hhead hsame.1]
          rcases hagree other with hsame | hother
          · exact .inl hsame
          · right
            intro hmem
            apply hother
            rw [List.keys_cons]
            exact List.mem_cons_of_mem _ hmem

/-! ### Credits of authorities -/

/-- Only the balance rows of authorities and their reward rows change. -/
structure AuthorityCredited (store after : ProofStore) (tick : TickKey) (credits : List (Text × ℤ)) :
    Prop where
  frame : ∃ ab abli abo ahrps ahrc, after =
    { store with ab := ab, abli := abli, abo := abo, ahrps := ahrps, ahrc := ahrc }
  balance : ∀ auth asked, i128At after.ab auth asked =
    i128At store.ab auth asked + if asked = tick then creditsTo credits auth else 0

theorem AuthorityCredited.refl (store : ProofStore) (tick : TickKey) :
    AuthorityCredited store store tick [] where
  frame := ⟨_, _, _, _, _, rfl⟩
  balance auth asked := by simp [creditsTo]

theorem AuthorityCredited.cons {middle : ProofStore} {tick : TickKey} {credit : Text × ℤ}
    {credits : List (Text × ℤ)} (first : AuthorityCredited store middle tick [credit])
    (rest : AuthorityCredited middle after tick credits) :
    AuthorityCredited store after tick (credit :: credits) where
  frame := by
    obtain ⟨_, _, _, _, _, rfl⟩ := first.frame
    obtain ⟨_, _, _, _, _, rfl⟩ := rest.frame
    exact ⟨_, _, _, _, _, rfl⟩
  balance auth asked := by
    rw [rest.balance, first.balance, creditsTo_cons credit credits, creditsTo_cons credit []]
    split
    · simp [creditsTo]
      ring
    · ring

section Credits

variable {post : Unit → ProofStore → Prop}

/-- A reward allocation writes the accumulator and the carry of the authority and nothing else. -/
theorem wp_applyAuthorityRewardAllocation {auth : Text} {tick : TickKey} {amount : ℤ}
    (hpost : ∀ ahrps ahrc, post () { store with ahrps := ahrps, ahrc := ahrc }) :
    Proc.wp (applyAuthorityRewardAllocation auth tick amount) post (fun _ _ => True) store := by
  unfold applyAuthorityRewardAllocation
  apply wp_read
  apply ProofHandler.wp_get
  intro config _
  apply ProofHandler.wp_require
  intro _
  apply wp_read
  apply wp_read
  apply wp_read
  dsimp only
  split
  · unfold setAuthorityRewardCarry
    apply ProofHandler.wp_require
    intro _
    exact wp_write_last (hpost _ _)
  · unfold setAuthorityAccReward setAuthorityRewardCarry
    apply wp_bind
    apply ProofHandler.wp_require
    intro _
    apply wp_write_last
    apply ProofHandler.wp_require
    intro _
    exact wp_write_last (hpost _ _)

theorem i128At_putAuthorityBalance {auth other : Text} {tick asked : TickKey} {n : ℤ}
    (hlow : -2 ^ 127 ≤ n) (hhigh : n < 2 ^ 127) :
    i128At (store.putAuthorityBalance env auth tick n).ab other asked =
      if other = auth ∧ asked = tick then n else i128At store.ab other asked := by
  obtain ⟨abli, abo, hput⟩ := putAuthorityBalance_eq env store auth tick n
  rw [hput]
  exact i128At_insert store.ab auth other tick asked hlow hhigh

theorem wp_applyAuthorityAllocationCredit {tick : TickKey} {allocation : TokenAllocationRecord}
    (hpost : ∀ after, AuthorityCredited store after tick [(allocation.dest, allocation.amt)] →
      post () after) :
    Proc.wp (applyAuthorityAllocationCredit env tick allocation) post (fun _ _ => True) store := by
  unfold applyAuthorityAllocationCredit
  apply wp_bind
  apply wp_tapAddAuthorityBalance
  intro hlow hhigh
  have credited : ∀ ahrps ahrc, AuthorityCredited store
      { store.putAuthorityBalance env allocation.dest tick
          (store.authorityBalance allocation.dest tick + allocation.amt) with
        ahrps := ahrps, ahrc := ahrc } tick [(allocation.dest, allocation.amt)] := by
    intro ahrps ahrc
    constructor
    · obtain ⟨abli, abo, hput⟩ := putAuthorityBalance_eq env store allocation.dest tick
        (store.authorityBalance allocation.dest tick + allocation.amt)
      rw [hput]
      exact ⟨_, _, _, _, _, rfl⟩
    · intro auth asked
      dsimp only
      rw [i128At_putAuthorityBalance (by omega) hhigh, creditsTo_cons]
      unfold ProofStore.authorityBalance
      by_cases hauth : auth = allocation.dest
      · subst hauth
        by_cases hasked : asked = tick
        · subst hasked
          simp [creditsTo]
        · simp [hasked]
      · simp [hauth, Ne.symm hauth, creditsTo]
  split
  · exact wp_applyAuthorityRewardAllocation fun ahrps ahrc => hpost _ (credited ahrps ahrc)
  · exact Proc.wp_pure (hpost _ (credited _ _))

/-- The credits of several allocations add up. -/
theorem wp_creditAllocations {tick : TickKey} :
    ∀ {allocations : List TokenAllocationRecord} {store : ProofStore},
      (∀ after, AuthorityCredited store after tick
        (allocations.map fun allocation => (allocation.dest, allocation.amt)) → post () after) →
      Proc.wp (creditAllocations env tick allocations) post (fun _ _ => True) store
  | [], store, hpost => Proc.wp_pure (hpost store (.refl store tick))
  | allocation :: rest, store, hpost => by
      unfold creditAllocations
      apply wp_bind
      apply wp_applyAuthorityAllocationCredit
      intro middle first
      apply wp_creditAllocations
      intro after credited
      exact hpost after (first.cons credited)

end Credits

/-! ### What a lock binds and pays -/

namespace TokenLockRecord

variable (lock : TokenLockRecord)

/-- The allocations of a lock to one kind of target. -/
def allocationsTo (tt : AllocationTarget) : List (Text × ℤ) :=
  (lock.al.filter (·.tt = tt)).map fun allocation => (allocation.dest, allocation.amt)

/-- The amount that a lock binds. -/
def total : ℤ := lock.remaining + (lock.al.map TokenAllocationRecord.amt).sum

def paidTo (action : ReleaseAction) (address : Address) : ℤ :=
  match action with
  | .claim =>
      (if lock.claim = address then lock.remaining else 0) +
        creditsTo (lock.allocationsTo .account) address
  | .refund => if lock.refund = some address then lock.total else 0

def paidToAuthority (action : ReleaseAction) (auth : Text) : ℤ :=
  match action with
  | .claim => creditsTo (lock.allocationsTo .authority) auth
  | .refund => 0

/-- What a release takes out of circulation. -/
def burned (action : ReleaseAction) : ℤ :=
  match action with
  | .claim => ((lock.allocationsTo .burn).map Prod.snd).sum
  | .refund => 0

/-- A claim pays out what is locked: the amount of the claimant and the allocations of each kind. -/
theorem total_eq :
    lock.total = lock.remaining + ((lock.allocationsTo .account).map Prod.snd).sum +
      ((lock.allocationsTo .authority).map Prod.snd).sum + lock.burned .claim := by
  have hsplit : ∀ allocations : List TokenAllocationRecord,
      (allocations.map TokenAllocationRecord.amt).sum =
        (((allocations.filter (·.tt = .account)).map fun al => (al.dest, al.amt)).map Prod.snd).sum +
        (((allocations.filter (·.tt = .authority)).map fun al => (al.dest, al.amt)).map Prod.snd).sum +
        (((allocations.filter (·.tt = .burn)).map fun al => (al.dest, al.amt)).map Prod.snd).sum := by
    intro allocations
    induction allocations with
    | nil => rfl
    | cons allocation rest ih =>
        rw [List.map_cons, List.sum_cons, ih]
        cases htt : allocation.tt with
        | account =>
            simp [htt]
            ring
        | authority =>
            simp [htt]
            ring
        | burn =>
            simp [htt]
            ring
  unfold total burned allocationsTo
  rw [hsplit]
  ring

end TokenLockRecord

/-! ### Validation -/

theorem allocationTotal_spec :
    ∀ {allocations : List TokenAllocationRecord} {start total : ℤ},
      allocationTotal allocations start = some total →
      (∀ allocation ∈ allocations, 0 < allocation.amt) ∧
        total = start + (allocations.map TokenAllocationRecord.amt).sum
  | [], start, total, htotal => by
      cases htotal
      simp
  | allocation :: rest, start, total, htotal => by
      unfold allocationTotal at htotal
      obtain ⟨hpos, htotal⟩ := guard_bind_eq_some.1 htotal
      obtain ⟨next, hnext, htotal⟩ := bind_eq_some_iff.1 htotal
      obtain ⟨rfl, -, -⟩ := readI128_eq_some hnext
      obtain ⟨hrest, rfl⟩ := allocationTotal_spec htotal
      refine ⟨?_, by rw [List.map_cons, List.sum_cons]; ring⟩
      intro other hother
      cases hother with
      | head => exact hpos
      | tail _ hother => exact hrest other hother

/-- What `validate_token_proof_release_action` has checked. -/
structure ReleaseChecked (env : ProofEnv) (context : TapContext) (action : Json)
    (link : Option TokenAuthCreateRecord) (store : ProofStore)
    (release : TokenProofReleaseValidation) : Prop where
  id_eq : action.text "lock" = release.id
  action_eq : releaseAction (env.toLowercase (action.text "op")) = some release.action
  unconsumed : store.lc.lookup release.id = none
  created : store.l.lookup release.id = some release.lock
  target : release.lock.target env context release.action action link = some release.target
  remaining_pos : 0 < release.lock.remaining
  allocations_pos : ∀ allocation ∈ release.lock.al, 0 < allocation.amt
  total_eq : release.total = release.lock.total
  total_lt : release.lock.total < 2 ^ 127
  covered : release.lock.total ≤ i128At store.b release.lock.owner (release.lock.tickKey env)
  bound : release.lock.total ≤
    store.lockedAmount env context release.lock.owner (release.lock.tickKey env)
  certified : env.certificate (fun nonce => (store.ccn.lookup nonce).isSome) action
    release.lock.control (env.toLowercase (action.text "op")) context.height = some release.nonce

theorem validateTokenProofReleaseAction_spec {link : Option TokenAuthCreateRecord}
    {release : TokenProofReleaseValidation}
    (hvalid : validateTokenProofReleaseAction env context action link store = some release) :
    ReleaseChecked env context action link store release := by
  unfold validateTokenProofReleaseAction at hvalid
  replace hvalid := of_guard hvalid
  obtain ⟨field, hfield, hvalid⟩ := bind_eq_some_iff.1 hvalid
  obtain ⟨id, hid, hvalid⟩ := bind_eq_some_iff.1 hvalid
  obtain ⟨hunconsumed, hvalid⟩ := guard_bind_eq_some.1 hvalid
  obtain ⟨lock, hlock, hvalid⟩ := bind_eq_some_iff.1 hvalid
  obtain ⟨named, hnamed, hvalid⟩ := bind_eq_some_iff.1 hvalid
  obtain ⟨target, htarget, hvalid⟩ := bind_eq_some_iff.1 hvalid
  obtain ⟨hremaining, hvalid⟩ := guard_bind_eq_some.1 hvalid
  obtain ⟨allocated, hallocated, hvalid⟩ := bind_eq_some_iff.1 hvalid
  obtain ⟨total, htotal, hvalid⟩ := bind_eq_some_iff.1 hvalid
  obtain ⟨hcovered, hvalid⟩ := guard_bind_eq_some.1 hvalid
  obtain ⟨nonce, hnonce, hvalid⟩ := bind_eq_some_iff.1 hvalid
  cases hvalid
  obtain ⟨hpositive, rfl⟩ := allocationTotal_spec hallocated
  obtain ⟨rfl, -, hhigh⟩ := readI128_eq_some htotal
  have heq : lock.remaining + (0 + (lock.al.map TokenAllocationRecord.amt).sum) = lock.total := by
    unfold TokenLockRecord.total
    ring
  rw [heq] at hcovered hhigh
  exact
    { id_eq := Json.text_eq hfield hid
      action_eq := hnamed
      unconsumed := by simpa using hunconsumed
      created := hlock
      target := htarget
      remaining_pos := hremaining
      allocations_pos := hpositive
      total_eq := heq
      total_lt := hhigh
      covered := hcovered.1
      bound := hcovered.2
      certified := hnonce }

/-! ### Creation -/

/-- What `validate_token_proof_lock_action` has checked. -/
structure LockChecked (env : ProofEnv) (context : TapContext) (link : TokenAuthCreateRecord)
    (store : ProofStore) (lock : TokenLockRecord) (tick : TickKey) (total : ℤ) : Prop where
  owner_eq : lock.owner = link.addr
  tick_eq : lock.tickKey env = tick
  total_eq : total = lock.total
  total_pos : 0 < lock.total
  total_lt : lock.total < 2 ^ 127
  available : 0 ≤ store.available env context link.addr tick lock.total

theorem normalizeAllocations_spec {tick : Text} {decimals maxAmount : ℕ}
    {allocations : List TokenAllocationRecord} {total : ℤ}
    (hnormal : store.normalizeAllocations env context action tick decimals maxAmount =
      some (allocations, total)) :
    total = (allocations.map TokenAllocationRecord.amt).sum := by
  unfold ProofStore.normalizeAllocations at hnormal
  obtain ⟨raw, hnormal⟩ := of_bind hnormal
  obtain ⟨found, hnormal⟩ := of_bind hnormal
  replace hnormal := of_guard hnormal
  replace hnormal := of_guard hnormal
  cases hnormal
  rfl

theorem validateTokenProofLockAction_spec (lawful : LawfulText env) {link : TokenAuthCreateRecord}
    {lock : TokenLockRecord} {tick : TickKey} {total : ℤ}
    (hvalid : validateTokenProofLockAction env context action link store = some (lock, tick, total)) :
    LockChecked env context link store lock tick total := by
  unfold validateTokenProofLockAction at hvalid
  obtain ⟨_, hvalid⟩ := of_bind hvalid
  obtain ⟨_, hvalid⟩ := of_bind hvalid
  obtain ⟨_, hvalid⟩ := of_bind hvalid
  obtain ⟨named, hvalid⟩ := of_bind hvalid
  obtain ⟨deployed, hvalid⟩ := of_bind hvalid
  obtain ⟨_, hvalid⟩ := of_bind hvalid
  replace hvalid := of_guard hvalid
  obtain ⟨amount, hvalid⟩ := of_bind hvalid
  obtain ⟨_, hvalid⟩ := of_bind hvalid
  replace hvalid := of_guard hvalid
  obtain ⟨⟨allocations, allocated⟩, hallocations, hvalid⟩ := bind_eq_some_iff.1 hvalid
  obtain ⟨sum, hsum, hvalid⟩ := bind_eq_some_iff.1 hvalid
  obtain ⟨hpos, hvalid⟩ := guard_bind_eq_some.1 hvalid
  obtain ⟨_, hvalid⟩ := of_bind hvalid
  obtain ⟨_, hvalid⟩ := of_bind hvalid
  replace hvalid := of_guard hvalid
  obtain ⟨_, hvalid⟩ := of_bind hvalid
  obtain ⟨_, hvalid⟩ := of_bind hvalid
  replace hvalid := of_guard hvalid
  obtain ⟨_, hvalid⟩ := of_bind hvalid
  obtain ⟨havailable, hvalid⟩ := guard_bind_eq_some.1 hvalid
  cases hvalid
  cases normalizeAllocations_spec hallocations
  obtain ⟨rfl, -, hhigh⟩ := readI128_eq_some hsum
  exact
    { owner_eq := rfl
      tick_eq := by
        unfold TokenLockRecord.tickKey jsonStringifyLower
        rw [lawful.lower_lower]
      total_eq := rfl
      total_pos := hpos.1
      total_lt := hhigh
      available := havailable }

/-- What the creation of a lock does: its total is bound with the owner, and it has its row. -/
structure Locked (env : ProofEnv) (id : Text) (lock : TokenLockRecord) (store after : ProofStore) :
    Prop where
  fresh : store.l.lookup id = none
  bound : ∀ address asked, i128At after.ll address asked = i128At store.ll address asked +
    if address = lock.owner ∧ asked = lock.tickKey env then lock.total else 0
  frame : ∃ ll, after = { store with ll := ll, l := store.l.insert id lock }

/-- A sum that did not wrap into the negative numbers is exact. -/
theorem wrapI128_add_of_nonneg {n total : ℤ} (hlow : -2 ^ 127 ≤ n) (hhigh : n < 2 ^ 127)
    (hpos : 0 < total) (hlt : total < 2 ^ 127) (hwrap : 0 ≤ wrapI128 (n + total)) :
    wrapI128 (n + total) = n + total ∧ n + total < 2 ^ 127 := by
  unfold wrapI128 at hwrap ⊢
  omega

section Lock

variable {post : Unit → ProofStore → Prop}

theorem wp_tapAddLockedAmount {address : Address} {tick : TickKey} {delta : ℤ}
    (hpost : 0 ≤ wrapI128 (i128At store.ll address tick + delta) →
      post ()
        { store with
          ll := store.ll.insert (address, tick) (wrapI128 (i128At store.ll address tick + delta)) }) :
    Proc.wp (tapAddLockedAmount address tick delta) post (fun _ _ => True) store := by
  unfold tapAddLockedAmount
  apply wp_read
  apply ProofHandler.wp_require
  intro hnonneg
  exact wp_write_last (hpost (by simpa using hnonneg))

end Lock

/-- The creation of a lock that is not refused. -/
theorem processTokenProofLockAction_spec (lawful : LawfulText env) {link : TokenAuthCreateRecord}
    {place : ActionPlace} :
    Proc.wp (processTokenProofLockAction env context action link place)
      (fun _ after => ∃ lock,
        LockChecked env context link store lock (lock.tickKey env) lock.total ∧
        Locked env (tokenProofLockId place) lock store after) (fun _ _ => True) store := by
  unfold processTokenProofLockAction
  apply wp_read
  apply ProofHandler.wp_get
  rintro ⟨lock, tick, total⟩ hvalid
  have checked := validateTokenProofLockAction_spec lawful hvalid
  cases checked.tick_eq
  cases checked.total_eq
  dsimp only
  apply wp_read
  apply ProofHandler.wp_require
  intro hfresh
  apply wp_bind
  apply wp_tapAddLockedAmount
  intro hnonneg
  apply wp_write_last
  obtain ⟨hlow, hhigh⟩ := i128At_range store.ll link.addr (lock.tickKey env)
  obtain ⟨hexact, hlt⟩ :=
    wrapI128_add_of_nonneg hlow hhigh checked.total_pos checked.total_lt hnonneg
  rw [hexact] at hnonneg ⊢
  refine ⟨lock, checked, ?_, ?_, _, rfl⟩
  · simpa using hfresh
  · intro address asked
    dsimp only
    rw [i128At_insert _ _ _ _ _ (by omega) hlt, checked.owner_eq]
    split
    next hsame => rw [hsame.1, hsame.2]
    next => rw [add_zero]

/-! ### Releases -/

/-- What a release does: the locked amount is set free and taken from the owner, and paid to the
accounts and authorities of the lock. -/
structure Released (env : ProofEnv) (lock : TokenLockRecord) (action : ReleaseAction)
    (store after : ProofStore) : Prop where
  unlocked : ∀ address asked, i128At after.ll address asked = i128At store.ll address asked -
    if address = lock.owner ∧ asked = lock.tickKey env then lock.total else 0
  accounts : ∀ address asked, i128At after.b address asked = i128At store.b address asked +
    if asked = lock.tickKey env then
      lock.paidTo action address - if address = lock.owner then lock.total else 0
    else 0
  authorities : ∀ auth asked, i128At after.ab auth asked = i128At store.ab auth asked +
    if asked = lock.tickKey env then lock.paidToAuthority action auth else 0

/-- The rows that a release leaves alone, and its record. -/
def ReleaseFrame (context : TapContext) (release : TokenProofReleaseValidation)
    (store after : ProofStore) : Prop :=
  ∃ b ll ab abli abo ahrps ahrc ccn, after =
    { store with
      b := b
      ll := ll
      ab := ab
      abli := abli
      abo := abo
      ahrps := ahrps
      ahrc := ahrc
      ccn := ccn
      lc := store.lc.insert release.id
        { action := release.action
          owner := release.lock.owner
          target := release.target
          tick := release.lock.tick
          amt := release.lock.remaining
          al := release.lock.al
          blck := context.height } }

namespace ReleaseChecked

variable {action : Json} {link : Option TokenAuthCreateRecord} {release : TokenProofReleaseValidation}

/-- The address a release goes to. -/
theorem target_eq (checked : ReleaseChecked env context action link store release) :
    match release.action with
    | .claim => release.target = release.lock.claim
    | .refund => release.lock.refund = some release.target := by
  have htarget := checked.target
  unfold TokenLockRecord.target at htarget
  cases haction : release.action with
  | claim =>
      rw [haction] at htarget
      dsimp only at htarget ⊢
      split at htarget
      next =>
        obtain ⟨_, htarget⟩ := of_bind htarget
        replace htarget := of_guard htarget
        obtain ⟨_, htarget⟩ := of_bind htarget
        replace htarget := of_guard htarget
        exact (Option.some.inj htarget).symm
      next =>
        replace htarget := of_guard htarget
        exact (Option.some.inj htarget).symm
      next =>
        obtain ⟨_, htarget⟩ := of_bind htarget
        replace htarget := of_guard htarget
        exact (Option.some.inj htarget).symm
      next hrefund => cases hrefund
  | refund =>
      rw [haction] at htarget
      dsimp only at htarget ⊢
      obtain ⟨_, htarget⟩ := of_bind htarget
      replace htarget := of_guard htarget
      exact htarget

theorem total_pos (checked : ReleaseChecked env context action link store release) :
    0 < release.lock.total := by
  have hallocations : 0 ≤ (release.lock.al.map TokenAllocationRecord.amt).sum := by
    apply List.sum_nonneg
    intro amount hamount
    obtain ⟨allocation, hmem, rfl⟩ := List.mem_map.1 hamount
    exact (checked.allocations_pos allocation hmem).le
  have hremaining := checked.remaining_pos
  unfold TokenLockRecord.total
  omega

/-- The locked amount is in the row of the owner. -/
theorem locked_ge (checked : ReleaseChecked env context action link store release) :
    release.lock.total ≤ i128At store.ll release.lock.owner (release.lock.tickKey env) := by
  have hbound := checked.bound
  have hpos := checked.total_pos
  unfold ProofStore.lockedAmount at hbound
  split at hbound
  · exact hbound
  · omega

/-- The credits of a release are what the lock pays to each address. -/
theorem creditsTo_releaseCredits (checked : ReleaseChecked env context action link store release)
    (address : Address) :
    creditsTo (releaseCredits release.lock release.action release.target release.total) address =
      release.lock.paidTo release.action address := by
  have htarget := checked.target_eq
  unfold releaseCredits TokenLockRecord.paidTo
  cases haction : release.action with
  | claim =>
      rw [haction] at htarget
      dsimp only at htarget ⊢
      rw [creditsTo_cons, htarget]
      rfl
  | refund =>
      rw [haction] at htarget
      dsimp only at htarget ⊢
      rw [creditsTo_cons, checked.total_eq, htarget]
      simp [creditsTo]

/-- They are not negative, and do not exceed what is locked. -/
theorem releaseCredits_bounds (checked : ReleaseChecked env context action link store release) :
    (∀ credit ∈ releaseCredits release.lock release.action release.target release.total,
      0 ≤ credit.2) ∧
    ((releaseCredits release.lock release.action release.target release.total).map Prod.snd).sum ≤
      release.lock.total := by
  have hremaining := checked.remaining_pos
  have hnonneg : ∀ tt, ∀ credit ∈ release.lock.allocationsTo tt, 0 ≤ credit.2 := by
    intro tt credit hcredit
    obtain ⟨allocation, hmem, rfl⟩ := List.mem_map.1 hcredit
    exact (checked.allocations_pos allocation (List.mem_filter.1 hmem).1).le
  have hsum : ∀ tt, 0 ≤ ((release.lock.allocationsTo tt).map Prod.snd).sum := by
    intro tt
    apply List.sum_nonneg
    intro amount hamount
    obtain ⟨credit, hcredit, rfl⟩ := List.mem_map.1 hamount
    exact hnonneg tt credit hcredit
  unfold releaseCredits
  cases release.action with
  | claim =>
      constructor
      · intro credit hcredit
        cases hcredit with
        | head => exact hremaining.le
        | tail _ hcredit => exact hnonneg .account credit hcredit
      · have htotal := release.lock.total_eq
        have hauthority := hsum .authority
        have hburned : 0 ≤ release.lock.burned .claim := hsum .burn
        change (release.lock.remaining ::
          (release.lock.allocationsTo .account).map Prod.snd).sum ≤ _
        rw [List.sum_cons]
        omega
  | refund =>
      have htotal := checked.total_eq
      have hpos := checked.total_pos
      constructor
      · intro credit hcredit
        rw [List.mem_singleton.1 hcredit]
        change 0 ≤ release.total
        omega
      · simp [htotal]

/-- The delta of each address: what it is paid, less the total for the owner. -/
theorem deltaAt_release (checked : ReleaseChecked env context action link store release)
    (address : Address) :
    deltaAt (((release.lock.owner, -release.total) ::
        releaseCredits release.lock release.action release.target release.total).foldl addDelta ∅)
      address =
      release.lock.paidTo release.action address -
        if address = release.lock.owner then release.lock.total else 0 := by
  obtain ⟨hnonneg, hsum⟩ := checked.releaseCredits_bounds
  have hpos := checked.total_pos
  have hlt := checked.total_lt
  have hempty : ∀ other, deltaAt ∅ other = 0 := fun _ => rfl
  have howner : ∀ other, deltaAt (addDelta ∅ (release.lock.owner, -release.total)) other =
      if release.lock.owner = other then -release.lock.total else 0 := by
    intro other
    rw [deltaAt_addDelta, hempty, checked.total_eq, zero_add]
    · rw [hempty, checked.total_eq]
      dsimp only
      omega
    · rw [hempty, checked.total_eq]
      dsimp only
      omega
  rw [List.foldl_cons, deltaAt_foldl_addDelta address _ _ hnonneg, howner,
    checked.creditsTo_releaseCredits]
  · by_cases haddress : release.lock.owner = address
    · rw [if_pos haddress, if_pos haddress.symm]
      ring
    · rw [if_neg haddress, if_neg (Ne.symm haddress)]
      ring
  · intro other
    rw [howner]
    split
    · omega
    · omega
  · intro other
    rw [howner]
    split
    · omega
    · omega

/-- What a release pays to authorities. -/
theorem creditsTo_releaseAllocations (lock : TokenLockRecord) (action : ReleaseAction) (auth : Text) :
    creditsTo ((releaseAllocations lock action).map fun allocation =>
      (allocation.dest, allocation.amt)) auth = lock.paidToAuthority action auth := by
  cases action with
  | claim => rfl
  | refund => rfl

end ReleaseChecked

/-- A release that is not refused releases the lock it names, and writes its record. -/
theorem processTokenProofReleaseAction_spec {link : Option TokenAuthCreateRecord} :
    Proc.wp (processTokenProofReleaseAction env context action link)
      (fun _ after => ∃ release, ReleaseChecked env context action link store release ∧
        Released env release.lock release.action store after ∧
        ReleaseFrame context release store after) (fun _ _ => True) store := by
  unfold processTokenProofReleaseAction
  apply wp_read
  apply ProofHandler.wp_get
  intro release hrelease
  have checked := validateTokenProofReleaseAction_spec hrelease
  have hpos := checked.total_pos
  dsimp only
  apply wp_bind
  apply wp_tapAddLockedAmount
  intro _
  apply wp_read
  apply ProofHandler.wp_get
  intro balances hbalances
  apply wp_bind
  apply wp_creditAllocations
  intro credited hcredited
  apply wp_write
  apply wp_write
  apply wp_write_last
  have hcreditedFrame := hcredited.frame
  obtain ⟨ab, abli, abo, ahrps, ahrc, hframe⟩ := hcreditedFrame
  obtain ⟨b, hput⟩ := putBalances_frame (release.lock.tickKey env) balances credited
  have hb : credited.b = store.b := by rw [hframe]
  have hunlock : wrapI128 (i128At store.ll release.lock.owner (release.lock.tickKey env) +
      -release.total) = i128At store.ll release.lock.owner (release.lock.tickKey env) -
        release.lock.total := by
    have hrange := i128At_range store.ll release.lock.owner (release.lock.tickKey env)
    have hlocked := checked.locked_ge
    rw [checked.total_eq, wrapI128_of_range (by omega) (by omega)]
    ring
  refine ⟨release, checked, ⟨?_, ?_, ?_⟩, ?_⟩
  · intro address asked
    have hrange := i128At_range store.ll release.lock.owner (release.lock.tickKey env)
    have hlocked := checked.locked_ge
    rw [hput, hframe]
    change i128At (store.ll.insert (release.lock.owner, release.lock.tickKey env)
      (wrapI128 (i128At store.ll release.lock.owner (release.lock.tickKey env) + -release.total)))
      address asked = _
    rw [hunlock, i128At_insert _ _ _ _ _ (by omega) (by omega)]
    split
    next hsame => rw [hsame.1, hsame.2]
    next => rw [sub_zero]
  · intro address asked
    change i128At (credited.putBalances (release.lock.tickKey env) balances).b address asked = _
    rw [i128At_putBalances (release.lock.tickKey env) address asked _ balances credited
      (AList.nodupKeys _) hbalances fun other => .inl (by rw [hb])]
    dsimp only
    rw [hb, ← checked.deltaAt_release]
    unfold deltaAt
    by_cases hasked : asked = release.lock.tickKey env
    · subst hasked
      rw [if_pos rfl]
      split
      · rfl
      next hnone =>
        have hlookup := List.dlookup_eq_none.2 fun hmem => hnone ⟨hmem, rfl⟩
        unfold AList.lookup
        rw [hlookup]
        simp
    · rw [if_neg fun hsame => hasked hsame.2, if_neg hasked, add_zero]
  · intro auth asked
    rw [hput]
    change i128At credited.ab auth asked = _
    rw [hcredited.balance, ReleaseChecked.creditsTo_releaseAllocations]
  · rw [hput, hframe]
    exact ⟨_, _, _, _, _, _, _, _, rfl⟩

end OrdDogecoin.Tap
