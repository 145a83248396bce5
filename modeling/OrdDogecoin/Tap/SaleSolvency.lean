/-
Module: OrdDogecoin.Tap.SaleSolvency
Purpose: When a token sale can pay what it owes.  Contributions are settled once, and the payment
  balance covers the open contributions until the sale is finalized, the sale balance the open
  allocations from then on.  With one ticker on both sides the two balances are one row, of which
  neither the finalization nor the withdrawal before it sets the other part aside.
Trusted boundary: none beyond OrdDogecoin.Tap.Sale
Main exports: SaleSound, SaleSolvent, sales_solvent_of_covered
-/
import OrdDogecoin.Tap.Sale
import OrdDogecoin.Lib.Run

namespace OrdDogecoin.Tap

open KeyTable
open ProofHandler
open Option (bind_eq_some_iff)
open Proc (of_bind of_guard guard_bind_eq_some wp_read wp_bind wp_write wp_write_last)

/-! ### Sums over the contributions to a sale -/

namespace SaleContributionRecord

/-- The value of a contribution in a status, zero in the others. -/
def valueIn (status : ContributionStatus) (value : SaleContributionRecord → ℤ)
    (contribution : SaleContributionRecord) : ℤ :=
  if contribution.status = status then value contribution else 0

end SaleContributionRecord

open SaleContributionRecord (valueIn)

/-- The sum of a value over the contributions to a sale. -/
def saleTotal (auth : Text) (value : SaleContributionRecord → ℤ)
    (contributions : KeyTable Text SaleContributionRecord) : ℤ :=
  total (fun _ contribution => if contribution.auth = auth then value contribution else 0)
    contributions

section SaleTotal

variable {auth : Text} {value value' : SaleContributionRecord → ℤ}
  {contributions : KeyTable Text SaleContributionRecord} {cid : Text}
  {old new : SaleContributionRecord}

theorem saleTotal_insert_new (auth : Text) (value : SaleContributionRecord → ℤ)
    (new : SaleContributionRecord) (hnew : contributions.lookup cid = none) :
    saleTotal auth value (contributions.insert cid new) =
      saleTotal auth value contributions + if new.auth = auth then value new else 0 := by
  have haccount := total_insert
    (fun _ contribution => if contribution.auth = auth then value contribution else 0)
    contributions cid new
  simpa [weightAt, hnew, saleTotal] using haccount

theorem saleTotal_replace (auth : Text) (value : SaleContributionRecord → ℤ)
    (new : SaleContributionRecord) (hold : contributions.lookup cid = some old) :
    saleTotal auth value (contributions.insert cid new) + (if old.auth = auth then value old else 0) =
      saleTotal auth value contributions + if new.auth = auth then value new else 0 := by
  have haccount := total_insert
    (fun _ contribution => if contribution.auth = auth then value contribution else 0)
    contributions cid new
  simpa [weightAt, hold, saleTotal] using haccount

theorem saleTotal_le
    (hle : ∀ {cid contribution}, contributions.lookup cid = some contribution →
      value contribution ≤ value' contribution) :
    saleTotal auth value contributions ≤ saleTotal auth value' contributions := by
  apply total_le_total
  intro cid contribution hrow
  split
  · exact hle hrow
  · exact le_rfl

theorem saleTotal_add (auth : Text) (value value' : SaleContributionRecord → ℤ)
    (contributions : KeyTable Text SaleContributionRecord) :
    saleTotal auth (fun contribution => value contribution + value' contribution) contributions =
      saleTotal auth value contributions + saleTotal auth value' contributions := by
  have hlinear := total_add_mul
    (fun _ contribution => if contribution.auth = auth then value contribution else 0)
    (fun _ contribution => if contribution.auth = auth then value' contribution else 0) 1
    contributions
  rw [one_mul] at hlinear
  unfold saleTotal
  rw [← hlinear]
  congr 1
  funext _ contribution
  split
  · rw [one_mul]
  · simp

theorem saleTotal_zero (auth : Text) (contributions : KeyTable Text SaleContributionRecord) :
    saleTotal auth (fun _ => 0) contributions = 0 := by
  simp [saleTotal, total]

theorem saleTotal_nonneg
    (hnonneg : ∀ {cid contribution}, contributions.lookup cid = some contribution →
      0 ≤ value contribution) : 0 ≤ saleTotal auth value contributions := by
  rw [← saleTotal_zero auth contributions]
  exact saleTotal_le fun hrow => hnonneg hrow

/-- One contribution is part of a sum of values that are not negative. -/
theorem le_saleTotal (value : SaleContributionRecord → ℤ)
    (hrow : contributions.lookup cid = some old) (hauth : old.auth = auth)
    (hnonneg : ∀ {cid contribution}, contributions.lookup cid = some contribution →
      0 ≤ value contribution) : value old ≤ saleTotal auth value contributions := by
  have haccount := total_erase
    (fun _ contribution => if contribution.auth = auth then value contribution else 0)
    contributions cid
  have hrest : 0 ≤ saleTotal auth value (contributions.erase cid) :=
    saleTotal_nonneg fun hfound => hnonneg (lookup_erase_cases hfound).2
  simp only [weightAt, hrow, Option.map_some, Option.getD_some, if_pos hauth] at haccount
  unfold saleTotal at hrest ⊢
  omega

end SaleTotal

/-! ### Balances -/

/-- The balance of an authority falls by at most `amount` in one ticker; no other balance falls. -/
structure Debited (auth : Text) (tick : TickKey) (amount : ℤ) (store after : ProofStore) : Prop where
  le : ∀ other asked, store.authorityBalance other asked -
      (if auth = other ∧ asked = tick then amount else 0) ≤ after.authorityBalance other asked
  nonneg : (∀ other asked, 0 ≤ store.authorityBalance other asked) →
    ∀ other asked, 0 ≤ after.authorityBalance other asked

/-- The rows of sales and authorities stay. -/
structure SameSales (store after : ProofStore) : Prop where
  ah : after.ah = store.ah
  sale : after.sale = store.sale
  scon : after.scon = store.scon
  sclaimli : after.sclaimli = store.sclaimli
  srefli : after.srefli = store.srefli

namespace SameSales

theorem refl (store : ProofStore) : SameSales store store := ⟨rfl, rfl, rfl, rfl, rfl⟩

theorem trans {store middle after : ProofStore} (first : SameSales store middle)
    (second : SameSales middle after) : SameSales store after where
  ah := second.ah.trans first.ah
  sale := second.sale.trans first.sale
  scon := second.scon.trans first.scon
  sclaimli := second.sclaimli.trans first.sclaimli
  srefli := second.srefli.trans first.srefli

theorem putAuthorityBalance (env : ProofEnv) (store : ProofStore) (auth : Text) (tick : TickKey)
    (n : ℤ) : SameSales store (store.putAuthorityBalance env auth tick n) := by
  obtain ⟨abli, abo, hput⟩ := putAuthorityBalance_eq env store auth tick n
  rw [hput]
  exact ⟨rfl, rfl, rfl, rfl, rfl⟩

theorem saleStatus {store after : ProofStore} (same : SameSales store after) (auth : Text) :
    after.saleStatus auth = store.saleStatus auth := by
  unfold ProofStore.saleStatus
  rw [same.sale]

end SameSales

namespace Debited

variable {auth : Text} {tick : TickKey} {amount delta : ℤ} {store middle after : ProofStore}

theorem of_eq (heq : after.ab = store.ab) (auth : Text) (tick : TickKey) :
    Debited auth tick 0 store after where
  le other asked := by
    unfold ProofStore.authorityBalance
    rw [heq]
    simp
  nonneg hnonneg other asked := by
    have hother := hnonneg other asked
    unfold ProofStore.authorityBalance at hother ⊢
    rw [heq]
    exact hother

/-- A balance that changes by `delta` is debited the opposite. -/
theorem put (env : ProofEnv) (hnonneg : 0 ≤ store.authorityBalance auth tick + delta)
    (hhigh : store.authorityBalance auth tick + delta < 2 ^ 127) :
    Debited auth tick (-delta) store
      (store.putAuthorityBalance env auth tick (store.authorityBalance auth tick + delta)) where
  le other asked := by
    rw [authorityBalance_put env store other auth tick hnonneg hhigh]
    split
    · omega
    · omega
  nonneg hall other asked := by
    rw [authorityBalance_put env store other auth tick hnonneg hhigh]
    split
    next hsame =>
      obtain ⟨rfl, rfl⟩ := hsame
      exact hnonneg
    next => simpa using hall other asked

theorem trans {amount' : ℤ} (first : Debited auth tick amount store middle)
    (second : Debited auth tick amount' middle after) :
    Debited auth tick (amount + amount') store after where
  le other asked := by
    have hfirst := first.le other asked
    have hsecond := second.le other asked
    split at hfirst
    next hsame =>
      rw [if_pos hsame] at hsecond ⊢
      omega
    next hother =>
      rw [if_neg hother] at hsecond ⊢
      omega
  nonneg hall := second.nonneg (first.nonneg hall)

/-- What is credited anywhere is no debit. -/
theorem credit {other : Text} {asked : TickKey} (debited : Debited other asked (-amount) store after)
    (hamount : 0 ≤ amount) (auth : Text) (tick : TickKey) : Debited auth tick 0 store after where
  le someone ticker := by
    have hle := debited.le someone ticker
    split at hle <;> simp <;> omega
  nonneg := debited.nonneg

end Debited

/-! ### The invariant -/

/-- How often a contribution was claimed or refunded. -/
def ProofStore.settlements (store : ProofStore) (cid : Text) : ℕ :=
  store.sclaimli.countP (fun row => row.cid = cid) + store.srefli.countP (fun row => row.cid = cid)

/-- The counters of a sale agree with its contributions, and its balances cover what is open. -/
structure SaleSound (env : ProofEnv) (auth : Text) (store : ProofStore) : Prop where
  tc_eq : (store.saleStatus auth).tc = saleTotal auth SaleContributionRecord.amt store.scon
  alc_eq : (store.saleStatus auth).alc = saleTotal auth SaleContributionRecord.sa store.scon
  clm_eq : (store.saleStatus auth).clm =
    saleTotal auth (valueIn .claimed SaleContributionRecord.sa) store.scon
  ref_eq : (store.saleStatus auth).ref =
    saleTotal auth (valueIn .refunded SaleContributionRecord.amt) store.scon
  tc_lt : (store.saleStatus auth).tc < 2 ^ 127
  alc_lt : (store.saleStatus auth).alc < 2 ^ 127
  payments_le : ∀ {config}, store.ah.lookup auth = some config →
    (store.saleStatus auth).fin = false →
    saleTotal auth (valueIn .opened SaleContributionRecord.amt) store.scon ≤
      store.authorityBalance auth (config.paymentKey env)
  allocations_le : ∀ {config}, store.ah.lookup auth = some config →
    (store.saleStatus auth).fin = true →
    saleTotal auth (valueIn .opened SaleContributionRecord.sa) store.scon ≤
      store.authorityBalance auth (config.saleKey env)

/-- Every sale is sound, and every contribution was settled as often as its status says. -/
structure SalesSound (env : ProofEnv) (store : ProofStore) : Prop where
  row_ok : ∀ {cid contribution}, store.scon.lookup cid = some contribution →
    0 < contribution.amt ∧ 0 < contribution.sa ∧ (store.ah.lookup contribution.auth).isSome
  nonneg : ∀ auth tick, 0 ≤ store.authorityBalance auth tick
  unsettled : ∀ {cid}, (∀ {contribution}, store.scon.lookup cid = some contribution →
    contribution.status = .opened) → store.settlements cid = 0
  settled_le : ∀ cid, store.settlements cid ≤ 1
  sale : ∀ auth, SaleSound env auth store

theorem saleStatus_insert {store after : ProofStore} {auth : Text} {status : SaleStatusRecord}
    (hsale : after.sale = store.sale.insert auth status) (other : Text) :
    after.saleStatus other = if other = auth then status else store.saleStatus other := by
  unfold ProofStore.saleStatus
  rw [hsale, lookup_insert_ite]
  split
  · rfl
  · rfl

/-- A sale stays sound when its status and its contributions stay and no balance of it falls. -/
theorem SaleSound.frame {env : ProofEnv} {store after : ProofStore} {auth : Text}
    (sound : SaleSound env auth store) (hah : after.ah.lookup auth = store.ah.lookup auth)
    (hstatus : after.saleStatus auth = store.saleStatus auth)
    (htotal : ∀ value, saleTotal auth value after.scon = saleTotal auth value store.scon)
    (hbalance : ∀ tick, store.authorityBalance auth tick ≤ after.authorityBalance auth tick) :
    SaleSound env auth after where
  tc_eq := by rw [hstatus, htotal, sound.tc_eq]
  alc_eq := by rw [hstatus, htotal, sound.alc_eq]
  clm_eq := by rw [hstatus, htotal, sound.clm_eq]
  ref_eq := by rw [hstatus, htotal, sound.ref_eq]
  tc_lt := by
    rw [hstatus]
    exact sound.tc_lt
  alc_lt := by
    rw [hstatus]
    exact sound.alc_lt
  payments_le hconfig hfin := by
    rw [hah] at hconfig
    rw [hstatus] at hfin
    rw [htotal]
    exact (sound.payments_le hconfig hfin).trans (hbalance _)
  allocations_le hconfig hfin := by
    rw [hah] at hconfig
    rw [hstatus] at hfin
    rw [htotal]
    exact (sound.allocations_le hconfig hfin).trans (hbalance _)

namespace SalesSound

variable {env : ProofEnv} {store after : ProofStore} {auth : Text} {status : SaleStatusRecord}
  {tick : TickKey} {amount : ℤ}

theorem amt_nonneg (sound : SalesSound env store) (settled : ContributionStatus) {cid : Text}
    {contribution : SaleContributionRecord} (hrow : store.scon.lookup cid = some contribution) :
    0 ≤ valueIn settled SaleContributionRecord.amt contribution := by
  have hamt := (sound.row_ok hrow).1
  unfold valueIn
  split
  · exact hamt.le
  · exact le_rfl

theorem sa_nonneg (sound : SalesSound env store) (settled : ContributionStatus) {cid : Text}
    {contribution : SaleContributionRecord} (hrow : store.scon.lookup cid = some contribution) :
    0 ≤ valueIn settled SaleContributionRecord.sa contribution := by
  have hsa := (sound.row_ok hrow).2.1
  unfold valueIn
  split
  · exact hsa.le
  · exact le_rfl

/-- What is open and what was refunded was contributed. -/
theorem open_add_ref_le (sound : SalesSound env store) (auth : Text) :
    saleTotal auth (valueIn .opened SaleContributionRecord.amt) store.scon +
      (store.saleStatus auth).ref ≤ (store.saleStatus auth).tc := by
  rw [(sound.sale auth).ref_eq, (sound.sale auth).tc_eq, ← saleTotal_add]
  apply saleTotal_le
  intro cid contribution hrow
  have hamt := (sound.row_ok hrow).1
  cases hstatus : contribution.status with
  | opened => simp [valueIn, hstatus]
  | claimed =>
      simp only [valueIn, hstatus]
      exact hamt.le
  | refunded => simp [valueIn, hstatus]

/-- What is open and what was claimed was allocated. -/
theorem open_add_clm_le (sound : SalesSound env store) (auth : Text) :
    saleTotal auth (valueIn .opened SaleContributionRecord.sa) store.scon +
      (store.saleStatus auth).clm ≤ (store.saleStatus auth).alc := by
  rw [(sound.sale auth).clm_eq, (sound.sale auth).alc_eq, ← saleTotal_add]
  apply saleTotal_le
  intro cid contribution hrow
  have hsa := (sound.row_ok hrow).2.1
  cases hstatus : contribution.status with
  | opened => simp [valueIn, hstatus]
  | claimed => simp [valueIn, hstatus]
  | refunded =>
      simp only [valueIn, hstatus]
      exact hsa.le

theorem counters_nonneg (sound : SalesSound env store) (auth : Text) :
    0 ≤ (store.saleStatus auth).ref ∧ 0 ≤ (store.saleStatus auth).clm ∧
      0 ≤ saleTotal auth (valueIn .opened SaleContributionRecord.amt) store.scon ∧
      0 ≤ saleTotal auth (valueIn .opened SaleContributionRecord.sa) store.scon := by
  rw [(sound.sale auth).ref_eq, (sound.sale auth).clm_eq]
  refine ⟨?_, ?_, ?_, ?_⟩
  · exact saleTotal_nonneg fun hrow => sound.amt_nonneg _ hrow
  · exact saleTotal_nonneg fun hrow => sound.sa_nonneg _ hrow
  · exact saleTotal_nonneg fun hrow => sound.amt_nonneg _ hrow
  · exact saleTotal_nonneg fun hrow => sound.sa_nonneg _ hrow

/-- An authority without a configuration has no contributions. -/
theorem saleTotal_of_none (sound : SalesSound env store) (hnone : store.ah.lookup auth = none)
    (value : SaleContributionRecord → ℤ) : saleTotal auth value store.scon = 0 := by
  rw [← saleTotal_zero auth store.scon]
  unfold saleTotal
  apply congrArg List.sum
  apply List.map_congr_left
  intro row hrow
  have hisSome := (sound.row_ok (AList.mem_lookup_iff.2 hrow)).2.2
  dsimp only
  split
  next hsame =>
    rw [hsame, hnone] at hisSome
    cases hisSome
  next => rfl

/-- A new configuration is sound. -/
theorem configure (sound : SalesSound env store) {id : Text} {config : AuthorityConfigRecord}
    (hnew : store.ah.lookup id = none) :
    SalesSound env { store with ah := store.ah.insert id config } where
  row_ok hrow := by
    obtain ⟨hamt, hsa, hisSome⟩ := sound.row_ok hrow
    refine ⟨hamt, hsa, ?_⟩
    dsimp only
    rw [lookup_insert_ite]
    split
    · rfl
    · exact hisSome
  nonneg := sound.nonneg
  unsettled := sound.unsettled
  settled_le := sound.settled_le
  sale auth := by
    have sale := sound.sale auth
    by_cases hself : auth = id
    · subst hself
      have hnone := sound.saleTotal_of_none hnew
      exact
        { tc_eq := sale.tc_eq
          alc_eq := sale.alc_eq
          clm_eq := sale.clm_eq
          ref_eq := sale.ref_eq
          tc_lt := sale.tc_lt
          alc_lt := sale.alc_lt
          payments_le := fun _ _ => (hnone _).trans_le (sound.nonneg _ _)
          allocations_le := fun _ _ => (hnone _).trans_le (sound.nonneg _ _) }
    · apply sale.frame
      · exact AList.lookup_insert_ne hself
      · rfl
      · exact fun _ => rfl
      · exact fun _ => le_rfl

/-- An action on one sale: the others stay sound, since no balance of theirs falls. -/
theorem update (sound : SalesSound env store) (hah : after.ah = store.ah)
    (hsale : after.sale = store.sale.insert auth status)
    (htotal : ∀ other, other ≠ auth → ∀ value,
      saleTotal other value after.scon = saleTotal other value store.scon)
    (debited : Debited auth tick amount store after)
    (hrow : ∀ {cid contribution}, after.scon.lookup cid = some contribution →
      0 < contribution.amt ∧ 0 < contribution.sa ∧ (store.ah.lookup contribution.auth).isSome)
    (hunsettled : ∀ {cid}, (∀ {contribution}, after.scon.lookup cid = some contribution →
      contribution.status = .opened) → after.settlements cid = 0)
    (hsettled : ∀ cid, after.settlements cid ≤ 1) (hself : SaleSound env auth after) :
    SalesSound env after where
  row_ok := by
    rw [hah]
    exact hrow
  nonneg := debited.nonneg sound.nonneg
  unsettled := hunsettled
  settled_le := hsettled
  sale other := by
    by_cases hother : other = auth
    · rw [hother]
      exact hself
    · apply (sound.sale other).frame
      · rw [hah]
      · rw [saleStatus_insert hsale, if_neg hother]
      · exact htotal other hother
      · intro asked
        have hle := debited.le other asked
        rw [if_neg fun hboth => hother hboth.1.symm, sub_zero] at hle
        exact hle

/-- A status with other flags, and a balance that falls in one ticker. -/
theorem restate (sound : SalesSound env store) (hah : after.ah = store.ah)
    (hsale : after.sale = store.sale.insert auth status) (hscon : after.scon = store.scon)
    (hsettled : ∀ cid, after.settlements cid = store.settlements cid)
    (debited : Debited auth tick amount store after)
    (htc : status.tc = (store.saleStatus auth).tc) (halc : status.alc = (store.saleStatus auth).alc)
    (hclm : status.clm = (store.saleStatus auth).clm)
    (href : status.ref = (store.saleStatus auth).ref)
    (hpayments : ∀ {config}, store.ah.lookup auth = some config → status.fin = false →
      saleTotal auth (valueIn .opened SaleContributionRecord.amt) store.scon ≤
        after.authorityBalance auth (config.paymentKey env))
    (hallocations : ∀ {config}, store.ah.lookup auth = some config → status.fin = true →
      saleTotal auth (valueIn .opened SaleContributionRecord.sa) store.scon ≤
        after.authorityBalance auth (config.saleKey env)) :
    SalesSound env after := by
  have hstatus := saleStatus_insert hsale auth
  rw [if_pos rfl] at hstatus
  have sale := sound.sale auth
  apply sound.update hah hsale (fun _ _ _ => by rw [hscon]) debited
  · rw [hscon]
    exact sound.row_ok
  · intro cid hopen
    rw [hscon] at hopen
    rw [hsettled]
    exact sound.unsettled hopen
  · intro cid
    rw [hsettled]
    exact sound.settled_le cid
  · constructor
    case tc_eq => rw [hstatus, hscon, htc, sale.tc_eq]
    case alc_eq => rw [hstatus, hscon, halc, sale.alc_eq]
    case clm_eq => rw [hstatus, hscon, hclm, sale.clm_eq]
    case ref_eq => rw [hstatus, hscon, href, sale.ref_eq]
    case tc_lt =>
      rw [hstatus, htc]
      exact sale.tc_lt
    case alc_lt =>
      rw [hstatus, halc]
      exact sale.alc_lt
    case payments_le =>
      rw [hstatus, hah, hscon]
      exact hpayments
    case allocations_le =>
      rw [hstatus, hah, hscon]
      exact hallocations

/-- A new contribution, with the counters it raises and the payment it brings. -/
theorem contribute {cid : Text} {new : SaleContributionRecord} (sound : SalesSound env store)
    (hah : after.ah = store.ah) (hsale : after.sale = store.sale.insert auth status)
    (hscon : after.scon = store.scon.insert cid new)
    (hsettled : ∀ cid, after.settlements cid = store.settlements cid)
    (debited : Debited auth tick (-new.amt) store after)
    {config : AuthorityConfigRecord} (hconfig : store.ah.lookup auth = some config)
    (htick : tick = config.paymentKey env) (hfin : (store.saleStatus auth).fin = false)
    (hnew : store.scon.lookup cid = none) (hauth : new.auth = auth) (hopen : new.status = .opened)
    (hamt : 0 < new.amt) (hsa : 0 < new.sa)
    (hstatus : status = { store.saleStatus auth with
      tc := (store.saleStatus auth).tc + new.amt, alc := (store.saleStatus auth).alc + new.sa })
    (htc : (store.saleStatus auth).tc + new.amt < 2 ^ 127)
    (halc : (store.saleStatus auth).alc + new.sa < 2 ^ 127) : SalesSound env after := by
  have hread := saleStatus_insert hsale auth
  rw [if_pos rfl] at hread
  have hself : ∀ value, saleTotal auth value after.scon = saleTotal auth value store.scon + value new := by
    intro value
    rw [hscon, saleTotal_insert_new auth value new hnew, if_pos hauth]
  have sale := sound.sale auth
  apply sound.update hah hsale ?_ debited
  · intro found contribution hrow
    rw [hscon] at hrow
    obtain ⟨-, rfl⟩ | ⟨-, hrow⟩ := lookup_insert_cases hrow
    · rw [hauth, hconfig]
      exact ⟨hamt, hsa, rfl⟩
    · exact sound.row_ok hrow
  · intro found hall
    rw [hsettled]
    apply sound.unsettled
    intro contribution hrow
    apply hall
    rw [hscon, lookup_insert_ite, if_neg]
    · exact hrow
    · rintro rfl
      rw [hnew] at hrow
      cases hrow
  · intro found
    rw [hsettled]
    exact sound.settled_le found
  · constructor
    case tc_eq => rw [hread, hself, hstatus, sale.tc_eq]
    case alc_eq => rw [hread, hself, hstatus, sale.alc_eq]
    case clm_eq => rw [hread, hself, hstatus, sale.clm_eq, valueIn, hopen, if_neg (by decide), add_zero]
    case ref_eq => rw [hread, hself, hstatus, sale.ref_eq, valueIn, hopen, if_neg (by decide), add_zero]
    case tc_lt =>
      rw [hread, hstatus]
      exact htc
    case alc_lt =>
      rw [hread, hstatus]
      exact halc
    case payments_le =>
      intro found hfound _
      rw [hah, hconfig] at hfound
      cases hfound
      have hle := debited.le auth (config.paymentKey env)
      rw [if_pos ⟨rfl, htick.symm⟩] at hle
      have hbefore := sale.payments_le hconfig hfin
      rw [hself, valueIn, if_pos hopen]
      omega
    case allocations_le =>
      intro found _ hfinal
      rw [hread, hstatus] at hfinal
      exact absurd (hfin.symm.trans hfinal) (by decide)
  · intro other hother value
    rw [hscon, saleTotal_insert_new other value new hnew, hauth, if_neg hother.symm, add_zero]

/-- What a claim or a refund does to the row of an open contribution and to the list of its kind. -/
structure RowSettled (store after : ProofStore) (cid : Text) (old : SaleContributionRecord)
    (settled : ContributionStatus) : Prop where
  found : store.scon.lookup cid = some old
  opened : old.status = .opened
  closed : settled ≠ .opened
  scon : after.scon = store.scon.insert cid { old with status := settled }
  count : ∀ found, after.settlements found = store.settlements found + if found = cid then 1 else 0

section RowSettled

variable {cid : Text} {old : SaleContributionRecord} {settled : ContributionStatus}

theorem RowSettled.row_ok (row : RowSettled store after cid old settled) (sound : SalesSound env store)
    {found : Text} {contribution : SaleContributionRecord}
    (hrow : after.scon.lookup found = some contribution) :
    0 < contribution.amt ∧ 0 < contribution.sa ∧ (store.ah.lookup contribution.auth).isSome := by
  rw [row.scon] at hrow
  obtain ⟨-, rfl⟩ | ⟨-, hrow⟩ := lookup_insert_cases hrow
  · exact (sound.row_ok row.found :)
  · exact sound.row_ok hrow

theorem RowSettled.unsettled (row : RowSettled store after cid old settled) (sound : SalesSound env store)
    {found : Text} (hall : ∀ {contribution}, after.scon.lookup found = some contribution →
      contribution.status = .opened) : after.settlements found = 0 := by
  by_cases hsame : found = cid
  · subst hsame
    have hrow : after.scon.lookup found = some { old with status := settled } := by
      rw [row.scon, AList.lookup_insert]
    exact absurd (hall hrow) row.closed
  · rw [row.count, if_neg hsame]
    apply sound.unsettled
    intro contribution hrow
    apply hall
    rw [row.scon, lookup_insert_ite, if_neg hsame]
    exact hrow

theorem RowSettled.settled_le (row : RowSettled store after cid old settled) (sound : SalesSound env store)
    (found : Text) : after.settlements found ≤ 1 := by
  rw [row.count]
  split
  next hsame =>
    have hzero : store.settlements found = 0 := by
      apply sound.unsettled
      intro contribution hrow
      rw [hsame, row.found] at hrow
      cases hrow
      exact row.opened
    omega
  next => exact sound.settled_le found

theorem RowSettled.saleTotal_self (row : RowSettled store after cid old settled)
    (value : SaleContributionRecord → ℤ) (hauth : old.auth = auth) :
    saleTotal auth value after.scon + value old =
      saleTotal auth value store.scon + value { old with status := settled } := by
  have hreplaced := saleTotal_replace auth value { old with status := settled } row.found
  rw [if_pos hauth] at hreplaced
  rw [row.scon, hreplaced]
  exact congrArg _ (if_pos hauth)

theorem RowSettled.saleTotal_other (row : RowSettled store after cid old settled)
    (value : SaleContributionRecord → ℤ) {other : Text} (hother : old.auth ≠ other) :
    saleTotal other value after.scon = saleTotal other value store.scon := by
  have hreplaced := saleTotal_replace other value { old with status := settled } row.found
  simp only [if_neg hother, add_zero] at hreplaced
  rw [row.scon, hreplaced]

/-- A claim or refund closes a contribution and takes its amount off a balance. -/
theorem settle (sound : SalesSound env store) (row : RowSettled store after cid old settled)
    (hah : after.ah = store.ah) (hsale : after.sale = store.sale.insert auth status)
    (debited : Debited auth tick amount store after) (hauth : old.auth = auth)
    (htc : status.tc = (store.saleStatus auth).tc) (halc : status.alc = (store.saleStatus auth).alc)
    (hfin : status.fin = (store.saleStatus auth).fin)
    (hclm : status.clm = (store.saleStatus auth).clm +
      valueIn .claimed SaleContributionRecord.sa { old with status := settled })
    (href : status.ref = (store.saleStatus auth).ref +
      valueIn .refunded SaleContributionRecord.amt { old with status := settled })
    (hpayment : ∀ {config}, store.ah.lookup auth = some config →
      (store.saleStatus auth).fin = false → tick = config.paymentKey env ∧ amount = old.amt)
    (hallocation : ∀ {config}, store.ah.lookup auth = some config →
      (store.saleStatus auth).fin = true → tick = config.saleKey env ∧ amount = old.sa) :
    SalesSound env after := by
  have hread := saleStatus_insert hsale auth
  rw [if_pos rfl] at hread
  have hopened : ∀ value, valueIn .opened value old = value old := fun value => if_pos row.opened
  have hclosed : ∀ value, valueIn .opened value { old with status := settled } = 0 :=
    fun value => if_neg row.closed
  have hunpaid : ∀ value, valueIn .claimed value old = 0 ∧ valueIn .refunded value old = 0 := by
    simp [valueIn, row.opened]
  have hself := fun value => row.saleTotal_self value hauth
  have sale := sound.sale auth
  apply sound.update hah hsale ?_ debited (row.row_ok sound) (row.unsettled sound) (row.settled_le sound)
  · constructor
    case tc_eq =>
      have hsum := hself SaleContributionRecord.amt
      rw [hread, htc, sale.tc_eq]
      exact (add_right_cancel hsum).symm
    case alc_eq =>
      have hsum := hself SaleContributionRecord.sa
      rw [hread, halc, sale.alc_eq]
      exact (add_right_cancel hsum).symm
    case clm_eq =>
      have hsum := hself (valueIn .claimed SaleContributionRecord.sa)
      have hbefore := (hunpaid SaleContributionRecord.sa).1
      rw [hread, hclm, sale.clm_eq]
      omega
    case ref_eq =>
      have hsum := hself (valueIn .refunded SaleContributionRecord.amt)
      have hbefore := (hunpaid SaleContributionRecord.amt).2
      rw [hread, href, sale.ref_eq]
      omega
    case tc_lt =>
      rw [hread, htc]
      exact sale.tc_lt
    case alc_lt =>
      rw [hread, halc]
      exact sale.alc_lt
    case payments_le =>
      intro config hconfig hnot
      rw [hah] at hconfig
      rw [hread, hfin] at hnot
      obtain ⟨rfl, rfl⟩ := hpayment hconfig hnot
      have hsum := hself (valueIn .opened SaleContributionRecord.amt)
      have hle := debited.le auth (config.paymentKey env)
      have hbefore := sale.payments_le hconfig hnot
      rw [if_pos ⟨rfl, rfl⟩] at hle
      rw [hopened, hclosed] at hsum
      omega
    case allocations_le =>
      intro config hconfig hyes
      rw [hah] at hconfig
      rw [hread, hfin] at hyes
      obtain ⟨rfl, rfl⟩ := hallocation hconfig hyes
      have hsum := hself (valueIn .opened SaleContributionRecord.sa)
      have hle := debited.le auth (config.saleKey env)
      have hbefore := sale.allocations_le hconfig hyes
      rw [if_pos ⟨rfl, rfl⟩] at hle
      rw [hopened, hclosed] at hsum
      omega
  · intro other hother value
    exact row.saleTotal_other value fun heq => hother (heq.symm.trans hauth)

end RowSettled

end SalesSound

/-! ### The actions -/

section Actions

variable {env : ProofEnv} {context : TapContext} {store : ProofStore} {auth : Text} {tick : TickKey}
  {amount : ℤ} {action : Json} {link : Option TokenAuthCreateRecord}
  {config : AuthorityConfigRecord}

theorem resolveProtocolI128_spec {value : Json} {deployed : DeployRecord}
    (hamount : resolveProtocolI128 env context value deployed = some amount) :
    0 < amount ∧ amount < 2 ^ 127 := by
  unfold resolveProtocolI128 at hamount
  replace hamount := of_guard hamount
  obtain ⟨resolved, hresolved, hamount⟩ := bind_eq_some_iff.1 hamount
  obtain ⟨maxAmount, hamount⟩ := of_bind hamount
  obtain ⟨⟨hpositive, -⟩, hamount⟩ := guard_bind_eq_some.1 hamount
  cases hamount
  have hlt := lt_of_resolvedI128 hresolved
  exact ⟨by exact_mod_cast hpositive, by exact_mod_cast hlt⟩

/-- The key of a deployed ticker is the key of its lower-case name. -/
theorem getDeploy_key {text : Text} {tickKey : TickKey} {record : DeployRecord}
    (hdeploy : store.getDeploy env text = some (tickKey, record)) :
    tickKey = jsonStringifyLower env (env.jsToLowercase text) := by
  unfold ProofStore.getDeploy at hdeploy
  obtain ⟨found, hdeploy⟩ := of_bind hdeploy
  cases hdeploy
  rfl

section Moves

variable {post : Unit → ProofStore → Prop}

theorem wp_tapSetAuthorityBalance_sub {before : ℤ} (hamount : 0 ≤ amount)
    (hbefore : before = store.authorityBalance auth tick)
    (hpost : ∀ after, SameSales store after → Debited auth tick amount store after → post () after) :
    Proc.wp (tapSetAuthorityBalance env auth tick (before - amount)) post (fun _ _ => True)
      store := by
  subst hbefore
  apply wp_tapSetAuthorityBalance
  intro hnonneg
  have hrange := (i128At_range store.ab auth tick).2
  apply hpost
  · exact .putAuthorityBalance ..
  · have hhigh : store.authorityBalance auth tick + -amount < 2 ^ 127 := by
      unfold ProofStore.authorityBalance
      omega
    have debited := Debited.put env hnonneg hhigh
    rw [neg_neg] at debited
    exact debited

theorem wp_tapAddAuthorityBalance_add
    (hpost : ∀ after, SameSales store after → Debited auth tick (-amount) store after →
      post () after) :
    Proc.wp (tapAddAuthorityBalance env auth tick amount) post (fun _ _ => True) store := by
  apply wp_tapAddAuthorityBalance
  intro hnonneg hhigh
  apply hpost
  · exact .putAuthorityBalance ..
  · exact .put env hnonneg hhigh

theorem wp_payAuthority {address : Address}
    (hpost : ∀ after, SameSales store after → Debited auth tick (-amount) store after →
      post () after) :
    Proc.wp (payAuthority env address auth tick amount) post (fun _ _ => True) store := by
  unfold payAuthority
  apply wp_read
  apply wp_require
  intro _
  apply wp_write
  apply wp_tapAddAuthorityBalance_add
  intro after same debited
  exact hpost after ⟨same.ah, same.sale, same.scon, same.sclaimli, same.srefli⟩
    ⟨debited.le, debited.nonneg⟩

theorem wp_creditTarget {target : SaleTarget} (hamount : 0 ≤ amount)
    (hpost : ∀ after, SameSales store after → (∀ auth tick, Debited auth tick 0 store after) →
      post () after) :
    Proc.wp (creditTarget env target tick amount) post (fun _ _ => True) store := by
  cases target with
  | account address =>
      apply wp_tapCreditAddressBalance
      intro _ _
      apply hpost
      · exact ⟨rfl, rfl, rfl, rfl, rfl⟩
      · exact Debited.of_eq rfl
  | authority dest =>
      apply wp_tapAddAuthorityBalance_add
      intro after same debited
      exact hpost after same (debited.credit hamount)
  | burn =>
      apply Proc.wp_pure
      apply hpost
      · exact .refl store
      · exact Debited.of_eq rfl

end Moves

/-- Balances move, and a status with other flags is written. -/
theorem wp_restate {middle : ProofStore} {change : SaleStatusRecord → SaleStatusRecord}
    (sound : SalesSound env store) (same : SameSales store middle)
    (debited : Debited auth tick amount store middle)
    (htc : (change (store.saleStatus auth)).tc = (store.saleStatus auth).tc)
    (halc : (change (store.saleStatus auth)).alc = (store.saleStatus auth).alc)
    (hclm : (change (store.saleStatus auth)).clm = (store.saleStatus auth).clm)
    (href : (change (store.saleStatus auth)).ref = (store.saleStatus auth).ref)
    (hpayments : ∀ {config}, store.ah.lookup auth = some config →
      (change (store.saleStatus auth)).fin = false →
      saleTotal auth (valueIn .opened SaleContributionRecord.amt) store.scon ≤
        middle.authorityBalance auth (config.paymentKey env))
    (hallocations : ∀ {config}, store.ah.lookup auth = some config →
      (change (store.saleStatus auth)).fin = true →
      saleTotal auth (valueIn .opened SaleContributionRecord.sa) store.scon ≤
        middle.authorityBalance auth (config.saleKey env)) :
    Proc.wp (putSaleStatus auth change) (fun _ after => SalesSound env after) (fun _ _ => True)
      middle := by
  apply wp_write_last
  rw [same.saleStatus, same.sale]
  apply SalesSound.restate sound
  case hsale => rfl
  case hah => exact same.ah
  case hscon => exact same.scon
  case hsettled =>
    intro cid
    unfold ProofStore.settlements
    rw [same.sclaimli, same.srefli]
  case debited => exact ⟨debited.le, debited.nonneg⟩
  case htc => exact htc
  case halc => exact halc
  case hclm => exact hclm
  case href => exact href
  case hpayments => exact hpayments
  case hallocations => exact hallocations

theorem sound_processSaleConfigAction {place : ActionPlace} (sound : SalesSound env store) :
    Proc.wp (processSaleConfigAction env context action link place)
      (fun _ after => SalesSound env after) (fun _ _ => True) store := by
  unfold processSaleConfigAction
  apply wp_read
  apply wp_get
  rintro ⟨id, config⟩ hvalid
  apply wp_write_last
  apply sound.configure
  unfold validateSaleConfigAction at hvalid
  obtain ⟨link, hvalid⟩ := of_bind hvalid
  replace hvalid := of_guard hvalid
  obtain ⟨_, hvalid⟩ := of_bind hvalid
  obtain ⟨st, hvalid⟩ := of_bind hvalid
  obtain ⟨_, hvalid⟩ := of_bind hvalid
  obtain ⟨pt, hvalid⟩ := of_bind hvalid
  obtain ⟨control, hvalid⟩ := of_bind hvalid
  obtain ⟨_, hvalid⟩ := of_bind hvalid
  obtain ⟨controlAuth, hvalid⟩ := of_bind hvalid
  replace hvalid := of_guard hvalid
  obtain ⟨hnew, hvalid⟩ := guard_bind_eq_some.1 hvalid
  obtain ⟨sold, hvalid⟩ := of_bind hvalid
  obtain ⟨paid, hvalid⟩ := of_bind hvalid
  obtain ⟨_, hvalid⟩ := of_bind hvalid
  obtain ⟨treasury, hvalid⟩ := of_bind hvalid
  obtain ⟨_, hvalid⟩ := of_bind hvalid
  obtain ⟨terms, hvalid⟩ := of_bind hvalid
  cases hvalid
  exact Option.isNone_iff_eq_none.1 hnew

/-- Funding raises the balance in the ticker that is sold. -/
theorem sound_processFundSaleAction (sound : SalesSound env store) :
    Proc.wp (processFundSaleAction env context action link) (fun _ after => SalesSound env after)
      (fun _ _ => True) store := by
  unfold processFundSaleAction
  apply wp_get
  intro link _
  apply wp_read
  apply wp_get
  rintro ⟨auth, tickKey, amount⟩ hvalid
  have hamount : 0 < amount := by
    unfold validateFundSaleAction at hvalid
    obtain ⟨_, hvalid⟩ := of_bind hvalid
    obtain ⟨auth, hvalid⟩ := of_bind hvalid
    obtain ⟨_, hvalid⟩ := of_bind hvalid
    obtain ⟨tick, hvalid⟩ := of_bind hvalid
    obtain ⟨config, hvalid⟩ := of_bind hvalid
    obtain ⟨⟨tickKey, record⟩, hvalid⟩ := of_bind hvalid
    replace hvalid := of_guard hvalid
    obtain ⟨_, hvalid⟩ := of_bind hvalid
    obtain ⟨resolved, hresolved, hvalid⟩ := bind_eq_some_iff.1 hvalid
    replace hvalid := of_guard hvalid
    obtain ⟨_, hvalid⟩ := of_bind hvalid
    cases hvalid
    exact (resolveProtocolI128_spec hresolved).1
  apply wp_bind
  apply wp_payAuthority
  intro middle same debited
  have raised := debited.credit hamount.le auth tickKey
  have hle : ∀ asked, store.authorityBalance auth asked ≤ middle.authorityBalance auth asked := by
    intro asked
    have hdebit := raised.le auth asked
    rw [ite_self, sub_zero] at hdebit
    exact hdebit
  apply wp_restate sound same raised rfl rfl rfl rfl
  · exact fun hconfig hfin => ((sound.sale auth).payments_le hconfig hfin).trans (hle _)
  · exact fun hconfig hfin => ((sound.sale auth).allocations_le hconfig hfin).trans (hle _)

/-- The sale whose two tickers are one covers both what is paid out and what is allocated. -/
def coversBoth (env : ProofEnv) (store : ProofStore) (auth : Text) (config : AuthorityConfigRecord) :
    Prop :=
  config.saleKey env = config.paymentKey env →
    (store.saleStatus auth).tc + (store.saleStatus auth).alc ≤
      store.authorityBalance auth (config.paymentKey env)

instance (env : ProofEnv) (store : ProofStore) (auth : Text) (config : AuthorityConfigRecord) :
    Decidable (coversBoth env store auth config) := inferInstanceAs (Decidable (_ → _))

/-- A finalization leaves the allocations covered. -/
theorem sound_finalizeSale (sound : SalesSound env store)
    (hconfig : store.ah.lookup auth = some config)
    (halc : (store.saleStatus auth).alc ≤ store.authorityBalance auth (config.saleKey env))
    (hcovers : coversBoth env store auth config) :
    Proc.wp (finalizeSale env context auth config (store.saleStatus auth).tc)
      (fun _ after => SalesSound env after) (fun _ _ => True) store := by
  obtain ⟨href, hclm, hopenAmt, -⟩ := sound.counters_nonneg auth
  have hcontributed := sound.open_add_ref_le auth
  have hallocated := sound.open_add_clm_le auth
  have htc : 0 ≤ (store.saleStatus auth).tc := by omega
  unfold finalizeSale
  apply wp_read
  apply wp_require
  intro _
  apply wp_bind
  apply wp_tapSetAuthorityBalance_sub htc rfl
  intro middle same debited
  apply wp_bind
  unfold creditSaleTarget
  apply wp_get
  intro treasury _
  apply wp_read
  apply wp_get
  intro target _
  apply wp_creditTarget htc
  intro after same' credited
  have moved := debited.trans (credited auth (config.paymentKey env))
  apply wp_restate sound (same.trans same') moved rfl rfl rfl rfl
  · exact fun _ hnot => nomatch hnot
  · intro found hfound _
    rw [hconfig] at hfound
    cases hfound
    have hle := moved.le auth (config.saleKey env)
    by_cases hone : config.saleKey env = config.paymentKey env
    · have hboth := hcovers hone
      rw [if_pos ⟨rfl, hone⟩, hone] at hle
      rw [hone]
      omega
    · rw [if_neg fun hsame => hone hsame.2] at hle
      omega

/-- What a finalization has checked. -/
theorem validateFinalizeSaleAction_spec
    (hvalid : validateFinalizeSaleAction env context action link store = some (auth, config, amount)) :
    store.ah.lookup auth = some config ∧ amount = (store.saleStatus auth).tc ∧
      (store.saleStatus auth).alc ≤ store.authorityBalance auth (config.saleKey env) := by
  unfold validateFinalizeSaleAction at hvalid
  obtain ⟨link, hvalid⟩ := of_bind hvalid
  obtain ⟨_, hvalid⟩ := of_bind hvalid
  obtain ⟨named, hvalid⟩ := of_bind hvalid
  obtain ⟨found, hfound, hvalid⟩ := bind_eq_some_iff.1 hvalid
  replace hvalid := of_guard hvalid
  obtain ⟨terms, hvalid⟩ := of_bind hvalid
  replace hvalid := of_guard hvalid
  replace hvalid := of_guard hvalid
  replace hvalid := of_guard hvalid
  replace hvalid := of_guard hvalid
  obtain ⟨⟨halc, -⟩, hvalid⟩ := guard_bind_eq_some.1 hvalid
  cases hvalid
  exact ⟨hfound, rfl, halc⟩

/-- What the resolution of a sale has checked. -/
theorem validateResolveSaleAction_spec {normalized : SaleResolveValidation}
    (hvalid : validateResolveSaleAction env context action store = some normalized) :
    store.ah.lookup normalized.auth = some normalized.config ∧
      normalized.amount = (store.saleStatus normalized.auth).tc ∧
      (normalized.finalized = true → (store.saleStatus normalized.auth).alc ≤
        store.authorityBalance normalized.auth (normalized.config.saleKey env)) := by
  unfold validateResolveSaleAction at hvalid
  obtain ⟨_, hvalid⟩ := of_bind hvalid
  obtain ⟨named, hvalid⟩ := of_bind hvalid
  obtain ⟨found, hfound, hvalid⟩ := bind_eq_some_iff.1 hvalid
  replace hvalid := of_guard hvalid
  replace hvalid := of_guard hvalid
  obtain ⟨terms, hvalid⟩ := of_bind hvalid
  replace hvalid := of_guard hvalid
  replace hvalid := of_guard hvalid
  obtain ⟨treasury, hvalid⟩ := of_bind hvalid
  obtain ⟨target, hvalid⟩ := of_bind hvalid
  replace hvalid := of_guard hvalid
  cases hvalid
  exact ⟨hfound, rfl, fun hfinal => (of_decide_eq_true hfinal).2.1⟩

/-- Flags that do not finalize a sale change nothing. -/
theorem sound_putSaleStatus {change : SaleStatusRecord → SaleStatusRecord}
    (sound : SalesSound env store)
    (htc : (change (store.saleStatus auth)).tc = (store.saleStatus auth).tc)
    (halc : (change (store.saleStatus auth)).alc = (store.saleStatus auth).alc)
    (hclm : (change (store.saleStatus auth)).clm = (store.saleStatus auth).clm)
    (href : (change (store.saleStatus auth)).ref = (store.saleStatus auth).ref)
    (hfin : (change (store.saleStatus auth)).fin = (store.saleStatus auth).fin) :
    Proc.wp (putSaleStatus auth change) (fun _ after => SalesSound env after) (fun _ _ => True)
      store := by
  apply wp_restate sound (.refl store) (Debited.of_eq rfl auth []) htc halc hclm href
  · rw [hfin]
    exact (sound.sale auth).payments_le
  · rw [hfin]
    exact (sound.sale auth).allocations_le

theorem sound_processResolveSaleAction (sound : SalesSound env store)
    (hcovered : ∀ normalized ∈ validateResolveSaleAction env context action store,
      normalized.finalized = true → coversBoth env store normalized.auth normalized.config) :
    Proc.wp (processResolveSaleAction env context action) (fun _ after => SalesSound env after)
      (fun _ _ => True) store := by
  unfold processResolveSaleAction
  apply wp_read
  apply wp_get
  intro normalized hvalid
  obtain ⟨hconfig, hamount, halc⟩ := validateResolveSaleAction_spec hvalid
  cases hfinalized : normalized.finalized with
  | true =>
      rw [if_pos rfl, hamount]
      exact sound_finalizeSale sound hconfig (halc hfinalized)
        (hcovered normalized hvalid hfinalized)
  | false =>
      rw [if_neg (by decide)]
      exact sound_putSaleStatus sound rfl rfl rfl rfl rfl

theorem sound_processFinalizeSaleAction
    (sound : SalesSound env store)
    (hcovered : ∀ validated ∈ validateFinalizeSaleAction env context action link store,
      coversBoth env store validated.1 validated.2.1) :
    Proc.wp (processFinalizeSaleAction env context action link)
      (fun _ after => SalesSound env after) (fun _ _ => True) store := by
  unfold processFinalizeSaleAction
  apply wp_read
  apply wp_get
  rintro ⟨auth, config, amount⟩ hvalid
  obtain ⟨hconfig, rfl, halc⟩ := validateFinalizeSaleAction_spec hvalid
  exact sound_finalizeSale sound hconfig halc (hcovered _ hvalid)

theorem sound_processCancelSaleAction (sound : SalesSound env store) :
    Proc.wp (processCancelSaleAction action link) (fun _ after => SalesSound env after)
      (fun _ _ => True) store := by
  unfold processCancelSaleAction
  apply wp_get
  intro link _
  apply wp_get
  intro auth _
  apply wp_read
  apply wp_get
  intro config _
  apply wp_read
  apply wp_require
  intro _
  apply wp_require
  intro _
  apply wp_require
  intro _
  exact sound_putSaleStatus sound rfl rfl rfl rfl rfl

/-- What a contribution has checked. -/
theorem validateSaleContributionAction_spec {link : TokenAuthCreateRecord} {place : ActionPlace}
    {normalized : SaleContributionValidation}
    (hvalid : validateSaleContributionAction env context action link place store = some normalized) :
    0 < normalized.amount ∧ 0 < normalized.allocation ∧
      (store.saleStatus normalized.auth).fin = false ∧
      (store.saleStatus normalized.auth).tc + normalized.amount < 2 ^ 127 ∧
      ∃ config, store.ah.lookup normalized.auth = some config ∧
        normalized.tickKey = config.paymentKey env := by
  unfold validateSaleContributionAction at hvalid
  obtain ⟨_, hvalid⟩ := of_bind hvalid
  obtain ⟨auth, hvalid⟩ := of_bind hvalid
  obtain ⟨_, hvalid⟩ := of_bind hvalid
  obtain ⟨tick, hvalid⟩ := of_bind hvalid
  obtain ⟨config, hconfig, hvalid⟩ := bind_eq_some_iff.1 hvalid
  obtain ⟨⟨tickKey, record⟩, hdeploy, hvalid⟩ := bind_eq_some_iff.1 hvalid
  obtain ⟨⟨-, hpt⟩, hvalid⟩ := guard_bind_eq_some.1 hvalid
  obtain ⟨terms, hvalid⟩ := of_bind hvalid
  obtain ⟨⟨hfin, -⟩, hvalid⟩ := guard_bind_eq_some.1 hvalid
  obtain ⟨_, hvalid⟩ := of_bind hvalid
  obtain ⟨claim, hvalid⟩ := of_bind hvalid
  replace hvalid := of_guard hvalid
  obtain ⟨_, hvalid⟩ := of_bind hvalid
  obtain ⟨amount, hamount, hvalid⟩ := bind_eq_some_iff.1 hvalid
  obtain ⟨nextExisting, hvalid⟩ := of_bind hvalid
  obtain ⟨nextTotal, hnext, hvalid⟩ := bind_eq_some_iff.1 hvalid
  replace hvalid := of_guard hvalid
  replace hvalid := of_guard hvalid
  obtain ⟨allocation, hvalid⟩ := of_bind hvalid
  obtain ⟨hallocation, hvalid⟩ := guard_bind_eq_some.1 hvalid
  replace hvalid := of_guard hvalid
  obtain ⟨_, hvalid⟩ := of_bind hvalid
  cases hvalid
  refine ⟨(resolveProtocolI128_spec hamount).1, hallocation, by simpa using hfin,
    (readI128_eq_some hnext).2.2, config, hconfig, ?_⟩
  rw [AuthorityConfigRecord.paymentKey, hpt]
  exact getDeploy_key hdeploy

/-- A contribution whose allocation the counter can hold. -/
theorem sound_processSaleContributionAction
    {place : ActionPlace} (sound : SalesSound env store)
    (hcovered : ∀ holder ∈ link,
      ∀ normalized ∈ validateSaleContributionAction env context action holder place store,
        (store.saleStatus normalized.auth).alc + normalized.allocation < 2 ^ 127) :
    Proc.wp (processSaleContributionAction env context action link place)
      (fun _ after => SalesSound env after) (fun _ _ => True) store := by
  unfold processSaleContributionAction
  apply wp_get
  intro holder hholder
  apply wp_read
  apply wp_get
  intro normalized hvalid
  obtain ⟨hamount, hallocation, hfin, htc, config, hconfig, htick⟩ :=
    validateSaleContributionAction_spec hvalid
  have halc := hcovered holder hholder normalized hvalid
  obtain ⟨href, hclm, hopenAmt, hopenSa⟩ := sound.counters_nonneg normalized.auth
  have hcontributed := sound.open_add_ref_le normalized.auth
  have hallocated := sound.open_add_clm_le normalized.auth
  apply wp_read
  apply wp_require
  intro hnew
  apply wp_bind
  apply wp_payAuthority
  intro middle same debited
  apply wp_write
  apply wp_write
  apply wp_write_last
  rw [same.saleStatus, same.sale, same.scon]
  apply SalesSound.contribute sound
  case hsale => rfl
  case hscon => rfl
  case hah => exact same.ah
  case hsettled =>
    intro cid
    unfold ProofStore.settlements
    rw [same.sclaimli, same.srefli]
  case debited => exact ⟨debited.le, debited.nonneg⟩
  case hconfig => exact hconfig
  case htick => exact htick
  case hfin => exact hfin
  case hnew => exact Option.isNone_iff_eq_none.1 hnew
  case hauth => rfl
  case hopen => rfl
  case hamt => exact hamount
  case hsa => exact hallocation
  case hstatus =>
    dsimp only
    rw [wrapI128_of_range (by omega) htc, wrapI128_of_range (by omega) halc]
  case htc => exact htc
  case halc => exact halc

/-- What a withdrawal has checked. -/
theorem validateWithdrawSaleAction_spec {link : TokenAuthCreateRecord} {target : SaleTarget}
    (hvalid : validateWithdrawSaleAction env context action link store =
      some (auth, config, target, tick, amount)) :
    store.ah.lookup auth = some config ∧ tick = config.saleKey env ∧ 0 < amount ∧
      ∃ sold, config.st = some sold ∧
        amount + saleWithdrawalReserve config (store.saleStatus auth) sold ≤
          store.authorityBalance auth tick := by
  unfold validateWithdrawSaleAction at hvalid
  obtain ⟨_, hvalid⟩ := of_bind hvalid
  obtain ⟨named, hvalid⟩ := of_bind hvalid
  obtain ⟨found, hfound, hvalid⟩ := bind_eq_some_iff.1 hvalid
  obtain ⟨_, hvalid⟩ := of_bind hvalid
  obtain ⟨sold, hvalid⟩ := of_bind hvalid
  obtain ⟨⟨tickKey, record⟩, hdeploy, hvalid⟩ := bind_eq_some_iff.1 hvalid
  obtain ⟨dest, hvalid⟩ := of_bind hvalid
  obtain ⟨⟨-, -, hst⟩, hvalid⟩ := guard_bind_eq_some.1 hvalid
  replace hvalid := of_guard hvalid
  obtain ⟨_, hvalid⟩ := of_bind hvalid
  obtain ⟨resolved, hvalid⟩ := of_bind hvalid
  obtain ⟨available, havailable, hvalid⟩ := bind_eq_some_iff.1 hvalid
  obtain ⟨⟨hpositive, hle⟩, hvalid⟩ := guard_bind_eq_some.1 hvalid
  cases hvalid
  obtain ⟨rfl, -⟩ := readI128_eq_some havailable
  refine ⟨hfound, ?_, hpositive, _, hst, by omega⟩
  rw [AuthorityConfigRecord.saleKey, hst]
  exact getDeploy_key hdeploy

/-- A withdrawal before the end of a sale whose two tickers are one leaves what may be refunded. -/
def leavesRefunds (env : ProofEnv) (store : ProofStore) (auth : Text) (config : AuthorityConfigRecord)
    (amount : ℤ) : Prop :=
  (store.saleStatus auth).fin = false → config.saleKey env = config.paymentKey env →
    amount + ((store.saleStatus auth).tc - (store.saleStatus auth).ref) ≤
      store.authorityBalance auth (config.paymentKey env)

instance (env : ProofEnv) (store : ProofStore) (auth : Text) (config : AuthorityConfigRecord)
    (amount : ℤ) : Decidable (leavesRefunds env store auth config amount) :=
  inferInstanceAs (Decidable (_ → _ → _))

theorem sound_processWithdrawSaleAction
    (sound : SalesSound env store)
    (hcovered : ∀ holder ∈ link,
      ∀ validated ∈ validateWithdrawSaleAction env context action holder store,
        leavesRefunds env store validated.1 validated.2.1 validated.2.2.2.2) :
    Proc.wp (processWithdrawSaleAction env context action link)
      (fun _ after => SalesSound env after) (fun _ _ => True) store := by
  unfold processWithdrawSaleAction
  apply wp_get
  intro holder hholder
  apply wp_read
  apply wp_get
  rintro ⟨auth, config, target, tickKey, amount⟩ hvalid
  have hleaves := hcovered holder hholder _ hvalid
  obtain ⟨hconfig, rfl, hamount, sold, hst, hreserve⟩ := validateWithdrawSaleAction_spec hvalid
  obtain ⟨href, hclm, hopenAmt, hopenSa⟩ := sound.counters_nonneg auth
  have hcontributed := sound.open_add_ref_le auth
  have hallocated := sound.open_add_clm_le auth
  have halc := (sound.sale auth).alc_lt
  apply wp_read
  apply wp_bind
  apply wp_tapSetAuthorityBalance_sub hamount.le rfl
  intro middle same debited
  apply wp_bind
  apply wp_creditTarget hamount.le
  intro after same' credited
  have moved := debited.trans (credited auth (config.saleKey env))
  apply wp_restate sound (same.trans same') moved rfl rfl rfl rfl
  · intro found hfound hfin
    rw [hconfig] at hfound
    cases hfound
    have hle := moved.le auth (config.paymentKey env)
    have hbefore := (sound.sale auth).payments_le hconfig hfin
    by_cases hone : config.saleKey env = config.paymentKey env
    · have hrefunds := hleaves hfin hone
      rw [if_pos ⟨rfl, hone.symm⟩] at hle
      dsimp only at hrefunds
      omega
    · rw [if_neg fun hsame => hone hsame.2.symm] at hle
      omega
  · intro found hfound hfin
    rw [hconfig] at hfound
    cases hfound
    -- the reserve is the whole of what was allocated and not claimed
    have houtstanding : saleWithdrawalReserve config (store.saleStatus auth) sold =
        (store.saleStatus auth).alc - (store.saleStatus auth).clm := by
      unfold saleWithdrawalReserve saleOutstandingAllocation
      rw [if_neg (by simp [hst, show (store.saleStatus auth).fin = true from hfin])]
      split
      · exact wrapI128_of_range (by omega) (by omega)
      · omega
    have hle := moved.le auth (config.saleKey env)
    rw [if_pos ⟨rfl, rfl⟩] at hle
    rw [houtstanding] at hreserve
    omega

theorem wp_payContribution {post : Unit → ProofStore → Prop} {cid : Text}
    {contribution : SaleContributionRecord} {settled : ContributionStatus}
    (hpost : ∀ middle, SameSales store middle → Debited auth tick amount store middle →
      post ()
        { middle with scon := middle.scon.insert cid { contribution with status := settled } }) :
    Proc.wp (payContribution env auth cid contribution tick amount settled) post (fun _ _ => True)
      store := by
  unfold payContribution
  apply wp_read
  apply wp_require
  intro hamount
  have hpositive : 0 < amount := (of_decide_eq_true hamount).1
  apply wp_bind
  apply wp_tapCreditAddressBalance
  intro _ _
  apply wp_bind
  apply wp_tapSetAuthorityBalance_sub hpositive.le
  · rfl
  intro middle same debited
  apply wp_write_last
  exact hpost middle ⟨same.ah, same.sale, same.scon, same.sclaimli, same.srefli⟩
    ⟨debited.le, debited.nonneg⟩

/-- One more row of a list of settlements. -/
theorem countP_append_cid (rows : List SaleSettleRecord) (row : SaleSettleRecord) (cid : Text) :
    (rows ++ [row]).countP (fun row => row.cid = cid) =
      rows.countP (fun row => row.cid = cid) + if cid = row.cid then 1 else 0 := by
  rw [List.countP_append, List.countP_singleton]
  by_cases hsame : cid = row.cid
  · simp [hsame]
  · simp [hsame, Ne.symm hsame]

/-- A claim pays the allocation of an open contribution. -/
theorem sound_processClaimSaleAction (sound : SalesSound env store) :
    Proc.wp (processClaimSaleAction env action) (fun _ after => SalesSound env after)
      (fun _ _ => True) store := by
  unfold processClaimSaleAction
  apply wp_get
  intro auth _
  apply wp_get
  intro cid _
  apply wp_read
  apply wp_get
  intro config hconfig
  apply wp_read
  apply wp_get
  intro contribution hrow
  apply wp_read
  apply wp_require
  intro hchecked
  obtain ⟨-, hauth, hopen⟩ := of_decide_eq_true hchecked
  apply wp_require
  intro hfin
  have hclaimed := le_saleTotal (valueIn .opened SaleContributionRecord.sa) hrow hauth
    fun hother => sound.sa_nonneg _ hother
  rw [valueIn, if_pos hopen] at hclaimed
  obtain ⟨-, hclm, -, -⟩ := sound.counters_nonneg auth
  have hallocated := sound.open_add_clm_le auth
  have halc := (sound.sale auth).alc_lt
  have hpositive := (sound.row_ok hrow).2.1
  apply wp_bind
  apply wp_payContribution
  intro middle same debited
  apply wp_write
  apply wp_write_last
  rw [same.scon, same.sale, same.sclaimli]
  apply SalesSound.settle sound
  case hsale => rfl
  case row =>
    refine ⟨hrow, hopen, by decide, rfl, fun found => ?_⟩
    unfold ProofStore.settlements
    rw [countP_append_cid, same.srefli]
    dsimp only
    omega
  case hah => exact same.ah
  case debited => exact ⟨debited.le, debited.nonneg⟩
  case hauth => exact hauth
  case htc => rfl
  case halc => rfl
  case hfin => rfl
  case hclm =>
    change wrapI128 ((store.saleStatus auth).clm + contribution.sa) = _ + contribution.sa
    exact wrapI128_of_range (by omega) (by omega)
  case href => exact (add_zero _).symm
  case hpayment =>
    intro _ _ hnot
    exact absurd (hnot.symm.trans hfin) (by decide)
  case hallocation =>
    intro found hfound _
    rw [hconfig] at hfound
    cases hfound
    exact ⟨rfl, rfl⟩

/-- A refund pays an open contribution back. -/
theorem sound_processRefundSaleAction (sound : SalesSound env store) :
    Proc.wp (processRefundSaleAction env context action) (fun _ after => SalesSound env after)
      (fun _ _ => True) store := by
  unfold processRefundSaleAction
  apply wp_get
  intro auth _
  apply wp_get
  intro cid _
  apply wp_read
  apply wp_get
  intro config hconfig
  apply wp_read
  apply wp_get
  intro contribution hrow
  apply wp_read
  apply wp_get
  intro terms _
  apply wp_require
  intro hchecked
  obtain ⟨-, hauth, hopen⟩ := of_decide_eq_true hchecked
  apply wp_require
  intro hrefundable
  have hnot : (store.saleStatus auth).fin = false := by
    rw [Bool.and_eq_true, Bool.not_eq_true'] at hrefundable
    exact hrefundable.1
  apply wp_require
  intro _
  have hrefunded := le_saleTotal (valueIn .opened SaleContributionRecord.amt) hrow hauth
    fun hother => sound.amt_nonneg _ hother
  rw [valueIn, if_pos hopen] at hrefunded
  obtain ⟨href, -, -, -⟩ := sound.counters_nonneg auth
  have hcontributed := sound.open_add_ref_le auth
  have htc := (sound.sale auth).tc_lt
  have hpositive := (sound.row_ok hrow).1
  apply wp_bind
  apply wp_payContribution
  intro middle same debited
  apply wp_write
  apply wp_write_last
  rw [same.scon, same.sale, same.srefli]
  apply SalesSound.settle sound
  case hsale => rfl
  case row =>
    refine ⟨hrow, hopen, by decide, rfl, fun found => ?_⟩
    unfold ProofStore.settlements
    rw [countP_append_cid, same.sclaimli]
    dsimp only
    omega
  case hah => exact same.ah
  case debited => exact ⟨debited.le, debited.nonneg⟩
  case hauth => exact hauth
  case htc => rfl
  case halc => rfl
  case hfin => rfl
  case hclm => exact (add_zero _).symm
  case href =>
    change wrapI128 ((store.saleStatus auth).ref + contribution.amt) = _ + contribution.amt
    exact wrapI128_of_range (by omega) (by omega)
  case hpayment =>
    intro found hfound _
    rw [hconfig] at hfound
    cases hfound
    exact ⟨rfl, rfl⟩
  case hallocation =>
    intro _ _ hfin
    exact absurd (hnot.symm.trans hfin) (by decide)

end Actions

/-! ### Runs -/

section Runs

variable {env : ProofEnv}

/-- The step keeps apart what the two sides of a sale are owed: a contribution whose allocation the
counter can hold, a finalization and a withdrawal that leave what the other side is owed where both
sides share one balance. -/
def SaleAction.Covered (env : ProofEnv) (store : ProofStore) : SaleAction → Prop
  | .contribute context link place action =>
      ∀ holder ∈ link,
        ∀ normalized ∈ validateSaleContributionAction env context action holder place store,
          (store.saleStatus normalized.auth).alc + normalized.allocation < 2 ^ 127
  | .finalize context link action =>
      ∀ validated ∈ validateFinalizeSaleAction env context action link store,
        coversBoth env store validated.1 validated.2.1
  | .resolve context action =>
      ∀ normalized ∈ validateResolveSaleAction env context action store,
        normalized.finalized = true → coversBoth env store normalized.auth normalized.config
  | .withdraw context link action =>
      ∀ holder ∈ link, ∀ validated ∈ validateWithdrawSaleAction env context action holder store,
        leavesRefunds env store validated.1 validated.2.1 validated.2.2.2.2
  | _ => True

instance (env : ProofEnv) (store : ProofStore) :
    ∀ action : SaleAction, Decidable (action.Covered env store)
  | .contribute _ _ _ _ => inferInstanceAs (Decidable (∀ _ ∈ _, ∀ _ ∈ _, _))
  | .finalize _ _ _ => inferInstanceAs (Decidable (∀ _ ∈ _, _))
  | .resolve _ _ => inferInstanceAs (Decidable (∀ _ ∈ _, _ → _))
  | .withdraw _ _ _ => inferInstanceAs (Decidable (∀ _ ∈ _, ∀ _ ∈ _, _))
  | .config .. | .fund .. | .claim .. | .refund .. | .cancel .. => inferInstanceAs (Decidable True)

/-- One action keeps every sale sound. -/
theorem sound_saleStep {store after : ProofStore} {action : SaleAction}
    (sound : SalesSound env store) (hcovered : action.Covered env store)
    (hstep : saleStep env store action = some after) : SalesSound env after := by
  cases action with
  | config context link place action =>
      exact of_commit (sound_processSaleConfigAction sound) hstep
  | fund context link action => exact of_commit (sound_processFundSaleAction sound) hstep
  | contribute context link place action =>
      exact of_commit (sound_processSaleContributionAction sound hcovered) hstep
  | finalize context link action =>
      exact of_commit (sound_processFinalizeSaleAction sound hcovered) hstep
  | resolve context action =>
      exact of_commit (sound_processResolveSaleAction sound hcovered) hstep
  | claim action => exact of_commit (sound_processClaimSaleAction sound) hstep
  | refund context action => exact of_commit (sound_processRefundSaleAction sound) hstep
  | cancel link action => exact of_commit (sound_processCancelSaleAction sound) hstep
  | withdraw context link action =>
      exact of_commit (sound_processWithdrawSaleAction sound hcovered) hstep

/-- Nothing was sold yet, and no balance of an authority is negative. -/
structure BeforeSales (store : ProofStore) : Prop where
  no_sale : store.sale = ∅
  no_contribution : store.scon = ∅
  no_claim : store.sclaimli = []
  no_refund : store.srefli = []
  nonneg : ∀ auth tick, 0 ≤ store.authorityBalance auth tick

theorem BeforeSales.sound {store : ProofStore} (before : BeforeSales store) :
    SalesSound env store := by
  have hrow : ∀ cid, store.scon.lookup cid = none := by
    intro cid
    rw [before.no_contribution]
    rfl
  have htotal : ∀ auth value, saleTotal auth value store.scon = 0 := by
    intro auth value
    rw [before.no_contribution]
    rfl
  have hstatus : ∀ auth, store.saleStatus auth = {} := by
    intro auth
    unfold ProofStore.saleStatus
    rw [before.no_sale]
    rfl
  have hsettled : ∀ cid, store.settlements cid = 0 := by
    intro cid
    unfold ProofStore.settlements
    rw [before.no_claim, before.no_refund]
    rfl
  constructor
  case row_ok =>
    intro cid contribution hfound
    rw [hrow] at hfound
    cases hfound
  case nonneg => exact before.nonneg
  case unsettled => exact fun _ => hsettled _
  case settled_le => exact fun cid => (hsettled cid).trans_le zero_le_one
  case sale =>
    intro auth
    constructor
    case tc_eq => rw [hstatus, htotal]
    case alc_eq => rw [hstatus, htotal]
    case clm_eq => rw [hstatus, htotal]
    case ref_eq => rw [hstatus, htotal]
    case tc_lt =>
      rw [hstatus]
      decide
    case alc_lt =>
      rw [hstatus]
      decide
    case payments_le => exact fun _ _ => (htotal _ _).trans_le (before.nonneg _ _)
    case allocations_le => exact fun _ _ => (htotal _ _).trans_le (before.nonneg _ _)

/-- Every contribution is settled at most once; until a sale is finalized its payment balance covers
all open contributions, from then on its sale balance all open allocations, and so each one of them. -/
structure SaleSolvent (env : ProofEnv) (auth : Text) (store : ProofStore) : Prop where
  settled_once : ∀ cid, store.settlements cid ≤ 1
  payments_le : ∀ {config}, store.ah.lookup auth = some config →
    (store.saleStatus auth).fin = false →
    saleTotal auth (valueIn .opened SaleContributionRecord.amt) store.scon ≤
      store.authorityBalance auth (config.paymentKey env)
  allocations_le : ∀ {config}, store.ah.lookup auth = some config →
    (store.saleStatus auth).fin = true →
    saleTotal auth (valueIn .opened SaleContributionRecord.sa) store.scon ≤
      store.authorityBalance auth (config.saleKey env)
  each_funded : ∀ {config cid contribution}, store.ah.lookup auth = some config →
    store.scon.lookup cid = some contribution → contribution.auth = auth →
    contribution.status = .opened →
    if (store.saleStatus auth).fin then
      contribution.sa ≤ store.authorityBalance auth (config.saleKey env)
    else contribution.amt ≤ store.authorityBalance auth (config.paymentKey env)

/-- In every run of the actions on sales that keeps the two sides apart, every sale is solvent. -/
theorem sales_solvent_of_covered {start store : ProofStore} (before : BeforeSales start)
    (hreaches : Run.Reaches (saleStep env) (fun store action => action.Covered env store) start store)
    (auth : Text) : SaleSolvent env auth store := by
  have sound : SalesSound env store := by
    apply hreaches.invariant (SalesSound env)
    · exact fun sound hcovered hstep => sound_saleStep sound hcovered hstep
    · exact before.sound
  have sale := sound.sale auth
  constructor
  case settled_once => exact sound.settled_le
  case payments_le => exact sale.payments_le
  case allocations_le => exact sale.allocations_le
  case each_funded =>
    intro config cid contribution hconfig hrow hauth hopen
    have hamt := le_saleTotal (valueIn .opened SaleContributionRecord.amt) hrow hauth
      fun hother => sound.amt_nonneg _ hother
    have hsa := le_saleTotal (valueIn .opened SaleContributionRecord.sa) hrow hauth
      fun hother => sound.sa_nonneg _ hother
    rw [valueIn, if_pos hopen] at hamt hsa
    cases hfin : (store.saleStatus auth).fin with
    | true => exact hsa.trans (sale.allocations_le hconfig hfin)
    | false => exact hamt.trans (sale.payments_le hconfig hfin)

end Runs

/-! ### Two sales -/

/-- Two tickers, an owner with twenty `cat` and a contributor with ten `dog`. -/
def saleStart : ProofStore where
  toTapStore := { TapStore.empty with
    d := ((∅ : KeyTable TickKey DeployRecord).insert dogKey
      { tick := "dog".toList, max := 1000, lim := 0, dec := 0, ins := [], dmt := false, elem := none,
        prj := none, dim := none, dt := none, prv := none }).insert catKey
      { tick := "cat".toList, max := 1000, lim := 0, dec := 0, ins := [], dmt := false, elem := none,
        prj := none, dim := none, dt := none, prv := none }
    b := ((∅ : KeyTable (Address × TickKey) ℤ).insert ("n1".toList, catKey) 20).insert
      ("n2".toList, dogKey) 10 }
  ll := ∅
  oll := ∅
  ah := ∅
  ab := ∅
  abli := ∅
  abo := ∅
  ahs := ∅
  ahrps := ∅
  ahrc := ∅
  sp := ∅
  rcli := []

theorem saleStart_before : BeforeSales saleStart where
  no_sale := rfl
  no_contribution := rfl
  no_claim := rfl
  no_refund := rfl
  nonneg _ _ := le_rfl

def saleOwner : Option TokenAuthCreateRecord :=
  some { addr := "n1".toList, auth := [], ins := "l".toList }

def saleContributor : Option TokenAuthCreateRecord :=
  some { addr := "n2".toList, auth := [], ins := "m".toList }

/-- A sale of a ticker for `dog`. -/
def openSale (sold hc sa : String) : SaleAction :=
  .config plainContext saleOwner { inscription := "p".toList, index := 0 }
    (.object
      [("op".toList, .string "auth-cfg".toList), ("k".toList, .string "sale".toList),
        ("st".toList, .string sold.toList), ("pt".toList, .string "dog".toList),
        ("ctl".toList, textObject [("ty", "ta"), ("auth", "l")]),
        ("tre".toList, textObject [("tt", "a"), ("to", "n1")]),
        ("s".toList, .object
          [("sh".toList, .string "1".toList), ("eh".toList, .string "200".toList),
            ("hc".toList, .string hc.toList), ("ov".toList, .string "reject".toList),
            ("cx".toList, .bool true),
            ("r".toList, textObject
              [("cm", "fix"), ("pa", "1"), ("sa", sa), ("rnd", "flr")])])])

def contributeDog (index : ℕ) (amount : String) : SaleAction :=
  .contribute plainContext saleContributor { inscription := "q".toList, index := index }
    (textObject [("auth", "p:0"), ("tick", "dog"), ("amt", amount), ("claim", "n2")])

def finalizeByOwner : SaleAction := .finalize plainContext saleOwner (textObject [("auth", "p:0")])

def withdrawTen (sold : String) : SaleAction :=
  .withdraw plainContext saleOwner (textObject
    [("auth", "p:0"), ("tick", sold), ("amt", "10"), ("tt", "a"), ("to", "n1")])

/-- What is open on both sides of the sale, and what it holds. -/
def saleView (store : ProofStore) : ℤ × ℤ × ℤ × ℤ :=
  (saleTotal "p:0".toList (valueIn .opened SaleContributionRecord.amt) store.scon,
    saleTotal "p:0".toList (valueIn .opened SaleContributionRecord.sa) store.scon,
    store.authorityBalance "p:0".toList dogKey, store.authorityBalance "p:0".toList catKey)

/-- A funded sale of `cat` is finalized, and the owner takes back what is not allocated. -/
theorem finalizedSale_solvent :
    ∃ store, Run.Reaches (saleStep plainEnv) (fun store action => action.Covered plainEnv store)
        saleStart store ∧
      saleView store = (10, 10, 0, 10) ∧ SaleSolvent plainEnv "p:0".toList store := by
  have hexec : (Run.exec (saleStep plainEnv)
      (fun store action => decide (action.Covered plainEnv store))
      [openSale "cat" "10" "1", contributeDog 0 "10",
        .fund plainContext saleOwner
          (textObject [("auth", "p:0"), ("tick", "cat"), ("amt", "20")]),
        finalizeByOwner, withdrawTen "cat"]
      saleStart).map saleView = some (10, 10, 0, 10) := by decide
  have hrun : ∃ store, Run.Reaches (saleStep plainEnv)
      (fun store action => action.Covered plainEnv store) saleStart store ∧
      saleView store = (10, 10, 0, 10) :=
    Run.exists_reaches_of_exec of_decide_eq_true hexec
  obtain ⟨store, hreaches, hview⟩ := hrun
  exact ⟨store, hreaches, hview, sales_solvent_of_covered saleStart_before hreaches _⟩

/-- A sale of `dog` for `dog` is cancelled, and the owner withdraws what the contributor paid. -/
theorem cancelledSale_not_solvent :
    ∃ store, Run.Reaches (saleStep plainEnv) (fun _ _ => True) saleStart store ∧
      saleView store = (10, 10, 0, 0) ∧ ¬ SaleSolvent plainEnv "p:0".toList store := by
  have hexec : (Run.exec (saleStep plainEnv) (fun _ _ => true)
      [openSale "dog" "10" "1", contributeDog 0 "10", .cancel saleOwner (textObject [("auth", "p:0")]),
        withdrawTen "dog"]
      saleStart).map (fun store => (saleView store, (store.ah.lookup "p:0".toList).map
          (AuthorityConfigRecord.paymentKey plainEnv), (store.saleStatus "p:0".toList).fin)) =
      some ((10, 10, 0, 0), some dogKey, false) := by decide
  have hrun : ∃ store, Run.Reaches (saleStep plainEnv) (fun _ _ => True) saleStart store ∧
      (saleView store, (store.ah.lookup "p:0".toList).map (AuthorityConfigRecord.paymentKey plainEnv),
        (store.saleStatus "p:0".toList).fin) = ((10, 10, 0, 0), some dogKey, false) :=
    Run.exists_reaches_of_exec (fun _ => trivial) hexec
  obtain ⟨store, hreaches, hview⟩ := hrun
  obtain ⟨hview, hrest⟩ := Prod.mk.inj hview
  obtain ⟨hkey, hfin⟩ := Prod.mk.inj hrest
  obtain ⟨config, hconfig, hpayment⟩ := Option.map_eq_some_iff.1 hkey
  refine ⟨store, hreaches, hview, fun solvent => ?_⟩
  have hopen : saleTotal "p:0".toList (valueIn .opened SaleContributionRecord.amt) store.scon = 10 :=
    congrArg (fun view => view.1) hview
  have hheld : store.authorityBalance "p:0".toList dogKey = 0 :=
    congrArg (fun view => view.2.2.1) hview
  have hle := solvent.payments_le hconfig hfin
  rw [hpayment, hopen, hheld] at hle
  exact absurd hle (by decide)

-- two allocations of almost `2 ^ 127` wrap the counter, and a sale without inventory is finalized
example : (Run.exec (saleStep plainEnv) (fun _ _ => true)
    [openSale "cat" "18446744073709551614" "18446744073709551615",
      contributeDog 0 "9223372036854775807", contributeDog 1 "9223372036854775807", finalizeByOwner]
    { saleStart with b := saleStart.b.insert ("n2".toList, dogKey) (2 ^ 64) }).map
      (fun store => ((saleView store).2.2.2, (store.saleStatus "p:0".toList).fin,
        (store.saleStatus "p:0".toList).alc)) = some (0, true, -55340232221128654846) := by
  decide

end OrdDogecoin.Tap
