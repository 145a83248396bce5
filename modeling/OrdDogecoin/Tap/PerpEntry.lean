/-
Module: OrdDogecoin.Tap.PerpEntry
Purpose: The entry bounds of perp positions.  A group keeps two running extremes of the bounds of its
  positions; an activation price passes them when it meets the bounds of every position.
Trusted boundary: as in OrdDogecoin.Tap.Authority; the other checks of a join only refuse it
Main exports: resolvePerpEntryBound, perpJoins, perpEntryBounds_exact
-/
import OrdDogecoin.Tap.Delegation
import OrdDogecoin.Tap.PerpFees

namespace OrdDogecoin.Tap

open Option (bind_eq_some_iff map_eq_some_iff bind_some map_some bind_eq_bind)

/-! ### Prices -/

def normalizePerpPriceRatio (value : Json) : Option Json := do
  let p ← parseAmmUintValue (← value.get "p") false
  let q ← parseAmmUintValue (← value.get "q") false
  some (.object [("p".toList, .string (intText p)), ("q".toList, .string (intText q))])

def normalizePerpPrice (price : Json) : Option Json := do
  let p ← parseAmmUintValue (← price.get "p") false
  let q ← parseAmmUintValue (← price.get "q") false
  let seq ← (match price.get "seq" with
    | some value => parseAmmUintValue value false
    | none => some 1)
  let ts ← (match price.get "ts" with
    | some ts => (parseAmmUintValue ts true).map fun ts => [("ts".toList, Json.string (intText ts))]
    | none => some [])
  some (.object
    ([("p".toList, .string (intText p)), ("q".toList, .string (intText q)),
      ("seq".toList, .string (intText seq))] ++ ts))

def comparePerpPriceRatio (left right : Json) : Option ℤ := do
  let leftP ← parseBigInt (← (← left.get "p").asStr)
  let leftQ ← parseBigInt (← (← left.get "q").asStr)
  let rightP ← parseBigInt (← (← right.get "p").asStr)
  let rightQ ← parseBigInt (← (← right.get "q").asStr)
  let lhs := leftP * rightQ
  let rhs := rightP * leftQ
  some (if lhs < rhs then -1 else if rhs < lhs then 1 else 0)

/-! ### Entry bounds of a position -/

/-- An optional ratio in its normal form. -/
def optionalRatio : Option Json → Option (Option Json)
  | some value => (normalizePerpPriceRatio value).map some
  | none => some none

/-- The two bounds of an entry do not cross. -/
def boundsInOrder : Option Json → Option Json → Option Unit
  | some min, some max => do guard ((← comparePerpPriceRatio min max) ≤ 0)
  | _, _ => some ()

def normalizePerpEntryBound (entry : Json) (side : Text) (policy : Json) : Option Json := do
  let min ← optionalRatio (entry.get "min")
  let max ← optionalRatio (entry.get "max")
  guard (!(min.isNone && max.isNone))
  boundsInOrder min max
  let oneSided := (policy.get "mode").bind Json.asStr = some "one-sided-v1".toList
  guard (!(oneSided && side = "long".toList && (max.isNone || min.isSome)))
  guard (!(oneSided && side = "short".toList && (min.isNone || max.isSome)))
  some (.object ((min.map fun min => ("min".toList, min)).toList ++
    (max.map fun max => ("max".toList, max)).toList))

def resolvePerpEntryBound (entry : Option Json) (side : Text) (policy : Json) : Option (Option Json) :=
  match entry.filter (!·.isNull) with
  | some value => (normalizePerpEntryBound value side policy).map some
  | none =>
      let required := ((policy.get "required").bind Json.asBool).getD false
      let allowUnbounded := ((policy.get "allow_unbounded").bind Json.asBool).getD false
      if required || !allowUnbounded then none else some none

/-! ### Entry bounds of a group -/

/-- One half of `update_perp_group_entry_bounds`: a bound of the entry replaces the one of the group
when it is tighter.  A comparison that fails ends the update. -/
def tightenBound (field bound : String) (tighter : ℤ → Bool) (entry bounds : Json) :
    Json × Option Unit :=
  match entry.get field with
  | none => (bounds, some ())
  | some value =>
      match bounds.get bound with
      | none => (bounds.insert bound value, some ())
      | some current =>
          match comparePerpPriceRatio value current with
          | none => (bounds, none)
          | some order => (if tighter order then bounds.insert bound value else bounds, some ())

/-- `update_perp_group_entry_bounds`: the group, changed as far as the update got. -/
def updatePerpGroupEntryBounds (group : Json) (entry : Option Json) : Json × Option Unit :=
  match entry with
  | none => (group, none)
  | some entry =>
      if !group.isObject then (group, none)
      else
        let bounds := (group.get "entry_bounds").filter Json.isObject |>.getD (.object [])
        let (bounds, done) := tightenBound "max" "long_max" (· < 0) entry bounds
        if done.isNone then (group.insert "entry_bounds" bounds, none)
        else
          let (bounds, done) := tightenBound "min" "short_min" (0 < ·) entry bounds
          (group.insert "entry_bounds" bounds, done)

def perpEntryBoundsAllowPrice (group price : Json) : Bool :=
  match (group.get "entry_bounds").filter Json.isObject with
  | none => true
  | some bounds =>
      (match bounds.get "long_max" with
      | some max => ((comparePerpPriceRatio price max).map fun order => decide (order ≤ 0)).getD false
      | none => true) &&
      match bounds.get "short_min" with
      | some min => ((comparePerpPriceRatio price min).map fun order => decide (0 ≤ order)).getD false
      | none => true

/-! ### Joins -/

def addPerpGroupAmount (group : Json) (key : String) (amount : ℤ) : Json :=
  let current := (((group.get key).bind Json.asStr).bind parseBigInt).getD 0
  group.insert key (.string (intText (current + amount)))

def applyPerpJoinReserves (group : Json) (side : String) (reserves : PerpPositionReserves)
    (notional : ℤ) : Json :=
  [("total_collateral", reserves.grossCollateral), (side ++ "_collateral", reserves.grossCollateral),
    ("total_margin_collateral", reserves.marginCollateral),
    (side ++ "_margin_collateral", reserves.marginCollateral),
    ("total_open_collateral", reserves.marginCollateral),
    (side ++ "_open_collateral", reserves.marginCollateral), ("total_fee_reserve", reserves.totalFee),
    ("marketplace_fee_reserve_total", reserves.marketplaceFee),
    ("liquidation_bounty_reserve_total", reserves.liquidationBounty),
    ("open_liquidation_bounty_reserve", reserves.liquidationBounty), ("total_notional", notional),
    (side ++ "_notional", notional)].foldl (fun group row => addPerpGroupAmount group row.1 row.2) group

inductive PerpSide where
  | long
  | short
deriving DecidableEq, Repr

def PerpSide.text : PerpSide → String
  | .long => "long"
  | .short => "short"

/-- What a join that passes the other checks comes with: the policy of its group, the action's entry and
the values its position is made of. -/
structure PerpJoin where
  policy : Json
  entry : Option Json
  id : Text
  group : Text
  owner : Text
  side : PerpSide
  tick : Text
  tickKey : Text
  collateral : ℤ
  reserves : PerpPositionReserves
  leverage : Text
  notional : ℤ
  claim : Json
  refund : Json

/-- The position of a join without its entry. -/
def PerpJoin.value (join : PerpJoin) : Json :=
  .object
    [("id".toList, .string join.id), ("group".toList, .string join.group),
      ("owner".toList, .string join.owner), ("side".toList, .string join.side.text.toList),
      ("tick".toList, .string join.tick), ("tick_key".toList, .string join.tickKey),
      ("gross_collateral".toList, .string (intText join.reserves.grossCollateral)),
      ("collateral".toList, .string (intText join.collateral)),
      ("margin_collateral".toList, .string (intText join.reserves.marginCollateral)),
      ("open_collateral".toList, .string (intText join.reserves.marginCollateral)),
      ("fee_reserve".toList, .string (intText join.reserves.totalFee)),
      ("marketplace_fee_reserve".toList, .string (intText join.reserves.marketplaceFee)),
      ("liquidation_bounty_reserve".toList, .string (intText join.reserves.liquidationBounty)),
      ("open_liquidation_bounty_reserve".toList, .string (intText join.reserves.liquidationBounty)),
      ("closed_equity".toList, .string ['0']), ("leverage".toList, .string join.leverage),
      ("notional".toList, .string (intText join.notional)), ("claim".toList, join.claim),
      ("refund".toList, join.refund), ("state".toList, .string "formation".toList),
      ("payout".toList, .string ['0']), ("claimed".toList, .bool false),
      ("refunded".toList, .bool false)]

/-- The entry of a join, as `validate_perp_join_action` resolves it. -/
def PerpJoin.resolved (join : PerpJoin) (group : Json) : Option (Option Json) := do
  let entryPolicy ← (group.get "entry_policy").or (join.policy.get "entry")
  resolvePerpEntryBound join.entry join.side.text.toList entryPolicy

def PerpJoin.position (join : PerpJoin) : Option Json → Json
  | some entry => join.value.insert "entry" entry
  | none => join.value

/-- The update for the entry of a position; its result is ignored. -/
def updateForEntry (group : Json) : Option Json → Json
  | some entry => (updatePerpGroupEntryBounds group (some entry)).1
  | none => group

/-- What `process_perp_join_action` does to the group, with the position it stores. -/
def processPerpJoin (group : Json) (join : PerpJoin) : Option (Json × Json) := do
  let position := join.position (← join.resolved group)
  let group := applyPerpJoinReserves group join.side.text join.reserves join.notional
  let group := addPerpGroupAmount group "positions" 1
  some (updateForEntry group (position.get "entry"), position)

/-- The joins of a group one after the other, with the positions they store. -/
def perpJoins : Json → List PerpJoin → Option (Json × List Json)
  | group, [] => some (group, [])
  | group, join :: joins => do
      let (group, position) ← processPerpJoin group join
      let (group, positions) ← perpJoins group joins
      some (group, position :: positions)

/-! ### Ratios as numbers -/

/-- The ratio has a positive denominator and stands for the number. -/
def IsRatio (ratio : Json) (x : ℚ) : Prop :=
  ∃ p q : ℤ, ((ratio.get "p").bind Json.asStr).bind parseBigInt = some p ∧
    ((ratio.get "q").bind Json.asStr).bind parseBigInt = some q ∧ 0 < q ∧ x = p / q

theorem IsRatio.unique {ratio : Json} {x y : ℚ} (hx : IsRatio ratio x) (hy : IsRatio ratio y) : x = y := by
  obtain ⟨p, q, hp, hq, -, rfl⟩ := hx
  obtain ⟨p', q', hp', hq', -, rfl⟩ := hy
  rw [hp] at hp'
  rw [hq] at hq'
  cases hp'
  cases hq'
  rfl

theorem pos_of_parseAmmUintValue {value : Json} {n : ℤ} (hn : parseAmmUintValue value false = some n) :
    0 < n := by
  simp only [parseAmmUintValue, parseAmmUintStr, bind_eq_bind, bind_eq_some_iff,
    Option.guard_eq_some'] at hn
  obtain ⟨_, _, _, _, parsed, _, _, hpos, hn⟩ := hn
  rw [← Option.some.inj hn]
  have hne : parsed ≠ 0 := by simpa using hpos
  omega

theorem parseBigInt_intText {n : ℤ} (hn : 0 ≤ n) : parseBigInt (intText n) = some n := by
  rw [intText_of_nonneg hn, parseBigInt_toDigits, Int.toNat_of_nonneg hn]

theorem isRatio_of_fields {p q : ℤ} (hp : 0 < p) (hq : 0 < q) (rest : List (Text × Json)) :
    IsRatio (.object (("p".toList, .string (intText p)) :: ("q".toList, .string (intText q)) :: rest))
      (p / q) :=
  ⟨p, q, parseBigInt_intText hp.le, parseBigInt_intText hq.le, hq, rfl⟩

theorem isRatio_normalizePerpPriceRatio {value ratio : Json}
    (hratio : normalizePerpPriceRatio value = some ratio) : ∃ x, IsRatio ratio x := by
  simp only [normalizePerpPriceRatio, bind_eq_bind, bind_eq_some_iff] at hratio
  obtain ⟨_, _, p, hp, _, _, q, hq, hratio⟩ := hratio
  cases hratio
  exact ⟨_, isRatio_of_fields (pos_of_parseAmmUintValue hp) (pos_of_parseAmmUintValue hq) []⟩

/-- A normal price is a number. -/
theorem isRatio_normalizePerpPrice {raw price : Json} (hprice : normalizePerpPrice raw = some price) :
    ∃ x, IsRatio price x := by
  simp only [normalizePerpPrice, bind_eq_bind, bind_eq_some_iff] at hprice
  obtain ⟨_, _, p, hp, _, _, q, hq, seq, _, ts, _, hprice⟩ := hprice
  cases hprice
  exact ⟨_, isRatio_of_fields (pos_of_parseAmmUintValue hp) (pos_of_parseAmmUintValue hq) _⟩

/-- Ratios are compared as the numbers they stand for. -/
theorem comparePerpPriceRatio_eq {left right : Json} {x y : ℚ} (hx : IsRatio left x)
    (hy : IsRatio right y) :
    comparePerpPriceRatio left right = some (if x < y then -1 else if y < x then 1 else 0) := by
  obtain ⟨p, q, hp, hq, hqpos, rfl⟩ := hx
  obtain ⟨p', q', hp', hq', hqpos', rfl⟩ := hy
  simp only [bind_eq_some_iff] at hp hq hp' hq'
  obtain ⟨_, ⟨_, hp, hptext⟩, hpnum⟩ := hp
  obtain ⟨_, ⟨_, hq, hqtext⟩, hqnum⟩ := hq
  obtain ⟨_, ⟨_, hp', hptext'⟩, hpnum'⟩ := hp'
  obtain ⟨_, ⟨_, hq', hqtext'⟩, hqnum'⟩ := hq'
  have hqpos : (0 : ℚ) < q := by exact_mod_cast hqpos
  have hqpos' : (0 : ℚ) < q' := by exact_mod_cast hqpos'
  have hlt : ((p : ℚ) / q < p' / q') ↔ p * q' < p' * q := by
    rw [div_lt_div_iff₀ hqpos hqpos']
    exact_mod_cast Iff.rfl
  have hgt : ((p' : ℚ) / q' < p / q) ↔ p' * q < p * q' := by
    rw [div_lt_div_iff₀ hqpos' hqpos]
    exact_mod_cast Iff.rfl
  simp only [comparePerpPriceRatio, hp, hptext, hpnum, hq, hqtext, hqnum, hp', hptext', hpnum', hq',
    hqtext', hqnum', bind_eq_bind, bind_some, hlt, hgt]

/-! ### Bounds as sets of prices -/

def BoundAllows (bounds : Json) (name : String) (meets : ℚ → ℚ → Prop) (allowed : Set ℚ) : Prop :=
  (bounds.get name = none ∧ allowed = Set.univ) ∨
    ∃ value y, bounds.get name = some value ∧ IsRatio value y ∧ allowed = {x | meets x y}

/-- Other members are no matter. -/
theorem BoundAllows.congr {bounds bounds' : Json} {name : String} {meets : ℚ → ℚ → Prop} {allowed : Set ℚ}
    (hallows : BoundAllows bounds name meets allowed) (hsame : bounds'.get name = bounds.get name) :
    BoundAllows bounds' name meets allowed := by
  unfold BoundAllows
  rw [hsame]
  exact hallows

section Tighten

variable {field bound : String} {tighter : ℤ → Bool} {meets : ℚ → ℚ → Prop} {entry bounds : Json}

/-- The comparison that replaces a bound picks the one that allows less. -/
structure Picks (tighter : ℤ → Bool) (meets : ℚ → ℚ → Prop) : Prop where
  replaces : ∀ value current : ℚ,
    tighter (if value < current then -1 else if current < value then 1 else 0) = true →
      ∀ x, meets x value → meets x current
  keeps : ∀ value current : ℚ,
    tighter (if value < current then -1 else if current < value then 1 else 0) = false →
      ∀ x, meets x current → meets x value

theorem picks_max : Picks (· < 0) (· ≤ ·) := by
  constructor
  · intro value current hless x hx
    have hlt : value < current := by
      by_contra hle
      rw [if_neg hle] at hless
      split at hless <;> cases hless
    exact hx.trans hlt.le
  · intro value current hmore x hx
    have hle : current ≤ value := by
      by_contra hlt
      rw [if_pos (not_le.1 hlt)] at hmore
      cases hmore
    exact hx.trans hle

theorem picks_min : Picks (0 < ·) (fun x y => y ≤ x) := by
  constructor
  · intro value current hmore x hx
    have hlt : current < value := by
      by_contra hle
      rw [if_neg hle] at hmore
      split at hmore <;> cases hmore
    exact hlt.le.trans hx
  · intro value current hless x hx
    have hle : value ≤ current := by
      by_contra hlt
      rw [if_neg (not_lt.2 (not_le.1 hlt).le), if_pos (not_le.1 hlt)] at hless
      cases hless
    exact hle.trans hx

/-- A tightened bound allows what both bounds allow, and other members are left alone. -/
theorem tightenBound_allows (picks : Picks tighter meets) {allowed wanted : Set ℚ}
    (hobject : bounds.isObject = true) (hbounds : BoundAllows bounds bound meets allowed)
    (hentry : BoundAllows entry field meets wanted) :
    ∃ after, tightenBound field bound tighter entry bounds = (after, some ()) ∧
      after.isObject = true ∧ BoundAllows after bound meets (allowed ∩ wanted) ∧
      ∀ other ≠ bound, after.get other = bounds.get other := by
  rcases hentry with ⟨hnone, rfl⟩ | ⟨value, y, hvalue, hy, rfl⟩
  · refine ⟨bounds, by rw [tightenBound, hnone], hobject, ?_, fun other _ => rfl⟩
    rwa [Set.inter_univ]
  · have hinserted : ∀ wanted, wanted = {x | meets x y} →
        BoundAllows (bounds.insert bound value) bound meets wanted := fun wanted hwanted =>
      .inr ⟨value, y, Json.get_insert_self hobject bound value, hy, hwanted⟩
    have hothers : ∀ other ≠ bound, (bounds.insert bound value).get other = bounds.get other :=
      fun other hne => Json.get_insert_of_ne hne bounds value
    have hafter : (bounds.insert bound value).isObject = true := by rw [Json.isObject_insert, hobject]
    rcases hbounds with ⟨hnone, rfl⟩ | ⟨current, z, hcurrent, hz, rfl⟩
    · refine ⟨bounds.insert bound value, ?_, hafter, hinserted _ (Set.univ_inter _), hothers⟩
      rw [tightenBound, hvalue]
      dsimp only
      rw [hnone]
    · have hcompare := comparePerpPriceRatio_eq hy hz
      have htighten : tightenBound field bound tighter entry bounds =
          (if tighter (if y < z then -1 else if z < y then 1 else 0) then bounds.insert bound value
            else bounds, some ()) := by
        rw [tightenBound, hvalue]
        dsimp only
        rw [hcurrent]
        dsimp only
        rw [hcompare]
      cases htighter : tighter (if y < z then -1 else if z < y then 1 else 0) with
      | true =>
          refine ⟨bounds.insert bound value, by rw [htighten, htighter, if_pos rfl], hafter,
            hinserted _ ?_, hothers⟩
          exact Set.inter_eq_right.2 fun x hx => picks.replaces y z htighter x hx
      | false =>
          refine ⟨bounds, by rw [htighten, htighter, if_neg Bool.false_ne_true], hobject,
            .inr ⟨current, z, hcurrent, hz, ?_⟩, fun other _ => rfl⟩
          exact Set.inter_eq_left.2 fun x hx => picks.keeps y z htighter x hx

end Tighten

/-- The prices that an upper and a lower bound allow together. -/
def BoundsAllow (bounds : Json) (upper lower : String) (allowed : Set ℚ) : Prop :=
  ∃ below above, BoundAllows bounds upper (· ≤ ·) below ∧
    BoundAllows bounds lower (fun x y => y ≤ x) above ∧ allowed = below ∩ above

/-- The prices that the bounds of a group allow. -/
def GroupAllows (group : Json) (allowed : Set ℚ) : Prop :=
  ∃ bounds, group.get "entry_bounds" = some bounds ∧ bounds.isObject = true ∧
    BoundsAllow bounds "long_max" "short_min" allowed

/-- A group without joins allows every price. -/
theorem groupAllows_opened {group : Json} (hopened : group.get "entry_bounds" = some (.object [])) :
    GroupAllows group Set.univ :=
  ⟨.object [], hopened, rfl, Set.univ, Set.univ, .inl ⟨rfl, rfl⟩, .inl ⟨rfl, rfl⟩,
    (Set.inter_univ _).symm⟩

theorem isObject_of_get {json value : Json} {key : String} (hget : json.get key = some value) :
    json.isObject = true := by
  cases json with
  | object fields => rfl
  | _ => cases hget

/-- The update of a group adds the bounds of the entry. -/
theorem GroupAllows.update {group entry : Json} {allowed wanted : Set ℚ} (hgroup : GroupAllows group allowed)
    (hentry : BoundsAllow entry "max" "min" wanted) :
    GroupAllows (updatePerpGroupEntryBounds group (some entry)).1 (allowed ∩ wanted) ∧
      ∀ other ≠ "entry_bounds",
        (updatePerpGroupEntryBounds group (some entry)).1.get other = group.get other := by
  obtain ⟨bounds, hget, hobject, below, above, hbelow, habove, rfl⟩ := hgroup
  obtain ⟨maxAllows, minAllows, hmax, hmin, rfl⟩ := hentry
  obtain ⟨capped, hcap, hcapped, hupper, hsame⟩ := tightenBound_allows picks_max hobject hbelow hmax
  obtain ⟨after, htighten, hafter, hlower, hothers⟩ := tightenBound_allows picks_min hcapped
    (habove.congr (hsame "short_min" (by decide))) hmin
  have hisObject := isObject_of_get hget
  have hupdate : updatePerpGroupEntryBounds group (some entry) =
      (group.insert "entry_bounds" after, some ()) := by
    simp only [updatePerpGroupEntryBounds, hisObject, hget, Option.filter_some, hobject, hcap, htighten,
      Bool.not_true, Bool.false_eq_true, if_false, if_true, Option.getD_some, Option.isNone_some]
  rw [hupdate]
  refine ⟨⟨after, Json.get_insert_self hisObject _ _, hafter, below ∩ maxAllows, above ∩ minAllows,
    hupper.congr (hothers "long_max" (by decide)), hlower, Set.inter_inter_inter_comm _ _ _ _⟩, ?_⟩
  exact fun other hne => Json.get_insert_of_ne hne group after

/-! ### Normal entries -/

theorem boundAllows_of_ratio {bounds : Json} {name : String} (meets : ℚ → ℚ → Prop)
    {ratio : Option Json} (hget : bounds.get name = ratio)
    (hratio : ∀ value, ratio = some value → ∃ y, IsRatio value y) :
    ∃ allowed, BoundAllows bounds name meets allowed := by
  cases ratio with
  | none => exact ⟨Set.univ, .inl ⟨hget, rfl⟩⟩
  | some value =>
      obtain ⟨y, hy⟩ := hratio value rfl
      exact ⟨_, .inr ⟨value, y, hget, hy, rfl⟩⟩

theorem isRatio_optionalRatio {value ratio : Option Json} (hratio : optionalRatio value = some ratio) :
    ∀ found, ratio = some found → ∃ y, IsRatio found y := by
  rintro found rfl
  cases value with
  | none => cases hratio
  | some value =>
      obtain ⟨normal, hnormal, heq⟩ := map_eq_some_iff.1 hratio
      cases heq
      exact isRatio_normalizePerpPriceRatio hnormal

/-- The bounds of a normal entry are ratios. -/
theorem boundsAllow_normalizePerpEntryBound {entry bound policy : Json} {side : Text}
    (hbound : normalizePerpEntryBound entry side policy = some bound) :
    ∃ allowed, BoundsAllow bound "max" "min" allowed := by
  simp only [normalizePerpEntryBound, bind_eq_bind, bind_eq_some_iff] at hbound
  obtain ⟨min, hmin, max, hmax, _, _, _, _, _, _, _, _, hbound⟩ := hbound
  cases hbound
  have hget : ∀ (min max : Option Json), (Json.object ((min.map fun min => ("min".toList, min)).toList ++
      (max.map fun max => ("max".toList, max)).toList)).get "max" = max ∧
      (Json.object ((min.map fun min => ("min".toList, min)).toList ++
        (max.map fun max => ("max".toList, max)).toList)).get "min" = min := by
    intro min max
    cases min <;> cases max <;> exact ⟨rfl, rfl⟩
  obtain ⟨below, hbelow⟩ :=
    boundAllows_of_ratio (· ≤ ·) (hget min max).1 (isRatio_optionalRatio hmax)
  obtain ⟨above, habove⟩ :=
    boundAllows_of_ratio (fun x y => y ≤ x) (hget min max).2 (isRatio_optionalRatio hmin)
  exact ⟨_, below, above, hbelow, habove, rfl⟩

/-! ### What a position allows -/

/-- One ratio is at most the other. -/
def RatioLe (left right : Json) : Prop := ∃ x y, IsRatio left x ∧ IsRatio right y ∧ x ≤ y

/-- The price meets the entry bound that is stored with a position. -/
def SatisfiesEntry (position price : Json) : Prop :=
  ∀ entry, position.get "entry" = some entry →
    (∀ max, entry.get "max" = some max → RatioLe price max) ∧
      ∀ min, entry.get "min" = some min → RatioLe min price

def PositionAllows (position : Json) (allowed : Set ℚ) : Prop :=
  (position.get "entry" = none ∧ allowed = Set.univ) ∨
    ∃ entry, position.get "entry" = some entry ∧ BoundsAllow entry "max" "min" allowed

section Price

variable {price : Json} {x : ℚ} {allowed : Set ℚ}

theorem BoundAllows.upper_iff {bounds : Json} {name : String} (hx : IsRatio price x)
    (hallows : BoundAllows bounds name (· ≤ ·) allowed) :
    (∀ max, bounds.get name = some max → RatioLe price max) ↔ x ∈ allowed := by
  rcases hallows with ⟨hnone, rfl⟩ | ⟨value, y, hvalue, hy, rfl⟩
  · simp [hnone]
  · rw [hvalue]
    constructor
    · intro hmax
      obtain ⟨x', y', hx', hy', hle⟩ := hmax value rfl
      rwa [hx.unique hx', Set.mem_ofPred_eq, hy.unique hy']
    · intro hle max hmax
      cases hmax
      exact ⟨x, y, hx, hy, hle⟩

theorem BoundAllows.lower_iff {bounds : Json} {name : String} (hx : IsRatio price x)
    (hallows : BoundAllows bounds name (fun x y => y ≤ x) allowed) :
    (∀ min, bounds.get name = some min → RatioLe min price) ↔ x ∈ allowed := by
  rcases hallows with ⟨hnone, rfl⟩ | ⟨value, y, hvalue, hy, rfl⟩
  · simp [hnone]
  · rw [hvalue]
    constructor
    · intro hmin
      obtain ⟨y', x', hy', hx', hle⟩ := hmin value rfl
      rwa [hx.unique hx', Set.mem_ofPred_eq, hy.unique hy']
    · intro hle min hmin
      cases hmin
      exact ⟨y, x, hy, hx, hle⟩

theorem PositionAllows.satisfies_iff {position : Json} (hposition : PositionAllows position allowed)
    (hx : IsRatio price x) :
    SatisfiesEntry position price ↔ x ∈ allowed := by
  rcases hposition with ⟨hnone, rfl⟩ | ⟨entry, hentry, below, above, hbelow, habove, rfl⟩
  · simp [SatisfiesEntry, hnone]
  · rw [Set.mem_inter_iff, ← hbelow.upper_iff hx, ← habove.lower_iff hx]
    constructor
    · exact fun hsatisfies => hsatisfies entry hentry
    · intro hbounds other hother
      rw [hentry] at hother
      cases hother
      exact hbounds

/-- The check of an activation price. -/
theorem GroupAllows.allowPrice_iff {group : Json} (hgroup : GroupAllows group allowed)
    (hx : IsRatio price x) : perpEntryBoundsAllowPrice group price = true ↔ x ∈ allowed := by
  obtain ⟨bounds, hget, hobject, below, above, hbelow, habove, rfl⟩ := hgroup
  rw [perpEntryBoundsAllowPrice, hget, Option.filter_some, if_pos hobject]
  dsimp only
  rw [Bool.and_eq_true, Set.mem_inter_iff]
  refine and_congr ?_ ?_
  · rcases hbelow with ⟨hnone, rfl⟩ | ⟨value, y, hvalue, hy, rfl⟩
    · simp [hnone]
    · rw [hvalue]
      dsimp only
      rw [comparePerpPriceRatio_eq hx hy, map_some, Option.getD_some, decide_eq_true_eq,
        Set.mem_ofPred_eq]
      split
      next hlt => simp [hlt.le]
      next hge =>
        split
        next hgt => simp [hgt]
        next hle => simp [not_lt.1 hle]
  · rcases habove with ⟨hnone, rfl⟩ | ⟨value, y, hvalue, hy, rfl⟩
    · simp [hnone]
    · rw [hvalue]
      dsimp only
      rw [comparePerpPriceRatio_eq hx hy, map_some, Option.getD_some, decide_eq_true_eq,
        Set.mem_ofPred_eq]
      split
      next hlt => simp [hlt]
      next hge =>
        split
        next hgt => simp [hgt.le]
        next hle => simp [not_lt.1 hge]

end Price

/-! ### One join -/

theorem get_addPerpGroupAmount {key other : String} (hne : other ≠ key) (group : Json) (amount : ℤ) :
    (addPerpGroupAmount group key amount).get other = group.get other :=
  Json.get_insert_of_ne hne group _

theorem get_applyPerpJoinReserves {other : String} (hother : other = "entry_bounds" ∨ other = "entry_policy")
    (group : Json) (side : PerpSide) (reserves : PerpPositionReserves) (notional : ℤ) :
    (applyPerpJoinReserves group side.text reserves notional).get other = group.get other := by
  have hfold : ∀ (rows : List (String × ℤ)) (group : Json), (∀ row ∈ rows, other ≠ row.1) →
      (rows.foldl (fun group row => addPerpGroupAmount group row.1 row.2) group).get other =
        group.get other := by
    intro rows
    induction rows with
    | nil => exact fun group _ => rfl
    | cons row rows ih =>
        intro group hrows
        obtain ⟨hrow, hrows⟩ := List.forall_mem_cons.1 hrows
        rw [List.foldl_cons, ih _ hrows, get_addPerpGroupAmount hrow]
  apply hfold
  rcases hother with rfl | rfl <;> cases side <;> simp [PerpSide.text]

theorem get_position (join : PerpJoin) (entry : Option Json) :
    (join.position entry).get "entry" = entry := by
  cases entry with
  | none => rfl
  | some entry => exact @Json.get_insert_self join.value rfl "entry" entry

/-- The position of an accepted join has normal bounds. -/
theorem positionAllows_resolved {group : Json} {join : PerpJoin} {entry : Option Json}
    (hentry : join.resolved group = some entry) :
    ∃ allowed, PositionAllows (join.position entry) allowed := by
  cases entry with
  | none => exact ⟨Set.univ, .inl ⟨get_position join none, rfl⟩⟩
  | some entry =>
      obtain ⟨policy, hresolve⟩ := Proc.of_bind hentry
      rw [resolvePerpEntryBound] at hresolve
      split at hresolve
      next value _ =>
        obtain ⟨bound, hbound, heq⟩ := map_eq_some_iff.1 hresolve
        cases heq
        obtain ⟨allowed, hallowed⟩ := boundsAllow_normalizePerpEntryBound hbound
        exact ⟨allowed, .inr ⟨entry, get_position join (some entry), hallowed⟩⟩
      next =>
        dsimp only at hresolve
        split at hresolve <;> cases hresolve

/-- A join adds the bounds of its position to those of the group. -/
theorem GroupAllows.join {group : Json} {allowed : Set ℚ} (hgroup : GroupAllows group allowed)
    {join : PerpJoin} {entry : Option Json} (hentry : join.resolved group = some entry) :
    ∃ after wanted, processPerpJoin group join = some (after, join.position entry) ∧
      PositionAllows (join.position entry) wanted ∧ GroupAllows after (allowed ∩ wanted) ∧
      after.get "entry_policy" = group.get "entry_policy" := by
  let paid := addPerpGroupAmount
    (applyPerpJoinReserves group join.side.text join.reserves join.notional) "positions" 1
  have hpaid : ∀ other, other = "entry_bounds" ∨ other = "entry_policy" →
      paid.get other = group.get other := by
    intro other hother
    have hne : other ≠ "positions" := by rcases hother with rfl | rfl <;> decide
    exact (get_addPerpGroupAmount hne _ 1).trans (get_applyPerpJoinReserves hother group _ _ _)
  have hgroup : GroupAllows paid allowed := by
    obtain ⟨bounds, hget, hbounds⟩ := hgroup
    exact ⟨bounds, (hpaid _ (.inl rfl)).trans hget, hbounds⟩
  have hprocess : processPerpJoin group join =
      some (updateForEntry paid entry, join.position entry) := by
    rw [processPerpJoin, hentry, bind_eq_bind, bind_some]
    dsimp only
    rw [get_position]
  obtain ⟨wanted, hwanted⟩ := positionAllows_resolved hentry
  refine ⟨_, wanted, hprocess, hwanted, ?_⟩
  cases entry with
  | none =>
      rcases hwanted with ⟨-, rfl⟩ | ⟨_, hsome, -⟩
      · rw [Set.inter_univ]
        exact ⟨hgroup, hpaid _ (.inr rfl)⟩
      · rw [get_position] at hsome
        cases hsome
  | some entry =>
      rcases hwanted with ⟨hnone, -⟩ | ⟨_, hsome, hbounds⟩
      · rw [get_position] at hnone
        cases hnone
      · rw [get_position] at hsome
        cases hsome
        obtain ⟨hupdated, hothers⟩ := hgroup.update hbounds
        exact ⟨hupdated, (hothers _ (by decide)).trans (hpaid _ (.inr rfl))⟩

theorem resolved_congr {group after : Json} (hsame : after.get "entry_policy" = group.get "entry_policy")
    (join : PerpJoin) : join.resolved after = join.resolved group := by
  rw [PerpJoin.resolved, hsame]
  rfl

/-! ### All joins -/

def storedPositions (group : Json) (joins : List PerpJoin) : List (Option Json) :=
  joins.map fun join => (join.resolved group).map join.position

/-- Joins are accepted when each of them is on its own, and the bounds of the group end up allowing the
prices that every position allows. -/
theorem GroupAllows.joins {joins : List PerpJoin} : ∀ {group : Json} {allowed : Set ℚ},
    GroupAllows group allowed → (∀ join ∈ joins, (join.resolved group).isSome) →
      ∃ final positions after, perpJoins group joins = some (final, positions) ∧
        positions.map some = storedPositions group joins ∧ GroupAllows final after ∧
        ∀ price x, IsRatio price x →
          (x ∈ after ↔ x ∈ allowed ∧ ∀ position ∈ positions, SatisfiesEntry position price) := by
  induction joins with
  | nil =>
      intro group allowed hgroup _
      exact ⟨group, [], allowed, rfl, rfl, hgroup, fun price x _ => by simp⟩
  | cons join joins ih =>
      intro group allowed hgroup hresolved
      obtain ⟨hfirst, hrest⟩ := List.forall_mem_cons.1 hresolved
      obtain ⟨entry, hentry⟩ := Option.isSome_iff_exists.1 hfirst
      obtain ⟨next, wanted, hprocess, hwanted, hnext, hpolicy⟩ := hgroup.join hentry
      have hsame := resolved_congr hpolicy
      obtain ⟨final, positions, after, hjoins, hstored, hfinal, hiff⟩ :=
        ih hnext fun other hother => by rw [hsame]; exact hrest other hother
      refine ⟨final, join.position entry :: positions, after, ?_, ?_, hfinal, fun price x hx => ?_⟩
      · rw [perpJoins, hprocess, bind_eq_bind, bind_some]
        dsimp only
        rw [hjoins]
        rfl
      · rw [List.map_cons, hstored, storedPositions, storedPositions, List.map_cons, hentry]
        simp only [hsame, map_some]
      · rw [hiff price x hx, Set.mem_inter_iff, List.forall_mem_cons, hwanted.satisfies_iff hx, and_assoc]

theorem resolved_of_perpJoins {joins : List PerpJoin} : ∀ {group final : Json} {allowed : Set ℚ}
    {positions : List Json}, GroupAllows group allowed → perpJoins group joins = some (final, positions) →
      ∀ join ∈ joins, (join.resolved group).isSome := by
  induction joins with
  | nil => exact fun _ _ _ hmem => absurd hmem List.not_mem_nil
  | cons join joins ih =>
      intro group final allowed positions hgroup hjoins
      rw [perpJoins] at hjoins
      obtain ⟨⟨next, position⟩, hprocess, hjoins⟩ := bind_eq_some_iff.1 hjoins
      obtain ⟨⟨last, others⟩, hothers, -⟩ := bind_eq_some_iff.1 hjoins
      obtain ⟨entry, hentry, -⟩ := bind_eq_some_iff.1 hprocess
      obtain ⟨after, wanted, hstep, -, hafter, hpolicy⟩ := hgroup.join hentry
      rw [hstep] at hprocess
      cases hprocess
      refine List.forall_mem_cons.2 ⟨Option.isSome_iff_exists.2 ⟨entry, hentry⟩, fun other hother => ?_⟩
      have hother := ih hafter hothers other hother
      rwa [resolved_congr hpolicy] at hother

/-- A group accepts a normal activation price exactly when the price meets the stored bound of every
position, and the order of the joins is no matter. -/
theorem perpEntryBounds_exact {group final : Json} {joins : List PerpJoin} {positions : List Json}
    (hopened : group.get "entry_bounds" = some (.object []))
    (hjoins : perpJoins group joins = some (final, positions)) :
    (∀ raw price, normalizePerpPrice raw = some price →
      (perpEntryBoundsAllowPrice final price = true ↔
        ∀ position ∈ positions, SatisfiesEntry position price)) ∧
    ∀ others, joins.Perm others → ∃ final' positions', perpJoins group others = some (final', positions') ∧
      positions.Perm positions' ∧ ∀ raw price, normalizePerpPrice raw = some price →
        perpEntryBoundsAllowPrice final' price = perpEntryBoundsAllowPrice final price := by
  have hgroup := groupAllows_opened hopened
  have hresolved := resolved_of_perpJoins hgroup hjoins
  have hallows : ∀ others, (∀ join ∈ others, (join.resolved group).isSome) →
      ∃ final positions, perpJoins group others = some (final, positions) ∧
        positions.map some = storedPositions group others ∧
        ∀ raw price, normalizePerpPrice raw = some price →
          (perpEntryBoundsAllowPrice final price = true ↔
            ∀ position ∈ positions, SatisfiesEntry position price) := by
    intro others hothers
    obtain ⟨final, positions, after, hrun, hstored, hfinal, hiff⟩ := hgroup.joins hothers
    refine ⟨final, positions, hrun, hstored, fun raw price hprice => ?_⟩
    obtain ⟨x, hx⟩ := isRatio_normalizePerpPrice hprice
    rw [hfinal.allowPrice_iff hx, hiff price x hx]
    exact and_iff_right (Set.mem_univ x)
  obtain ⟨_, _, hrun, hstored, hiff⟩ := hallows joins hresolved
  rw [hjoins] at hrun
  cases hrun
  refine ⟨hiff, fun others hperm => ?_⟩
  obtain ⟨final', positions', hrun', hstored', hiff'⟩ :=
    hallows others fun join hjoin => hresolved join (hperm.mem_iff.2 hjoin)
  have hsame : positions.Perm positions' := by
    have hmap : (positions.map some).Perm (positions'.map some) := by
      rw [hstored, hstored']
      exact hperm.map _
    exact (List.map_perm_map_iff (Option.some_injective _)).1 hmap
  refine ⟨final', positions', hrun', hsame, fun raw price hprice => Bool.eq_iff_iff.2 ?_⟩
  rw [hiff' raw price hprice, hiff raw price hprice]
  exact forall_congr' fun position => by rw [hsame.mem_iff]

/-! ### A group with two joins -/

/-- A ratio as an action writes it. -/
def sampleRatio (p : String) : Json :=
  .object [("p".toList, .string p.toList), ("q".toList, .string ['1'])]

def sampleGroup : Json :=
  .object
    [("entry_policy".toList, .object
      [("mode".toList, .string "two-sided-v1".toList), ("required".toList, .bool false),
        ("allow_unbounded".toList, .bool true)]),
      ("entry_bounds".toList, .object [])]

def sampleJoin (side : PerpSide) (entry : Option Json) : PerpJoin where
  policy := .null
  entry := entry
  id := "a:0".toList
  group := "g:0".toList
  owner := "o".toList
  side := side
  tick := "tap".toList
  tickKey := "\"tap\"".toList
  collateral := 100
  reserves :=
    { grossCollateral := 100, marginCollateral := 98, totalFee := 2, marketplaceFee := 1
      liquidationBounty := 1 }
  leverage := ['1']
  notional := 98
  claim := .null
  refund := .null

/-- A position with both bounds, one with an upper bound and one without any. -/
def sampleJoins : List PerpJoin :=
  [sampleJoin .long (some (.object [("min".toList, sampleRatio "40"), ("max".toList, sampleRatio "99")])),
    sampleJoin .short (some (.object [("max".toList, sampleRatio "70")])), sampleJoin .long none]

/-- The price 50 passes and meets every bound, in this order of the joins and in the other. -/
theorem sampleJoins_allow : ∃ final positions price, perpJoins sampleGroup sampleJoins = some
    (final, positions) ∧
    normalizePerpPrice (sampleRatio "50") = some price ∧ perpEntryBoundsAllowPrice final price = true ∧
    (∀ position ∈ positions, SatisfiesEntry position price) ∧
    ∃ final' positions', perpJoins sampleGroup sampleJoins.reverse = some (final', positions') ∧
      perpEntryBoundsAllowPrice final' price = true := by
  have hallowed : ((perpJoins sampleGroup sampleJoins).bind fun run =>
      (normalizePerpPrice (sampleRatio "50")).map fun price => perpEntryBoundsAllowPrice run.1 price) =
        some true := by decide +kernel
  obtain ⟨⟨final, positions⟩, hjoins, hallowed⟩ := bind_eq_some_iff.1 hallowed
  obtain ⟨price, hprice, hallowed⟩ := map_eq_some_iff.1 hallowed
  have hopened : sampleGroup.get "entry_bounds" = some (.object []) := rfl
  obtain ⟨final', positions', hjoins', -, hsame⟩ :=
    (perpEntryBounds_exact hopened hjoins).2 sampleJoins.reverse (List.reverse_perm sampleJoins).symm
  exact ⟨final, positions, price, hjoins, hprice, hallowed,
    ((perpEntryBounds_exact hopened hjoins).1 _ price hprice).1 hallowed, final', positions', hjoins',
    (hsame _ price hprice).trans hallowed⟩

end OrdDogecoin.Tap
