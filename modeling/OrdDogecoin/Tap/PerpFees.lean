/-
Module: OrdDogecoin.Tap.PerpFees
Purpose: The fees of perp groups: the receivers a policy names, the split of a fee among them by largest
  remainders, and the reserves of a position.  No unit is lost in either split.
Trusted boundary: as in OrdDogecoin.Tap.Authority
Main exports: validatePerpFeeReceivers, resolvePerpPositionReserves, perpFees_exact
-/
import OrdDogecoin.Tap.Amm
import OrdDogecoin.Lib.Apportion
import OrdDogecoin.Lib.ByteText
import OrdDogecoin.Lib.Utf8
import Mathlib.Data.List.Sort
import Mathlib.Data.Rat.Floor

namespace OrdDogecoin.Tap

open Option (bind_eq_some_iff bind_some bind_eq_bind)

/-! ### Receivers -/

section Receivers

variable (env : TapEnv) (context : TapContext) (store : ProofStore)

def tokenProofSafeId (text : Text) (maxBytes : ℕ) : Bool :=
  !text.isEmpty && utf8Length text ≤ maxBytes &&
    text.all fun c => c.isAlphanum || c ∈ ['.', '_', ':', '-']

def perpTarget (tt to_ : Text) : Json :=
  .object [("tt".toList, .string tt), ("to".toList, .string to_)]

def normalizePerpTarget (value : Json) : Option Json :=
  match value.asStr with
  | some raw =>
      let address := normalizeAddress env raw
      if isValidBitcoinAddress env context address then some (perpTarget ['a'] address) else none
  | none => do
      let tt := env.toLowercase (← (← value.get "tt").asStr)
      if tt = ['a'] then do
        let address := normalizeAddress env (← (← value.get "to").asStr)
        if isValidBitcoinAddress env context address then some (perpTarget ['a'] address) else none
      else if tt = ['h'] then do
        let dest ← (← value.get "to").asStr
        if tokenProofSafeId dest 160 then some (perpTarget ['h'] dest) else none
      else none

def normalizePerpFeeRole (role : Text) : Option Text :=
  let normalized := env.toLowercase role
  if normalized.isEmpty || 16 < utf8Length normalized ||
      !normalized.all fun c => ('a' ≤ c && c ≤ 'z') || c.isDigit || c = '_' || c = '-' then none
  else some normalized

def perpKeyPart (value : Text) : Text := ByteText.encodeHex (Utf8.encode value)

def perpFeeReceiverKey (receiver : Json) : Option Text := do
  let tt ← (← receiver.get "tt").asStr
  let dest ← (← receiver.get "to").asStr
  let role ← (← receiver.get "rl").asStr
  some (perpKeyPart tt ++ ':' :: (perpKeyPart dest ++ ':' :: perpKeyPart role))

def validatePerpFeeReceiver (entry : Json) : Option Json := do
  guard entry.isObject
  let target ← normalizePerpTarget env context entry
  let share ← parseAmmUintValue (← entry.get "share") false
  guard (share ≤ 10000)
  let tt ← (← target.get "tt").asStr
  let roleRaw := ((entry.get "rl").bind Json.asStr).getD (if tt = ['a'] then "pf".toList else [])
  let role ← normalizePerpFeeRole env roleRaw
  guard (!(tt = ['a'] ∧ role ≠ "pf".toList ∧ role ≠ "of".toList))
  if tt = ['h'] then do
    guard (role = "sr".toList)
    let auth ← store.ah.lookup (← (← target.get "to").asStr)
    guard (auth.k = "stk".toList)
  let dest ← (← target.get "to").asStr
  some (.object
    [("tt".toList, .string tt), ("to".toList, .string dest), ("share".toList, .string (intText share)),
      ("rl".toList, .string role)])

/-- The variables of the loop of `validate_perp_fee_receivers`. -/
structure FeeReceivers where
  seenRoles : List Text := []
  seenReceivers : List Text := []
  total : ℤ := 0
  out : List Json := []

/-- One pass of the loop of `validate_perp_fee_receivers`. -/
def addPerpFeeReceiver (seen : FeeReceivers) (entry : Json) : Option FeeReceivers := do
  let receiver ← validatePerpFeeReceiver env context store entry
  let role ← (← receiver.get "rl").asStr
  guard (role ∉ seen.seenRoles)
  let receiverKey ← perpFeeReceiverKey receiver
  guard (receiverKey ∉ seen.seenReceivers)
  let share ← parseBigInt (← (← receiver.get "share").asStr)
  guard (seen.total + share ≤ 10000)
  some
    { seenRoles := role :: seen.seenRoles
      seenReceivers := receiverKey :: seen.seenReceivers
      total := seen.total + share
      out := seen.out ++ [receiver] }

def validatePerpFeeReceivers (receivers : Json) : Option (List Json) := do
  let list ← receivers.asArray
  guard (!(list.isEmpty || 16 < list.length))
  let seen ← list.foldlM (addPerpFeeReceiver env context store) {}
  if seen.total = 10000 then some seen.out else none

end Receivers

/-! ### The split -/

/-- A row of `split_perp_fee_receivers`. -/
structure PerpFeeRow where
  receiver : Json
  fee : ℤ
  remainder : ℤ
  index : ℕ

/-- The share of a receiver, zero when it is no number. -/
def perpShare (receiver : Json) : ℤ := (((receiver.get "share").bind Json.asStr).bind parseBigInt).getD 0

/-- The rows before the dust is handed out. -/
def perpFeeRows (amount : ℤ) (receivers : List Json) : List PerpFeeRow :=
  receivers.mapIdx fun index receiver =>
    let numerator := amount * perpShare receiver
    { receiver := receiver, fee := numerator.tdiv 10000, remainder := numerator.tmod 10000, index := index }

/-- The order of the dust: the comparison of two rows is not `Greater`. -/
def dustOrder (rows : List PerpFeeRow) (left right : ℕ) : Prop :=
  let remainder := fun i => (rows[i]?.map PerpFeeRow.remainder).getD 0
  let index := fun i => (rows[i]?.map PerpFeeRow.index).getD 0
  remainder right < remainder left ∨ (remainder right = remainder left ∧ index left ≤ index right)

instance (rows : List PerpFeeRow) : DecidableRel (dustOrder rows) := fun _ _ =>
  inferInstanceAs (Decidable (_ ∨ _))

def handOutDust : List ℕ → ℤ → List PerpFeeRow → List PerpFeeRow
  | [], _, rows => rows
  | index :: order, dust, rows =>
      if dust ≤ 0 then rows
      else handOutDust order (dust - 1) (rows.modify index fun row => { row with fee := row.fee + 1 })

def splitPerpFeeReceivers (amount : ℤ) (receivers : List Json) : List (Json × ℤ) :=
  let rows := perpFeeRows amount receivers
  let assigned := rows.foldl (fun sum row => sum + row.fee) 0
  let dust := amount - assigned
  let rows :=
    if 0 < dust then handOutDust ((List.range rows.length).insertionSort (dustOrder rows)) dust rows
    else rows
  rows.map fun row => (row.receiver, row.fee)

/-! ### Reserves -/

structure PerpPositionReserves where
  grossCollateral : ℤ
  marginCollateral : ℤ
  totalFee : ℤ
  marketplaceFee : ℤ
  liquidationBounty : ℤ
deriving DecidableEq, Repr

def resolvePerpPositionReserves (group : Json) (grossCollateral : ℤ) : Option PerpPositionReserves := do
  let feeBps ← parseBigInt (← (← (← group.get "fee").get "bps").asStr)
  let bountyBps ← parseBigInt (← (← (← group.get "bounty").get "liquidate").asStr)
  guard (!(grossCollateral ≤ 0 ∨ feeBps ≤ 0 ∨ bountyBps ≤ 0 ∨ 10000 < feeBps ∨ feeBps < bountyBps))
  let totalFee := (grossCollateral * feeBps).tdiv 10000
  let liquidationBounty := (grossCollateral * bountyBps).tdiv 10000
  let marketplaceFee := totalFee - liquidationBounty
  let marginCollateral := grossCollateral - totalFee
  guard (!(totalFee ≤ 0 ∨ liquidationBounty ≤ 0 ∨ marketplaceFee < 0 ∨ marginCollateral ≤ 0))
  some
    { grossCollateral := grossCollateral
      marginCollateral := marginCollateral
      totalFee := totalFee
      marketplaceFee := marketplaceFee
      liquidationBounty := liquidationBounty }

/-! ### What the receivers share -/

theorem parseBigInt_toDigits (n : ℕ) : parseBigInt (Nat.toDigits 10 n) = some (n : ℤ) := by
  have hdigit : ∀ c ∈ Nat.toDigits 10 n, c.isDigit = true := fun c hc =>
    Nat.isDigit_of_mem_toDigits (by decide) (by decide) hc
  have hhead : ∀ (c : Char) (rest : Text), c.isDigit = false → Nat.toDigits 10 n ≠ c :: rest := by
    intro c rest hc hsplit
    rw [hdigit c (by rw [hsplit]; exact List.mem_cons_self)] at hc
    cases hc
  have hplain : (Nat.toDigits 10 n).filter (· ≠ '_') = Nat.toDigits 10 n := by
    refine List.filter_eq_self.2 fun c hc => ?_
    have hne : c ≠ '_' := by
      rintro rfl
      exact absurd (hdigit _ hc) (by decide)
    simpa using hne
  have hunderscore : (Nat.toDigits 10 n).head? ≠ some '_' := by
    intro hhead
    exact absurd (hdigit _ (List.mem_of_head? hhead)) (by decide)
  have huint : parseBigUint (Nat.toDigits 10 n) = some n := by
    unfold parseBigUint
    dsimp only
    split
    next heq => exact absurd heq (hhead '+' _ (by decide))
    next heq => exact absurd heq (hhead '+' _ (by decide))
    next => rw [if_neg hunderscore, hplain, parseDigits_toDigits]
  unfold parseBigInt
  split
  next heq => exact absurd heq (hhead '-' _ (by decide))
  next heq => exact absurd heq (hhead '-' _ (by decide))
  next => rw [huint]; rfl

theorem parseAmmUintValue_nonneg {value : Json} {allowZero : Bool} {n : ℤ}
    (hn : parseAmmUintValue value allowZero = some n) : 0 ≤ n := by
  simp only [parseAmmUintValue, parseAmmUintStr, bind_eq_bind, bind_eq_some_iff] at hn
  obtain ⟨_, _, _, _, parsed, _, _, _, hn⟩ := hn
  rw [← Option.some.inj hn]
  exact Int.natCast_nonneg parsed

section Shares

variable {env : TapEnv} {context : TapContext} {store : ProofStore}

/-- What an accepted receiver looks like. -/
theorem eq_of_validatePerpFeeReceiver {entry receiver : Json}
    (hreceiver : validatePerpFeeReceiver env context store entry = some receiver) :
    ∃ (tt dest role : Text) (share : ℕ), receiver = .object
      [("tt".toList, .string tt), ("to".toList, .string dest),
        ("share".toList, .string (Nat.toDigits 10 share)), ("rl".toList, .string role)] := by
  simp only [validatePerpFeeReceiver, bind_eq_bind, bind_eq_some_iff] at hreceiver
  obtain ⟨_, _, target, _, value, _, share, hshare, _, _, _, _, tt, _, role, _, _, _, hreceiver⟩ := hreceiver
  obtain ⟨share, rfl⟩ := Int.eq_ofNat_of_zero_le (parseAmmUintValue_nonneg hshare)
  have hbuild : ∃ dest, receiver = .object
      [("tt".toList, .string tt), ("to".toList, .string dest),
        ("share".toList, .string (Nat.toDigits 10 share)), ("rl".toList, .string role)] := by
    split at hreceiver
    next =>
      simp only [bind_eq_some_iff] at hreceiver
      obtain ⟨_, _, _, _, _, _, _, _, _, _, _, _, dest, _, hreceiver⟩ := hreceiver
      exact ⟨dest, (Option.some.inj hreceiver).symm⟩
    next =>
      simp only [bind_eq_some_iff] at hreceiver
      obtain ⟨_, _, dest, _, hreceiver⟩ := hreceiver
      exact ⟨dest, (Option.some.inj hreceiver).symm⟩
  obtain ⟨dest, hbuild⟩ := hbuild
  exact ⟨tt, dest, role, share, hbuild⟩

/-- The share of an accepted receiver is not negative. -/
theorem perpShare_nonneg {entry receiver : Json}
    (hreceiver : validatePerpFeeReceiver env context store entry = some receiver) :
    0 ≤ perpShare receiver := by
  obtain ⟨tt, dest, role, share, rfl⟩ := eq_of_validatePerpFeeReceiver hreceiver
  have hshare : perpShare (.object
      [("tt".toList, .string tt), ("to".toList, .string dest),
        ("share".toList, .string (Nat.toDigits 10 share)), ("rl".toList, .string role)]) = share :=
    congrArg (Option.getD · 0) (parseBigInt_toDigits share)
  rw [hshare]
  exact Int.natCast_nonneg share

/-- The receivers collected so far, with the sum of their shares. -/
structure FeeReceivers.Sums (seen : FeeReceivers) : Prop where
  total : seen.total = (seen.out.map perpShare).sum
  nonneg : ∀ receiver ∈ seen.out, 0 ≤ perpShare receiver

theorem FeeReceivers.Sums.add {seen after : FeeReceivers} {entry : Json} (sums : seen.Sums)
    (hadd : addPerpFeeReceiver env context store seen entry = some after) : after.Sums := by
  simp only [addPerpFeeReceiver, bind_eq_bind, bind_eq_some_iff] at hadd
  obtain ⟨receiver, hreceiver, _, _, role, _, _, _, key, _, _, _, value, hvalue, text, htext, share, hshare, _,
    _, hafter⟩ := hadd
  cases hafter
  have hperp : perpShare receiver = share := by
    rw [perpShare, hvalue, bind_some, htext, bind_some, hshare]
    rfl
  constructor
  · rw [List.map_append, List.sum_append, sums.total, List.map_singleton, List.sum_singleton, hperp]
  · intro other hother
    rcases List.mem_append.1 hother with hold | hnew
    · exact sums.nonneg other hold
    · rw [List.mem_singleton.1 hnew]
      exact perpShare_nonneg hreceiver

theorem FeeReceivers.Sums.addAll {list : List Json} {seen after : FeeReceivers} (sums : seen.Sums)
    (hadd : list.foldlM (addPerpFeeReceiver env context store) seen = some after) : after.Sums := by
  induction list generalizing seen with
  | nil =>
      cases hadd
      exact sums
  | cons entry list ih =>
      rw [List.foldlM_cons] at hadd
      obtain ⟨next, hnext, hadd⟩ := bind_eq_some_iff.1 hadd
      exact ih (sums.add hnext) hadd

/-- The shares of accepted receivers make up the whole. -/
theorem sum_of_validatePerpFeeReceivers {receivers : Json} {accepted : List Json}
    (haccepted : validatePerpFeeReceivers env context store receivers = some accepted) :
    (accepted.map perpShare).sum = 10000 ∧ ∀ receiver ∈ accepted, 0 ≤ perpShare receiver := by
  simp only [validatePerpFeeReceivers, bind_eq_bind, bind_eq_some_iff] at haccepted
  obtain ⟨list, _, _, _, seen, hseen, haccepted⟩ := haccepted
  have sums : seen.Sums := FeeReceivers.Sums.addAll ⟨rfl, fun _ h => absurd h List.not_mem_nil⟩ hseen
  split at haccepted
  next htotal =>
    cases haccepted
    exact ⟨sums.total ▸ htotal, sums.nonneg⟩
  next => cases haccepted

end Shares

/-! ### Handing out the dust -/

/-- One unit goes to each of the first indices, as many as there are units. -/
theorem getElem?_handOutDust {order : List ℕ} (hnodup : order.Nodup) (i : ℕ) :
    ∀ {dust : ℤ} {rows : List PerpFeeRow}, (handOutDust order dust rows)[i]? =
      rows[i]?.map fun row =>
        { row with fee := row.fee + if i ∈ order.take dust.toNat then 1 else 0 } := by
  induction order with
  | nil =>
      intro dust rows
      simp [handOutDust]
  | cons index order ih =>
      intro dust rows
      obtain ⟨hfresh, hnodup⟩ := List.nodup_cons.1 hnodup
      rw [handOutDust]
      split
      next hdone =>
        rw [Int.toNat_eq_zero.2 hdone, List.take_zero]
        simp
      next hleft =>
        obtain ⟨left, rfl⟩ : ∃ left : ℕ, dust = left + 1 :=
          ⟨(dust - 1).toNat, by rw [Int.toNat_of_nonneg (by omega)]; omega⟩
        have htake : (left + 1 : ℤ).toNat = left + 1 := by omega
        have hpred : (left + 1 - 1 : ℤ).toNat = left := by omega
        rw [ih hnodup, hpred, htake, List.take_succ_cons, List.getElem?_modify]
        by_cases hindex : index = i
        · subst hindex
          have hnot : index ∉ order.take left := fun hmem => hfresh (List.mem_of_mem_take hmem)
          cases rows[index]? with
          | none => rfl
          | some row => simp [hnot]
        · cases rows[i]? with
          | none => simp
          | some row => simp [hindex, Ne.symm hindex]

theorem sum_modify_fee {index : ℕ} : ∀ {rows : List PerpFeeRow}, index < rows.length →
    ((rows.modify index fun row => { row with fee := row.fee + 1 }).map PerpFeeRow.fee).sum =
      (rows.map PerpFeeRow.fee).sum + 1 := by
  induction index with
  | zero =>
      intro rows hindex
      obtain ⟨row, rows, rfl⟩ := List.exists_cons_of_length_pos hindex
      rw [List.modify_zero_cons, List.map_cons, List.map_cons, List.sum_cons, List.sum_cons]
      ring
  | succ index ih =>
      intro rows hindex
      obtain ⟨row, rows, rfl⟩ := List.exists_cons_of_length_pos (Nat.zero_lt_of_lt hindex)
      rw [List.modify_succ_cons, List.map_cons, List.map_cons, List.sum_cons, List.sum_cons,
        ih (Nat.lt_of_succ_lt_succ hindex)]
      ring

/-- All of the dust is handed out when there are enough indices. -/
theorem sum_handOutDust {order : List ℕ} : ∀ {dust : ℤ} {rows : List PerpFeeRow},
    0 ≤ dust → dust ≤ order.length → (∀ index ∈ order, index < rows.length) →
      ((handOutDust order dust rows).map PerpFeeRow.fee).sum =
        (rows.map PerpFeeRow.fee).sum + dust := by
  induction order with
  | nil =>
      intro dust rows hdust hlength _
      have hzero : dust = 0 := le_antisymm hlength hdust
      rw [handOutDust, hzero, add_zero]
  | cons index order ih =>
      intro dust rows hdust hlength hindices
      obtain ⟨hindex, hindices⟩ := List.forall_mem_cons.1 hindices
      rw [handOutDust]
      split
      next hdone => rw [le_antisymm hdone hdust, add_zero]
      next hleft =>
        rw [List.length_cons, Nat.cast_succ] at hlength
        rw [ih (by omega) (by omega) (by simpa using hindices), sum_modify_fee hindex]
        ring

/-! ### The rows -/

theorem getElem?_perpFeeRows (amount : ℤ) (receivers : List Json) (i : ℕ) :
    (perpFeeRows amount receivers)[i]? = receivers[i]?.map fun receiver =>
      { receiver := receiver
        fee := (amount * perpShare receiver).tdiv 10000
        remainder := (amount * perpShare receiver).tmod 10000
        index := i } := by
  rw [perpFeeRows, List.getElem?_mapIdx]

@[simp] theorem length_perpFeeRows (amount : ℤ) (receivers : List Json) :
    (perpFeeRows amount receivers).length = receivers.length := by rw [perpFeeRows, List.length_mapIdx]

/-- A column of the rows that does not depend on the index. -/
theorem map_perpFeeRows {β : Type} {amount : ℤ} {column : PerpFeeRow → β} {value : Json → β}
    (receivers : List Json) (hcolumn : ∀ receiver ∈ receivers, ∀ i, column
      ⟨receiver, (amount * perpShare receiver).tdiv 10000, (amount * perpShare receiver).tmod 10000, i⟩ =
        value receiver) :
    (perpFeeRows amount receivers).map column = receivers.map value := by
  refine List.ext_getElem (by simp) fun i hi hi' => ?_
  rw [List.getElem_map, List.getElem_map]
  simp only [perpFeeRows, List.getElem_mapIdx]
  exact hcolumn _ (List.getElem_mem _) i

def remainderAt (rows : List PerpFeeRow) (i : ℕ) : ℤ := (rows[i]?.map PerpFeeRow.remainder).getD 0

theorem map_remainderAt (rows : List PerpFeeRow) :
    (List.range rows.length).map (remainderAt rows) = rows.map PerpFeeRow.remainder := by
  refine List.ext_getElem (by simp) fun i hi hi' => ?_
  rw [List.length_map] at hi'
  simp [remainderAt, hi']

/-- The indices in the order in which the dust is handed out. -/
def dustIndices (rows : List PerpFeeRow) : List ℕ :=
  (List.range rows.length).insertionSort (dustOrder rows)

theorem perm_dustIndices (rows : List PerpFeeRow) :
    (dustIndices rows).Perm (List.range rows.length) := List.perm_insertionSort _ _

/-- The largest remainders come first. -/
theorem pairwise_dustIndices (rows : List PerpFeeRow) :
    (dustIndices rows).Pairwise fun i j => remainderAt rows j ≤ remainderAt rows i := by
  have : Std.Total (dustOrder rows) := ⟨fun i j => by unfold dustOrder; dsimp only; omega⟩
  have : IsTrans ℕ (dustOrder rows) := ⟨fun i j k => by unfold dustOrder; dsimp only; omega⟩
  refine (List.pairwise_insertionSort (dustOrder rows) _).imp fun {i j} horder => ?_
  rcases horder with hlt | ⟨heq, -⟩
  · exact le_of_lt hlt
  · exact le_of_eq heq

/-! ### The parts -/

section Parts

variable {amount : ℤ} {receivers : List Json}

/-- The share of the amount that is due to a receiver. -/
def perpNumerator (amount : ℤ) (receiver : Json) : ℤ := amount * perpShare receiver

theorem sum_perpNumerator (hshares : (receivers.map perpShare).sum = 10000) :
    (receivers.map (perpNumerator amount)).sum = amount * 10000 := by
  rw [← hshares, ← List.sum_map_mul_left]
  rfl

theorem map_fee_perpFeeRows (hamount : 0 ≤ amount)
    (hnonneg : ∀ receiver ∈ receivers, 0 ≤ perpShare receiver) :
    (perpFeeRows amount receivers).map PerpFeeRow.fee =
      receivers.map fun receiver => perpNumerator amount receiver / 10000 :=
  map_perpFeeRows receivers fun receiver hreceiver _ =>
    Int.tdiv_eq_ediv_of_nonneg (mul_nonneg hamount (hnonneg receiver hreceiver))

theorem map_remainder_perpFeeRows (hamount : 0 ≤ amount)
    (hnonneg : ∀ receiver ∈ receivers, 0 ≤ perpShare receiver) :
    (perpFeeRows amount receivers).map PerpFeeRow.remainder =
      receivers.map fun receiver => perpNumerator amount receiver % 10000 :=
  map_perpFeeRows receivers fun receiver hreceiver _ =>
    Int.tmod_eq_emod_of_nonneg (mul_nonneg hamount (hnonneg receiver hreceiver))

/-- What the quotients leave of the amount. -/
def perpDust (amount : ℤ) (receivers : List Json) : ℤ :=
  amount - ((perpFeeRows amount receivers).map PerpFeeRow.fee).sum

/-- The remainders make up the dust. -/
theorem sum_remainder_perpFeeRows (hamount : 0 ≤ amount)
    (hnonneg : ∀ receiver ∈ receivers, 0 ≤ perpShare receiver)
    (hshares : (receivers.map perpShare).sum = 10000) :
    ((perpFeeRows amount receivers).map PerpFeeRow.remainder).sum = perpDust amount receivers * 10000 := by
  have hquotients := Apportion.sum_quotients (perpNumerator amount) 10000 receivers
  rw [sum_perpNumerator hshares, ← map_fee_perpFeeRows hamount hnonneg,
    ← map_remainder_perpFeeRows hamount hnonneg] at hquotients
  rw [perpDust]
  linarith

theorem splitPerpFeeReceivers_eq (amount : ℤ) (receivers : List Json) :
    splitPerpFeeReceivers amount receivers =
      (if 0 < perpDust amount receivers then
        handOutDust (dustIndices (perpFeeRows amount receivers)) (perpDust amount receivers)
          (perpFeeRows amount receivers)
      else perpFeeRows amount receivers).map fun row => (row.receiver, row.fee) := by
  have hassigned : (perpFeeRows amount receivers).foldl (fun sum row => sum + row.fee) 0 =
      ((perpFeeRows amount receivers).map PerpFeeRow.fee).sum := by
    rw [List.sum_eq_foldl, List.foldl_map]
  rw [splitPerpFeeReceivers, hassigned]
  rfl

/-- The remainders are those of a division, in every order of the indices. -/
theorem remainderAt_bounds (hamount : 0 ≤ amount)
    (hnonneg : ∀ receiver ∈ receivers, 0 ≤ perpShare receiver) (i : ℕ) :
    0 ≤ remainderAt (perpFeeRows amount receivers) i ∧
      remainderAt (perpFeeRows amount receivers) i < 10000 := by
  have hcolumn := congrArg (fun column => column[i]?) (map_remainder_perpFeeRows hamount hnonneg)
  simp only [List.getElem?_map] at hcolumn
  rw [remainderAt, hcolumn]
  cases receivers[i]? with
  | none => exact ⟨le_rfl, (by decide : (0 : ℤ) < 10000)⟩
  | some receiver => exact ⟨Int.emod_nonneg _ (by decide), Int.emod_lt_of_pos _ (by decide)⟩

/-- There are enough receivers for the dust, and it goes to those with a remainder. -/
theorem dust_goes_to_remainders (hamount : 0 ≤ amount)
    (hnonneg : ∀ receiver ∈ receivers, 0 ≤ perpShare receiver)
    (hshares : (receivers.map perpShare).sum = 10000) (hdust : 0 ≤ perpDust amount receivers) :
    perpDust amount receivers ≤ (dustIndices (perpFeeRows amount receivers)).length ∧
      ∀ i ∈ (dustIndices (perpFeeRows amount receivers)).take (perpDust amount receivers).toNat,
        0 < remainderAt (perpFeeRows amount receivers) i := by
  have hperm := perm_dustIndices (perpFeeRows amount receivers)
  have hsum : ((dustIndices (perpFeeRows amount receivers)).map
      (remainderAt (perpFeeRows amount receivers))).sum = perpDust amount receivers * 10000 := by
    rw [(hperm.map _).sum_eq, map_remainderAt, sum_remainder_perpFeeRows hamount hnonneg hshares]
  have hbounds := fun i (_ : i ∈ dustIndices (perpFeeRows amount receivers)) =>
    remainderAt_bounds hamount hnonneg i
  refine ⟨Apportion.le_length_of_sum (by decide) (fun i hi => (hbounds i hi).2) hsum, ?_⟩
  exact Apportion.pos_of_mem_take (by decide) hbounds (pairwise_dustIndices _)
    (by rw [hsum, Int.toNat_of_nonneg hdust])

/-- Without dust the loop does nothing. -/
theorem ite_handOutDust {order : List ℕ} {dust : ℤ} {rows : List PerpFeeRow} :
    (if 0 < dust then handOutDust order dust rows else rows) = handOutDust order dust rows := by
  split
  next => rfl
  next hnone =>
    cases order with
    | nil => rfl
    | cons index order => rw [handOutDust, if_pos (not_lt.1 hnone)]

def exactShare (amount : ℤ) (receiver : Json) : ℚ := amount * perpShare receiver / 10000

theorem exactShare_eq (amount : ℤ) (receiver : Json) :
    exactShare amount receiver = (perpNumerator amount receiver : ℚ) / (10000 : ℕ) := by
  rw [exactShare, perpNumerator]
  push_cast
  rfl

theorem floor_exactShare (amount : ℤ) (receiver : Json) :
    ⌊exactShare amount receiver⌋ = perpNumerator amount receiver / 10000 := by
  rw [exactShare_eq, Rat.floor_intCast_div_natCast]
  rfl

theorem ceil_exactShare {amount : ℤ} {receiver : Json} (hpos : 0 < perpNumerator amount receiver % 10000) :
    ⌈exactShare amount receiver⌉ = perpNumerator amount receiver / 10000 + 1 := by
  rw [exactShare_eq, Rat.ceil_intCast_div_natCast]
  push_cast
  omega

/-- The split of a fee: one part for each receiver in order, together the amount, each rounded one way. -/
theorem splitPerpFeeReceivers_exact (hamount : 0 ≤ amount)
    (hnonneg : ∀ receiver ∈ receivers, 0 ≤ perpShare receiver)
    (hshares : (receivers.map perpShare).sum = 10000) :
    (splitPerpFeeReceivers amount receivers).map Prod.fst = receivers ∧
      ((splitPerpFeeReceivers amount receivers).map Prod.snd).sum = amount ∧
      ∀ part ∈ splitPerpFeeReceivers amount receivers,
        part.2 = ⌊exactShare amount part.1⌋ ∨ part.2 = ⌈exactShare amount part.1⌉ := by
  have hdust : 0 ≤ perpDust amount receivers := by
    have hsum := sum_remainder_perpFeeRows hamount hnonneg hshares
    have hcolumn : 0 ≤ ((perpFeeRows amount receivers).map PerpFeeRow.remainder).sum := by
      rw [map_remainder_perpFeeRows hamount hnonneg]
      refine List.sum_nonneg fun n hn => ?_
      obtain ⟨receiver, -, rfl⟩ := List.mem_map.1 hn
      exact Int.emod_nonneg _ (by decide)
    omega
  obtain ⟨henough, htake⟩ := dust_goes_to_remainders hamount hnonneg hshares hdust
  have hperm := perm_dustIndices (perpFeeRows amount receivers)
  have hnodup := hperm.nodup_iff.2 List.nodup_range
  have hparts := splitPerpFeeReceivers_eq amount receivers
  have hrows := @getElem?_perpFeeRows amount receivers
  rw [ite_handOutDust] at hparts
  have hgets := fun i => @getElem?_handOutDust _ hnodup i (perpDust amount receivers)
    (perpFeeRows amount receivers)
  refine ⟨?_, ?_, fun part hpart => ?_⟩
  · rw [hparts, List.map_map]
    refine List.ext_getElem? fun i => ?_
    rw [List.getElem?_map, hgets, hrows]
    cases receivers[i]? with
    | none => rfl
    | some receiver => rfl
  · rw [hparts, List.map_map]
    refine (sum_handOutDust hdust henough fun i hi => ?_).trans (add_sub_cancel _ _)
    exact List.mem_range.1 (hperm.mem_iff.1 hi)
  · obtain ⟨i, hi⟩ := List.mem_iff_getElem?.1 hpart
    rw [hparts, List.getElem?_map, hgets, hrows] at hi
    cases hreceiver : receivers[i]? with
    | none =>
        rw [hreceiver] at hi
        cases hi
    | some receiver =>
        rw [hreceiver] at hi
        cases hi
        have hmem := List.mem_of_getElem? hreceiver
        have hquotient : (amount * perpShare receiver).tdiv 10000 = perpNumerator amount receiver / 10000 :=
          Int.tdiv_eq_ediv_of_nonneg (mul_nonneg hamount (hnonneg receiver hmem))
        dsimp only
        rw [hquotient]
        split
        next hunit =>
          have hremainder : remainderAt (perpFeeRows amount receivers) i =
              perpNumerator amount receiver % 10000 := by
            have hcolumn := congrArg (fun column => column[i]?) (map_remainder_perpFeeRows hamount hnonneg)
            simp only [List.getElem?_map, hreceiver] at hcolumn
            rw [remainderAt, hcolumn]
            rfl
          exact .inr (ceil_exactShare (hremainder ▸ htake i hunit)).symm
        next => exact .inl (by rw [floor_exactShare, add_zero])

end Parts

example : (splitPerpFeeReceivers 10 (["3333", "3333", "3334"].map fun share =>
    .object [("share".toList, .string share.toList)])).map Prod.snd = [3, 3, 4] := by decide

/-! ### Both splits -/

theorem resolvePerpPositionReserves_exact {group : Json} {gross : ℤ} {reserves : PerpPositionReserves}
    (hreserves : resolvePerpPositionReserves group gross = some reserves) :
    reserves.grossCollateral = gross ∧ 0 < reserves.marginCollateral ∧ 0 ≤ reserves.marketplaceFee ∧
      0 < reserves.liquidationBounty ∧
      reserves.marginCollateral + reserves.marketplaceFee + reserves.liquidationBounty = gross := by
  simp only [resolvePerpPositionReserves, bind_eq_bind, bind_eq_some_iff] at hreserves
  obtain ⟨_, _, _, _, _, _, feeBps, _, _, _, _, _, _, _, bountyBps, _, _, _, _, hguard, hreserves⟩ := hreserves
  cases hreserves
  simp only [Option.guard_eq_some', Bool.not_eq_true', decide_eq_false_iff_not, not_or, not_le,
    not_lt] at hguard
  refine ⟨rfl, hguard.2.2.2, hguard.2.2.1, hguard.2.1, ?_⟩
  dsimp only
  ring

/-- A fee is split exactly among accepted receivers, and an accepted collateral among its reserves. -/
theorem perpFees_exact (env : TapEnv) (context : TapContext) (store : ProofStore) :
    (∀ (receivers : Json) (accepted : List Json) (amount : ℤ), 0 ≤ amount →
      validatePerpFeeReceivers env context store receivers = some accepted →
        (splitPerpFeeReceivers amount accepted).map Prod.fst = accepted ∧
        ((splitPerpFeeReceivers amount accepted).map Prod.snd).sum = amount ∧
        ∀ part ∈ splitPerpFeeReceivers amount accepted,
          part.2 = ⌊exactShare amount part.1⌋ ∨ part.2 = ⌈exactShare amount part.1⌉) ∧
    ∀ (group : Json) (gross : ℤ) (reserves : PerpPositionReserves),
      resolvePerpPositionReserves group gross = some reserves →
        reserves.grossCollateral = gross ∧ 0 < reserves.marginCollateral ∧
        0 ≤ reserves.marketplaceFee ∧ 0 < reserves.liquidationBounty ∧
        reserves.marginCollateral + reserves.marketplaceFee + reserves.liquidationBounty = gross := by
  refine ⟨fun receivers accepted amount hamount haccepted => ?_,
    fun group gross reserves => resolvePerpPositionReserves_exact⟩
  obtain ⟨hshares, hnonneg⟩ := sum_of_validatePerpFeeReceivers haccepted
  exact splitPerpFeeReceivers_exact hamount hnonneg hshares

end OrdDogecoin.Tap
