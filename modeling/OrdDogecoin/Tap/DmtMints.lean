/-
Module: OrdDogecoin.Tap.DmtMints
Purpose: Which block a DMT mint consumes.  The `blk` field is read twice, as an integer that goes
  through 64 into 32 bits and as the text of a big integer; a mint is sound exactly when the two and
  the recorded number agree.
Trusted boundary: none
Main exports: jsParseInt_eq_bigint, PlainBlock, dmtMint_sound_iff
-/
import OrdDogecoin.Tap.Conservation
import Mathlib.Data.List.TakeWhile

namespace OrdDogecoin.Tap

open Proc KeyTable Chain
open Option (bind_eq_some_iff map_eq_some_iff)

/-! ### Two readings of an integer -/

theorem toDigit_whitespace {radix : ℕ} {c : Char} (hspace : isJsWhitespace c = true) :
    toDigit radix c = none := by
  unfold isJsWhitespace at hspace
  unfold toDigit
  simp only [Bool.or_eq_true, Bool.and_eq_true, decide_eq_true_eq] at hspace
  have hnine : ¬ (48 ≤ c.toNat ∧ c.toNat ≤ 57) := by omega
  have hlower : ¬ (97 ≤ c.toNat ∧ c.toNat ≤ 122) := by omega
  have hupper : ¬ (65 ≤ c.toNat ∧ c.toNat ≤ 90) := by omega
  simp [hnine, hlower, hupper]

/-- The digits before the first character that is none, saturated once. -/
theorem leadingNumber_digits {radix : ℕ} (hradix : 0 < radix) {rest : Text}
    (hrest : ∀ c ∈ rest.head?, toDigit radix c = none) :
    ∀ {text : Text} {digits : List ℕ} (acc : ℕ), text.mapM (toDigit radix) = some digits →
      leadingNumber radix (some (min acc maxI128)) (text ++ rest) =
        some (min (digits.foldl (fun n digit => radix * n + digit) acc) maxI128)
  | [], digits, acc, hdigits => by
      cases hdigits
      cases rest with
      | nil => rfl
      | cons c rest => simp [leadingNumber, hrest c rfl]
  | c :: text, digits, acc, hdigits => by
      rw [List.mapM_cons] at hdigits
      obtain ⟨digit, hdigit, hdigits⟩ := bind_eq_some_iff.1 hdigits
      obtain ⟨tail, htail, hdigits⟩ := bind_eq_some_iff.1 hdigits
      cases hdigits
      have hsum : min (min (min acc maxI128 * radix) maxI128 + digit) maxI128 =
          min (radix * acc + digit) maxI128 := by
        by_cases hacc : acc ≤ maxI128
        · rw [min_eq_left hacc, mul_comm radix acc]
          omega
        · have hone : maxI128 ≤ maxI128 * radix := Nat.le_mul_of_pos_right _ hradix
          have hmul : maxI128 ≤ radix * acc :=
            le_trans (by omega) (Nat.le_mul_of_pos_left acc hradix)
          rw [min_eq_right (by omega : maxI128 ≤ acc)]
          omega
      simp only [List.cons_append, leadingNumber, hdigit, Option.getD_some, hsum, List.foldl_cons]
      exact leadingNumber_digits hradix hrest _ htail

theorem leadingNumber_eq {radix m : ℕ} (hradix : 0 < radix) {text rest : Text} {digits : List ℕ}
    (hrest : ∀ c ∈ rest.head?, toDigit radix c = none) (htext : text ≠ [])
    (hdigits : text.mapM (toDigit radix) = some digits)
    (hm : digits.foldl (fun n digit => radix * n + digit) 0 = m) :
    leadingNumber radix none (text ++ rest) = some (min m maxI128) := by
  have hzero := leadingNumber_digits hradix hrest 0 hdigits
  rw [hm] at hzero
  cases text with
  | nil => exact absurd rfl htext
  | cons c text =>
      rw [List.mapM_cons] at hdigits
      obtain ⟨digit, hdigit, -⟩ := bind_eq_some_iff.1 hdigits
      rw [← hzero]
      simp [leadingNumber, hdigit]

theorem trimJsWhitespace_append (text : Text) :
    ∃ space : Text, text.dropWhile isJsWhitespace = trimJsWhitespace text ++ space ∧
      ∀ c ∈ space, isJsWhitespace c = true := by
  refine ⟨((text.dropWhile isJsWhitespace).reverse.takeWhile isJsWhitespace).reverse, ?_, ?_⟩
  · unfold trimJsWhitespace
    rw [← List.reverse_append, List.takeWhile_append_dropWhile, List.reverse_reverse]
  · intro c hc
    exact List.mem_takeWhile_imp (List.mem_reverse.1 hc)

def unsignedNumber : Text → Option ℕ
  | '0' :: 'x' :: rest => leadingNumber 16 none rest
  | '0' :: 'X' :: rest => leadingNumber 16 none rest
  | rest => leadingNumber 10 none rest

/-- The sign and the unsigned integer that a text starts with. -/
def signedNumber : Text → Option ℤ
  | '-' :: rest => (unsignedNumber rest).map fun (n : ℕ) => -(n : ℤ)
  | '+' :: rest => (unsignedNumber rest).map fun (n : ℕ) => (n : ℤ)
  | rest => (unsignedNumber rest).map fun (n : ℕ) => (n : ℤ)

theorem jsParseIntWithString_eq (json : Json) :
    jsParseIntWithString json =
      (signedNumber ((jsValueToString json).dropWhile isJsWhitespace)).map
        fun n => (n, jsValueToString json) := by
  unfold jsParseIntWithString
  dsimp only
  generalize (jsValueToString json).dropWhile isJsWhitespace = text
  split
  next rest =>
    change Option.map _ ((unsignedNumber rest).bind fun n : ℕ => some (n : ℤ)) = _
    cases hrest : unsignedNumber rest with
    | none => simp [signedNumber, hrest]
    | some n => simp [signedNumber, hrest]
  next rest =>
    change Option.map _ ((unsignedNumber rest).bind fun n : ℕ => some (n : ℤ)) = _
    cases hrest : unsignedNumber rest with
    | none => simp [signedNumber, hrest]
    | some n => simp [signedNumber, hrest]
  next =>
    change Option.map _ ((unsignedNumber text).bind fun n : ℕ => some (n : ℤ)) = _
    have hsigned : signedNumber text = (unsignedNumber text).map fun (n : ℕ) => (n : ℤ) := by
      simp [signedNumber]
    rw [hsigned]
    cases unsignedNumber text with
    | none => rfl
    | some n => rfl

/-- The number written by all the digits of a text. -/
def digitsValue (radix : ℕ) (text : Text) : Option ℕ :=
  if text.isEmpty then none
  else (text.mapM (toDigit radix)).map (List.foldl (fun n digit => radix * n + digit) 0)

theorem leadingNumber_of_digitsValue {radix m : ℕ} (hradix : 0 < radix) {text space : Text}
    (hspace : ∀ c ∈ space, isJsWhitespace c = true) (hvalue : digitsValue radix text = some m) :
    leadingNumber radix none (text ++ space) = some (min m maxI128) := by
  unfold digitsValue at hvalue
  split at hvalue
  · cases hvalue
  next hempty =>
    obtain ⟨digits, hdigits, hm⟩ := map_eq_some_iff.1 hvalue
    refine leadingNumber_eq hradix ?_ (by simpa using hempty) hdigits hm
    intro c hc
    exact toDigit_whitespace (hspace c (List.mem_of_mem_head? hc))

theorem toDigit_of_mapM {radix : ℕ} {text : Text} {digits : List ℕ}
    (hdigits : text.mapM (toDigit radix) = some digits) : ∀ c ∈ text, (toDigit radix c).isSome := by
  intro c hc
  induction text generalizing digits with
  | nil => cases hc
  | cons head text ih =>
      rw [List.mapM_cons] at hdigits
      obtain ⟨digit, hdigit, hrest⟩ := bind_eq_some_iff.1 hdigits
      obtain ⟨tail, htail, -⟩ := bind_eq_some_iff.1 hrest
      rcases List.mem_cons.1 hc with rfl | hmem
      · rw [hdigit]
        rfl
      · exact ih htail hmem

theorem toDigit_of_digitsValue {radix m : ℕ} {text : Text} (hvalue : digitsValue radix text = some m) :
    ∀ c ∈ text, (toDigit radix c).isSome := by
  unfold digitsValue at hvalue
  split at hvalue
  · cases hvalue
  next =>
    obtain ⟨digits, hdigits, -⟩ := map_eq_some_iff.1 hvalue
    exact toDigit_of_mapM hdigits

/-- A decimal number is no hexadecimal one. -/
theorem unsignedNumber_of_digitsValue {m : ℕ} {text space : Text}
    (hspace : ∀ c ∈ space, isJsWhitespace c = true) (hvalue : digitsValue 10 text = some m) :
    unsignedNumber (text ++ space) = some (min m maxI128) := by
  have hleading := leadingNumber_of_digitsValue (by decide) hspace hvalue
  have hsecond : ∀ c rest, text ++ space = '0' :: c :: rest →
      isJsWhitespace c = true ∨ (toDigit 10 c).isSome := by
    intro c rest hsplit
    have hmem : c ∈ text ++ space := by rw [hsplit]; simp
    rcases List.mem_append.1 hmem with htext | hspaced
    · exact Or.inr (toDigit_of_digitsValue hvalue c htext)
    · exact Or.inl (hspace c hspaced)
  generalize text ++ space = whole at hleading hsecond
  unfold unsignedNumber
  split
  next => rcases hsecond 'x' _ rfl with h | h <;> exact absurd h (by decide)
  next => rcases hsecond 'X' _ rfl with h | h <;> exact absurd h (by decide)
  next => exact hleading

theorem signedNumber_of_digitsValue {m : ℕ} {text space : Text}
    (hspace : ∀ c ∈ space, isJsWhitespace c = true) (hvalue : digitsValue 10 text = some m) :
    signedNumber (text ++ space) = some ((min m maxI128 : ℕ) : ℤ) := by
  have hunsigned := unsignedNumber_of_digitsValue hspace hvalue
  have hfirst : ∀ c rest, text ++ space = c :: rest → (toDigit 10 c).isSome := by
    intro c rest hsplit
    cases text with
    | nil => cases hvalue
    | cons head text =>
        obtain ⟨rfl, -⟩ := List.cons.inj hsplit
        exact toDigit_of_digitsValue hvalue head List.mem_cons_self
  generalize text ++ space = whole at hunsigned hfirst
  unfold signedNumber
  split
  next => exact absurd (hfirst '-' _ rfl) (by decide)
  next => exact absurd (hfirst '+' _ rfl) (by decide)
  next => simp [hunsigned]

/-- A text that JavaScript reads as a binary or an octal number where it wants a big integer. -/
def hasRadixPrefix : Text → Bool
  | '0' :: 'b' :: _ | '0' :: 'B' :: _ | '0' :: 'o' :: _ | '0' :: 'O' :: _ => true
  | _ => false

/-- Without such a prefix the two readings of an integer agree, as far as it fits 64 bits. -/
theorem jsParseInt_eq_bigint {json : Json} {printed : Text} {n : ℤ} {m : ℕ}
    (hparse : jsParseIntWithString json = some (n, printed)) (hsmall : n < 2 ^ 63)
    (hplain : hasRadixPrefix (trimJsWhitespace printed) = false)
    (hbig : parseJsBigint printed = some m) : n = m := by
  rw [jsParseIntWithString_eq] at hparse
  obtain ⟨n, hnumber, hsame⟩ := map_eq_some_iff.1 hparse
  obtain ⟨rfl, rfl⟩ := Prod.mk.inj hsame
  generalize jsValueToString json = printed at hnumber hplain hbig
  obtain ⟨space, htext, hspace⟩ := trimJsWhitespace_append printed
  rw [htext] at hnumber
  have hstart : ∀ c rest, trimJsWhitespace printed ++ space = c :: rest → isJsWhitespace c = false := by
    intro c rest hsplit
    rw [← htext] at hsplit
    have hne : printed.dropWhile isJsWhitespace ≠ [] := by rw [hsplit]; simp
    have hhead := List.head_dropWhile_not isJsWhitespace hne
    simpa [hsplit] using hhead
  unfold parseJsBigint at hbig
  generalize trimJsWhitespace printed = text at hnumber hplain hbig hstart
  have hmax : 2 ^ 63 ≤ maxI128 := by decide
  have hread : signedNumber (text ++ space) = some ((min m maxI128 : ℕ) : ℤ) → n = m := by
    intro hsigned
    rw [hnumber] at hsigned
    have hsame := Option.some.inj hsigned
    omega
  split at hbig
  next =>
    cases space with
    | nil => cases hnumber
    | cons c space => simp [hstart c space rfl] at hspace
  next => cases hbig
  next rest =>
    apply hread
    have hleading := leadingNumber_of_digitsValue (by decide) hspace hbig
    simp [signedNumber, unsignedNumber, hleading]
  next rest =>
    apply hread
    have hleading := leadingNumber_of_digitsValue (by decide) hspace hbig
    simp [signedNumber, unsignedNumber, hleading]
  next => simp [hasRadixPrefix] at hplain
  next => simp [hasRadixPrefix] at hplain
  next => simp [hasRadixPrefix] at hplain
  next => simp [hasRadixPrefix] at hplain
  next => cases hbig
  next => cases hbig
  next => cases hbig
  next => cases hbig
  next => cases hbig
  next => cases hbig
  next rest _ _ _ _ _ _ =>
    apply hread
    simp [signedNumber, unsignedNumber_of_digitsValue hspace hbig]
  next =>
    exact hread (signedNumber_of_digitsValue hspace hbig)

/-- With one, the integer reader stops at the first digit. -/
theorem jsParseInt_of_radixPrefix {json : Json} {printed : Text} {n : ℤ}
    (hparse : jsParseIntWithString json = some (n, printed))
    (hradix : hasRadixPrefix (trimJsWhitespace printed) = true) : n = 0 := by
  rw [jsParseIntWithString_eq] at hparse
  obtain ⟨n, hnumber, hsame⟩ := map_eq_some_iff.1 hparse
  obtain ⟨rfl, rfl⟩ := Prod.mk.inj hsame
  obtain ⟨space, htext, -⟩ := trimJsWhitespace_append (jsValueToString json)
  rw [htext] at hnumber
  generalize trimJsWhitespace (jsValueToString json) = text at hnumber hradix
  unfold hasRadixPrefix at hradix
  split at hradix
  case h_5 => cases hradix
  all_goals simpa [signedNumber, unsignedNumber, leadingNumber, toDigit, eq_comm] using hnumber

/-! ### The rows of a mint -/

section Mint

variable (env : TapEnv) (context : TapContext)

def mintTick (json : Json) : Text := "dmt-".toList ++ env.jsToLowercase (json.text "tick")

/-- The key of a ticker's rows. -/
def mintKey (json : Json) : TickKey := env.jsJsonStringifyStr (mintTick env json)

/-- The integer written in the `blk` field. -/
def blkNumber (json : Json) : Option ℤ := (json.get "blk").bind jsParseInt

/-- The text of the `blk` field. -/
def blkText (json : Json) : Option Text := (json.get "blk").map jsValueToString

/-- The element of a deployed ticker. -/
def elementOf (store : TapStore) (tickKey : TickKey) : Option DmtElement := do
  let deployed ← store.d.lookup tickKey
  let elemIns ← deployed.elem
  let elemName ← context.elementName elemIns
  context.element (jsonStringifyLower env elemName)

/-- What a DMT mint of `amount` for `block` has found and written. -/
structure DmtMinted (created : Created) (before after : TapStore) (json : Json) (block : ℕ)
    (amount : ℤ) : Prop where
  document : createdJson env context created = some json
  unconsumed : before.dmtBlk.lookup (mintTick env json, block) = none
  requested : ∃ printed deployed element requested, dmtBlock env context json = some (block, printed) ∧
    elementOf env context before (mintKey env json) = some element ∧
    dmtAmount env context deployed element block printed = some requested ∧ amount ≤ requested
  taken : ∃ left, before.dc.lookup (mintKey env json) = some left ∧
    after.dc.lookup (mintKey env json) = some (left - amount)
  consumed : after.dmtBlk = before.dmtBlk.insert (mintTick env json, block) ()
  recorded : after.dmtmh.lookup (inscriptionText created.inscriptionId) =
    some ⟨mintTick env json, block⟩

/-- The rows that tell whether a mint succeeded are unchanged. -/
def SameMintRows (before after : TapStore) : Prop :=
  after.dc = before.dc ∧ after.dmtBlk = before.dmtBlk

end Mint

variable {env : TapEnv} {context : TapContext} {store : TapStore}

/-- A used signature is no row of the mint. -/
theorem DmtMinted.spend {created : Created} {before after : TapStore} {json : Json} {block : ℕ}
    {amount : ℤ} (minted : DmtMinted env context created before after json block amount)
    (signature : Option Text) :
    DmtMinted env context created before
      (match signature with
      | none => after
      | some signature => { after with prah := after.prah.insert signature () }) json block amount := by
  cases signature with
  | none => exact minted
  | some signature =>
      exact ⟨minted.document, minted.unconsumed, minted.requested, minted.taken, minted.consumed,
        minted.recorded⟩

/-- A mint ends with its rows written, or with none of them. -/
theorem indexDmtMint_cases (created : Created) :
    SameMintRows store ((indexDmtMint env context created).after store) ∨
      ∃ json block amount, DmtMinted env context created store
        ((indexDmtMint env context created).after store) json block amount := by
  suffices keeps : Keeps (fun after => SameMintRows store after ∨
      ∃ json block amount, DmtMinted env context created store after json block amount)
      (indexDmtMint env context created) store from keeps.after
  have inv : SameMintRows store store ∨
      ∃ json block amount, DmtMinted env context created store store json block amount :=
    Or.inl ⟨rfl, rfl⟩
  unfold indexDmtMint
  refine keeps_get inv fun json hjson => keeps_require inv fun _ => ?_
  refine keeps_require inv fun _ => keeps_require inv fun _ => ?_
  refine keeps_require inv fun _ => keeps_require inv fun _ => ?_
  refine keeps_get inv fun found hblock => ?_
  obtain ⟨block, blockStr⟩ := found
  refine keeps_require inv fun _ => keeps_get inv fun insData _ => keeps_read ?_
  refine keeps_require inv fun hconsumed => keeps_get inv fun depJson _ => keeps_read ?_
  refine keeps_get inv fun deployed hdeployed => keeps_require inv fun _ => keeps_read ?_
  refine keeps_get inv fun tokensLeft hleft => keeps_read ?_
  refine keeps_get inv fun dep _ => keeps_require inv fun _ => ?_
  refine keeps_get inv fun elemIns helemIns => keeps_get inv fun elemName helemName => ?_
  refine keeps_get inv fun element helement => keeps_get inv fun requested hrequested => keeps_read ?_
  obtain ⟨left, hdc, hread⟩ := bind_eq_some_iff.1 hleft
  obtain rfl : left = tokensLeft := (readI128_eq_some hread).1.symm
  unfold finishMint
  refine keeps_read (keeps_get inv fun found hfound => ?_)
  obtain ⟨failed, signature⟩ := found
  refine keeps_write (keeps_write_last ?_)
  cases failed with
  | true =>
      cases signature with
      | none => exact inv
      | some signature => exact Or.inl ⟨rfl, rfl⟩
  | false =>
      rw [if_neg Bool.false_ne_true]
      refine Or.inr ⟨json, block, if left - (requested : ℤ) < 0 then left else requested, ?_⟩
      apply DmtMinted.spend
      constructor
      · exact hjson
      · exact Option.isNone_iff_eq_none.1 hconsumed
      · refine ⟨blockStr, deployed, element, requested, hblock, ?_, hrequested, ?_⟩
        · simp only [elementOf, mintKey, mintTick, hdeployed, helemIns, helemName, helement,
            Option.bind_eq_bind, Option.bind_some]
        · split <;> omega
      · exact ⟨left, hdc, (lookup_insert_ite _ _ _ _).trans (if_pos rfl)⟩
      · rfl
      · exact (lookup_insert_ite _ _ _ _).trans (if_pos rfl)

/-- The two readings of the `blk` field that a mint has made. -/
theorem dmtBlock_spec {json : Json} {block : ℕ} {printed : Text}
    (hblock : dmtBlock env context json = some (block, printed)) :
    ∃ (value : Json) (parsed : ℕ), json.get "blk" = some value ∧
      jsParseIntWithString value = some ((parsed : ℤ), printed) ∧ parsed < 2 ^ 63 ∧
      block = parsed % 2 ^ 32 ∧ block ≤ context.height := by
  unfold dmtBlock at hblock
  obtain ⟨value, hvalue, hrest⟩ := bind_eq_some_iff.1 hblock
  obtain ⟨⟨parsed, text⟩, hparsed, hrest⟩ := bind_eq_some_iff.1 hrest
  simp only at hrest
  split at hrest
  · cases hrest
  next hrange =>
    lift parsed to ℕ using by omega with n
    split at hrest
    · cases hrest
    next hheight =>
      split at hrest
      · cases hrest
      · cases hrest
        exact ⟨value, n, hvalue, hparsed, by omega, rfl, by omega⟩

/-! ### Runs with other handlers -/

/-- A DMT mint, or whatever another handler does. -/
inductive MintAction where
  | mint (context : TapContext) (created : Created)
  | other (after : TapStore)

def mintStep (env : TapEnv) (store : TapStore) : MintAction → Option TapStore
  | .mint context created => some ((indexDmtMint env context created).after store)
  | .other after => some after

/-- No other handler removes the mark of a consumed block; the block rewards of one ticker add some. -/
def KeepsConsumed (store : TapStore) : MintAction → Prop
  | .mint _ _ => True
  | .other after => ∀ key, (store.dmtBlk.lookup key).isSome → (after.dmtBlk.lookup key).isSome

theorem consumed_mintStep {store' : TapStore} {action : MintAction} {key : Text × ℕ}
    (hconsumed : (store.dmtBlk.lookup key).isSome) (hkeeps : KeepsConsumed store action)
    (hstep : mintStep env store action = some store') : (store'.dmtBlk.lookup key).isSome := by
  cases action with
  | other after =>
      cases hstep
      exact hkeeps key hconsumed
  | mint context created =>
      cases hstep
      rcases indexDmtMint_cases created with ⟨-, hsame⟩ | ⟨json, block, amount, minted⟩
      · rw [hsame]
        exact hconsumed
      · rw [minted.consumed, lookup_insert_ite]
        split
        · rfl
        · exact hconsumed

/-- A consumed block stays consumed. -/
theorem consumed_of_reaches {later : TapStore} {key : Text × ℕ}
    (reaches : Run.Reaches (mintStep env) KeepsConsumed store later)
    (hconsumed : (store.dmtBlk.lookup key).isSome) : (later.dmtBlk.lookup key).isSome :=
  reaches.invariant (fun store => (store.dmtBlk.lookup key).isSome)
    (fun hconsumed hkeeps hstep => consumed_mintStep hconsumed hkeeps hstep) hconsumed

/-! ### Sound mints -/

section Sound

variable (env : TapEnv) (context : TapContext) (created : Created) (store : TapStore) (json : Json)
  (amount : ℤ)

/-- The inscription takes `amount` from what is left of its ticker. -/
structure Mints : Prop where
  document : createdJson env context created = some json
  positive : 0 < amount
  taken : ∃ left, store.dc.lookup (mintKey env json) = some left ∧
    ((indexDmtMint env context created).after store).dc.lookup (mintKey env json) =
      some (left - amount)

/-- The mint consumes the block written in its `blk` field, which no later mint of the ticker
consumes again, and takes no more than the number of this block where that is its amount. -/
structure MintSound (n : ℕ) : Prop where
  written : blkNumber json = some (n : ℤ)
  reached : n ≤ context.height
  recorded : ((indexDmtMint env context created).after store).dmtmh.lookup
    (inscriptionText created.inscriptionId) = some ⟨mintTick env json, n⟩
  consumed : (((indexDmtMint env context created).after store).dmtBlk.lookup
    (mintTick env json, n)).isSome
  bounded : ∀ element ∈ elementOf env context store (mintKey env json), element.fld = 4 →
    element.pat = none → amount ≤ n
  once : ∀ {later : TapStore}, Run.Reaches (mintStep env) KeepsConsumed
    ((indexDmtMint env context created).after store) later →
    ∀ {context' : TapContext} {created' : Created} {json' : Json} {amount' : ℤ},
      Mints env context' created' later json' amount' → mintTick env json' = mintTick env json →
        ((indexDmtMint env context' created').after later).dmtmh.lookup
          (inscriptionText created'.inscriptionId) ≠ some ⟨mintTick env json, n⟩

/-- The integer in the `blk` field fits 32 bits, and where it is the amount its text is not one of a
binary or octal number. -/
structure PlainBlock : Prop where
  narrow : ∀ n ∈ blkNumber json, n < 2 ^ 32
  decimal : ∀ element ∈ elementOf env context store (mintKey env json), element.fld = 4 →
    element.pat = none → ∀ text ∈ blkText json, hasRadixPrefix (trimJsWhitespace text) = false

end Sound

variable {created : Created} {json : Json} {amount : ℤ}

/-- A mint that takes something has written its rows. -/
theorem Mints.minted (mints : Mints env context created store json amount) :
    ∃ block, DmtMinted env context created store ((indexDmtMint env context created).after store) json
      block amount := by
  obtain ⟨left, hbefore, hafter⟩ := mints.taken
  have hpositive := mints.positive
  rcases indexDmtMint_cases created with ⟨hsame, -⟩ | ⟨json', block, amount', minted⟩
  · rw [hsame, hbefore] at hafter
    have hleft := Option.some.inj hafter
    omega
  · obtain rfl : json' = json := Option.some.inj (minted.document.symm.trans mints.document)
    obtain ⟨left', hbefore', hafter'⟩ := minted.taken
    obtain rfl := Option.some.inj (hbefore.symm.trans hbefore')
    have hleft := Option.some.inj (hafter.symm.trans hafter')
    obtain rfl : amount' = amount := by omega
    exact ⟨block, minted⟩

/-- A successful mint is sound exactly when its `blk` field is plain. -/
theorem dmtMint_sound_iff (env : TapEnv) {context : TapContext} {created : Created} {store : TapStore}
    {json : Json} {amount : ℤ} (mints : Mints env context created store json amount) :
    (∃ n, MintSound env context created store json amount n) ↔ PlainBlock env context store json := by
  obtain ⟨block, minted⟩ := mints.minted
  obtain ⟨printed, deployed, element, requested, hblock, helement, hrequested, hle⟩ := minted.requested
  obtain ⟨value, parsed, hvalue, hparsed, hsmall, hmod, hheight⟩ := dmtBlock_spec hblock
  have hnumber : blkNumber json = some (parsed : ℤ) := by
    simp [blkNumber, jsParseInt, hvalue, hparsed]
  have htext : blkText json = some printed := by
    rw [jsParseIntWithString_eq] at hparsed
    obtain ⟨_, -, hsame⟩ := map_eq_some_iff.1 hparsed
    simp [blkText, hvalue, (Prod.mk.inj hsame).2]
  constructor
  · rintro ⟨n, sound⟩
    have hn : n = block := by
      have hrecord := Option.some.inj (sound.recorded.symm.trans minted.recorded)
      exact congrArg DmtHolderRecord.dmtblck hrecord
    have hwritten : (parsed : ℤ) = n := Option.some.inj (hnumber.symm.trans sound.written)
    constructor
    · intro m hm
      obtain rfl : (parsed : ℤ) = m := Option.some.inj (hnumber.symm.trans hm)
      omega
    · intro element helement hfld hpat text hfound
      obtain rfl : printed = text := Option.some.inj (htext.symm.trans hfound)
      have hpositive := mints.positive
      have hbounded := sound.bounded element helement hfld hpat
      rw [Bool.eq_false_iff]
      intro hradix
      have hzero := jsParseInt_of_radixPrefix hparsed hradix
      omega
  · intro plain
    have hnarrow := plain.narrow _ hnumber
    obtain rfl : block = parsed := by rw [hmod]; exact Nat.mod_eq_of_lt (by omega)
    refine ⟨block, hnumber, hheight, minted.recorded, ?_, ?_, ?_⟩
    · rw [minted.consumed, lookup_insert_ite, if_pos rfl]
      rfl
    · intro other hother hfld hpat
      obtain rfl := Option.some.inj (helement.symm.trans hother)
      simp only [dmtAmount, hfld, if_pos, hpat] at hrequested
      obtain ⟨hbig, -⟩ := Option.filter_eq_some_iff.1 hrequested
      have hsame := jsParseInt_eq_bigint hparsed (by omega)
        (plain.decimal element helement hfld hpat printed htext) hbig
      omega
    · intro later reaches context' created' json' amount' mints' htick hrecorded
      obtain ⟨block', minted'⟩ := mints'.minted
      have hrecord := Option.some.inj (hrecorded.symm.trans minted'.recorded)
      have hsame : block = block' := congrArg DmtHolderRecord.dmtblck hrecord
      have hmarked : (((indexDmtMint env context created).after store).dmtBlk.lookup
          (mintTick env json, block)).isSome := by
        rw [minted.consumed, lookup_insert_ite, if_pos rfl]
        rfl
      have hlater := consumed_of_reaches reaches hmarked
      rw [hsame, ← htick, minted'.unconsumed] at hlater
      cases hlater

/-! ### A mint of one block -/

def dmtElementId : InscriptionId := ⟨1, 0⟩

def dmtDeployId : InscriptionId := ⟨2, 0⟩

def dmtDeployDocument : Json :=
  .object (textFields [("p", "tap"), ("op", "dmt-deploy"), ("tick", "abc")] ++
    [("elem".toList, .string (inscriptionText dmtElementId))])

def dmtMintDocument (blk : String) : Json :=
  .object (textFields [("p", "tap"), ("op", "dmt-mint"), ("tick", "abc"), ("blk", blk)] ++
    [("dep".toList, .string (inscriptionText dmtDeployId))])

/-- The libraries on the documents of the deployment and two mints. -/
def dmtEnv : TapEnv where
  mainnet := true
  parse body :=
    [dmtDeployDocument, dmtMintDocument "5", dmtMintDocument "4294967301"].find? fun json =>
      json.body = body
  toLowercase text := text.map Char.toLower
  jsToLowercase text := text.map Char.toLower
  jsJsonStringifyStr text := '"' :: (text ++ ['"'])
  visibleLength text := text.length
  dogeAddressVersion _ := none
  countGlobalMatches _ _ := none
  sha256 _ := 0
  verifyPrivilege _ _ _ _ _ := none

/-- The element on field 4 without a pattern is known. -/
def dmtContext : TapContext :=
  { sampleContext with
    elementName := fun id => if id = inscriptionText dmtElementId then some "blocks".toList else none
    element := fun key => if key = "\"blocks\"".toList then some ⟨none, 4⟩ else none
    ordinalAvailable := fun id => id = inscriptionText dmtDeployId }

def deployedDmt : TapStore :=
  (indexDmtDeploy dmtEnv dmtContext (inscribed 2 sampleSeller dmtDeployDocument)).after .empty

def dmtMint (blk : String) : Created := inscribed 3 sampleBuyer (dmtMintDocument blk)

/-- Block 5 is minted and consumed. -/
theorem blockFive_sound :
    Mints dmtEnv dmtContext (dmtMint "5") deployedDmt (dmtMintDocument "5") 5 ∧
      ∃ n, MintSound dmtEnv dmtContext (dmtMint "5") deployedDmt (dmtMintDocument "5") 5 n := by
  have mints : Mints dmtEnv dmtContext (dmtMint "5") deployedDmt (dmtMintDocument "5") 5 := by
    refine ⟨by rfl, by decide, 18446744073709551615, ?_, ?_⟩
    · decide
    · decide
  have plain : PlainBlock dmtEnv dmtContext deployedDmt (dmtMintDocument "5") := by
    constructor
    · decide
    · decide
  exact ⟨mints, (dmtMint_sound_iff dmtEnv mints).2 plain⟩

/-- The block 4294967301 is far above the height: the mint takes this amount and consumes block 5. -/
theorem wideBlock_not_sound :
    Run.Reaches (tapStep dmtEnv) (fun _ _ => True) .empty deployedDmt ∧
      Mints dmtEnv dmtContext (dmtMint "4294967301") deployedDmt (dmtMintDocument "4294967301")
        4294967301 ∧
      ((indexDmtMint dmtEnv dmtContext (dmtMint "4294967301")).after deployedDmt).dmtmh.lookup
        (inscriptionText ⟨3, 0⟩) = some ⟨"dmt-abc".toList, 5⟩ ∧
      ¬ ∃ n, MintSound dmtEnv dmtContext (dmtMint "4294967301") deployedDmt
        (dmtMintDocument "4294967301") 4294967301 n := by
  refine ⟨?_, ⟨by rfl, by decide, 18446744073709551615, ?_, ?_⟩, ?_, ?_⟩
  · exact .tail (dmtContext, .dmtDeploy (inscribed 2 sampleSeller dmtDeployDocument)) .refl trivial rfl
  · decide
  · decide
  · decide
  · rintro ⟨n, sound⟩
    have hwritten : blkNumber (dmtMintDocument "4294967301") = some 4294967301 := by decide
    have hn := Option.some.inj (hwritten.symm.trans sound.written)
    have hreached : n ≤ 6000000 := sound.reached
    omega

end OrdDogecoin.Tap
