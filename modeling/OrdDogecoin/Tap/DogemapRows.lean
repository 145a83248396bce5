/-
Module: OrdDogecoin.Tap.DogemapRows
Purpose: What the Dogemap handlers accept and write.  The keys of two numbers have nothing in common,
  and a recorded move adds one record to the history of one number.
Trusted boundary: none
Main exports: inscriptionText_injective, indexBitmapCreated_spec, indexBitmapTransferred_spec
-/
import OrdDogecoin.Tap.Dogemap
import OrdDogecoin.Lib.GuardedRows
import OrdDogecoin.Lib.PrefixCode

namespace OrdDogecoin.Tap

open Chain AtomicBatch KeyTable

/-! ### Texts -/

theorem splitOn_pair {c : Char} {text head tail : Text} (hsplit : text.splitOn c = [head, tail]) :
    text = head ++ c :: tail := by
  have hjoined : List.intercalate [c] (text.splitOn c) = text := List.intercalate_splitOn c
  rw [hsplit] at hjoined
  simpa [List.intercalate] using hjoined.symm

/-- The number written by hexadecimal digits. -/
def readHex (text : Text) : ℕ := text.foldl (fun n c => 16 * n + (toDigit 16 c).getD 0) 0

theorem readHex_append_digit (text : Text) {digit : ℕ} (hdigit : digit < 16) :
    readHex (text ++ [digit.digitChar]) = 16 * readHex text + digit := by
  simp [readHex, toDigit_digitChar digit hdigit]

/-- Hexadecimal digits are read back. -/
theorem readHex_toDigits (n : ℕ) : readHex (Nat.toDigits 16 n) = n := by
  induction n using Nat.strong_induction_on with
  | _ n ih =>
      by_cases hsmall : n < 16
      · rw [Nat.toDigits_of_lt_base hsmall]
        have hread := readHex_append_digit [] hsmall
        simpa [readHex] using hread
      · have hmod : n % 16 < 16 := Nat.mod_lt _ (by decide)
        rw [Nat.toDigits_of_base_le (by decide) (by omega), readHex_append_digit _ hmod,
          ih (n / 16) (by omega)]
        omega

theorem readHex_zeros_append (count : ℕ) (text : Text) :
    readHex (List.replicate count '0' ++ text) = readHex text := by
  have hzeros : readHex (List.replicate count '0') = 0 := by
    induction count with
    | zero => rfl
    | succ count ih =>
        rw [List.replicate_succ']
        have hread : readHex (List.replicate count '0' ++ ['0']) = _ :=
          readHex_append_digit (List.replicate count '0') (by decide : 0 < 16)
        rw [ih] at hread
        exact hread
  unfold readHex at hzeros ⊢
  rw [List.foldl_append, hzeros]

theorem txidText_injective : Function.Injective txidText := by
  intro txid txid' hsame
  have hread := congrArg readHex hsame
  simpa only [txidText, List.leftpad, readHex_zeros_append, readHex_toDigits] using hread

theorem isSome_toDigit_of_mem {n : ℕ} : ∀ c ∈ Nat.toDigits 16 n, (toDigit 16 c).isSome = true := by
  induction n using Nat.strong_induction_on with
  | _ n ih =>
      have hdigit : ∀ digit < 16, (toDigit 16 digit.digitChar).isSome = true := fun digit hdigit => by
        rw [toDigit_digitChar digit hdigit]
        rfl
      intro c hc
      by_cases hsmall : n < 16
      · rw [Nat.toDigits_of_lt_base hsmall, List.mem_singleton] at hc
        exact hc ▸ hdigit n hsmall
      · rw [Nat.toDigits_of_base_le (by decide) (by omega), List.mem_append, List.mem_singleton] at hc
        rcases hc with hc | rfl
        · exact ih (n / 16) (by omega) c hc
        · exact hdigit _ (Nat.mod_lt _ (by decide))

/-- A transaction id does not hold the separator of an inscription id. -/
theorem not_mem_txidText (txid : Txid) : 'i' ∉ txidText txid := by
  intro hmem
  rcases List.mem_append.1 hmem with hzero | hdigit
  · exact absurd (List.eq_of_mem_replicate hzero) (by decide)
  · exact absurd (isSome_toDigit_of_mem _ hdigit) (by decide)

/-- Two inscriptions have two texts. -/
theorem inscriptionText_injective : Function.Injective inscriptionText := by
  rintro ⟨txid, index⟩ ⟨txid', index'⟩ hsame
  obtain ⟨htxid, hindex⟩ := PrefixCode.separated_inj_of_not_mem (not_mem_txidText txid) (not_mem_txidText txid') hsame
  obtain rfl := txidText_injective htxid
  obtain rfl := toDigits_injective hindex
  rfl

/-! ### Bodies -/

/-- The bytes of an ASCII text. -/
def bytesOf (text : Text) : List UInt8 := text.map fun c => c.toNat.toUInt8

theorem ascii_number (n : ℕ) : Utf8.Ascii (Nat.toDigits 10 n ++ ".dogemap".toList) := by
  have htags : ∀ c ∈ ".dogemap".toList, decide (c.toNat < 0x80) = true :=
    List.all_eq_true.1 (by decide)
  intro c hc
  rcases List.mem_append.1 hc with hdigit | htag
  · have hisDigit := Nat.isDigit_of_mem_toDigits (by decide) (by decide) hdigit
    have hrange : c.toNat ≤ 57 := by
      simp only [Char.isDigit, Bool.and_eq_true, decide_eq_true_eq] at hisDigit
      exact hisDigit.2
    omega
  · exact of_decide_eq_true (htags c htag)

/-- A body that decodes to an ASCII text is the bytes of the text. -/
theorem eq_bytesOf {body : List UInt8} {text : Text} (htext : Utf8.fromLossy body = text)
    (hascii : Utf8.Ascii text) : body = bytesOf text := by
  subst htext
  have hbytes := Utf8.bytes_of_ascii hascii
  have hmapped := congrArg (List.map Nat.toUInt8) hbytes
  simpa [bytesOf, List.map_map, Function.comp_def] using hmapped.symm

/-- A body claims a number at or below the height, and is its decimal digits and `.dogemap`. -/
theorem dogemapNumber_spec {height number : ℕ} {body : List UInt8}
    (hnumber : dogemapNumber height body = some number) :
    number ≤ height ∧ number < 2 ^ 63 ∧
      body = bytesOf (Nat.toDigits 10 number ++ ".dogemap".toList) := by
  unfold dogemapNumber at hnumber
  simp only at hnumber
  split at hnumber
  · cases hnumber
  split at hnumber
  next digits tag hsplit =>
    split at hnumber
    · cases hnumber
    next htag =>
      obtain ⟨parsed, hparsed, hrest⟩ := Option.bind_eq_some_iff.1 hnumber
      split at hrest
      · cases hrest
      next hcanonical =>
        split at hrest
        · cases hrest
        next hnegative =>
          split at hrest
          · cases hrest
          next hheight =>
            cases hrest
            have hlt := lt_of_parseI64 hparsed
            refine ⟨by omega, by omega, eq_bytesOf ?_ ?_⟩
            · rw [splitOn_pair hsplit, ← not_not.1 hcanonical, not_not.1 htag,
                intText_of_nonneg (by omega)]
              rfl
            · exact ascii_number _
  next => cases hnumber

theorem bitmapBlockFromMapping_bmKey {number : ℕ} (hnumber : number < 2 ^ 64) :
    bitmapBlockFromMapping (bmKey number) = some number := by
  have hkey : bmKey number = "bm".toList ++ '/' :: Nat.toDigits 10 number := rfl
  unfold bitmapBlockFromMapping
  rw [hkey, List.splitOn_append_cons_self_of_not_mem (by decide),
    List.splitOn_eq_singleton (not_mem_toDigits (by decide) (by decide) (by decide) number)]
  simpa using parseUsize_toDigits hnumber

/-! ### Keys -/

/-- A key of one of the four families of Dogemap. -/
def DogemapKey (key : Text) : Prop :=
  "bm/".toList <+: key ∨ "bmh/".toList <+: key ∨ "bmhl/".toList <+: key ∨ "bmhli/".toList <+: key

instance (key : Text) : Decidable (DogemapKey key) :=
  inferInstanceAs (Decidable (_ ∨ _ ∨ _ ∨ _))

/-- The rows of the history of a number. -/
def OfHistory (number : ℕ) (key : Text) : Prop := OfList (bmhlKey number) (listKey (bmhliKey number)) key

/-- A key of a number: its current record, or its history. -/
def OfNumber (number : ℕ) (key : Text) : Prop := key = bmKey number ∨ OfHistory number key

theorem bmKey_injective : Function.Injective bmKey := fun _ _ hsame =>
  toDigits_injective (List.append_cancel_left hsame)

theorem bmhKey_injective : Function.Injective bmhKey := fun _ _ hsame =>
  inscriptionText_injective (List.append_cancel_left hsame)

theorem dogemapKey_bmKey (number : ℕ) : DogemapKey (bmKey number) := .inl ⟨_, rfl⟩

theorem dogemapKey_bmhKey (id : InscriptionId) : DogemapKey (bmhKey id) :=
  .inr (.inl ⟨_, rfl⟩)

theorem OfNumber.dogemapKey {number : ℕ} {key : Text} (hkey : OfNumber number key) : DogemapKey key := by
  rcases hkey with rfl | rfl | ⟨index, rfl⟩
  · exact .inl ⟨_, rfl⟩
  · exact .inr (.inr (.inl ⟨_, rfl⟩))
  · exact .inr (.inr (.inr ⟨_, (List.append_assoc _ _ _).symm⟩))

theorem OfNumber.ne_bmhKey {number : ℕ} {key : Text} (hkey : OfNumber number key) (id : InscriptionId) :
    key ≠ bmhKey id := by
  rcases hkey with rfl | rfl | ⟨index, rfl⟩
  · exact ne_of_beq_false rfl
  · exact ne_of_beq_false rfl
  · exact ne_of_beq_false rfl

/-- The row of a number is none of its history. -/
theorem bmKey_not_ofHistory (number number' : ℕ) : ¬ OfHistory number (bmKey number') := by
  rintro (hsame | ⟨index, hsame⟩)
  · exact ne_of_beq_false rfl hsame
  · exact ne_of_beq_false rfl hsame

theorem bmhlKey_ne_listKey (number number' index : ℕ) :
    bmhlKey number ≠ listKey (bmhliKey number') index := ne_of_beq_false rfl

theorem DogemapKey.begins {key : Text} (hkey : DogemapKey key) :
    ∃ c rest, key = 'b' :: 'm' :: c :: rest ∧ (c = '/' ∨ c = 'h') := by
  rcases hkey with ⟨rest, rfl⟩ | ⟨rest, rfl⟩ | ⟨rest, rfl⟩ | ⟨rest, rfl⟩
  · exact ⟨'/', rest, rfl, .inl rfl⟩
  all_goals exact ⟨'h', _, rfl, .inr rfl⟩

/-- A key that begins with another letter. -/
theorem not_dogemapKey_cons {c : Char} (hc : c ≠ 'b') (rest : Text) : ¬ DogemapKey (c :: rest) := by
  intro hkey
  obtain ⟨_, _, hsame, -⟩ := hkey.begins
  exact hc (List.cons.inj hsame).1

/-- A key of blocks, or of the list of an owner. -/
theorem not_dogemapKey_bl (rest : Text) : ¬ DogemapKey ('b' :: 'l' :: rest) := by
  intro hkey
  obtain ⟨_, _, hsame, -⟩ := hkey.begins
  simp at hsame

theorem not_dogemapKey_bml (rest : Text) : ¬ DogemapKey ('b' :: 'm' :: 'l' :: rest) := by
  intro hkey
  obtain ⟨c, _, hsame, hc⟩ := hkey.begins
  rcases hc with rfl | rfl <;> simp at hsame

/-- The lists of transactions, blocks and owners hold no such row. -/
theorem not_dogemapKey_txBmKey (txid : Txid) : ¬ DogemapKey (txBmKey txid) :=
  not_dogemapKey_cons (c := 't') (by decide) _

theorem not_dogemapKey_txiBmKey (txid : Txid) (index : ℕ) :
    ¬ DogemapKey (listKey (txiBmKey txid) index) :=
  not_dogemapKey_cons (c := 't') (by decide) _

theorem not_dogemapKey_kindKey (id : InscriptionId) : ¬ DogemapKey (kindKey id) :=
  not_dogemapKey_cons (c := 'k') (by decide) _

theorem not_dogemapKey_tapLeanNextNumberKey : ¬ DogemapKey tapLeanNextNumberKey :=
  not_dogemapKey_cons (c := '_') (by decide) _

theorem not_dogemapKey_blckBmKey (height : ℕ) : ¬ DogemapKey (blckBmKey height) := not_dogemapKey_bl _

theorem not_dogemapKey_blckiBmKey (height index : ℕ) :
    ¬ DogemapKey (listKey (blckiBmKey height) index) := not_dogemapKey_bl _

theorem not_dogemapKey_bmlKey (owner : Address) : ¬ DogemapKey (bmlKey owner) := not_dogemapKey_bml _

theorem not_dogemapKey_bmliKey (owner : Address) (index : ℕ) :
    ¬ DogemapKey (listKey (bmliKey owner) index) := not_dogemapKey_bml _

/-- Two numbers have no key in common. -/
theorem OfNumber.eq {number number' : ℕ} {key : Text} (hkey : OfNumber number key)
    (hkey' : OfNumber number' key) : number = number' := by
  rcases hkey with rfl | rfl | ⟨index, rfl⟩
  · rcases hkey' with hsame | hhistory
    · exact bmKey_injective hsame
    · exact absurd hhistory (bmKey_not_ofHistory number' number)
  · rcases hkey' with hsame | hsame | ⟨index', hsame⟩
    · exact absurd hsame (ne_of_beq_false rfl)
    · exact toDigits_injective (List.append_cancel_left hsame)
    · exact absurd hsame (bmhlKey_ne_listKey number number' index')
  · rcases hkey' with hsame | hsame | ⟨index', hsame⟩
    · exact absurd hsame (ne_of_beq_false rfl)
    · exact absurd hsame.symm (bmhlKey_ne_listKey number' number index)
    · have hslash : ∀ n, '/' ∉ Nat.toDigits 10 n := not_mem_toDigits (by decide) (by decide) (by decide)
      have hsame := (List.append_assoc _ _ _).symm.trans (hsame.trans (List.append_assoc _ _ _))
      have hdigits := PrefixCode.separated_inj_of_not_mem (hslash number) (hslash number')
        (List.append_cancel_left hsame)
      exact toDigits_injective hdigits.1

/-! ### Handlers -/

section Effects

variable {V : Type} {codec : RowCodec V} {block : BlockTime} {state : KvState V} {number : ℕ}

theorem RowCodec.Lawful.lengthRow (lawful : codec.Lawful) : codec.lengthRow.Lawful := by
  intro length hlength
  simp [RowCodec.lengthRow, lawful.length, parseUsize_toDigits hlength]

/-- A list of another family. -/
theorem appendRow_sameOn (codec : RowCodec V) (lengthKey iteratorKey : Text) (data : V)
    {guarded : Text → Prop} (quiet : state.view.Quiet guarded) (hlength : ¬ guarded lengthKey)
    (hitem : ∀ index, ¬ guarded (listKey iteratorKey index)) :
    Store.SameOn guarded state.view (appendRow codec lengthKey iteratorKey data state).view := by
  have hview := (state.view_tapSetListRecord codec.lengthRow lengthKey iteratorKey data).2
  unfold appendRow
  rw [hview]
  exact .append codec.lengthRow quiet hlength hitem data

theorem sameOn_tapPut {guarded : Text → Prop} {store : Store Text V}
    (same : Store.SameOn guarded store state.view) {key : Text} (hkey : ¬ guarded key) (value : V) :
    Store.SameOn guarded store (state.tapPut key value).view := by
  rw [KvState.view_tapPut]
  exact same.trans (.put same.quiet hkey value)

/-- The record is the last of the history of its number, and no other row of Dogemap changes. -/
theorem listRecord_spec (lawful : codec.Lawful) (block : BlockTime) {rows : List V}
    (hclosed : state.view.batch = none)
    (holds : state.view.HoldsList codec.lengthRow (bmhlKey number) (listKey (bmhliKey number)) rows)
    (hfits : rows.length + 1 < 2 ^ 64) (txid : Txid) (record : BitmapRecord) :
    (listRecord codec block number txid record state).view.HoldsList codec.lengthRow (bmhlKey number)
        (listKey (bmhliKey number)) (rows ++ [codec.encodeRecord record]) ∧
      Store.SameOn (fun key => DogemapKey key ∧ ¬ OfHistory number key) state.view
        (listRecord codec block number txid record state).view ∧
      (listRecord codec block number txid record state).view.Quiet DogemapKey := by
  obtain ⟨hlength, hview⟩ := state.view_tapSetListRecord codec.lengthRow (bmhlKey number)
    (bmhliKey number) (codec.encodeRecord record)
  obtain ⟨happended, hlist⟩ := holds.append lawful.lengthRow hclosed (listKey_injective _)
    (bmhlKey_ne_listKey number number) (codec.encodeRecord record) hfits
  have hhistory : Store.SameOn (fun key => DogemapKey key ∧ ¬ OfHistory number key) state.view
      (state.view.append codec.lengthRow (bmhlKey number) (listKey (bmhliKey number))
        (codec.encodeRecord record)).2 :=
    .append codec.lengthRow (.of_closed hclosed) (fun hkey => hkey.2 (.inl rfl))
      (fun index hkey => hkey.2 (.inr ⟨index, rfl⟩)) _
  have hquiet := Store.append_closed hclosed codec.lengthRow (bmhlKey number)
    (listKey (bmhliKey number)) (codec.encodeRecord record)
  rw [← hview] at hlist hhistory hquiet
  rw [happended] at hlength
  unfold listRecord
  rcases hpair : state.tapSetListRecord codec.lengthRow (bmhlKey number) (bmhliKey number)
    (codec.encodeRecord record) with ⟨listLen, next⟩
  rw [hpair] at hlength hlist hhistory hquiet
  simp only at hlength hlist hhistory hquiet
  subst hlength
  simp only
  have htx := appendRow_sameOn codec (txBmKey txid) (txiBmKey txid)
    (codec.encodeText (listKey (bmhliKey number) (recordIndex (rows.length + 1))))
    (.of_closed hquiet) (not_dogemapKey_txBmKey txid) (not_dogemapKey_txiBmKey txid)
  have hblck := appendRow_sameOn codec (blckBmKey block.height) (blckiBmKey block.height)
    (codec.encodeText (listKey (bmhliKey number) (recordIndex (rows.length + 1))))
    htx.quiet (not_dogemapKey_blckBmKey block.height) (not_dogemapKey_blckiBmKey block.height)
  have hlisted := htx.trans hblck
  exact ⟨hlist.sameOn hlisted fun key hkey => OfNumber.dogemapKey (.inr hkey),
    hhistory.trans (hlisted.mono fun key hkey => hkey.1), hlisted.quiet⟩

/-- What a recorded move leaves of the rows of Dogemap: the record is the last one of its number, and
the rows of other numbers are as before, as are the mappings but one. -/
structure Written (codec : RowCodec V) (store store' : Store Text V) (number : ℕ)
    (record : BitmapRecord) (rows : List V) (mapped : Text → Prop) : Prop where
  history : store'.HoldsList codec.lengthRow (bmhlKey number) (listKey (bmhliKey number))
    (rows ++ [codec.encodeRecord record])
  latest : store'.rows.lookup (bmKey number) = some (codec.encodeRecord record)
  others : Store.SameOn (fun key => DogemapKey key ∧ ¬ OfNumber number key ∧ ¬ mapped key) store store'
  quiet : store'.Quiet DogemapKey

/-- The current record and the history are written one after the other. -/
theorem Written.of_listRecord (lawful : codec.Lawful) (block : BlockTime) (state : KvState V)
    (record : BitmapRecord) (mapped : Text → Prop) (txid : Txid) {state' : KvState V}
    {store : Store Text V} {rows : List V} (hclosed : state.view.batch = none)
    (holds : state.view.HoldsList codec.lengthRow (bmhlKey number) (listKey (bmhliKey number)) rows)
    (hfits : rows.length + 1 < 2 ^ 64)
    (hlatest : state.view.rows.lookup (bmKey number) = some (codec.encodeRecord record))
    (hbefore : Store.SameOn (fun key => DogemapKey key ∧ ¬ OfNumber number key ∧ ¬ mapped key) store
      state.view)
    (hafter : (listRecord codec block number txid record state).view.Quiet DogemapKey →
      Store.SameOn DogemapKey (listRecord codec block number txid record state).view state'.view) :
    Written codec store state'.view number record rows mapped ∧
      Store.SameOn (fun key => DogemapKey key ∧ ¬ OfHistory number key) state.view state'.view := by
  obtain ⟨hhistory, hlisted, hquiet⟩ := listRecord_spec lawful block hclosed holds hfits txid record
  have hsame := hafter hquiet
  have hrest := hlisted.trans (hsame.mono fun key hkey => hkey.1)
  refine ⟨⟨?_, ?_, ?_, hsame.quiet⟩, hrest⟩
  · exact hhistory.sameOn hsame fun key hkey => OfNumber.dogemapKey (.inr hkey)
  · rw [hrest.rows (bmKey number) ⟨.inl ⟨_, rfl⟩, bmKey_not_ofHistory number number⟩]
    exact hlatest
  · exact hbefore.trans (hrest.mono fun key hkey => ⟨hkey.1, fun hkey' => hkey.2.1 (.inr hkey')⟩)

/-- What a claim has checked. -/
theorem claimedNumber_spec {created : BitmapCreated}
    (hclaimed : claimedNumber codec block created state = some number) :
    ∃ body, created.body = some body ∧ dogemapNumber block.height body = some number ∧
      getRecord codec state (bmKey number) = none := by
  unfold claimedNumber at hclaimed
  split at hclaimed
  · cases hclaimed
  obtain ⟨body, hbody, hrest⟩ := Option.bind_eq_some_iff.1 hclaimed
  obtain ⟨hnumber, hfree⟩ := Option.filter_eq_some_iff.1 hrest
  exact ⟨body, hbody, hnumber, Option.isNone_iff_eq_none.1 hfree⟩

theorem indexBitmapCreated_spec (lawful : codec.Lawful) {created : BitmapCreated}
    {state state' : KvState V} {rows : List V} (hclosed : state.atomic = none)
    (holds : state.view.HoldsList codec.lengthRow (bmhlKey number) (listKey (bmhliKey number)) rows)
    (hfits : rows.length + 1 < 2 ^ 64)
    (hcreated : indexBitmapCreated codec block created state = some (number, state')) :
    claimedNumber codec block created state = some number ∧
      Written codec state.view state'.view number (createdRecord block created number) rows
        (· = bmhKey created.inscriptionId) ∧
      state'.view.rows.lookup (bmhKey created.inscriptionId) = some (codec.encodeText (bmKey number)) := by
  unfold indexBitmapCreated at hcreated
  obtain ⟨claimed, hclaimed, hsame⟩ := Option.map_eq_some_iff.1 hcreated
  simp only [Prod.mk.injEq] at hsame
  obtain ⟨rfl, rfl⟩ := hsame
  refine ⟨hclaimed, ?_⟩
  have hstore : state.view.batch = none := hclosed
  let record := createdRecord block created claimed
  let mapped := (state.tapPut (bmKey claimed) (codec.encodeRecord record)).tapPut
    (bmhKey created.inscriptionId) (codec.encodeText (bmKey claimed))
  have hview : mapped.view = (state.view.put (bmKey claimed) (codec.encodeRecord record)).put
      (bmhKey created.inscriptionId) (codec.encodeText (bmKey claimed)) := by
    rw [KvState.view_tapPut, KvState.view_tapPut]
  have hclosed' : mapped.view.batch = none := by
    rw [hview, Store.put_closed hstore, Store.put_closed rfl]
  have hrows : mapped.view.rows = (state.view.rows.insert (bmKey claimed)
      (codec.encodeRecord record)).insert (bmhKey created.inscriptionId)
        (codec.encodeText (bmKey claimed)) := by
    rw [hview, Store.put_closed hstore, Store.put_closed rfl]
  have hput : ∀ {guarded : Text → Prop}, ¬ guarded (bmKey claimed) →
      ¬ guarded (bmhKey created.inscriptionId) → Store.SameOn guarded state.view mapped.view := by
    intro guarded hbm hbmh
    rw [hview]
    have hfirst := Store.SameOn.put (.of_closed hstore) hbm (codec.encodeRecord record)
    exact hfirst.trans (.put hfirst.quiet hbmh _)
  have hbm : bmKey claimed ≠ bmhKey created.inscriptionId := OfNumber.ne_bmhKey (.inl rfl) _
  have hbmh : ¬ OfHistory claimed (bmhKey created.inscriptionId) := fun hkey =>
    OfNumber.ne_bmhKey (.inr hkey) created.inscriptionId rfl
  obtain ⟨hwritten, hrest⟩ := Written.of_listRecord lawful block mapped record
    (· = bmhKey created.inscriptionId) created.satpoint.outpoint.txid hclosed'
    (holds.sameOn (hput (bmKey_not_ofHistory claimed claimed) hbmh) fun _ hkey => hkey) hfits
    (by rw [hrows, lookup_insert_ite, if_neg hbm, lookup_insert_ite, if_pos rfl])
    (hput (fun hkey => hkey.2.1 (.inl rfl)) (fun hkey => hkey.2.2 rfl)) fun hquiet =>
      sameOn_tapPut (appendRow_sameOn codec (bmlKey created.ownerAddress)
        (bmliKey created.ownerAddress) (codec.encodeText (inscriptionText created.inscriptionId)) hquiet
        (not_dogemapKey_bmlKey _) (not_dogemapKey_bmliKey _))
        (not_dogemapKey_kindKey created.inscriptionId) (codec.encodeText "bm".toList)
  refine ⟨hwritten, ?_⟩
  rw [hrest.rows _ ⟨dogemapKey_bmhKey _, hbmh⟩, hrows, lookup_insert_ite, if_pos rfl]

theorem indexBitmapTransferred_spec (lawful : codec.Lawful) {moved : BitmapMoved}
    {state state' : KvState V} {rows : List V} (hclosed : state.atomic = none)
    (holds : state.view.HoldsList codec.lengthRow (bmhlKey number) (listKey (bmhliKey number)) rows)
    (hfits : rows.length + 1 < 2 ^ 64)
    (hmoved : indexBitmapTransferred codec block moved state = some (number, state')) :
    ∃ prev entryNumber, (getText codec state (bmhKey moved.inscriptionId)).bind
          bitmapBlockFromMapping = some number ∧
      getRecord codec state (bmKey number) = some prev ∧
      Written codec state.view state'.view number
        (movedRecord block moved number prev.ownr entryNumber) rows (fun _ => False) := by
  unfold indexBitmapTransferred at hmoved
  obtain ⟨mapping, hmapping, hrest⟩ := Option.bind_eq_some_iff.1 hmoved
  obtain ⟨found, hfound, hrest⟩ := Option.bind_eq_some_iff.1 hrest
  obtain ⟨prev, hprev, hrest⟩ := Option.bind_eq_some_iff.1 hrest
  obtain ⟨entryNumber, hrest⟩ := Proc.of_bind hrest
  simp only [Option.some.injEq, Prod.mk.injEq] at hrest
  obtain ⟨rfl, rfl⟩ := hrest
  refine ⟨prev, entryNumber, by rw [hmapping]; exact hfound, hprev, ?_⟩
  have hstore : state.view.batch = none := hclosed
  let record := movedRecord block moved found prev.ownr entryNumber
  have hview := state.view_tapPut (bmKey found) (codec.encodeRecord record)
  have hput : ∀ {guarded : Text → Prop}, ¬ guarded (bmKey found) → Store.SameOn guarded state.view
      (state.tapPut (bmKey found) (codec.encodeRecord record)).view := by
    intro guarded hbm
    rw [hview]
    exact .put (.of_closed hstore) hbm _
  exact (Written.of_listRecord lawful block (state.tapPut (bmKey found) (codec.encodeRecord record))
    record (fun _ => False) moved.newSatpoint.outpoint.txid
    (by rw [hview, Store.put_closed hstore])
    (holds.sameOn (hput (bmKey_not_ofHistory found found)) fun _ hkey => hkey) hfits
    (by rw [hview, Store.put_closed hstore, lookup_insert_ite, if_pos rfl])
    (hput fun hkey => hkey.2.1 (.inl rfl)) fun hquiet =>
      appendRow_sameOn codec (bmlKey (recordedOwner moved.ownerAddress))
        (bmliKey (recordedOwner moved.ownerAddress)) (codec.encodeText (inscriptionText moved.inscriptionId))
        hquiet (not_dogemapKey_bmlKey _) (not_dogemapKey_bmliKey _)).1

end Effects

end OrdDogecoin.Tap
