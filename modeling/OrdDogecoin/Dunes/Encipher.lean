/-
Module: OrdDogecoin.Dunes.Encipher
Purpose: Enciphering a dunestone into an output script, and what deciphering a transaction with that
  script gives back.  The encoder keeps everything but the terms and the turbo flag of an etching.
Trusted boundary: `pushSlice` follows the documented behaviour of the script builder; the numbers of
  a dunestone are naturals in the ranges of their types (`Dunestone.InRange`)
Main exports: encodeVarint, integers_encode, decipher_encipher_iff
-/
import OrdDogecoin.Dunes.Dunestone
import OrdDogecoin.Lib.LittleEndian
import Mathlib.Data.List.Sort

namespace OrdDogecoin.Dunes

open Chain

/-! ### Varints -/

/-- The loop of `varint::encode_to_vec` from the last of its 19 slots down: every byte but the last
carries the high bit. -/
def encodeSlots : ℕ → Bool → ℕ → List UInt8
  | 0, _, _ => []
  | slots + 1, last, n =>
      let byte := UInt8.ofNat (n % 128 + if last then 0 else 128)
      if n < 128 then [byte] else encodeSlots slots false (n / 128 - 1) ++ [byte]

/-- `varint::encode_to_vec`. -/
def encodeVarint (n : ℕ) : List UInt8 := encodeSlots 19 true n

/-! ### Enciphering -/

/-- `Tag::encode`, before the varints are written. -/
def Tag.encode (tag : Tag) (value : ℕ) : List ℕ := [tag.value, value]

/-- `Tag::encode` of a field that may be absent. -/
def Tag.encodeOption (tag : Tag) (value : Option ℕ) : List ℕ := (value.map tag.encode).getD []

def bodyTag : ℕ := 0

def cenotaphTag : ℕ := 254

/-- The flags `encipher` sets: where the etching has terms it sets the flag of the etching again. -/
def Etching.flags (etching : Etching) : ℕ :=
  let flags := 0 ||| 1
  if etching.terms.isSome then flags ||| 1 else flags

/-- The terms that are written: limit, end height and cap. -/
def Terms.encode (terms : Terms) : List ℕ :=
  Tag.limit.encodeOption terms.limit ++ Tag.heightEnd.encodeOption terms.height.2 ++
    Tag.cap.encodeOption terms.cap

def Etching.encode (etching : Etching) : List ℕ :=
  Tag.flags.encode etching.flags ++ Tag.dune.encodeOption etching.dune ++
    Tag.divisibility.encodeOption etching.divisibility ++ Tag.spacers.encodeOption etching.spacers ++
    Tag.symbol.encodeOption etching.symbol ++ Tag.premine.encodeOption etching.premine ++
    (etching.terms.map Terms.encode).getD []

/-- The body: every id as its distance from the one before. -/
def edictDeltas : ℕ → List Edict → List ℕ
  | _, [] => []
  | id, edict :: edicts =>
      (edict.id - id) :: edict.amount :: edict.output :: edictDeltas edict.id edicts

/-- `sort_by_key(|edict| edict.id)`, a stable sort. -/
def sortEdicts (edicts : List Edict) : List Edict := edicts.insertionSort fun a b => a.id ≤ b.id

def Dunestone.body (dunestone : Dunestone) : List ℕ :=
  if dunestone.edicts.isEmpty then [] else bodyTag :: edictDeltas 0 (sortEdicts dunestone.edicts)

/-- The integers of the payload of `Dunestone::encipher`. -/
def Dunestone.toIntegers (dunestone : Dunestone) : List ℕ :=
  (dunestone.etching.map Etching.encode).getD [] ++ Tag.pointer.encodeOption dunestone.pointer ++
    (if dunestone.cenotaph then [cenotaphTag, 0] else []) ++ dunestone.body

/-- `Builder::push_slice` of the bitcoin crate: the shortest push of at most 65535 bytes. -/
def pushSlice (bytes : List UInt8) : List UInt8 :=
  if bytes.length < 0x4c then UInt8.ofNat bytes.length :: bytes
  else if bytes.length < 0x100 then 0x4c :: LittleEndian.toLeBytes 1 bytes.length ++ bytes
  else 0x4d :: LittleEndian.toLeBytes 2 bytes.length ++ bytes

/-- `slice::chunks`: the last chunk may be shorter.  The count bounds the number of chunks. -/
def chunksFrom (size : ℕ) : ℕ → List UInt8 → List (List UInt8)
  | 0, _ => []
  | n + 1, bytes =>
      if bytes.isEmpty then [] else bytes.take size :: chunksFrom size n (bytes.drop size)

def maxScriptElementSize : ℕ := 520

def Dunestone.encipher (dunestone : Dunestone) : Script :=
  let payload := dunestone.toIntegers.flatMap encodeVarint
  opReturn :: pushSlice [0x44] ++
    (chunksFrom maxScriptElementSize payload.length payload).flatMap pushSlice

/-! ### Reading varints back -/

variable {n : ℕ}

theorem saturate_of_le (hle : n ≤ maxU128) : saturate n = n := min_eq_left hle

theorem integersFrom_cons (pending : Option ℕ) (byte : UInt8) (bytes : List UInt8) :
    integersFrom pending (byte :: bytes) =
      if byte.toNat < 128 then
        saturate (saturate (pending.getD 0 * 128) + byte.toNat) :: integersFrom none bytes
      else
        integersFrom (some (saturate (saturate (pending.getD 0 * 128) + (byte.toNat - 127)))) bytes := by
  cases pending <;> rfl

/-- A byte with the high bit. -/
theorem integersFrom_high {pending : Option ℕ} (hvalue : pending.getD 0 * 128 + n % 128 = n)
    (hle : n < maxU128) (rest : List UInt8) :
    integersFrom pending (UInt8.ofNat (n % 128 + 128) :: rest) = integersFrom (some (n + 1)) rest := by
  have hbyte : (UInt8.ofNat (n % 128 + 128)).toNat = n % 128 + 128 := by
    rw [UInt8.toNat_ofNat']
    omega
  have hinner : saturate (pending.getD 0 * 128) = pending.getD 0 * 128 := saturate_of_le (by omega)
  have hsum : pending.getD 0 * 128 + (n % 128 + 128 - 127) = n + 1 := by omega
  rw [integersFrom_cons, hbyte, if_neg (by omega), hinner, hsum, saturate_of_le (by omega)]

/-- A byte without it ends the number. -/
theorem integersFrom_low {pending : Option ℕ} (hvalue : pending.getD 0 * 128 + n % 128 = n)
    (hle : n ≤ maxU128) (rest : List UInt8) :
    integersFrom pending (UInt8.ofNat (n % 128) :: rest) = n :: integersFrom none rest := by
  have hbyte : (UInt8.ofNat (n % 128)).toNat = n % 128 := by
    rw [UInt8.toNat_ofNat']
    omega
  have hinner : saturate (pending.getD 0 * 128) = pending.getD 0 * 128 := saturate_of_le (by omega)
  rw [integersFrom_cons, hbyte, if_pos (by omega), hinner, hvalue, saturate_of_le hle]

/-- The bytes with the high bit leave their number plus one to the last byte. -/
theorem integersFrom_encodeSlots (slots : ℕ) (hslots : n < 128 ^ (slots + 1)) (hle : n < maxU128)
    (rest : List UInt8) :
    integersFrom none (encodeSlots (slots + 1) false n ++ rest) = integersFrom (some (n + 1)) rest := by
  induction slots generalizing n rest with
  | zero =>
      have hsmall : n < 128 := by simpa using hslots
      rw [encodeSlots, if_pos hsmall]
      exact integersFrom_high (by rw [Option.getD_none]; omega) hle rest
  | succ slots ih =>
      rw [encodeSlots]
      by_cases hsmall : n < 128
      · rw [if_pos hsmall]
        exact integersFrom_high (by rw [Option.getD_none]; omega) hle rest
      · have hhigh : n / 128 - 1 < 128 ^ (slots + 1) := by
          have hdiv : n / 128 < 128 ^ (slots + 1) := Nat.div_lt_of_lt_mul (by rwa [← pow_succ'])
          omega
        rw [if_neg hsmall, List.append_assoc, ih hhigh (by omega)]
        exact integersFrom_high (by rw [Option.getD_some]; omega) hle rest

/-- A varint is read back, whatever follows it. -/
theorem integersFrom_encodeVarint (hle : n ≤ maxU128) (rest : List UInt8) :
    integersFrom none (encodeVarint n ++ rest) = n :: integersFrom none rest := by
  have hbound : maxU128 < 128 ^ 19 := by decide
  unfold encodeVarint
  rw [encodeSlots]
  by_cases hsmall : n < 128
  · rw [if_pos hsmall]
    exact integersFrom_low (by rw [Option.getD_none]; omega) hle rest
  · have hhigh : n / 128 - 1 < 128 ^ 18 := by
      have hdiv : n / 128 < 128 ^ 18 :=
        Nat.div_lt_of_lt_mul (by rw [← pow_succ']; exact Nat.lt_of_le_of_lt hle hbound)
      omega
    rw [if_neg hsmall, List.append_assoc, integersFrom_encodeSlots 17 hhigh (by omega)]
    exact integersFrom_low (by rw [Option.getD_some]; omega) hle rest

/-- A payload of varints is read back. -/
theorem integers_encode {numbers : List ℕ} (hle : ∀ n ∈ numbers, n ≤ maxU128) :
    integers (numbers.flatMap encodeVarint) = numbers := by
  unfold integers
  induction numbers with
  | nil => rfl
  | cons n numbers ih =>
      obtain ⟨hfirst, hrest⟩ := List.forall_mem_cons.1 hle
      rw [List.flatMap_cons, integersFrom_encodeVarint hfirst, ih hrest]

/-! ### Reading the script back -/

theorem chunksFrom_spec {size : ℕ} (hsize : 0 < size) (n : ℕ) (bytes : List UInt8)
    (hlength : bytes.length ≤ n) :
    (chunksFrom size n bytes).flatten = bytes ∧
      ∀ chunk ∈ chunksFrom size n bytes, chunk.length ≤ size := by
  induction n generalizing bytes with
  | zero =>
      obtain rfl : bytes = [] := List.length_eq_zero_iff.1 (by omega)
      exact ⟨rfl, by simp [chunksFrom]⟩
  | succ n ih =>
      rw [chunksFrom]
      cases bytes with
      | nil => simp
      | cons byte bytes =>
          have hrest : ((byte :: bytes).drop size).length ≤ n := by
            rw [List.length_drop]
            simp only [List.length_cons] at hlength ⊢
            omega
          obtain ⟨hflatten, hchunks⟩ := ih _ hrest
          rw [if_neg (by simp), List.flatten_cons, hflatten, List.take_append_drop]
          refine ⟨rfl, List.forall_mem_cons.2 ⟨?_, hchunks⟩⟩
          rw [List.length_take]
          exact min_le_left _ _

theorem leValue_eq (bytes : List UInt8) : leValue bytes = LittleEndian.ofLeBytes bytes := by
  induction bytes with
  | nil => rfl
  | cons byte bytes ih => rw [LittleEndian.ofLeBytes, ← ih]; rfl

/-- A push whose length stands behind its opcode. -/
theorem instructionsFrom_pushData {code : UInt8} {width : ℕ} (hcode : pushLengthBytes code = some width)
    {bytes : List UInt8} (hlength : bytes.length < 256 ^ width) (n : ℕ) (rest : Script) :
    instructionsFrom (n + 1) (code :: LittleEndian.toLeBytes width bytes.length ++ bytes ++ rest) =
      some (.pushBytes bytes) :: instructionsFrom n rest := by
  have hwidth := LittleEndian.length_toLeBytes width bytes.length
  have hvalue : leValue (LittleEndian.toLeBytes width bytes.length) = bytes.length := by
    rw [leValue_eq, LittleEndian.ofLeBytes_toLeBytes, Nat.mod_eq_of_lt hlength]
  generalize LittleEndian.toLeBytes width bytes.length = header at hwidth hvalue
  rw [List.append_assoc, List.cons_append, instructionsFrom, hcode]
  dsimp only
  rw [if_neg (by simp [hwidth]), List.take_left' hwidth, List.drop_left' hwidth, hvalue,
    if_neg (by simp), List.take_left, List.drop_left]

/-- A push whose opcode is its length. -/
theorem instructionsFrom_pushBytes {bytes : List UInt8} (hlength : bytes.length < 0x4c) (n : ℕ)
    (rest : Script) :
    instructionsFrom (n + 1) (UInt8.ofNat bytes.length :: bytes ++ rest) =
      some (.pushBytes bytes) :: instructionsFrom n rest := by
  have hcode : (UInt8.ofNat bytes.length).toNat = bytes.length := by
    rw [UInt8.toNat_ofNat']
    omega
  have hnone : pushLengthBytes (UInt8.ofNat bytes.length) = none := by
    have hne : ∀ code : UInt8, 0x4c ≤ code.toNat → UInt8.ofNat bytes.length ≠ code := by
      intro code hlarge heq
      rw [← heq, hcode] at hlarge
      omega
    unfold pushLengthBytes
    rw [if_neg (hne _ (by decide)), if_neg (hne _ (by decide)), if_neg (hne _ (by decide))]
  have hdirect : UInt8.ofNat bytes.length ≤ 0x4b := by
    rw [UInt8.le_iff_toNat_le, hcode]
    change bytes.length ≤ 75
    omega
  rw [List.cons_append, instructionsFrom, hnone]
  dsimp only
  rw [if_pos hdirect, hcode, if_neg (by simp), List.take_left, List.drop_left]

theorem instructionsFrom_pushSlice {bytes : List UInt8} (hlength : bytes.length < 2 ^ 16) (n : ℕ)
    (rest : Script) :
    instructionsFrom (n + 1) (pushSlice bytes ++ rest) =
      some (.pushBytes bytes) :: instructionsFrom n rest := by
  unfold pushSlice
  split
  next hshort => exact instructionsFrom_pushBytes hshort n rest
  next =>
    split
    next hmedium => exact instructionsFrom_pushData (by decide) hmedium n rest
    next => exact instructionsFrom_pushData (by decide) hlength n rest

theorem pushSlice_ne_nil (bytes : List UInt8) : 0 < (pushSlice bytes).length := by
  unfold pushSlice
  split
  · simp
  · split <;> simp

/-- Pushes are read back, one instruction each. -/
theorem instructionsFrom_pushes {chunks : List (List UInt8)}
    (hchunks : ∀ chunk ∈ chunks, chunk.length < 2 ^ 16)
    (hcount : (chunks.flatMap pushSlice).length ≤ n) :
    instructionsFrom n (chunks.flatMap pushSlice) =
      chunks.map fun chunk => some (.pushBytes chunk) := by
  induction chunks generalizing n with
  | nil => cases n <;> rfl
  | cons chunk chunks ih =>
      obtain ⟨hfirst, hrest⟩ := List.forall_mem_cons.1 hchunks
      have hpos := pushSlice_ne_nil chunk
      rw [List.flatMap_cons, List.length_append] at hcount
      obtain ⟨n, rfl⟩ : ∃ m, n = m + 1 := ⟨n - 1, by omega⟩
      rw [List.flatMap_cons, instructionsFrom_pushSlice hfirst, ih hrest (by omega), List.map_cons]

theorem pushedBytes_pushes (chunks : List (List UInt8)) :
    pushedBytes (chunks.map fun chunk => some (.pushBytes chunk)) = some chunks.flatten := by
  induction chunks with
  | nil => rfl
  | cons chunk chunks ih =>
      rw [List.map_cons, pushedBytes, ih]
      rfl

/-- The instructions of an enciphered dunestone: the marker and the chunks of the payload. -/
theorem instructions_encipher (dunestone : Dunestone) :
    ∃ chunks : List (List UInt8),
      instructions dunestone.encipher =
        some (.op opReturn) :: some (.pushBytes [0x44]) ::
          chunks.map (fun chunk => some (.pushBytes chunk)) ∧
      chunks.flatten = dunestone.toIntegers.flatMap encodeVarint := by
  obtain ⟨hflatten, hchunks⟩ := chunksFrom_spec (by decide : 0 < maxScriptElementSize) _
    (dunestone.toIntegers.flatMap encodeVarint) le_rfl
  refine ⟨_, ?_, hflatten⟩
  have hshort : ∀ chunk ∈ chunksFrom maxScriptElementSize _
      (dunestone.toIntegers.flatMap encodeVarint), chunk.length < 2 ^ 16 :=
    fun chunk hchunk => (hchunks chunk hchunk).trans_lt (by decide)
  unfold Dunestone.encipher instructions
  dsimp only
  rw [List.length_append, List.length_cons]
  generalize chunksFrom _ _ _ = chunks at hshort
  have hmarker : (pushSlice [0x44]).length = 2 := rfl
  rw [hmarker, show 2 + 1 + (chunks.flatMap pushSlice).length =
    ((chunks.flatMap pushSlice).length + 1 + 1) + 1 by omega, List.cons_append, instructionsFrom]
  change some (Instruction.op opReturn) :: instructionsFrom _ _ = _
  rw [instructionsFrom_pushSlice (by decide), instructionsFrom_pushes hshort (by omega)]

/-! ### Reading the fields back -/

/-- The tags of the fields in the order they are written, each with its value if there is one. -/
def Dunestone.entries (dunestone : Dunestone) : List (ℕ × Option ℕ) :=
  let etching := dunestone.etching
  let terms := etching.bind Etching.terms
  [(Tag.flags.value, etching.map Etching.flags), (Tag.dune.value, etching.bind Etching.dune),
    (Tag.divisibility.value, etching.bind Etching.divisibility),
    (Tag.spacers.value, etching.bind Etching.spacers), (Tag.symbol.value, etching.bind Etching.symbol),
    (Tag.premine.value, etching.bind Etching.premine), (Tag.limit.value, terms.bind Terms.limit),
    (Tag.heightEnd.value, terms.bind fun terms => terms.height.2), (Tag.cap.value, terms.bind Terms.cap),
    (Tag.pointer.value, dunestone.pointer),
    (cenotaphTag, if dunestone.cenotaph then some 0 else none)]

def entryIntegers (entry : ℕ × Option ℕ) : List ℕ := (entry.2.map fun value => [entry.1, value]).getD []

theorem toIntegers_eq (dunestone : Dunestone) :
    dunestone.toIntegers = dunestone.entries.flatMap entryIntegers ++ dunestone.body := by
  have hoption : ∀ (tag : Tag) (value : Option ℕ),
      tag.encodeOption value = entryIntegers (tag.value, value) := fun _ _ => rfl
  unfold Dunestone.toIntegers Dunestone.entries
  cases dunestone.etching with
  | none => cases dunestone.cenotaph <;> simp [hoption, entryIntegers]
  | some etching =>
      cases hterms : etching.terms with
      | none =>
          cases dunestone.cenotaph <;>
            simp [hoption, Etching.encode, Tag.encode, entryIntegers, hterms]
      | some terms =>
          cases dunestone.cenotaph <;>
            simp [hoption, Etching.encode, Terms.encode, Tag.encode, entryIntegers, hterms]

/-- Write a field if it has a value. -/
def putEntry (fields : Fields) (entry : ℕ × Option ℕ) : Fields :=
  match entry.2 with
  | none => fields
  | some value => fields.insert entry.1 value

theorem lookup_putEntry (fields : Fields) (entry : ℕ × Option ℕ) (tag : ℕ) :
    (putEntry fields entry).lookup tag =
      if tag = entry.1 then entry.2.or (fields.lookup tag) else fields.lookup tag := by
  obtain ⟨written, _ | value⟩ := entry
  · simp [putEntry]
  · rw [putEntry, KeyTable.lookup_insert_ite]
    simp

theorem fresh_putEntry {fields : Fields} {entry : ℕ × Option ℕ} {tags : List ℕ}
    (hnew : entry.1 ∉ tags) (hfresh : ∀ tag ∈ tags, fields.lookup tag = none) :
    ∀ tag ∈ tags, (putEntry fields entry).lookup tag = none := by
  intro tag hmem
  have hne : tag ≠ entry.1 := fun heq => hnew (heq ▸ hmem)
  rw [lookup_putEntry, if_neg hne]
  exact hfresh tag hmem

/-- Fields with different tags are all kept. -/
theorem fromIntegers_entries (outputs : ℕ) {entries : List (ℕ × Option ℕ)}
    (hnodup : (entries.map Prod.fst).Nodup) (hzero : 0 ∉ entries.map Prod.fst) {fields : Fields}
    (hfresh : ∀ tag ∈ entries.map Prod.fst, fields.lookup tag = none) (rest : List ℕ) :
    Message.fromIntegers outputs (entries.flatMap entryIntegers ++ rest) fields =
      Message.fromIntegers outputs rest (entries.foldl putEntry fields) := by
  induction entries generalizing fields with
  | nil => rfl
  | cons entry entries ih =>
      obtain ⟨hnew, hnodup⟩ := List.nodup_cons.1 hnodup
      obtain ⟨hfirst, hrest⟩ := List.forall_mem_cons.1 hfresh
      obtain ⟨htag, hzero⟩ := not_or.1 (mt List.mem_cons.2 hzero)
      have hnext := fresh_putEntry hnew hrest
      rw [List.flatMap_cons, List.append_assoc, List.foldl_cons, ← ih hnodup hzero hnext]
      obtain ⟨tag, _ | value⟩ := entry
      · rfl
      · change Message.fromIntegers outputs (tag :: value :: _) fields = _
        rw [Message.fromIntegers, if_neg (Ne.symm htag), if_neg (by simp [hfirst])]
        rfl

theorem lookup_entries {entries : List (ℕ × Option ℕ)} (hnodup : (entries.map Prod.fst).Nodup)
    {fields : Fields} (hfresh : ∀ tag ∈ entries.map Prod.fst, fields.lookup tag = none) (tag : ℕ) :
    (entries.foldl putEntry fields).lookup tag =
      ((entries.lookup tag).bind id).or (fields.lookup tag) := by
  induction entries generalizing fields with
  | nil => rfl
  | cons entry entries ih =>
      obtain ⟨hnew, hnodup⟩ := List.nodup_cons.1 hnodup
      obtain ⟨hfirst, hrest⟩ := List.forall_mem_cons.1 hfresh
      have hnext := fresh_putEntry hnew hrest
      rw [List.foldl_cons, ih hnodup hnext, lookup_putEntry, List.lookup_cons]
      by_cases htag : tag = entry.1
      · subst htag
        have habsent : entries.lookup entry.1 = none := by
          rw [List.lookup_eq_none_iff]
          intro other hother
          simp only [bne_iff_ne]
          intro heq
          exact hnew (heq ▸ List.mem_map_of_mem hother)
        simp [habsent]
      · rw [if_neg htag, beq_eq_false_iff_ne.2 htag]

/-! ### Reading the edicts back -/

/-- The edict is kept by a transaction with `outputs` outputs. -/
def Edict.ValidFor (outputs : ℕ) (edict : Edict) : Prop :=
  Edict.fromIntegers outputs edict.id edict.amount edict.output = some edict

instance (outputs : ℕ) (edict : Edict) : Decidable (edict.ValidFor outputs) :=
  inferInstanceAs (Decidable (_ = _))

variable {outputs : ℕ}

theorem Edict.ValidFor.id_lt {edict : Edict} (valid : edict.ValidFor outputs) :
    edict.id < maxU128 := by
  unfold Edict.ValidFor Edict.fromIntegers isDuneId at valid
  split at valid
  · cases valid
  · rename_i hid
    have hid : edict.id >>> 16 < 2 ^ 64 := by simpa using hid
    rw [Nat.shiftRight_eq_div_pow, Nat.div_lt_iff_lt_mul (by decide)] at hid
    exact hid.trans (by decide)

theorem edictsFrom_deltas {edicts : List Edict} {id : ℕ}
    (hsorted : edicts.Pairwise fun a b => a.id ≤ b.id) (hid : ∀ edict ∈ edicts, id ≤ edict.id)
    (hvalid : ∀ edict ∈ edicts, edict.ValidFor outputs) :
    edictsFrom outputs id (edictDeltas id edicts) = (false, edicts) := by
  induction edicts generalizing id with
  | nil => rfl
  | cons edict edicts ih =>
      obtain ⟨hfirst, hsorted⟩ := List.pairwise_cons.1 hsorted
      obtain ⟨hle, -⟩ := List.forall_mem_cons.1 hid
      obtain ⟨hedict, hvalid⟩ := List.forall_mem_cons.1 hvalid
      have hsum : saturate (id + (edict.id - id)) = edict.id := by
        rw [Nat.add_sub_cancel' hle]
        exact saturate_of_le hedict.id_lt.le
      rw [edictDeltas, edictsFrom, hsum, ih hsorted hfirst hvalid, hedict]

theorem sortEdicts_spec (edicts : List Edict) :
    (sortEdicts edicts).Pairwise (fun a b => a.id ≤ b.id) ∧ (sortEdicts edicts).Perm edicts := by
  have : Std.Total fun a b : Edict => a.id ≤ b.id := ⟨fun a b => le_total a.id b.id⟩
  have : IsTrans Edict fun a b => a.id ≤ b.id := ⟨fun a b c => le_trans⟩
  exact ⟨List.pairwise_insertionSort _ edicts, List.perm_insertionSort _ edicts⟩

theorem fromIntegers_body (dunestone : Dunestone)
    (hvalid : ∀ edict ∈ dunestone.edicts, edict.ValidFor outputs) (fields : Fields) :
    Message.fromIntegers outputs dunestone.body fields =
      { cenotaph := false, fields := fields, edicts := sortEdicts dunestone.edicts } := by
  obtain ⟨hsorted, hperm⟩ := sortEdicts_spec dunestone.edicts
  unfold Dunestone.body
  split
  next hempty =>
    rw [List.isEmpty_iff.1 hempty]
    rfl
  next hsome =>
    have hdecoded := edictsFrom_deltas hsorted (fun edict _ => Nat.zero_le edict.id)
      fun edict hmem => hvalid edict (hperm.mem_iff.1 hmem)
    generalize sortEdicts dunestone.edicts = sorted at hdecoded hperm
    cases sorted with
    | nil =>
        rw [List.isEmpty_iff] at hsome
        exact absurd hperm.symm.eq_nil hsome
    | cons edict edicts =>
        rw [edictDeltas] at hdecoded ⊢
        rw [bodyTag, Message.fromIntegers, if_pos rfl, hdecoded]

/-! ### Dunestones in range -/

/-- The terms fit their types, and the limit the bound `decipher` clamps to. -/
structure Terms.InRange (terms : Terms) : Prop where
  limit : ∀ n ∈ terms.limit, n ≤ maxLimit
  cap : ∀ n ∈ terms.cap, n ≤ maxU128
  heightStart : ∀ n ∈ terms.height.1, n < 2 ^ 64
  heightEnd : ∀ n ∈ terms.height.2, n < 2 ^ 64
  offsetStart : ∀ n ∈ terms.offset.1, n < 2 ^ 64
  offsetEnd : ∀ n ∈ terms.offset.2, n < 2 ^ 64

structure Etching.InRange (etching : Etching) : Prop where
  divisibility : ∀ n ∈ etching.divisibility, n ≤ maxDivisibility
  terms : ∀ terms ∈ etching.terms, terms.InRange
  premine : ∀ n ∈ etching.premine, n ≤ maxU128
  dune : ∀ n ∈ etching.dune, n ≤ maxU128
  spacers : ∀ n ∈ etching.spacers, n ≤ maxSpacers
  symbol : ∀ n ∈ etching.symbol, isScalarValue n = true

structure Dunestone.InRange (dunestone : Dunestone) : Prop where
  etching : ∀ etching ∈ dunestone.etching, etching.InRange
  pointer : ∀ n ∈ dunestone.pointer, n < 2 ^ 32
  edicts : ∀ edict ∈ dunestone.edicts, edict.amount ≤ maxU128 ∧ edict.output ≤ maxU128

theorem isScalarValue_le (hscalar : isScalarValue n = true) : n ≤ maxU128 := by
  have hlt : n < 0x110000 := by
    simp only [isScalarValue, Bool.or_eq_true, Bool.and_eq_true, decide_eq_true_eq] at hscalar
    omega
  exact hlt.le.trans (by decide)

theorem fits_bind {α : Type} {source : Option α} {field : α → Option ℕ}
    (hfield : ∀ value ∈ source, ∀ n ∈ field value, n ≤ maxU128) :
    ∀ n ∈ source.bind field, n ≤ maxU128 := by
  intro n hn
  obtain ⟨value, hvalue, hn⟩ := Option.mem_bind_iff.1 hn
  exact hfield value hvalue n hn

variable {dunestone : Dunestone}

/-- Every value that is written fits `u128`. -/
theorem Dunestone.InRange.entries_le (inRange : dunestone.InRange) :
    ∀ entry ∈ dunestone.entries, entry.1 ≤ maxU128 ∧ ∀ n ∈ entry.2, n ≤ maxU128 := by
  have htag : ∀ tag : Tag, tag.value ≤ maxU128 := fun tag => by cases tag <;> decide
  have hterms : ∀ terms ∈ dunestone.etching.bind Etching.terms, terms.InRange := by
    intro terms hterms
    obtain ⟨etching, hetching, hterms⟩ := Option.mem_bind_iff.1 hterms
    exact (inRange.etching etching hetching).terms terms hterms
  have hflags : ∀ n ∈ dunestone.etching.map Etching.flags, n ≤ maxU128 := by
    intro n hn
    obtain ⟨etching, -, rfl⟩ := Option.mem_map.1 hn
    unfold Etching.flags
    split <;> decide
  have hcenotaph : ∀ n ∈ (if dunestone.cenotaph then some 0 else none : Option ℕ), n ≤ maxU128 := by
    split <;> simp
  unfold Dunestone.entries
  simp only [List.forall_mem_cons, List.not_mem_nil, IsEmpty.forall_iff, implies_true, and_true]
  exact ⟨⟨htag _, hflags⟩, ⟨htag _, fits_bind fun etching h => (inRange.etching etching h).dune⟩,
    ⟨htag _, fits_bind fun etching h n hn =>
      ((inRange.etching etching h).divisibility n hn).trans (by decide)⟩,
    ⟨htag _, fits_bind fun etching h n hn =>
      ((inRange.etching etching h).spacers n hn).trans (by decide)⟩,
    ⟨htag _, fits_bind fun etching h n hn =>
      isScalarValue_le ((inRange.etching etching h).symbol n hn)⟩,
    ⟨htag _, fits_bind fun etching h => (inRange.etching etching h).premine⟩,
    ⟨htag _, fits_bind fun terms h n hn => ((hterms terms h).limit n hn).trans (by decide)⟩,
    ⟨htag _, fits_bind fun terms h n hn => ((hterms terms h).heightEnd n hn).le.trans (by decide)⟩,
    ⟨htag _, fits_bind fun terms h => (hterms terms h).cap⟩,
    ⟨htag _, fun n hn => (inRange.pointer n hn).le.trans (by decide)⟩, by decide, hcenotaph⟩

theorem edictDeltas_le {edicts : List Edict} {id : ℕ}
    (hedicts : ∀ edict ∈ edicts,
      edict.id ≤ maxU128 ∧ edict.amount ≤ maxU128 ∧ edict.output ≤ maxU128) :
    ∀ n ∈ edictDeltas id edicts, n ≤ maxU128 := by
  induction edicts generalizing id with
  | nil => simp [edictDeltas]
  | cons edict edicts ih =>
      obtain ⟨⟨hid, hamount, houtput⟩, hrest⟩ := List.forall_mem_cons.1 hedicts
      rw [edictDeltas]
      simp only [List.forall_mem_cons]
      exact ⟨(Nat.sub_le _ _).trans hid, hamount, houtput, ih hrest⟩

theorem Dunestone.InRange.toIntegers_le (inRange : dunestone.InRange)
    (hvalid : ∀ edict ∈ dunestone.edicts, edict.ValidFor outputs) :
    ∀ n ∈ dunestone.toIntegers, n ≤ maxU128 := by
  rw [toIntegers_eq]
  intro n hn
  rcases List.mem_append.1 hn with hfield | hbody
  · obtain ⟨⟨tag, value⟩, hentry, hn⟩ := List.mem_flatMap.1 hfield
    obtain ⟨htag, hvalue⟩ := inRange.entries_le _ hentry
    cases value with
    | none => simp [entryIntegers] at hn
    | some value =>
        have hn : n = tag ∨ n = value := by simpa [entryIntegers] using hn
        rcases hn with rfl | rfl
        · exact htag
        · exact hvalue n rfl
  · unfold Dunestone.body at hbody
    split at hbody
    · simp at hbody
    · rcases List.mem_cons.1 hbody with rfl | hdelta
      · exact Nat.zero_le _
      · refine edictDeltas_le (fun edict hmem => ?_) n hdelta
        have hmem : edict ∈ dunestone.edicts := (sortEdicts_spec _).2.mem_iff.1 hmem
        exact ⟨(hvalid edict hmem).id_lt.le, inRange.edicts edict hmem⟩

/-! ### Deciphering -/

/-- What deciphering is to give back: the edicts sorted by id, with the premine behind them. -/
def Dunestone.sorted (dunestone : Dunestone) : Dunestone :=
  let premine := (dunestone.etching.bind Etching.premine).getD 0
  { dunestone with
    edicts := sortEdicts dunestone.edicts ++
      if 0 < premine then [{ id := 0, amount := premine, output := 1 }] else [] }

def Dunestone.fields (dunestone : Dunestone) : Fields := dunestone.entries.foldl putEntry ∅

theorem Dunestone.entries_tags (dunestone : Dunestone) :
    dunestone.entries.map Prod.fst = [2, 4, 1, 3, 5, 22, 6, 18, 20, 12, 254] := rfl

theorem Dunestone.lookup_fields (dunestone : Dunestone) (tag : ℕ) :
    dunestone.fields.lookup tag = (dunestone.entries.lookup tag).bind id := by
  have hnodup : (dunestone.entries.map Prod.fst).Nodup := by
    rw [dunestone.entries_tags]
    decide
  have hempty : ∀ tag ∈ dunestone.entries.map Prod.fst,
      (∅ : Fields).lookup tag = none := fun tag _ => AList.lookup_empty tag
  rw [Dunestone.fields, lookup_entries hnodup hempty, AList.lookup_empty, Option.or_none]

theorem fromIntegers_toIntegers (dunestone : Dunestone)
    (hvalid : ∀ edict ∈ dunestone.edicts, edict.ValidFor outputs) :
    Message.fromIntegers outputs dunestone.toIntegers ∅ =
      { cenotaph := false, fields := dunestone.fields, edicts := sortEdicts dunestone.edicts } := by
  have hnodup : (dunestone.entries.map Prod.fst).Nodup := by
    rw [dunestone.entries_tags]
    decide
  have hzero : 0 ∉ dunestone.entries.map Prod.fst := by
    rw [dunestone.entries_tags]
    decide
  rw [toIntegers_eq, fromIntegers_entries outputs hnodup hzero fun tag _ => AList.lookup_empty tag]
  exact fromIntegers_body dunestone hvalid _

theorem below_eq {bound : ℕ} {value : Option ℕ} (hbelow : ∀ n ∈ value, n < bound) :
    below bound value = value := by
  cases value with
  | none => rfl
  | some n => simpa [below] using hbelow n rfl

/-- The one even tag that is not taken is that of the cenotaph. -/
theorem Dunestone.unknown_tag (dunestone : Dunestone) :
    (dunestone.fields.keys.any fun tag => tag % 2 = 0 && !(Tag.all.map Tag.value).contains tag) =
      dunestone.cenotaph := by
  have hkeys : ∀ tag, tag ∈ dunestone.fields.keys ↔
      ((dunestone.entries.lookup tag).bind id).isSome := by
    intro tag
    rw [← dunestone.lookup_fields, AList.lookup_isSome]
    rfl
  cases hcenotaph : dunestone.cenotaph with
  | true =>
      rw [List.any_eq_true]
      refine ⟨cenotaphTag, (hkeys _).2 ?_, by decide⟩
      change ((some (if dunestone.cenotaph then some 0 else none)).bind id).isSome
      rw [hcenotaph]
      rfl
  | false =>
      rw [List.any_eq_false]
      intro tag hmem
      obtain ⟨value, hvalue⟩ := Option.isSome_iff_exists.1 ((hkeys tag).1 hmem)
      obtain ⟨entry, hentry, hvalue⟩ := Option.bind_eq_some_iff.1 hvalue
      have htag : tag ∈ dunestone.entries.map Prod.fst := by
        obtain ⟨before, after, hsplit, -⟩ := List.lookup_eq_some_iff.1 hentry
        rw [hsplit]
        simp
      have hother : tag ≠ cenotaphTag := by
        rintro rfl
        obtain rfl : (if dunestone.cenotaph then some 0 else none) = entry := Option.some.inj hentry
        rw [hcenotaph] at hvalue
        cases hvalue
      have hknown : ∀ tag ∈ [2, 4, 1, 3, 5, 22, 6, 18, 20, 12, 254], tag ≠ cenotaphTag →
          ¬ (tag % 2 = 0 && !(Tag.all.map Tag.value).contains tag) = true := by decide
      exact hknown tag htag hother

/-- The fields that are read back for an etching. -/
theorem Dunestone.take_fields (dunestone : Dunestone) :
    Tag.flags.take dunestone.fields = dunestone.etching.map Etching.flags ∧
      Tag.dune.take dunestone.fields = dunestone.etching.bind Etching.dune ∧
      Tag.divisibility.take dunestone.fields = dunestone.etching.bind Etching.divisibility ∧
      Tag.spacers.take dunestone.fields = dunestone.etching.bind Etching.spacers ∧
      Tag.symbol.take dunestone.fields = dunestone.etching.bind Etching.symbol ∧
      Tag.premine.take dunestone.fields = dunestone.etching.bind Etching.premine ∧
      Tag.pointer.take dunestone.fields = dunestone.pointer := by
  unfold Tag.take
  simp only [Dunestone.lookup_fields]
  exact ⟨rfl, rfl, rfl, rfl, rfl, rfl, rfl⟩

/-- An etching as it is read back: the flags of its terms and of turbo were never set. -/
def Etching.stripped (etching : Etching) : Etching := { etching with terms := none, turbo := false }

theorem Etching.fromFields_stripped (inRange : dunestone.InRange) {etching : Etching}
    (hetching : dunestone.etching = some etching) :
    Etching.fromFields dunestone.fields = etching.stripped := by
  obtain ⟨hflags, hdune, hdivisibility, hspacers, hsymbol, hpremine, -⟩ := dunestone.take_fields
  have hin := inRange.etching etching hetching
  have hone : etching.flags = 1 := by
    unfold Etching.flags
    split <;> rfl
  have hscalar : etching.symbol.filter isScalarValue = etching.symbol := by
    cases hsymbol : etching.symbol with
    | none => rfl
    | some n => simpa [Option.filter] using hin.symbol n hsymbol
  unfold Etching.fromFields Etching.stripped
  rw [hflags, hdune, hdivisibility, hspacers, hsymbol, hpremine, hetching]
  simp only [Option.map_some, Option.bind_some, Option.getD_some, hone, hscalar]
  rw [below_eq fun n hn => Nat.lt_succ_of_le (hin.divisibility n hn),
    below_eq fun n hn => Nat.lt_succ_of_le (hin.spacers n hn), if_neg (by decide)]
  rfl

/-- What deciphering gives back. -/
theorem fromMessage_fields (inRange : dunestone.InRange) :
    Dunestone.fromMessage { cenotaph := false, fields := dunestone.fields,
                            edicts := sortEdicts dunestone.edicts } =
      { dunestone.sorted with
        etching := dunestone.etching.map Etching.stripped
        cenotaph := issuanceOverflows dunestone.fields || dunestone.cenotaph } := by
  obtain ⟨hflags, -, -, -, -, hpremine, hpointer⟩ := dunestone.take_fields
  have hunknown := dunestone.unknown_tag
  have hbelow := below_eq inRange.pointer
  unfold Dunestone.fromMessage Dunestone.sorted
  dsimp only
  rw [hflags, hpremine, hpointer, hunknown, hbelow]
  cases hetching : dunestone.etching with
  | none => simp
  | some etching =>
      have hone : etching.flags = 1 := by
        unfold Etching.flags
        split <;> rfl
      have hread := Etching.fromFields_stripped inRange hetching
      simp [hone, hread]

/-! ### The search for the output -/

/-- The output is marked as that of a dunestone: `OP_RETURN` and a push of `D`. -/
def Marked (output : TxOut) : Prop :=
  ∃ rest, instructions output.scriptPubkey =
    some (.op opReturn) :: some (.pushBytes [0x44]) :: rest

/-- The script ends inside one of the instructions the search reads, which is a script error. -/
def BreaksOff (output : TxOut) : Prop :=
  (∃ rest, instructions output.scriptPubkey = none :: rest) ∨
    ∃ rest, instructions output.scriptPubkey = some (.op opReturn) :: none :: rest

/-- An output that is not marked is passed over, or stops the search with an error. -/
theorem payload_cons {output : TxOut} (hmark : ¬ Marked output) (outputs : List TxOut) :
    (BreaksOff output → payload (output :: outputs) = none) ∧
      (¬ BreaksOff output → payload (output :: outputs) = payload outputs) := by
  unfold Marked at hmark
  unfold BreaksOff
  rw [payload]
  generalize instructions output.scriptPubkey = script at hmark
  match script with
  | [] => simp
  | none :: rest => simp
  | some (.pushBytes bytes) :: rest => simp
  | some (.op code) :: rest =>
      by_cases hcode : code = opReturn
      · subst hcode
        match rest with
        | [] => simp
        | none :: rest => simp
        | some (.op code) :: rest => simp
        | some (.pushBytes bytes) :: rest =>
            have hne : bytes ≠ [0x44] := by
              rintro rfl
              exact hmark ⟨rest, rfl⟩
            simp only [ne_eq, not_true_eq_false, if_false]
            split
            · simp_all
            · simp_all
            · simp
      · simp [hcode]

theorem payload_skip {before : List TxOut} (hfirst : ∀ output ∈ before, ¬ Marked output)
    (outputs : List TxOut) :
    ((∃ output ∈ before, BreaksOff output) → payload (before ++ outputs) = none) ∧
      ((∀ output ∈ before, ¬ BreaksOff output) → payload (before ++ outputs) = payload outputs) := by
  induction before with
  | nil => simp
  | cons output before ih =>
      obtain ⟨hmark, hrest⟩ := List.forall_mem_cons.1 hfirst
      obtain ⟨hbroken, hpassed⟩ := payload_cons hmark (before ++ outputs)
      obtain ⟨ihBroken, ihPassed⟩ := ih hrest
      rw [List.cons_append]
      constructor
      · rintro ⟨broken, hmem, hbreaks⟩
        by_cases hhere : BreaksOff output
        · exact hbroken hhere
        · rcases List.mem_cons.1 hmem with rfl | hmem
          · exact absurd hbreaks hhere
          · rw [hpassed hhere]
            exact ihBroken ⟨broken, hmem, hbreaks⟩
      · intro hwhole
        obtain ⟨hhere, hbefore⟩ := List.forall_mem_cons.1 hwhole
        rw [hpassed hhere]
        exact ihPassed hbefore

theorem payload_encipher {output : TxOut} (hscript : output.scriptPubkey = dunestone.encipher)
    (outputs : List TxOut) :
    payload (output :: outputs) = some (some (dunestone.toIntegers.flatMap encodeVarint)) := by
  obtain ⟨chunks, hinstructions, hflatten⟩ := instructions_encipher dunestone
  rw [payload, hscript, hinstructions]
  dsimp only
  rw [if_neg (by simp)]
  change Option.map some (pushedBytes (chunks.map fun chunk => some (.pushBytes chunk))) = _
  rw [pushedBytes_pushes, hflatten]
  rfl

/-! ### The round trip -/

/-- Without terms nothing overflows: the premine alone fits. -/
theorem issuanceOverflows_of_no_terms (inRange : dunestone.InRange)
    (hterms : ∀ etching ∈ dunestone.etching, etching.terms = none) :
    issuanceOverflows dunestone.fields = false := by
  obtain ⟨-, -, -, -, -, hpremine, -⟩ := dunestone.take_fields
  have hcap : Tag.cap.take dunestone.fields =
      (dunestone.etching.bind Etching.terms).bind Terms.cap := by
    rw [Tag.take, dunestone.lookup_fields]
    rfl
  have hnone : dunestone.etching.bind Etching.terms = none := by
    rw [Option.bind_eq_none_iff]
    exact hterms
  have hfits : ((dunestone.etching.bind Etching.premine).getD 0) ≤ maxU128 := by
    cases hvalue : dunestone.etching.bind Etching.premine with
    | none => exact Nat.zero_le _
    | some n =>
        obtain ⟨etching, hetching, hn⟩ := Option.bind_eq_some_iff.1 hvalue
        exact (inRange.etching etching hetching).premine n hn
  unfold issuanceOverflows
  rw [hpremine, hcap, hnone]
  simpa using hfits

/-- A transaction whose first marked output is an enciphered dunestone gives the dunestone back exactly
when no output before it breaks off and the dunestone etches neither terms nor turbo. -/
theorem decipher_encipher_iff (tx : Transaction) (before after : List TxOut) (output : TxOut)
    (dunestone : Dunestone) (htx : tx.output = before ++ output :: after)
    (hscript : output.scriptPubkey = dunestone.encipher)
    (hfirst : ∀ output ∈ before, ¬ Marked output) (inRange : dunestone.InRange)
    (hvalid : ∀ edict ∈ dunestone.edicts, edict.ValidFor tx.output.length) :
    Dunestone.fromTransaction tx = some dunestone.sorted ↔
      (∀ output ∈ before, ¬ BreaksOff output) ∧
        ∀ etching ∈ dunestone.etching, etching.terms = none ∧ etching.turbo = false := by
  obtain ⟨hbroken, hpassed⟩ := payload_skip hfirst (output :: after)
  unfold Dunestone.fromTransaction
  rw [htx] at hvalid ⊢
  by_cases hwhole : ∀ output ∈ before, ¬ BreaksOff output
  · rw [hpassed hwhole, payload_encipher hscript]
    dsimp only
    rw [integers_encode (inRange.toIntegers_le hvalid), fromIntegers_toIntegers dunestone hvalid,
      fromMessage_fields inRange, Option.some.injEq]
    constructor
    · intro hsame
      refine ⟨hwhole, fun etching hetching => ?_⟩
      have hread : dunestone.etching.map Etching.stripped = dunestone.etching :=
        congrArg Dunestone.etching hsame
      rw [hetching] at hread
      have hstripped : etching.stripped = etching := Option.some.inj hread
      rw [← hstripped]
      exact ⟨rfl, rfl⟩
    · rintro ⟨-, hplain⟩
      have hread : dunestone.etching.map Etching.stripped = dunestone.etching := by
        cases hetching : dunestone.etching with
        | none => rfl
        | some etching =>
            obtain ⟨hterms, hturbo⟩ := hplain etching hetching
            cases etching
            cases hterms
            cases hturbo
            rfl
      rw [hread, issuanceOverflows_of_no_terms inRange fun etching h => (hplain etching h).1]
      rfl
  · obtain ⟨broken, hmem, hbreaks⟩ : ∃ output ∈ before, BreaksOff output := by
      simpa using hwhole
    rw [hbroken ⟨broken, hmem, hbreaks⟩]
    constructor
    · intro hnone
      cases hnone
    · rintro ⟨hnever, -⟩
      exact absurd hnever hwhole

/-! ### Two round trips -/

/-- An etching with a premine, and two edicts out of order. -/
def plainDunestone : Dunestone where
  edicts := [⟨5 * 2 ^ 16 + 1, 7, 1⟩, ⟨4 * 2 ^ 16, 300, 0⟩]
  etching := some
    { divisibility := some 8
      terms := none
      premine := some 1000
      dune := some (2 ^ 100)
      spacers := some 5
      symbol := some 0x1F415
      turbo := false }
  pointer := some 1
  cenotaph := false

/-- A transaction that pays to `OP_TRUE` and carries a dunestone. -/
def carrier (dunestone : Dunestone) : Transaction where
  txid := 1
  input := []
  output := [{ value := 1, scriptPubkey := [0x51] },
    { value := 0, scriptPubkey := dunestone.encipher }]

theorem instructions_opTrue : instructions [0x51] = [some (.op 0x51)] := by decide

theorem plainDunestone_inRange : plainDunestone.InRange where
  etching := by
    rintro etching ⟨⟩
    exact ⟨by simp [maxDivisibility], by simp, by simp [maxU128], by simp [maxU128],
      by simp [maxSpacers], by simp [isScalarValue]⟩
  pointer := by simp [plainDunestone]
  edicts := by simp [plainDunestone, maxU128]

theorem plainDunestone_returned :
    Dunestone.fromTransaction (carrier plainDunestone) = some plainDunestone.sorted := by
  apply (decipher_encipher_iff (carrier plainDunestone) [{ value := 1, scriptPubkey := [0x51] }] []
    { value := 0, scriptPubkey := plainDunestone.encipher } plainDunestone rfl rfl ?_
    plainDunestone_inRange ?_).2
  · constructor
    · simp [BreaksOff, instructions_opTrue, opReturn]
    · rintro etching ⟨⟩
      exact ⟨rfl, rfl⟩
  · simp [Marked, instructions_opTrue, opReturn]
  · decide

/-- The same etching with terms. -/
def mintableDunestone : Dunestone :=
  { plainDunestone with
    etching := plainDunestone.etching.map fun etching =>
      { etching with terms := some ⟨some 100, some 50, (some 10, some 20), (none, none)⟩ } }

theorem mintableDunestone_inRange : mintableDunestone.InRange where
  etching := by
    rintro etching ⟨⟩
    refine ⟨by simp [maxDivisibility], ?_, by simp [maxU128], by simp [maxU128], by simp [maxSpacers],
      by simp [isScalarValue]⟩
    rintro terms ⟨⟩
    exact ⟨by simp [maxLimit], by simp [maxU128], by simp, by simp, by simp, by simp⟩
  pointer := by simp [mintableDunestone, plainDunestone]
  edicts := by simp [mintableDunestone, plainDunestone, maxU128]

/-- The terms of an etching are lost. -/
theorem mintableDunestone_not_returned :
    mintableDunestone.InRange ∧ (∀ edict ∈ mintableDunestone.edicts, edict.ValidFor 2) ∧
      Dunestone.fromTransaction (carrier mintableDunestone) ≠ some mintableDunestone.sorted :=
  ⟨mintableDunestone_inRange, by decide, by decide +kernel⟩

end OrdDogecoin.Dunes
