/-
Module: OrdDogecoin.Drc20.Keys
Purpose: The texts that key the rows of the DRC-20 tables: the hex of a lower-cased tick, padded to sixteen
  bytes, and the keys of transferable logs, whose range scan is to find the logs of one owner.
Trusted boundary: the Unicode data behind `str::to_lowercase` is a parameter (`CaseMap`); the address library
  as in OrdDogecoin.Drc20.Holders; texts are ordered by their characters, as the table orders their bytes
Main exports: CaseMap, getTransferable, keys_separate
-/
import OrdDogecoin.Drc20.Holders
import OrdDogecoin.Lib.ByteText
import OrdDogecoin.Lib.PrefixRange
import OrdDogecoin.Lib.Utf8
import Mathlib.Data.Char

namespace OrdDogecoin.Drc20

open Chain

/-! ### Lower case -/

/-- The Unicode data of `str::to_lowercase`: the lower case of a character, and whether a capital sigma
between these characters ends a word. -/
structure CaseMap where
  lowerChar : Char → Text
  finalSigma : Text → Text → Bool

/-- No character takes more than twice its bytes in lower case. -/
structure CaseMap.Lawful (map : CaseMap) : Prop where
  growth : ∀ c, ((map.lowerChar c).map Char.utf8Size).sum ≤ 2 * c.utf8Size

namespace CaseMap

variable (map : CaseMap)

/-- The lower case of a character between others. -/
def lowerAt (front : Text) (c : Char) (rest : Text) : Text :=
  if c = 'Σ' then (if map.finalSigma front rest then ['ς'] else ['σ']) else map.lowerChar c

def lowerFrom (front : Text) : Text → Text
  | [] => []
  | c :: rest => map.lowerAt front c rest ++ lowerFrom (front ++ [c]) rest

/-- `str::to_lowercase`. -/
def toLowercase (text : Text) : Text := map.lowerFrom [] text

variable {map}

theorem Lawful.lowerAt (lawful : map.Lawful) (front : Text) (c : Char) (rest : Text) :
    ((map.lowerAt front c rest).map Char.utf8Size).sum ≤ 2 * c.utf8Size := by
  unfold CaseMap.lowerAt
  split
  next hsigma =>
    rw [hsigma]
    split <;> decide
  next => exact lawful.growth c

theorem Lawful.lowerFrom (lawful : map.Lawful) (front text : Text) :
    ((map.lowerFrom front text).map Char.utf8Size).sum ≤ 2 * (text.map Char.utf8Size).sum := by
  induction text generalizing front with
  | nil => exact Nat.zero_le _
  | cons c rest ih =>
      have hfirst := lawful.lowerAt front c rest
      have hrest := ih (front ++ [c])
      rw [CaseMap.lowerFrom, List.map_append, List.sum_append, List.map_cons, List.sum_cons]
      omega

end CaseMap

/-! ### Ticks -/

/-- `LowerTick`. -/
structure LowerTick where
  bytes : List UInt8
deriving DecidableEq

def tickByteCount : ℕ := 4

def Tick.toLowercase (map : CaseMap) (tick : Tick) : LowerTick :=
  { bytes := Utf8.encode (map.toLowercase tick.chars) }

namespace LowerTick

/-- The bytes in an array of sixteen. -/
def padded (lower : LowerTick) : List UInt8 :=
  lower.bytes ++ List.replicate (tickByteCount * 4 - lower.bytes.length) 0

/-- `hex`: copying more bytes than the array has panics. -/
def hex (lower : LowerTick) : Option Text :=
  if lower.bytes.length ≤ tickByteCount * 4 then some (ByteText.encodeHex lower.padded) else none

def minHex : Text := ByteText.encodeHex (List.replicate (tickByteCount * 4) 0)

def maxHex : Text := ByteText.encodeHex (List.replicate (tickByteCount * 4) 0xff)

end LowerTick

/-- One name is the other with NUL characters behind it. -/
def PaddedApart (name other : Text) : Prop :=
  ∃ n, 0 < n ∧ (name = other ++ List.replicate n (Char.ofNat 0) ∨
    other = name ++ List.replicate n (Char.ofNat 0))

section Ticks

variable {map : CaseMap} (lawful : map.Lawful)

include lawful

theorem length_toLowercase_le (tick : Tick) : (tick.toLowercase map).bytes.length ≤ tickByteCount * 4 := by
  have hlower := lawful.lowerFrom [] tick.chars
  have hcount := tick.byteCount
  rw [Tick.toLowercase, Utf8.length_encode, CaseMap.toLowercase, tickByteCount]
  omega

/-- Hex never panics. -/
theorem hex_toLowercase (tick : Tick) :
    (tick.toLowercase map).hex = some (ByteText.encodeHex (tick.toLowercase map).padded) := by
  rw [LowerTick.hex, if_pos (length_toLowercase_le lawful tick)]

end Ticks

theorem encodeHex_injective : Function.Injective ByteText.encodeHex := by
  intro bytes other hsame
  have hbytes := ByteText.decodeHex_encodeHex bytes
  rw [hsame, ByteText.decodeHex_encodeHex] at hbytes
  exact (Option.some.inj hbytes).symm

/-- A name that is no longer than another and has the same padded bytes is it up to NUL characters. -/
theorem eq_append_nul {name other : Text} {m n : ℕ}
    (hle : (Utf8.encode name).length ≤ (Utf8.encode other).length)
    (hsame : Utf8.encode name ++ List.replicate m 0 = Utf8.encode other ++ List.replicate n 0) :
    ∃ k, other = name ++ List.replicate k (Char.ofNat 0) := by
  obtain ⟨tail, hother⟩ : Utf8.encode name <+: Utf8.encode other :=
    List.prefix_of_prefix_length_le ⟨_, hsame⟩ ⟨_, rfl⟩ hle
  rw [← hother, List.append_assoc] at hsame
  have htail := List.append_cancel_left hsame
  have hzeros : tail = List.replicate tail.length 0 := by
    refine List.eq_replicate_of_mem fun byte hbyte => ?_
    have hmem : byte ∈ List.replicate m (0 : UInt8) := by
      rw [htail]
      exact List.mem_append_left _ hbyte
    exact List.eq_of_mem_replicate hmem
  refine ⟨tail.length, Utf8.encode_injective ?_⟩
  rw [Utf8.encode_append, Utf8.encode_replicate_nul, ← hzeros, hother]

section Ticks

variable {map : CaseMap} (lawful : map.Lawful)

include lawful

/-- Keys agree exactly when the lower-cased names do, up to NUL characters at the end. -/
theorem hex_eq_iff (tick other : Tick) : (tick.toLowercase map).hex = (other.toLowercase map).hex ↔
    map.toLowercase tick.chars = map.toLowercase other.chars ∨
      PaddedApart (map.toLowercase tick.chars) (map.toLowercase other.chars) := by
  rw [hex_toLowercase lawful, hex_toLowercase lawful]
  constructor
  · intro hsame
    have hbytes : (tick.toLowercase map).padded = (other.toLowercase map).padded :=
      encodeHex_injective (Option.some.inj hsame)
    rcases le_total (tick.toLowercase map).bytes.length (other.toLowercase map).bytes.length with
      hle | hle
    · obtain ⟨k, hother⟩ := eq_append_nul hle hbytes
      by_cases hk : k = 0
      · rw [hk, List.replicate_zero, List.append_nil] at hother
        exact .inl hother.symm
      · exact .inr ⟨k, Nat.pos_of_ne_zero hk, .inr hother⟩
    · obtain ⟨k, htick⟩ := eq_append_nul hle hbytes.symm
      by_cases hk : k = 0
      · rw [hk, List.replicate_zero, List.append_nil] at htick
        exact .inl htick
      · exact .inr ⟨k, Nat.pos_of_ne_zero hk, .inl htick⟩
  · have hpadded : ∀ {tick other : Tick} {k : ℕ},
        map.toLowercase other.chars = map.toLowercase tick.chars ++ List.replicate k (Char.ofNat 0) →
          (tick.toLowercase map).padded = (other.toLowercase map).padded := by
      intro tick other k hother
      have hlength := length_toLowercase_le lawful other
      have hbytes : (other.toLowercase map).bytes = (tick.toLowercase map).bytes ++ List.replicate k 0 := by
        rw [Tick.toLowercase, hother, Utf8.encode_append, Utf8.encode_replicate_nul]
        rfl
      rw [hbytes, List.length_append, List.length_replicate] at hlength
      rw [LowerTick.padded, LowerTick.padded, hbytes, List.append_assoc, List.replicate_append_replicate,
        List.length_append, List.length_replicate]
      congr 2
      omega
    rintro (hsame | ⟨k, -, hlonger | hlonger⟩)
    · rw [Tick.toLowercase, Tick.toLowercase, hsame]
    · rw [hpadded hlonger]
    · rw [hpadded hlonger]

theorem hex_separates_iff (tick other : Tick) :
    ((tick.toLowercase map).hex = (other.toLowercase map).hex ↔
        map.toLowercase tick.chars = map.toLowercase other.chars) ↔
      ¬ PaddedApart (map.toLowercase tick.chars) (map.toLowercase other.chars) := by
  rw [hex_eq_iff lawful]
  have hapart : PaddedApart (map.toLowercase tick.chars) (map.toLowercase other.chars) →
      map.toLowercase tick.chars ≠ map.toLowercase other.chars := by
    rintro ⟨k, hk, hlonger | hlonger⟩ hsame
    all_goals
      have hlength := congrArg List.length hlonger
      rw [hsame, List.length_append, List.length_replicate] at hlength
      omega
  constructor
  · intro hiff hpadded
    exact hapart hpadded (hiff.1 (.inr hpadded))
  · intro hnot
    exact ⟨fun h => h.resolve_right hnot, .inl⟩

end Ticks

/-! ### Transferable logs -/

def displayId (txidText : Txid → Text) (id : InscriptionId) : Text :=
  txidText id.txid ++ 'i' :: Nat.toDigits 10 id.index

/-- `DRC20_TRANSFERABLELOG`. -/
abbrev TransferableTable := KeyTable Text TransferableLog

section Scan

variable (map : CaseMap) (txidText : Txid → Text)

def scriptTickIdKey (script : ScriptKey) (tick : Tick) (id : InscriptionId) : Option Text := do
  let hex ← (tick.toLowercase map).hex
  some (script.render ++ '_' :: (hex ++ '_' :: displayId txidText id))

def minScriptTickKey (script : ScriptKey) : Text := script.render ++ '_' :: LowerTick.minHex

def maxScriptTickKey (script : ScriptKey) : Text := script.render ++ '_' :: LowerTick.maxHex

/-- `insert_transferable` and `remove_transferable`. -/
inductive TransferableWrite where
  | insert (script : ScriptKey) (tick : Tick) (log : TransferableLog)
  | remove (script : ScriptKey) (tick : Tick) (id : InscriptionId)

def TransferableWrite.script : TransferableWrite → ScriptKey
  | .insert script _ _ => script
  | .remove script _ _ => script

def TransferableWrite.apply (table : TransferableTable) : TransferableWrite → Option TransferableTable
  | .insert script tick log => do
      let key ← scriptTickIdKey map txidText script tick log.inscriptionId
      some (table.insert key log)
  | .remove script tick id => do
      let key ← scriptTickIdKey map txidText script tick id
      some (table.erase key)

/-- The table after these writes. -/
def writeAll (writes : List TransferableWrite) : Option TransferableTable :=
  writes.foldlM (TransferableWrite.apply map txidText) ∅

def getTransferable (table : TransferableTable) (script : ScriptKey) : List TransferableLog :=
  (PrefixRange.range table (minScriptTickKey script) (maxScriptTickKey script)).map fun row => row.2

end Scan

/-! ### The range of an owner -/

theorem length_encodeHex (bytes : List UInt8) : (ByteText.encodeHex bytes).length = 2 * bytes.length := by
  induction bytes with
  | nil => rfl
  | cons byte bytes ih =>
      rw [ByteText.encodeHex, List.flatMap_cons, ← ByteText.encodeHex, List.length_append, ih,
        List.length_cons]
      change 2 + 2 * bytes.length = 2 * (bytes.length + 1)
      omega

/-- Hex is written in symbols from `0` to `f`. -/
theorem mem_encodeHex {bytes : List UInt8} {c : Char} (hc : c ∈ ByteText.encodeHex bytes) :
    '0' ≤ c ∧ c ≤ 'f' := by
  have hsymbols : ∀ n < 16, '0' ≤ ByteText.hexSymbol n ∧ ByteText.hexSymbol n ≤ 'f' := by decide
  obtain ⟨byte, -, hmem⟩ := List.mem_flatMap.1 hc
  have hbyte := byte.toNat_lt
  simp only [List.mem_cons, List.not_mem_nil, or_false] at hmem
  rcases hmem with rfl | rfl
  · exact hsymbols _ (by omega)
  · exact hsymbols _ (Nat.mod_lt _ (by decide))

theorem minHex_eq : LowerTick.minHex = List.replicate 32 '0' := by decide

theorem maxHex_eq : LowerTick.maxHex = List.replicate 32 'f' := by decide

/-- The hex of a tick is not the greatest one, since no byte of a name is the greatest. -/
theorem encodeHex_ne_maxHex (map : CaseMap) (tick : Tick) :
    ByteText.encodeHex (tick.toLowercase map).padded ≠ LowerTick.maxHex := by
  intro hsame
  have hbytes := encodeHex_injective hsame
  have hmem : 0xff ∈ (tick.toLowercase map).padded := by
    rw [hbytes]
    decide
  rcases List.mem_append.1 hmem with hname | hzero
  · have hlt := Utf8.byte_lt_of_mem_encode hname
    exact absurd hlt (by decide)
  · exact absurd (List.eq_of_mem_replicate hzero) (by decide)

section Hex

variable {map : CaseMap} (lawful : map.Lawful)

include lawful

theorem length_padded (tick : Tick) : (tick.toLowercase map).padded.length = tickByteCount * 4 := by
  have hlength := length_toLowercase_le lawful tick
  rw [LowerTick.padded, List.length_append, List.length_replicate]
  omega

/-- Behind its owner, a key lies between the bounds. -/
theorem hex_bounds (tick : Tick) (rest : Text) :
    LowerTick.minHex ≤ ByteText.encodeHex (tick.toLowercase map).padded ++ rest ∧
      ByteText.encodeHex (tick.toLowercase map).padded ++ rest < LowerTick.maxHex := by
  have hlength : (ByteText.encodeHex (tick.toLowercase map).padded).length = 32 := by
    rw [length_encodeHex, length_padded lawful]
    rfl
  have hne := encodeHex_ne_maxHex map tick
  have hlow := @PrefixRange.replicate_le Char _ '0'
    (ByteText.encodeHex (tick.toLowercase map).padded) (fun c hc => (mem_encodeHex hc).1) rest
  have hhigh := @PrefixRange.lt_replicate Char _ 'f'
    (ByteText.encodeHex (tick.toLowercase map).padded) (fun c hc => (mem_encodeHex hc).2)
  rw [hlength] at hlow hhigh
  rw [maxHex_eq] at hne ⊢
  rw [minHex_eq]
  exact ⟨hlow, hhigh hne rest⟩

end Hex

/-- Texts up to their first underscore. -/
theorem eq_of_append_underscore : ∀ {front other tail rest : Text}, '_' ∉ front → '_' ∉ other →
    front ++ '_' :: tail = other ++ '_' :: rest → front = other
  | [], [], _, _, _, _, _ => rfl
  | [], c :: other, _, _, _, hother, hsame => by
      rw [List.nil_append, List.cons_append] at hsame
      exact absurd (List.mem_cons.2 (.inl (List.cons.inj hsame).1)) hother
  | c :: front, [], _, _, hfront, _, hsame => by
      rw [List.nil_append, List.cons_append] at hsame
      exact absurd (List.mem_cons.2 (.inl (List.cons.inj hsame).1.symm)) hfront
  | c :: front, d :: other, _, _, hfront, hother, hsame => by
      obtain ⟨rfl, hrest⟩ := List.cons.inj hsame
      rw [eq_of_append_underscore (fun hmem => hfront (List.mem_cons_of_mem c hmem))
        (fun hmem => hother (List.mem_cons_of_mem c hmem)) hrest]

/-- The range of `get_transferable`. -/
def InRange (script : ScriptKey) (key : Text) : Prop :=
  minScriptTickKey script ≤ key ∧ key < maxScriptTickKey script

section Runs

variable {map : CaseMap} {txidText : Txid → Text} {all own : TransferableTable} {script : ScriptKey}

/-- A key lies in the range of its own owner, and of no owner with another text. -/
theorem inRange_iff (lawful : map.Lawful) {script other : ScriptKey} (hscript : '_' ∉ script.render)
    (hother : '_' ∉ other.render) (tick : Tick) (id : InscriptionId) :
    ∃ key, scriptTickIdKey map txidText other tick id = some key ∧
      (InRange script key ↔ other.render = script.render) := by
  rw [scriptTickIdKey, hex_toLowercase lawful]
  refine ⟨_, rfl, ?_⟩
  have hbounds := hex_bounds lawful tick ('_' :: displayId txidText id)
  unfold InRange minScriptTickKey maxScriptTickKey
  constructor
  · rintro ⟨hlow, hhigh⟩
    have hassoc : ∀ tail : Text, script.render ++ '_' :: tail = (script.render ++ ['_']) ++ tail := by
      simp
    rw [hassoc] at hlow hhigh
    obtain ⟨tail, hkey⟩ := PrefixRange.exists_tail hlow hhigh
    rw [← hassoc] at hkey
    exact eq_of_append_underscore hother hscript hkey
  · intro hsame
    rw [hsame, PrefixRange.append_le_append_left, PrefixRange.append_lt_append_left]
    exact ⟨(PrefixRange.append_le_append_left ['_']).2 hbounds.1,
      (PrefixRange.append_lt_append_left ['_']).2 hbounds.2⟩

/-- The second table has the rows of the first one that lie in the owner's range. -/
def OwnPart (script : ScriptKey) (all own : TransferableTable) : Prop :=
  ∀ key log, own.lookup key = some log ↔ all.lookup key = some log ∧ InRange script key

theorem OwnPart.insert (part : OwnPart script all own) {key : Text} (hkey : InRange script key)
    (log : TransferableLog) :
    OwnPart script (all.insert key log) (own.insert key log) := by
  intro other found
  rw [KeyTable.lookup_insert_ite, KeyTable.lookup_insert_ite]
  split
  next hsame =>
    rw [hsame]
    exact ⟨fun hfound => ⟨hfound, hkey⟩, fun hfound => hfound.1⟩
  next => exact part other found

theorem OwnPart.erase (part : OwnPart script all own) (key : Text) :
    OwnPart script (all.erase key) (own.erase key) := by
  intro other found
  rw [KeyTable.lookup_erase_ite, KeyTable.lookup_erase_ite]
  split
  next => exact ⟨nofun, fun hfound => nomatch hfound.1⟩
  next => exact part other found

/-- A row outside the range does not matter. -/
theorem OwnPart.insert_other (part : OwnPart script all own) {key : Text}
    (hkey : ¬ InRange script key) (log : TransferableLog) :
    OwnPart script (all.insert key log) own := by
  intro other found
  rw [part other found, KeyTable.lookup_insert_ite]
  split
  next hsame =>
    rw [hsame]
    exact ⟨fun hfound => absurd hfound.2 hkey, fun hfound => absurd hfound.2 hkey⟩
  next => exact Iff.rfl

theorem OwnPart.erase_other (part : OwnPart script all own) {key : Text}
    (hkey : ¬ InRange script key) :
    OwnPart script (all.erase key) own := by
  intro other found
  rw [part other found, KeyTable.lookup_erase_ite]
  split
  next hsame =>
    rw [hsame]
    exact ⟨fun hfound => absurd hfound.2 hkey, fun hfound => absurd hfound.2 hkey⟩
  next => exact Iff.rfl

/-- A write keeps the part of an owner, and goes to it exactly when it is the owner's. -/
theorem OwnPart.apply (lawful : map.Lawful) (hscript : '_' ∉ script.render)
    (part : OwnPart script all own) {write : TransferableWrite} (hwrite : '_' ∉ write.script.render) :
    ∃ after, write.apply map txidText all = some after ∧
      if write.script.render = script.render then
        ∃ ownAfter, write.apply map txidText own = some ownAfter ∧ OwnPart script after ownAfter
      else OwnPart script after own := by
  cases write with
  | insert other tick log =>
      obtain ⟨key, hkey, hrange⟩ := @inRange_iff map txidText lawful script other hscript hwrite tick
        log.inscriptionId
      simp only [TransferableWrite.apply, hkey, Option.bind_eq_bind, Option.bind_some]
      refine ⟨_, rfl, ?_⟩
      split
      next hsame => exact ⟨_, rfl, part.insert (hrange.2 hsame) log⟩
      next hother => exact part.insert_other (fun hin => hother (hrange.1 hin)) log
  | remove other tick id =>
      obtain ⟨key, hkey, hrange⟩ := @inRange_iff map txidText lawful script other hscript hwrite tick id
      simp only [TransferableWrite.apply, hkey, Option.bind_eq_bind, Option.bind_some]
      refine ⟨_, rfl, ?_⟩
      split
      next => exact ⟨_, rfl, part.erase key⟩
      next hother => exact part.erase_other fun hin => hother (hrange.1 hin)

/-- All writes, and the writes of an owner alone. -/
theorem ownPart_writes (lawful : map.Lawful) (hscript : '_' ∉ script.render)
    {writes : List TransferableWrite} (hplain : ∀ write ∈ writes, '_' ∉ write.script.render)
    (part : OwnPart script all own) :
    ∃ allAfter ownAfter, writes.foldlM (TransferableWrite.apply map txidText) all = some allAfter ∧
      (writes.filter fun write => write.script.render = script.render).foldlM
        (TransferableWrite.apply map txidText) own = some ownAfter ∧ OwnPart script allAfter ownAfter := by
  induction writes generalizing all own with
  | nil => exact ⟨all, own, rfl, rfl, part⟩
  | cons write writes ih =>
      obtain ⟨hfirst, hrest⟩ := List.forall_mem_cons.1 hplain
      obtain ⟨after, hafter, hcases⟩ := @OwnPart.apply map txidText all own script lawful hscript part write
        hfirst
      rw [List.foldlM_cons, hafter, Option.bind_eq_bind, Option.bind_some]
      split at hcases
      next hsame =>
        obtain ⟨ownAfter, hown, hpart⟩ := hcases
        rw [List.filter_cons_of_pos (by simpa using hsame), List.foldlM_cons, hown, Option.bind_eq_bind,
          Option.bind_some]
        exact ih hrest hpart
      next hother =>
        rw [List.filter_cons_of_neg (by simpa using hother)]
        exact ih hrest hcases

end Runs

/-- Address texts and script hashes have no underscore. -/
structure AddressLib.Plain {Script Payload : Type} (lib : AddressLib Script Payload) (network : ℕ) : Prop where
  display : ∀ payload, '_' ∉ lib.display payload network
  scriptHash : ∀ script, '_' ∉ lib.scriptHash script

theorem AddressLib.Plain.render {Script Payload : Type} {lib : AddressLib Script Payload} {network : ℕ}
    (plain : lib.Plain network) (script : Script) : '_' ∉ (ScriptKey.fromScript lib network script).render := by
  unfold ScriptKey.fromScript
  split
  next payload _ => exact plain.display payload
  next => exact plain.scriptHash script

/-- Hex keys never panic; two of them separate their ticks exactly when no lower-cased name is the other with
NUL characters behind it; and after any writes the scan of an owner finds the logs that the writes of this
owner alone store, in the order of their keys. -/
theorem keys_separate {map : CaseMap} (hmap : map.Lawful) {Script Payload : Type}
    {lib : AddressLib Script Payload} (hlib : lib.Lawful) {network : ℕ} (plain : lib.Plain network)
    (txidText : Txid → Text) :
    (∀ tick : Tick, ((tick.toLowercase map).hex).isSome) ∧
      (∀ tick other : Tick,
        ((tick.toLowercase map).hex = (other.toLowercase map).hex ↔
            map.toLowercase tick.chars = map.toLowercase other.chars) ↔
          ¬ PaddedApart (map.toLowercase tick.chars) (map.toLowercase other.chars)) ∧
      ∀ writes : List TransferableWrite,
        (∀ write ∈ writes, ∃ script, write.script = ScriptKey.fromScript lib network script) →
          ∀ script : Script, ∃ all own, writeAll map txidText writes = some all ∧
            writeAll map txidText (writes.filter fun write =>
              write.script = ScriptKey.fromScript lib network script) = some own ∧
            getTransferable all (ScriptKey.fromScript lib network script) =
              (PrefixRange.rows own).map fun row => row.2 := by
  refine ⟨fun tick => by rw [hex_toLowercase hmap]; rfl, hex_separates_iff hmap, ?_⟩
  intro writes hkeyed script
  have hplain : ∀ write ∈ writes, '_' ∉ write.script.render := by
    intro write hwrite
    obtain ⟨other, hother⟩ := hkeyed write hwrite
    rw [hother]
    exact plain.render other
  have hempty : OwnPart (ScriptKey.fromScript lib network script) ∅ ∅ := fun key log => by simp
  obtain ⟨all, own, hall, hown, part⟩ :=
    @ownPart_writes map txidText ∅ ∅ _ hmap (plain.render script) writes hplain hempty
  have howners : (writes.filter fun write => write.script = ScriptKey.fromScript lib network script) =
      writes.filter fun write => write.script.render = (ScriptKey.fromScript lib network script).render := by
    refine List.filter_congr fun write hwrite => ?_
    obtain ⟨other, hother⟩ := hkeyed write hwrite
    rw [hother]
    exact decide_eq_decide.2 ⟨congrArg ScriptKey.render, fromScript_eq_of_render hlib⟩
  refine ⟨all, own, hall, ?_, ?_⟩
  · rw [writeAll, howners, hown]
  · rw [getTransferable, PrefixRange.range_eq_rows part]

/-! ### Two ticks with one key -/

/-- The lower case of ASCII letters and of the Kelvin sign. -/
def kelvinMap : CaseMap where
  lowerChar c :=
    if c = Char.ofNat 0x212a then ['k']
    else if 'A' ≤ c ∧ c ≤ 'Z' then [Char.ofNat (c.toNat + 32)]
    else [c]
  finalSigma _ _ := false

theorem kelvinMap_lawful : kelvinMap.Lawful where
  growth c := by
    have hpos := c.utf8Size_pos
    unfold kelvinMap
    dsimp only
    split
    next =>
      change 1 ≤ 2 * c.utf8Size
      omega
    next =>
      split
      next hupper =>
        have hletters : ∀ n < 26, (Char.ofNat (n + 65 + 32)).utf8Size = 1 := by decide
        have hlow : 'A'.toNat ≤ c.toNat := hupper.1
        have hhigh : c.toNat ≤ 'Z'.toNat := hupper.2
        have hbounds : 'A'.toNat = 65 ∧ 'Z'.toNat = 90 := by decide
        have hcode : c.toNat = (c.toNat - 65) + 65 := by omega
        rw [List.map_singleton, List.sum_singleton, hcode, hletters _ (by omega)]
        omega
      next =>
        rw [List.map_singleton, List.sum_singleton]
        omega

/-- The Kelvin sign with an `a`, and `ka` with two NUL characters. -/
def kelvinTick : Tick := ⟨[Char.ofNat 0x212a, 'a'], by decide⟩

def nulTick : Tick := ⟨['k', 'a', Char.ofNat 0, Char.ofNat 0], by decide⟩

/-- An address library with one address, and a script without one. -/
def keyLib : AddressLib Bool Unit where
  payloadOf script := if script then some () else none
  display _ _ := sampleAddress
  parse text := if text = sampleAddress then some ((), 0) else none
  scriptHash _ := "da1745e9b549bd0bfa1a569971c77eba30cd5a4b".toList

theorem keyLib_lawful : keyLib.Lawful where
  parse_display _ _ := by
    refine ⟨0, ?_⟩
    change (if sampleAddress = sampleAddress then some ((), 0) else none) = some ((), 0)
    exact if_pos rfl
  parse_scriptHash _ := by
    change (if "da1745e9b549bd0bfa1a569971c77eba30cd5a4b".toList = sampleAddress then some ((), 0) else none) =
      none
    exact if_neg (by decide)

theorem keyLib_plain : keyLib.Plain 0 where
  display _ := by
    change '_' ∉ sampleAddress
    decide
  scriptHash _ := by
    change '_' ∉ "da1745e9b549bd0bfa1a569971c77eba30cd5a4b".toList
    decide

def keyLog (n : ℕ) (script : Bool) : TransferableLog where
  inscriptionId := ⟨n, 0⟩
  inscriptionNumber := n
  amount := 1
  tick := nulTick
  owner := ScriptKey.fromScript keyLib 0 script

/-- Two owners store a log each, in one table. -/
def keyWrites : List TransferableWrite :=
  [.insert (ScriptKey.fromScript keyLib 0 true) nulTick (keyLog 1 true),
    .insert (ScriptKey.fromScript keyLib 0 false) nulTick (keyLog 2 false)]

theorem keys_separate_two : ((kelvinTick.toLowercase kelvinMap).hex).isSome ∧
    ∃ all own, writeAll kelvinMap (Nat.toDigits 16) keyWrites = some all ∧
      writeAll kelvinMap (Nat.toDigits 16) (keyWrites.filter fun write =>
        write.script = ScriptKey.fromScript keyLib 0 true) = some own ∧
      getTransferable all (ScriptKey.fromScript keyLib 0 true) =
        (PrefixRange.rows own).map fun row => row.2 := by
  have hseparate := keys_separate kelvinMap_lawful keyLib_lawful keyLib_plain (Nat.toDigits 16)
  refine ⟨hseparate.1 kelvinTick, hseparate.2.2 keyWrites ?_ true⟩
  intro write hwrite
  simp only [keyWrites, List.mem_cons, List.not_mem_nil, or_false] at hwrite
  rcases hwrite with rfl | rfl
  · exact ⟨true, rfl⟩
  · exact ⟨false, rfl⟩

/-- Two ticks whose lower-cased names differ share a key. -/
theorem keys_collide : Tick.parse kelvinTick.chars = .ok kelvinTick ∧ Tick.parse nulTick.chars = .ok nulTick ∧
    (kelvinTick.toLowercase kelvinMap).hex = (nulTick.toLowercase kelvinMap).hex ∧
    kelvinMap.toLowercase kelvinTick.chars ≠ kelvinMap.toLowercase nulTick.chars := by
  refine ⟨rfl, rfl, ?_, ?_⟩
  · decide
  · decide

end OrdDogecoin.Drc20
