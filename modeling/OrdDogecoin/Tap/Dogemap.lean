/-
Module: OrdDogecoin.Tap.Dogemap
Purpose: Dogemap: an inscription whose body is `<n>.dogemap` claims block n, and its moves carry the
  claim along.  The two handlers work on the rows `bm`, `bmh`, `bmhl` and `bmhli`.
Trusted boundary: `RowCodec` stands for the encoding of rows; `tap_route_index` is never built, so that
  no owner is cached
Main exports: BitmapRecord, indexBitmapCreated, indexBitmapTransferred
-/
import OrdDogecoin.Tap.Kv
import OrdDogecoin.Tap.Store
import OrdDogecoin.Lib.Utf8

namespace OrdDogecoin.Tap

open Chain AtomicBatch

/-! ### Texts of ids -/

/-- `Txid::to_string`: 64 hexadecimal digits. -/
def txidText (txid : Txid) : Text := (Nat.toDigits 16 txid).leftpad 64 '0'

/-! ### Rows -/

/-- `BitmapRecord`. -/
structure BitmapRecord where
  ownr : Address
  prv : Option Address
  bm : ℕ
  blck : ℕ
  tx : Text
  vo : ℕ
  val : Text
  ins : Text
  num : ℤ
  ts : ℕ
deriving DecidableEq, Repr

/-- The encoding of the rows of the engine; a row that does not decode is as good as missing. -/
structure RowCodec (V : Type) where
  encodeRecord : BitmapRecord → V
  decodeRecord : V → Option BitmapRecord
  encodeText : Text → V
  decodeText : V → Option Text

namespace RowCodec

variable {V : Type} (codec : RowCodec V)

/-- The length of a list is stored as a decimal text, and a text that is no number counts as zero. -/
def lengthRow : LengthRow V where
  read row := (codec.decodeText row).map fun text => (parseUsize text).getD 0
  write length := codec.encodeText (Nat.toDigits 10 length)

end RowCodec

section Keys

def bmKey (number : ℕ) : Text := "bm/".toList ++ Nat.toDigits 10 number
def bmhKey (id : InscriptionId) : Text := "bmh/".toList ++ inscriptionText id
def bmhlKey (number : ℕ) : Text := "bmhl/".toList ++ Nat.toDigits 10 number
def bmhliKey (number : ℕ) : Text := "bmhli/".toList ++ Nat.toDigits 10 number
def txBmKey (txid : Txid) : Text := "tx/bm/".toList ++ txidText txid
def txiBmKey (txid : Txid) : Text := "txi/bm/".toList ++ txidText txid
def blckBmKey (height : ℕ) : Text := "blck/bm/".toList ++ Nat.toDigits 10 height
def blckiBmKey (height : ℕ) : Text := "blcki/bm/".toList ++ Nat.toDigits 10 height
def bmlKey (owner : Address) : Text := "bml/".toList ++ owner
def bmliKey (owner : Address) : Text := "bmli/".toList ++ owner
def kindKey (id : InscriptionId) : Text := "kind/".toList ++ inscriptionText id

end Keys

/-- The records are read back, and the bare texts that are read: lengths and keys of numbers.  A bare text
with an internal marker is not. -/
structure RowCodec.Lawful {V : Type} (codec : RowCodec V) : Prop where
  record : ∀ record, codec.decodeRecord (codec.encodeRecord record) = some record
  length : ∀ length : ℕ,
    codec.decodeText (codec.encodeText (Nat.toDigits 10 length)) = some (Nat.toDigits 10 length)
  mapping : ∀ number, codec.decodeText (codec.encodeText (bmKey number)) = some (bmKey number)

/-! ### Bodies -/

def dogemapNumber (height : ℕ) (body : List UInt8) : Option ℕ :=
  let text := Utf8.fromLossy body
  if !".dogemap".toList.isSuffixOf text then none
  else
    match text.splitOn '.' with
    | [number, tag] =>
        if tag ≠ "dogemap".toList then none
        else
          (parseI64 number).bind fun parsed =>
            if intText parsed ≠ number then none
            else if parsed < 0 then none
            else if height < parsed.toNat then none
            else some parsed.toNat
    | _ => none

def bitmapBlockFromMapping (mapping : Text) : Option ℕ :=
  match mapping.splitOn '/' with
  | head :: number :: _ => if head ≠ "bm".toList then none else parseUsize number
  | _ => none

/-! ### Handlers -/

/-- The block being indexed. -/
structure BlockTime where
  height : ℕ
  timestamp : ℕ
deriving DecidableEq, Repr

/-- A new inscription, with the value of its output. -/
structure BitmapCreated extends Created where
  outputValueSat : ℕ

/-- A moved inscription, with the value of its output and the number in its entry, if there is one. -/
structure BitmapMoved extends Moved where
  outputValueSat : ℕ
  entryNumber : Option ℕ

section Handlers

variable {V : Type} (codec : RowCodec V) (block : BlockTime)

/-- `tap_get` of a record. -/
def getRecord (state : KvState V) (key : Text) : Option BitmapRecord :=
  (state.tapGet key).bind codec.decodeRecord

def getText (state : KvState V) (key : Text) : Option Text := (state.tapGet key).bind codec.decodeText

/-- `tap_set_list_record`, when the new length is not used. -/
def appendRow (lengthKey iteratorKey : Text) (data : V) (state : KvState V) : KvState V :=
  (state.tapSetListRecord codec.lengthRow lengthKey iteratorKey data).2

/-- The record joins the history of its number, and is listed by transaction and by block. -/
def listRecord (number : ℕ) (txid : Txid) (record : BitmapRecord) (state : KvState V) : KvState V :=
  let (listLen, state) := state.tapSetListRecord codec.lengthRow (bmhlKey number) (bmhliKey number)
    (codec.encodeRecord record)
  match listLen with
  | none => state
  | some listLen =>
      let ptr := codec.encodeText (listKey (bmhliKey number) (recordIndex listLen))
      appendRow codec (blckBmKey block.height) (blckiBmKey block.height) ptr
        (appendRow codec (txBmKey txid) (txiBmKey txid) ptr state)

def createdRecord (created : BitmapCreated) (number : ℕ) : BitmapRecord where
  ownr := created.ownerAddress
  prv := none
  bm := number
  blck := block.height
  tx := txidText created.satpoint.outpoint.txid
  vo := created.satpoint.outpoint.vout
  val := Nat.toDigits 10 created.outputValueSat
  ins := inscriptionText created.inscriptionId
  num := created.inscriptionNumber
  ts := block.timestamp

/-- The number that a new inscription claims. -/
def claimedNumber (created : BitmapCreated) (state : KvState V) : Option ℕ :=
  if created.inscriptionNumber < 0 then none
  else
    created.body.bind fun body =>
      (dogemapNumber block.height body).filter fun number =>
        (getRecord codec state (bmKey number)).isNone

/-- `index_bitmap_created`: the number claimed, and the rows then. -/
def indexBitmapCreated (created : BitmapCreated) (state : KvState V) : Option (ℕ × KvState V) :=
  (claimedNumber codec block created state).map fun number =>
    let record := createdRecord block created number
    let state := (state.tapPut (bmKey number) (codec.encodeRecord record)).tapPut
      (bmhKey created.inscriptionId) (codec.encodeText (bmKey number))
    let state := listRecord codec block number created.satpoint.outpoint.txid record state
    let state := appendRow codec (bmlKey created.ownerAddress) (bmliKey created.ownerAddress)
      (codec.encodeText (inscriptionText created.inscriptionId)) state
    (number, state.tapPut (kindKey created.inscriptionId) (codec.encodeText "bm".toList))

def recordedOwner (ownerAddress : Address) : Address :=
  if trimJsWhitespace ownerAddress = "-".toList then burnAddress else ownerAddress

def movedRecord (moved : BitmapMoved) (number : ℕ) (prevOwner : Address) (entryNumber : ℕ) :
    BitmapRecord where
  ownr := recordedOwner moved.ownerAddress
  prv := some prevOwner
  bm := number
  blck := block.height
  tx := txidText moved.newSatpoint.outpoint.txid
  vo := moved.newSatpoint.outpoint.vout
  val := Nat.toDigits 10 moved.outputValueSat
  ins := inscriptionText moved.inscriptionId
  num := min entryNumber (2 ^ 31 - 1)
  ts := block.timestamp

/-- `index_bitmap_transferred`: the number moved, and the rows then. -/
def indexBitmapTransferred (moved : BitmapMoved) (state : KvState V) : Option (ℕ × KvState V) := do
  let mapped ← getText codec state (bmhKey moved.inscriptionId)
  let number ← bitmapBlockFromMapping mapped
  let prev ← getRecord codec state (bmKey number)
  let entryNumber ← moved.entryNumber
  let record := movedRecord block moved number prev.ownr entryNumber
  let state := state.tapPut (bmKey number) (codec.encodeRecord record)
  let state := listRecord codec block number moved.newSatpoint.outpoint.txid record state
  let owner := recordedOwner moved.ownerAddress
  some (number, appendRow codec (bmlKey owner) (bmliKey owner)
    (codec.encodeText (inscriptionText moved.inscriptionId)) state)

end Handlers

end OrdDogecoin.Tap
