/-
Module: OrdDogecoin.Tap.RouteIndex
Purpose: The index of routes: which handler a moved inscription goes to, kept from the keys of the rows
  as they are written and removed, and the caches of the last owners of blocks and DMT mints.
Trusted boundary: none
Main exports: TapRoute, TapRouteIndex.observeDel, TapRouteIndex.routeFor
-/
import OrdDogecoin.Tap.Dogemap
import OrdDogecoin.Lib.StampedCache

namespace OrdDogecoin.Tap

open Chain

/-- `TapRoute`. -/
inductive TapRoute where
  | bitmap (block : Option ℕ)
  | dmtMint
  | privilege
  | transferLink
  | accumulator
deriving DecidableEq, Repr

/-- `DmtMintMetaRecord`. -/
structure DmtMintMetaRecord where
  tick : Text
  elem : Json
  dmtblck : ℕ
  blckdrp : Bool
  dep : Text
  prts : Option Text
  num : ℤ
deriving Repr

structure BitmapHotEntry where
  block : ℕ
  currentOwner : Address
deriving DecidableEq, Repr

structure DmtHotEntry where
  record : DmtMintMetaRecord
  currentOwner : Address
deriving Repr

structure TapRouteIndex where
  routes : KeyTable InscriptionId TapRoute
  bitmapHot : StampedCache InscriptionId BitmapHotEntry
  dmtHot : StampedCache InscriptionId DmtHotEntry
  clock : ℕ
  maxHotEntries : ℕ
  ready : Bool
  coverageHeight : ℕ

/-! ### Identifiers -/

/-- `Txid::from_str`: 64 hexadecimal digits. -/
def parseTxid (text : Text) : Option Txid :=
  if text.length = 64 && text.all (fun c => (toDigit 16 c).isSome) then
    some (text.foldl (fun n c => 16 * n + (toDigit 16 c).getD 0) 0)
  else none

/-- `parse::<u32>`. -/
def parseU32 (text : Text) : Option ℕ := (parseUsize text).filter (· < 2 ^ 32)

/-- `InscriptionId::from_str`. -/
def parseInscriptionId (text : Text) : Option InscriptionId :=
  if text.any (fun c => 0x80 ≤ c.toNat) then none
  else if text.length < 66 then none
  else if text[64]? ≠ some 'i' then none
  else do
    let txid ← parseTxid (text.take 64)
    let index ← parseU32 (text.drop 65)
    some ⟨txid, index⟩

/-- `strip_prefix`. -/
def strip (front : String) (text : Text) : Option Text :=
  if front.toList.isPrefixOf text then some (text.drop front.length) else none

/-- The identifier that a key of a family names. -/
def idOfKey (front : String) (key : Text) : Option InscriptionId := (strip front key).bind parseInscriptionId

/-- The routes that a stored kind stands for. -/
def routeOfKind (kind : Text) : Option TapRoute :=
  if kind = "bm".toList then some (.bitmap none)
  else if kind = "dmtmh".toList then some .dmtMint
  else if kind = "prvins".toList then some .privilege
  else if kind = "tl".toList then some .transferLink
  else none

namespace TapRouteIndex

def new (maxHotEntries : ℕ) : TapRouteIndex where
  routes := ∅
  bitmapHot := .empty
  dmtHot := .empty
  clock := 0
  maxHotEntries := maxHotEntries
  ready := false
  coverageHeight := 0

variable (index : TapRouteIndex)

def markReady (coverageHeight : ℕ) : TapRouteIndex :=
  { index with coverageHeight := coverageHeight, ready := true }

def routeFor (id : InscriptionId) : Option TapRoute :=
  if index.ready then index.routes.lookup id else none

/-! ### Routes -/

/-- The route after another one is inserted: an accumulator changes nothing, a block keeps the number it
has, and everything else takes its place. -/
def insertedRoute : Option TapRoute → TapRoute → TapRoute
  | none, route => route
  | some existing, .accumulator => existing
  | some (.bitmap (some block)), .bitmap _ => .bitmap (some block)
  | some _, route => route

def insertRoute (id : InscriptionId) (route : TapRoute) : TapRouteIndex :=
  { index with routes := index.routes.insert id (insertedRoute (index.routes.lookup id) route) }

def removeRouteIf (id : InscriptionId) (route : TapRoute) : TapRouteIndex :=
  if index.routes.lookup id = some route then
    { index with
      routes := index.routes.erase id
      bitmapHot := index.bitmapHot.remove id
      dmtHot := index.dmtHot.remove id }
  else index

/-- Insert the route of an identifier, if there is one. -/
def insertAt (id : Option InscriptionId) (route : TapRoute) : TapRouteIndex :=
  match id with
  | none => index
  | some id => index.insertRoute id route

def observeKind (id : Option InscriptionId) (value : Option Text) : TapRouteIndex :=
  match value.bind routeOfKind with
  | none => index
  | some route => index.insertAt id route

def observeLink (id : Option InscriptionId) (value : Option Text) : TapRouteIndex :=
  match id with
  | none => index
  | some id =>
      if value.any fun link => link ≠ [] then index.insertRoute id .transferLink
      else index.removeRouteIf id .transferLink

/-- `observe_put` of a value that is this text, if it is one.  The families are tried in turn. -/
def observePut (key : Text) (value : Option Text) : TapRouteIndex :=
  if (strip "kind/" key).isSome then index.observeKind (idOfKey "kind/" key) value
  else if (strip "bmh/" key).isSome then
    index.insertAt (idOfKey "bmh/" key) (.bitmap (value.bind bitmapBlockFromMapping))
  else if (strip "dmtmhm/" key).isSome then index.insertAt (idOfKey "dmtmhm/" key) .dmtMint
  else if (strip "dmtmho/" key).isSome then index.insertAt (idOfKey "dmtmho/" key) .dmtMint
  else if (strip "prvins/" key).isSome then index.insertAt (idOfKey "prvins/" key) .privilege
  else if (strip "tl/" key).isSome then index.observeLink (idOfKey "tl/" key) value
  else if (strip "a/" key).isSome then index.insertAt (idOfKey "a/" key) .accumulator
  else index

def observeDel (key : Text) : TapRouteIndex :=
  if (strip "a/" key).isSome then
    match idOfKey "a/" key with
    | none => index
    | some id => index.removeRouteIf id .accumulator
  else if (strip "tl/" key).isSome then
    match idOfKey "tl/" key with
    | none => index
    | some id => index.removeRouteIf id .transferLink
  else index

/-! ### Caches -/

/-- The next stamp; the clock stays at its largest value. -/
def nextStamp : ℕ := min (index.clock + 1) (2 ^ 64 - 1)

def putBitmapHot (id : InscriptionId) (block : ℕ) (currentOwner : Address) : TapRouteIndex :=
  { index with
    clock := index.nextStamp
    bitmapHot := index.bitmapHot.put index.maxHotEntries id index.nextStamp
      { block := block, currentOwner := currentOwner } }

def putDmtHot (id : InscriptionId) (record : DmtMintMetaRecord) (currentOwner : Address) :
    TapRouteIndex :=
  { index with
    clock := index.nextStamp
    dmtHot := index.dmtHot.put index.maxHotEntries id index.nextStamp
      { record := record, currentOwner := currentOwner } }

/-- The index after `bitmap_hot`, which returns the value of the cache. -/
def touchBitmapHot (id : InscriptionId) : TapRouteIndex :=
  match index.bitmapHot.value id with
  | none => index
  | some _ =>
      { index with clock := index.nextStamp, bitmapHot := index.bitmapHot.touch id index.nextStamp }

/-- The index after `dmt_hot`. -/
def touchDmtHot (id : InscriptionId) : TapRouteIndex :=
  match index.dmtHot.value id with
  | none => index
  | some _ => { index with clock := index.nextStamp, dmtHot := index.dmtHot.touch id index.nextStamp }

end TapRouteIndex

end OrdDogecoin.Tap
