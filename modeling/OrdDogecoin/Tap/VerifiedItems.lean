/-
Module: OrdDogecoin.Tap.VerifiedItems
Purpose: The records of verified items: what the creation of an item and its later moves write, and the
  lists of pointers that are kept per authority, per collection and per block.
Trusted boundary: a pointer is the index of its record in the list `sfprav`; a list under a key text is
  its pointers; output values, timestamps and the kind of an inscription are not kept
Main exports: PrivilegeVerifiedRecord, VerifiedStore.indexPrivilegeVerifyCreated,
  VerifiedStore.indexPrivilegeVerifyTransferred
-/
import OrdDogecoin.Tap.Privileges
import OrdDogecoin.Tap.Dogemap
import OrdDogecoin.Lib.PrefixCode
import OrdDogecoin.Lib.KeyedLog

namespace OrdDogecoin.Tap

open Chain KeyedLog PrefixCode

/-- `PrivilegeVerifiedRecord`, less the value and the time of the output. -/
structure PrivilegeVerifiedRecord where
  ownr : Address
  prv : Option Address
  name : Text
  privf : Text
  col : Text
  vrf : Text
  seq : Text
  slt : Text
  blck : ℕ
  tx : Txid
  vo : ℕ
  ins : Text
  num : ℤ
deriving DecidableEq, Repr

/-- The rows of authorities and of verified items: the list of records, the newest record of a path, the
links between paths and inscriptions, and the lists of pointers. -/
structure VerifiedStore where
  prah : KeyTable Text Unit
  prains : KeyTable Text PrivilegeAuthCreateRecord
  prac : KeyTable Text Unit
  sfprav : List PrivilegeVerifiedRecord
  prvvrfd : KeyTable Text ℕ
  prvins : KeyTable Text Text
  prv : KeyTable Text (List ℕ)
  prvcol : KeyTable Text (List ℕ)
  blck : KeyTable Text (List ℕ)
  blckp : KeyTable Text (List ℕ)
  blckpc : KeyTable Text (List ℕ)

namespace VerifiedStore

def empty : VerifiedStore where
  prah := ∅
  prains := ∅
  prac := ∅
  sfprav := []
  prvvrfd := ∅
  prvins := ∅
  prv := ∅
  prvcol := ∅
  blck := ∅
  blckp := ∅
  blckpc := ∅

/-- The rows that the checks of the privilege handlers read. -/
def rows (store : VerifiedStore) : PrivilegeStore where
  prah := store.prah
  prains := store.prains
  prac := store.prac
  prvvrfd := store.prvvrfd.mapValues fun _ => ()

/-- A handler of authorities leaves the verified items alone. -/
def withAuthorities (store : VerifiedStore) (rows : PrivilegeStore) : VerifiedStore :=
  { store with prah := rows.prah, prains := rows.prains, prac := rows.prac }

/-! ### Keys -/

def blockKey (height : ℕ) : Text := Nat.toDigits 10 height

/-- The key of a list of an authority in one block, behind `blckp/pravth/`. -/
def authorityKey (prv : Text) (height : ℕ) : Text := prv ++ '/' :: blockKey height

/-- The key of the lists of a collection, behind `prvcol/`. -/
def collectionKey (prv colKey : Text) : Text := prv ++ '/' :: colKey

/-- The key of a list of a collection in one block, behind `blckpc/pravth/`. -/
def collectionBlockKey (prv colKey : Text) (height : ℕ) : Text :=
  prv ++ '/' :: (colKey ++ '/' :: blockKey height)

section Handlers

variable (env : TapEnv) (lib : SignatureLib) (context : TapContext)

/-! ### Creation -/

def authorityName (store : VerifiedStore) (authority : Text) : Text :=
  ((store.prains.lookup authority).bind fun link => (link.auth.get "name").bind Json.asStr).getD []

/-- The record of a new item. -/
def createdRecord (created : Created) (fields : VerifyFields) (store : VerifiedStore) :
    PrivilegeVerifiedRecord where
  ownr := created.ownerAddress
  prv := none
  name := store.authorityName fields.prv
  privf := fields.prv
  col := fields.col
  vrf := fields.verify
  seq := fields.seq
  slt := fields.salt
  blck := context.height
  tx := created.satpoint.outpoint.txid
  vo := created.satpoint.outpoint.vout
  ins := inscriptionText created.inscriptionId
  num := created.inscriptionNumber

/-- The writes for a new item. -/
def recordCreated (created : Created) (fields : VerifyFields) (compact : Text) (store : VerifiedStore) :
    VerifiedStore :=
  let ptr := store.sfprav.length
  let path := fields.path env
  let colKey := env.jsJsonStringifyStr fields.col
  { store with
    sfprav := store.sfprav ++ [createdRecord context created fields store]
    prvvrfd := store.prvvrfd.insert path ptr
    prvins := (store.prvins.insert path (inscriptionText created.inscriptionId)).insert
      (inscriptionText created.inscriptionId) ("prvins/".toList ++ path)
    prv := push store.prv fields.prv ptr
    prvcol := push store.prvcol (collectionKey fields.prv colKey) ptr
    blck := push store.blck (blockKey context.height) ptr
    blckp := push store.blckp (authorityKey fields.prv context.height) ptr
    blckpc := push store.blckpc (collectionBlockKey fields.prv colKey context.height) ptr
    prah := store.prah.insert compact () }

def indexPrivilegeVerifyCreated (created : Created) (store : VerifiedStore) : VerifiedStore :=
  match checkedVerify env lib context created store.rows with
  | none => store
  | some (fields, compact) => store.recordCreated env context created fields compact

/-! ### Moves -/

/-- The path of a moved item behind `prvins/`, and its newest record.  The row of the path is a text
alone. -/
def movedItem (id : InscriptionId) (store : VerifiedStore) : Option (Text × PrivilegeVerifiedRecord) := do
  let path ← (store.prvins.lookup (inscriptionText id)).bind env.strings.read
  guard ("prvins/".toList.isPrefixOf path)
  let suffix := path.drop 7
  let ptr ← store.prvvrfd.lookup suffix
  let prev ← store.sfprav[ptr]?
  let link ← (store.prvins.lookup suffix).bind env.strings.read
  guard (link = inscriptionText id)
  some (suffix, prev)

def transferredRecord (moved : Moved) (prev : PrivilegeVerifiedRecord) : PrivilegeVerifiedRecord :=
  { prev with
    ownr := recordedOwner moved.ownerAddress
    prv := some prev.ownr
    blck := context.height
    tx := moved.newSatpoint.outpoint.txid
    vo := moved.newSatpoint.outpoint.vout }

/-- The authority and the key of the collection, cut out of a path. -/
def splitPath (suffix : Text) : Option (Text × Text) := do
  let (prv, rest) ← splitOnce '/' suffix
  let (colAndVerify, _) ← rsplitOnce '/' rest
  let (colKey, _) ← rsplitOnce '/' colAndVerify
  some (prv, colKey)

/-- The lists of the authority and of the collection of a path. -/
def listMove (suffix : Text) (ptr : ℕ) (store : VerifiedStore) : VerifiedStore :=
  match splitPath suffix with
  | none => store
  | some (prv, colKey) =>
      { store with
        blckp := push store.blckp (authorityKey prv context.height) ptr
        blckpc := push store.blckpc (collectionBlockKey prv colKey context.height) ptr }

def recordTransferred (moved : Moved) (suffix : Text) (prev : PrivilegeVerifiedRecord)
    (store : VerifiedStore) : VerifiedStore :=
  let ptr := store.sfprav.length
  listMove context suffix ptr
    { store with
      sfprav := store.sfprav ++ [transferredRecord context moved prev]
      prvvrfd := store.prvvrfd.insert suffix ptr
      blck := push store.blck (blockKey context.height) ptr }

def indexPrivilegeVerifyTransferred (moved : Moved) (store : VerifiedStore) : VerifiedStore :=
  if moved.newSatpoint.outpoint.txid = moved.inscriptionId.txid then store
  else if !featureEnabled env context .tapStart then store
  else
    match movedItem env moved.inscriptionId store with
    | none => store
    | some (suffix, prev) => store.recordTransferred context moved suffix prev

end Handlers

end VerifiedStore

end OrdDogecoin.Tap
