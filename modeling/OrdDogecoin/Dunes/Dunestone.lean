/-
Module: OrdDogecoin.Dunes.Dunestone
Purpose: Deciphering a dunestone from the scripts of a transaction: script instructions, the
  varints of the payload, tags and fields, edicts, the etching, and the reasons for a cenotaph.
Trusted boundary: `instructions` follows the documented behaviour of the script iterator
Main exports: Edict, Dunestone, Dunestone.fromTransaction
-/
import OrdDogecoin.Chain.Transaction
import OrdDogecoin.Lib.KeyTable

namespace OrdDogecoin.Dunes

open Chain

/-- `u128::MAX`. -/
def maxU128 : ℕ := 2 ^ 128 - 1

def claimBit : ℕ := 1 <<< 48

/-- `MAX_LIMIT`: `u64::MAX`. -/
def maxLimit : ℕ := 2 ^ 64 - 1

def maxDivisibility : ℕ := 38

def maxSpacers : ℕ := 0b00000111_11111111_11111111_11111111

structure Edict where
  id : ℕ
  amount : ℕ
  output : ℕ
deriving DecidableEq, Repr

structure Terms where
  limit : Option ℕ
  cap : Option ℕ
  height : Option ℕ × Option ℕ
  offset : Option ℕ × Option ℕ
deriving DecidableEq, Repr

structure Etching where
  divisibility : Option ℕ
  terms : Option Terms
  premine : Option ℕ
  dune : Option ℕ
  spacers : Option ℕ
  symbol : Option ℕ
  turbo : Bool
deriving DecidableEq, Repr

structure Dunestone where
  edicts : List Edict
  etching : Option Etching
  pointer : Option ℕ
  cenotaph : Bool
deriving DecidableEq, Repr

/-! ### Scripts -/

inductive Instruction where
  | pushBytes (bytes : List UInt8)
  | op (code : UInt8)
deriving DecidableEq, Repr

def opReturn : UInt8 := 0x6a

def isOpReturn (script : Script) : Bool := script.head? = some opReturn

/-- The number of length bytes after a push opcode. -/
def pushLengthBytes (code : UInt8) : Option ℕ :=
  if code = 0x4c then some 1 else if code = 0x4d then some 2 else if code = 0x4e then some 4
  else none

/-- The little-endian value of some length bytes. -/
def leValue (bytes : List UInt8) : ℕ := bytes.foldr (fun byte rest => byte.toNat + 256 * rest) 0

/-- `Script::instructions` of the bitcoin crate: an early end of script is an error that ends the iteration.
The count bounds the number of instructions by the number of bytes. -/
def instructionsFrom : ℕ → Script → List (Option Instruction)
  | _, [] => []
  | 0, _ :: _ => []
  | n + 1, code :: rest =>
      match pushLengthBytes code with
      | some width =>
          if rest.length < width then [none]
          else
            let length := leValue (rest.take width)
            let body := rest.drop width
            if body.length < length then [none]
            else some (.pushBytes (body.take length)) :: instructionsFrom n (body.drop length)
      | none =>
          if code ≤ 0x4b then
            if rest.length < code.toNat then [none]
            else
              some (.pushBytes (rest.take code.toNat)) :: instructionsFrom n (rest.drop code.toNat)
          else some (.op code) :: instructionsFrom n rest

def instructions (script : Script) : List (Option Instruction) :=
  instructionsFrom script.length script

def pushedBytes : List (Option Instruction) → Option (List UInt8)
  | [] => some []
  | none :: _ => none
  | some (.pushBytes bytes) :: rest => (pushedBytes rest).map (bytes ++ ·)
  | some (.op _) :: rest => pushedBytes rest

/-- `Dunestone::payload`: the outer option is the script error, which stops the search at the first
malformed output. -/
def payload : List TxOut → Option (Option (List UInt8))
  | [] => some none
  | output :: outputs =>
      match instructions output.scriptPubkey with
      | none :: _ => none
      | some (.op code) :: rest =>
          if code ≠ opReturn then payload outputs
          else
            match rest with
            | none :: _ => none
            | some (.pushBytes [0x44]) :: rest => (pushedBytes rest).map some
            | _ => payload outputs
      | _ => payload outputs

/-! ### Integers -/

/-- Saturation at `u128::MAX`. -/
def saturate (n : ℕ) : ℕ := min n maxU128

/-- `Dunestone::integers`: the varints of the payload.  The accumulator is the varint being read, a
payload that ends inside one yields what was read. -/
def integersFrom : Option ℕ → List UInt8 → List ℕ
  | none, [] => []
  | some n, [] => [n]
  | pending, byte :: bytes =>
      let n := saturate (pending.getD 0 * 128)
      if byte.toNat < 128 then saturate (n + byte.toNat) :: integersFrom none bytes
      else integersFrom (some (saturate (n + (byte.toNat - 127)))) bytes

def integers (payload : List UInt8) : List ℕ := integersFrom none payload

/-! ### Messages -/

/-- `DuneId::try_from`: the height of an id fits `u64`. -/
def isDuneId (id : ℕ) : Bool := id >>> 16 < 2 ^ 64

/-- `Edict::from_integers` for a transaction with `outputs` outputs. -/
def Edict.fromIntegers (outputs id amount output : ℕ) : Option Edict :=
  if !isDuneId id then none
  else if id >>> 16 = 0 ∧ 0 < id % 2 ^ 16 then none
  else if outputs < output then none
  else some { id := id, amount := amount, output := output }

/-- The body: ids are deltas, and a malformed edict makes a cenotaph. -/
def edictsFrom (outputs : ℕ) : ℕ → List ℕ → Bool × List Edict
  | id, delta :: amount :: output :: rest =>
      let id := saturate (id + delta)
      let (cenotaph, edicts) := edictsFrom outputs id rest
      match Edict.fromIntegers outputs id amount output with
      | some edict => (cenotaph, edict :: edicts)
      | none => (true, edicts)
  | _, _ => (false, [])

abbrev Fields := KeyTable ℕ ℕ

structure Message where
  cenotaph : Bool
  fields : Fields
  edicts : List Edict

/-- `Message::from_integers`: the first value of a tag wins, a tag without value ends the fields. -/
def Message.fromIntegers (outputs : ℕ) : List ℕ → Fields → Message
  | [], fields => { cenotaph := false, fields := fields, edicts := [] }
  | [_], fields => { cenotaph := false, fields := fields, edicts := [] }
  | tag :: value :: rest, fields =>
      if tag = 0 then
        let (cenotaph, edicts) := edictsFrom outputs 0 (value :: rest)
        { cenotaph := cenotaph, fields := fields, edicts := edicts }
      else
        Message.fromIntegers outputs rest
          (if (fields.lookup tag).isSome then fields else fields.insert tag value)

inductive Tag where
  | flags
  | dune
  | limit
  | offsetEnd
  | pointer
  | heightStart
  | offsetStart
  | heightEnd
  | cap
  | premine
  | divisibility
  | spacers
  | symbol
deriving DecidableEq, Repr

def Tag.value : Tag → ℕ
  | .flags => 2
  | .dune => 4
  | .limit => 6
  | .offsetEnd => 8
  | .pointer => 12
  | .heightStart => 14
  | .offsetStart => 16
  | .heightEnd => 18
  | .cap => 20
  | .premine => 22
  | .divisibility => 1
  | .spacers => 3
  | .symbol => 5

/-- The tags `decipher` takes out of the fields. -/
def Tag.all : List Tag :=
  [.pointer, .divisibility, .limit, .dune, .cap, .premine, .spacers, .symbol, .heightStart,
    .heightEnd, .offsetStart, .offsetEnd, .flags]

/-- `Tag::take`, as a look-up: each tag is taken once. -/
def Tag.take (tag : Tag) (fields : Fields) : Option ℕ := fields.lookup tag.value

/-- Keep a value only below a bound, as the narrowing conversions of `decipher` do. -/
def below (bound : ℕ) (value : Option ℕ) : Option ℕ := value.filter (· < bound)

/-- `char::from_u32`: no surrogates and nothing above `0x10FFFF`. -/
def isScalarValue (n : ℕ) : Bool := n < 0xD800 || (0xDFFF < n && n < 0x110000)

/-- The etching of a message, read from its fields. -/
def Etching.fromFields (fields : Fields) : Etching where
  divisibility := below (maxDivisibility + 1) (Tag.divisibility.take fields)
  terms :=
    if (Tag.flags.take fields).getD 0 &&& 2 ≠ 0 then
      some
        { limit := (Tag.limit.take fields).map (min · maxLimit)
          cap := Tag.cap.take fields
          height := (below (2 ^ 64) (Tag.heightStart.take fields),
            below (2 ^ 64) (Tag.heightEnd.take fields))
          offset := (below (2 ^ 64) (Tag.offsetStart.take fields),
            below (2 ^ 64) (Tag.offsetEnd.take fields)) }
    else none
  premine := Tag.premine.take fields
  dune := Tag.dune.take fields
  spacers := below (maxSpacers + 1) (Tag.spacers.take fields)
  symbol := (Tag.symbol.take fields).filter isScalarValue
  turbo := (Tag.flags.take fields).getD 0 &&& 4 ≠ 0

/-- The overflow check of `decipher`: the premine field plus cap times limit. -/
def issuanceOverflows (fields : Fields) : Bool :=
  let premine := (Tag.premine.take fields).getD 0
  let cap := (Tag.cap.take fields).getD 0
  let limit := ((Tag.limit.take fields).map (min · maxLimit)).getD 0
  maxU128 < premine + cap * limit

/-- `Dunestone::decipher` after the payload has been read.  A premine becomes an edict of id zero
behind the edicts of the body. -/
def Dunestone.fromMessage (message : Message) : Dunestone :=
  let flags := (Tag.flags.take message.fields).getD 0
  let premine := (Tag.premine.take message.fields).getD 0
  { edicts := message.edicts ++
      (if 0 < premine then [{ id := 0, amount := premine, output := 1 }] else [])
    etching := if flags &&& 1 ≠ 0 then some (Etching.fromFields message.fields) else none
    pointer := below (2 ^ 32) (Tag.pointer.take message.fields)
    cenotaph := message.cenotaph || issuanceOverflows message.fields || decide (flags >>> 3 ≠ 0)
      || message.fields.keys.any fun tag => tag % 2 = 0 && !(Tag.all.map Tag.value).contains tag }

def Dunestone.fromTransaction (tx : Transaction) : Option Dunestone :=
  match payload tx.output with
  | some (some bytes) =>
      some (Dunestone.fromMessage (Message.fromIntegers tx.output.length (integers bytes) ∅))
  | _ => none

end OrdDogecoin.Dunes
