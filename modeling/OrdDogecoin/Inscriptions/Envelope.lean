/-
Module: OrdDogecoin.Inscriptions.Envelope
Purpose: The envelope parser: the pushes of the first input's scriptSig of each transaction of a
  chain, the pieces counted down over them, and the delegate field behind the last piece.
Trusted boundary: none
Main exports: Inscription, parse, fromTransactions
-/
import OrdDogecoin.Chain.Transaction
import OrdDogecoin.Lib.LittleEndian

namespace OrdDogecoin.Inscriptions

open Chain

abbrev Bytes := List UInt8

structure Inscription where
  body : Option Bytes
  contentType : Option Bytes
  delegate : Option Bytes
deriving DecidableEq, Repr

inductive ParsedInscription where
  | none
  | part
  | complete (inscription : Inscription)
deriving DecidableEq, Repr

def protocolId : Bytes := [111, 114, 100]

/-! ### Pushes -/

/-- A push of `len` bytes behind a header. -/
def takePush (header len : ℕ) (bytes : Bytes) : Option (Bytes × Bytes) :=
  if bytes.length < header + len then none
  else some ((bytes.drop header).take len, bytes.drop (header + len))

/-- One round of `decode_push_datas` on a script that starts with `opcode`: the push and the rest.
The lengths of PUSHDATA2 and PUSHDATA4 include the opcode byte, as the indexed inscriptions were
read. -/
def nextPush (opcode : UInt8) (rest : Bytes) : Option (Bytes × Bytes) :=
  let bytes := opcode :: rest
  let byteAt := fun i : ℕ => (bytes.getD i 0).toNat
  if opcode = 0 then some ([], rest)
  else if 81 ≤ opcode ∧ opcode ≤ 96 then some ([opcode - 80], rest)
  else if opcode ≤ 75 then takePush 1 opcode.toNat bytes
  else if opcode = 76 then if bytes.length < 2 then none else takePush 2 (byteAt 1) bytes
  else if opcode = 77 then
    if bytes.length < 3 then none else takePush 3 (byteAt 1 * 2 ^ 8 + byteAt 0) bytes
  else if opcode = 78 then
    if bytes.length < 5 then none
    else takePush 5 (byteAt 3 * 2 ^ 24 + byteAt 2 * 2 ^ 16 + byteAt 1 * 2 ^ 8 + byteAt 0) bytes
  else none

/-- `decode_push_datas`, in at most `fuel` rounds. -/
def decodePushes : ℕ → Bytes → Option (List Bytes)
  | _, [] => some []
  | 0, _ :: _ => none
  | fuel + 1, opcode :: rest => do
      let (push, rest) ← nextPush opcode rest
      let pushes ← decodePushes fuel rest
      some (push :: pushes)

/-- `decode_push_datas`: every round consumes a byte. -/
def decodePushDatas (script : Script) : Option (List Bytes) := decodePushes script.length script

def pushDataToNumber (data : Bytes) : Option ℕ :=
  if 8 < data.length then none else some (LittleEndian.ofLeBytes data)

/-! ### Envelopes -/

/-- The pieces that are counted down at the head of the pushes: how many are left, the pushes behind
them, and the body. -/
def readPieces : ℕ → List Bytes → Bytes → ℕ × List Bytes × Bytes
  | 0, pushes, body => (0, pushes, body)
  | n + 1, index :: piece :: pushes, body =>
      if pushDataToNumber index = some n then readPieces n pushes (body ++ piece)
      else (n + 1, index :: piece :: pushes, body)
  | n + 1, pushes, body => (n + 1, pushes, body)

/-- The first value under the delegate tag; a key of another length ends the fields. -/
def delegateField : List Bytes → Option Bytes
  | key :: value :: fields =>
      if key.length ≠ 1 then none else if key = [11] then some value else delegateField fields
  | _ => none

/-- The loop of `parse_with` over the transactions behind the current one. -/
def parsePieces (contentType : Bytes) : List Script → ℕ → List Bytes → Bytes → ParsedInscription
  | scripts, npieces, pushes, body =>
      match readPieces npieces pushes body with
      | (0, fields, body) =>
          .complete { body := some body, contentType := some contentType, delegate := delegateField fields }
      | (left + 1, _, body) =>
          match scripts with
          | [] => .part
          | script :: scripts =>
              match decodePushDatas script with
              | some (index :: piece :: pushes) =>
                  if pushDataToNumber index = some left then
                    parsePieces contentType scripts (left + 1) (index :: piece :: pushes) body
                  else .none
              | _ => .none

def parse : List Script → ParsedInscription
  | [] => .none
  | script :: scripts =>
      match decodePushDatas script with
      | some (protocol :: npieces :: contentType :: pushes) =>
          if protocol ≠ protocolId then .none
          else
            match pushDataToNumber npieces with
            | some (left + 1) => parsePieces contentType scripts (left + 1) pushes []
            | _ => .none
      | _ => .none

/-- The first scriptSig of a transaction. -/
def sigScript (tx : Transaction) : Option Script := tx.input.head?.map TxIn.scriptSig

def fromTransactions (txs : List Transaction) : ParsedInscription :=
  match txs.mapM sigScript with
  | none => .none
  | some scripts => parse scripts

-- `valid_with_delegate` of the source's tests
example : parse [[3, 111, 114, 100, 81, 0, 0, 0, 91, 32] ++ List.replicate 32 0] =
    .complete { body := some [], contentType := some [], delegate := some (List.replicate 32 0) } := by
  decide

/-! ### Parts -/

theorem readPieces_append (npieces : ℕ) :
    ∀ (pushes : List Bytes) (body : Bytes), ∃ more, (readPieces npieces pushes body).2.2 = body ++ more := by
  induction npieces with
  | zero => exact fun _ _ => ⟨[], (List.append_nil _).symm⟩
  | succ n ih =>
      intro pushes body
      match pushes with
      | [] => exact ⟨[], (List.append_nil _).symm⟩
      | [_] => exact ⟨[], (List.append_nil _).symm⟩
      | index :: piece :: pushes =>
          rw [readPieces]
          split
          next =>
            obtain ⟨more, hmore⟩ := ih pushes (body ++ piece)
            exact ⟨piece ++ more, by rw [hmore, List.append_assoc]⟩
          next => exact ⟨[], (List.append_nil _).symm⟩

/-! ### Content -/

/-- `str::from_utf8` succeeds. -/
def validUtf8 : Bytes → Bool
  | [] => true
  | a :: bytes =>
      if a < 0x80 then validUtf8 bytes
      else
        let continues := fun b : UInt8 => 0x80 ≤ b && b ≤ 0xbf
        match bytes with
        | [] => false
        | b :: bytes =>
            if 0xc2 ≤ a && a ≤ 0xdf then continues b && validUtf8 bytes
            else
              match bytes with
              | [] => false
              | c :: bytes =>
                  if 0xe0 ≤ a && a ≤ 0xef then
                    continues b && (a ≠ 0xe0 || 0xa0 ≤ b) && (a ≠ 0xed || b ≤ 0x9f) &&
                      continues c && validUtf8 bytes
                  else
                    match bytes with
                    | [] => false
                    | d :: bytes =>
                        0xf0 ≤ a && a ≤ 0xf4 && continues b && (a ≠ 0xf0 || 0x90 ≤ b) &&
                          (a ≠ 0xf4 || b ≤ 0x8f) && continues c && continues d && validUtf8 bytes

/-- `Inscription::content_type` is there and starts with the text. -/
def Inscription.hasContentType (inscription : Inscription) (start : String) : Bool :=
  match inscription.contentType with
  | none => false
  | some contentType =>
      validUtf8 contentType && (start.toList.map fun c => c.toNat.toUInt8).isPrefixOf contentType

/-- The content types that TAP reads. -/
def Inscription.isText (inscription : Inscription) : Bool :=
  inscription.hasContentType "text/plain" || inscription.hasContentType "application/json"

def Inscription.delegateId (inscription : Inscription) : Option InscriptionId := do
  let value ← inscription.delegate
  let index := value.drop 32
  if value.length < 32 ∨ 36 < value.length then none
  else if index.length ≠ 4 ∧ index.getLast? = some 0 then none
  else
    some { txid := LittleEndian.ofLeBytes (value.take 32), index := LittleEndian.ofLeBytes index }

/-- `u8::to_ascii_lowercase`. -/
def toAsciiLowercase (byte : UInt8) : UInt8 := if 65 ≤ byte ∧ byte ≤ 90 then byte + 32 else byte

/-- `tap_lean_keeps_content`: text that mentions "tap" or "dmt", or ends in ".dogemap". -/
def tapLeanKeepsContent (inscription : Inscription) : Bool :=
  if !inscription.isText then false
  else
    match inscription.body with
    | none => false
    | some body =>
        let lower := body.map toAsciiLowercase
        lower.tails.any (fun rest => [116, 97, 112].isPrefixOf rest || [100, 109, 116].isPrefixOf rest) ||
          (".dogemap".toList.map fun c => c.toNat.toUInt8).isSuffixOf lower

end OrdDogecoin.Inscriptions
