/-
Module: OrdDogecoin.Chain.Transaction
Purpose: The chain data every updater reads: outpoints, transactions, blocks, sat points and
  inscription ids.  A transaction carries its txid, as the updaters receive the pair.
Trusted boundary: hashes are natural numbers; nothing here computes one
Main exports: OutPoint, SatPoint, InscriptionId
-/
import Mathlib.Algebra.Order.Ring.Nat

namespace OrdDogecoin.Chain

/-- A transaction hash. -/
abbrev Txid := ℕ

abbrev BlockHash := ℕ

abbrev Script := List UInt8

/-- A reference to one output of a transaction. -/
structure OutPoint where
  txid : Txid
  vout : ℕ
deriving DecidableEq, Repr

/-- `OutPoint::null()`: the previous output of a coinbase input, and the home of lost sats. -/
def OutPoint.null : OutPoint := { txid := 0, vout := 2 ^ 32 - 1 }

structure TxIn where
  previousOutput : OutPoint
  scriptSig : Script := []
deriving DecidableEq, Repr

structure TxOut where
  value : ℕ
  scriptPubkey : Script := []
deriving DecidableEq, Repr

/-- A transaction with its txid. -/
structure Transaction where
  txid : Txid
  input : List TxIn
  output : List TxOut
deriving DecidableEq, Repr

def Transaction.outputValue (tx : Transaction) : ℕ := (tx.output.map TxOut.value).sum

/-- `tx.input.first()` spends the null outpoint. -/
def Transaction.isCoinbase (tx : Transaction) : Bool :=
  match tx.input with
  | [] => false
  | first :: _ => first.previousOutput = OutPoint.null

/-- The outpoint of output `vout` of a transaction. -/
def Transaction.outpoint (tx : Transaction) (vout : ℕ) : OutPoint := { txid := tx.txid, vout := vout }

structure BlockHeader where
  blockHash : BlockHash
  prevBlockhash : BlockHash
  time : ℕ := 0
  bits : ℕ := 0
  nonce : ℕ := 0
deriving DecidableEq, Repr

/-- `BlockData`: a header and the block's transactions, coinbase first. -/
structure BlockData where
  header : BlockHeader
  txdata : List Transaction
deriving DecidableEq, Repr

/-- One sat of one output. -/
structure SatPoint where
  outpoint : OutPoint
  offset : ℕ
deriving DecidableEq, Repr

structure InscriptionId where
  txid : Txid
  index : ℕ
deriving DecidableEq, Repr

end OrdDogecoin.Chain
