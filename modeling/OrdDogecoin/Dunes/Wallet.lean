/-
Module: OrdDogecoin.Dunes.Wallet
Purpose: The dune commands of the wallet: sending an amount of a dune and etching one.  A command builds
  an unfunded transaction, the node adds inputs and at most one change output, and the index then
  processes the result.
Trusted boundary: `fundrawtransaction` keeps the given inputs and outputs, adds wallet inputs without
  dunes and inserts at most one change output (`Funded`); scripts of addresses are whole and never start
  with `OP_RETURN` (`AddressScript`)
Main exports: Decimal.toAmount, Sent, EtchedInFull
-/
import OrdDogecoin.Dunes.Encipher
import OrdDogecoin.Dunes.MintTerms

namespace OrdDogecoin.Dunes

open Chain

/-! ### Amounts -/

structure Decimal where
  value : ℕ
  scale : ℕ
deriving DecidableEq, Repr

/-- `Decimal::to_amount`: too many decimals, or a product above `u128::MAX`, is an error. -/
def Decimal.toAmount (decimal : Decimal) (divisibility : ℕ) : Option ℕ :=
  if divisibility < decimal.scale then none
  else
    let magnitude := 10 ^ (divisibility - decimal.scale)
    if maxU128 < magnitude ∨ maxU128 < decimal.value * magnitude then none
    else some (decimal.value * magnitude)

/-! ### Transactions before and after funding -/

structure AddressScript where
  script : Script
  whole : none ∉ instructions script
  spendable : isOpReturn script = false

def targetPostage : ℕ := 10000

/-- An output that pays the postage to an address. -/
def AddressScript.postage (address : AddressScript) : TxOut where
  value := targetPostage
  scriptPubkey := address.script

/-- A transaction that has not been funded. -/
structure Unfunded where
  input : List OutPoint
  output : List TxOut
deriving DecidableEq

/-- The change output that funding inserts. -/
structure ChangeOutput where
  position : ℕ
  value : ℕ
  address : AddressScript

def ChangeOutput.output (change : ChangeOutput) : TxOut where
  value := change.value
  scriptPubkey := change.address.script

def withChange (change : Option ChangeOutput) (outputs : List TxOut) : List TxOut :=
  match change with
  | none => outputs
  | some inserted => outputs.insertIdx inserted.position inserted.output

/-- What `fundrawtransaction` may make of a transaction. -/
structure Funded (tables : DuneTables) (unfunded : Unfunded) (change : Option ChangeOutput)
    (tx : Transaction) : Prop where
  inputs : ∃ added, (tx.input.map TxIn.previousOutput).Perm (unfunded.input ++ added) ∧
    ∀ outpoint ∈ added, tables.outpointToBalances.lookup outpoint = none
  distinct : (tx.input.map TxIn.previousOutput).Nodup
  position : ∀ inserted ∈ change, inserted.position ≤ unfunded.output.length
  outputs : tx.output = withChange change unfunded.output

/-- Where an output of the unfunded transaction is after funding. -/
def movedTo (change : Option ChangeOutput) (vout : ℕ) : ℕ :=
  match change with
  | none => vout
  | some inserted => if inserted.position ≤ vout then vout + 1 else vout

/-! ### Sending -/

/-- `Index::get_dune_balance`: the first balance of the dune in the row. -/
def DuneTables.balanceOf (tables : DuneTables) (outpoint : OutPoint) (id : ℕ) : ℕ :=
  ((((tables.outpointToBalances.lookup outpoint).getD []).find? fun pair => pair.1 = id).map
    Prod.snd).getD 0

def DuneTables.dune (tables : DuneTables) (name : ℕ) : Option (ℕ × DuneEntry) := do
  let id ← tables.duneToId.lookup name
  let entry ← tables.idToEntry.lookup id
  some (id, entry)

/-- What `send_dunes` is given: the wallet's outputs with dunes, in order, and which outputs carry
inscriptions. -/
structure SendArguments where
  dune : ℕ
  decimal : Decimal
  dunicOutputs : List OutPoint
  inscribed : OutPoint → Bool
  change : AddressScript
  recipient : AddressScript

section Send

variable (overflow : Overflow) (tables : DuneTables)

/-- Add an output that holds the dune to the inputs. -/
def addInput (id : ℕ) (output : OutPoint) (total : ℕ) (input : List OutPoint) :
    Option (ℕ × List OutPoint) :=
  let balance := tables.balanceOf output id
  if 0 < balance then (overflow.add total balance).map fun total => (total, input ++ [output])
  else some (total, input)

/-- The loop over the outputs with dunes.  An inscribed output is passed over before the amount reached is
looked at. -/
def selectInputs (id amount : ℕ) (inscribed : OutPoint → Bool) :
    List OutPoint → ℕ → List OutPoint → Option (ℕ × List OutPoint)
  | [], total, input => some (total, input)
  | output :: outputs, total, input =>
      if inscribed output then selectInputs id amount inscribed outputs total input
      else do
        let (total, input) ← addInput overflow tables id output total input
        if amount ≤ total then some (total, input)
        else selectInputs id amount inscribed outputs total input

/-- The dune and the amount that are asked for. -/
def SendArguments.request (arguments : SendArguments) : Option (ℕ × ℕ) := do
  let (id, entry) ← tables.dune arguments.dune
  let amount ← arguments.decimal.toAmount entry.divisibility
  some (id, amount)

/-- The dunestone that sends an amount of a dune to output 2. -/
def sendDunestone (id amount : ℕ) : Dunestone where
  edicts := [{ id := id, amount := amount, output := 2 }]
  etching := none
  pointer := none
  cenotaph := false

/-- `Send::send_dunes`, up to the funding. -/
def sendDunes (arguments : SendArguments) : Option Unfunded := do
  let (id, amount) ← arguments.request tables
  let (total, input) ←
    selectInputs overflow tables id amount arguments.inscribed arguments.dunicOutputs 0 []
  if total < amount then none
  else
    some
      { input := input
        output := [{ value := 0, scriptPubkey := (sendDunestone id amount).encipher },
          arguments.change.postage, arguments.recipient.postage] }

end Send

/-! ### Etching -/

/-- What `etch` is given, as its arguments are parsed. -/
structure EtchArguments where
  divisibility : ℕ
  dune : ℕ
  spacers : ℕ
  supply : Decimal
  symbol : ℕ
  destination : AddressScript
  dune_le : dune ≤ maxU128
  spacers_le : spacers ≤ maxSpacers
  symbol_scalar : isScalarValue symbol = true

/-- The dunestone that etches a dune and gives an amount of it to output 1. -/
def EtchArguments.dunestone (arguments : EtchArguments) (amount : ℕ) : Dunestone where
  edicts := [{ id := 0, amount := amount, output := 1 }]
  etching := some
    { divisibility := some arguments.divisibility
      terms := none
      premine := none
      dune := some arguments.dune
      spacers := some arguments.spacers
      symbol := some arguments.symbol
      turbo := false }
  pointer := none
  cenotaph := false

/-- `Etch::run`, up to the funding; `minimum` is the least name of the next block. -/
def etchDune (tables : DuneTables) (minimum : ℕ) (arguments : EtchArguments) : Option Unfunded :=
  if (tables.dune arguments.dune).isSome then none
  else if arguments.dune < minimum then none
  else if reserved ≤ arguments.dune then none
  else if maxDivisibility < arguments.divisibility then none
  else do
    let amount ← arguments.supply.toAmount arguments.divisibility
    let script := (arguments.dunestone amount).encipher
    if 82 < script.length then none
    else
      some
        { input := []
          output := [{ value := 0, scriptPubkey := script }, arguments.destination.postage] }

/-! ### What the commands promise -/

def DuneTables.amountOn (tables : DuneTables) (outpoint : OutPoint) (id : ℕ) : ℕ :=
  pairsAmount id ((tables.outpointToBalances.lookup outpoint).getD [])

/-- The amount of a dune on the inputs of a transaction. -/
def DuneTables.inputTotal (tables : DuneTables) (tx : Transaction) (id : ℕ) : ℕ :=
  ((tx.input.map TxIn.previousOutput).map fun outpoint => tables.amountOn outpoint id).sum

/-- The wallet's outputs of a funded transaction: output `vout` of the unfunded one, and the change. -/
def walletOutputs (change : Option ChangeOutput) (vout : ℕ) : List ℕ :=
  movedTo change vout :: (change.map ChangeOutput.position).toList

/-- The recipient gets exactly the requested amount and no other dune, everything else stays on the
wallet's outputs, and nothing is burned. -/
structure Sent (tables after : DuneTables) (tx : Transaction) (change : Option ChangeOutput)
    (id amount : ℕ) : Prop where
  received : ∀ other, after.amountOn (tx.outpoint (movedTo change 2)) other =
    if other = id then amount else 0
  kept : ∀ other, ((walletOutputs change 1).map fun vout => after.amountOn (tx.outpoint vout) other).sum +
    after.amountOn (tx.outpoint (movedTo change 2)) other = tables.inputTotal tx other
  unburned : ∀ other, burnedOf after.idToEntry other = burnedOf tables.idToEntry other

/-- The new dune is there in exactly the requested amount, on the wallet's outputs. -/
def EtchedInFull (after : DuneTables) (tx : Transaction) (change : Option ChangeOutput)
    (dune amount : ℕ) : Prop :=
  ∃ id, after.duneToId.lookup dune = some id ∧ held after.outpointToBalances id = amount ∧
    ∀ outpoint, after.amountOn outpoint id ≠ 0 →
      ∃ vout ∈ walletOutputs change 1, outpoint = tx.outpoint vout

end OrdDogecoin.Dunes
