/-
Module: OrdDogecoin.Wallet.SatSearch
Purpose: `sats_from_tsv`: the wanted sats of a file are looked up in the wallet's sat ranges by one pass over
  both sorted lists.  The pass finds, for every wanted sat, the output whose range holds it.
Trusted boundary: the sat tables are parameters; outpoints are ordered by their numbers
Main exports: satFromStr, plainSearch, satsFromTsv_perm
-/
import OrdDogecoin.Chain.Transaction
import OrdDogecoin.Dunes.Decimals
import OrdDogecoin.Lib.Intervals
import OrdDogecoin.Sats.Height
import Mathlib.Data.Char
import Mathlib.Data.List.Lex
import Mathlib.Data.List.Sort
import Mathlib.Data.Prod.Lex

namespace OrdDogecoin.Wallet

open Chain
open Dunes (Name Outcome splitOnce)
open Intervals (Interval Holds Apart)
open Sats (SatTables)

/-! ### Wanted sats -/

/-- `from_str` of an unsigned type. -/
def parseUnsigned (largest : ℕ) (s : Name) : Option ℕ :=
  let digits := match s with
    | '+' :: rest => rest
    | s => s
  if digits = [] ∨ ¬ digits.all Char.isDigit then none
  else if Nat.ofDigitChars 10 digits 0 ≤ largest then some (Nat.ofDigitChars 10 digits 0)
  else none

/-- Why a sat is not read. -/
inductive SatError where
  | number
  | invalidBlockOffset
deriving DecidableEq, Repr

def satInBlock (tables : SatTables) (height offset : ℕ) : Option (Except SatError ℕ) := do
  let subsidy ← tables.subsidy height
  if subsidy ≤ offset then some (.error .invalidBlockOffset)
  else
    let start ← tables.startingSat height
    let sat ← Sats.checkedU64 (start + offset)
    some (.ok sat)

/-- `Sat::from_str`: a number, or a height and an offset in its block. -/
def satFromStr (tables : SatTables) (s : Name) : Outcome SatError ℕ :=
  match splitOnce '.' s with
  | none =>
      match parseUnsigned (2 ^ 64 - 1) s with
      | none => some (.error .number)
      | some sat => some (.ok sat)
  | some (height, offset) =>
      match parseUnsigned (2 ^ 32 - 1) height with
      | none => some (.error .number)
      | some height =>
          match parseUnsigned (2 ^ 64 - 1) offset with
          | none => some (.error .number)
          | some offset => satInBlock tables height offset

/-- A line without the carriage return of its line break. -/
def stripReturn (line : Name) : Name := if line.getLast? = some '\r' then line.dropLast else line

/-- `str::lines`, with the characters of the line so far. -/
def linesFrom (line : Name) : Name → List Name
  | [] => if line = [] then [] else [line]
  | c :: rest => if c = '\n' then stripReturn line :: linesFrom [] rest else linesFrom (line ++ [c]) rest

/-- A wanted sat with its text. -/
abbrev Needle := ℕ × Name

/-- The loop over the lines: empty lines and comments are skipped, and only the first column counts. -/
def needlesFrom (tables : SatTables) : List Name → Outcome SatError (List Needle)
  | [] => some (.ok [])
  | line :: lines =>
      if line = [] ∨ line.head? = some '#' then needlesFrom tables lines
      else
        let value := line.takeWhile fun c => c ≠ '\t'
        match satFromStr tables value with
        | none => none
        | some (.error failure) => some (.error failure)
        | some (.ok sat) =>
            match needlesFrom tables lines with
            | none => none
            | some (.error failure) => some (.error failure)
            | some (.ok needles) => some (.ok ((sat, value) :: needles))

/-! ### The search -/

/-- A sat range with its output. -/
abbrev Haystack := Interval ℕ OutPoint

/-- The ranges of all outputs. -/
def haystacks (utxos : List (OutPoint × List (ℕ × ℕ))) : List Haystack :=
  utxos.flatMap fun (outpoint, ranges) => ranges.map fun (start, stop) => (start, stop, outpoint)

/-- The order of `needles.sort()`. -/
def needleKey (needle : Needle) : ℕ ×ₗ Name := toLex needle

/-- The order of `haystacks.sort()`. -/
def haystackKey (haystack : Haystack) : ℕ ×ₗ ℕ ×ₗ ℕ ×ₗ ℕ :=
  toLex (haystack.1, toLex (haystack.2.1, toLex (haystack.2.2.txid, haystack.2.2.vout)))

/-- The two-pointer loop, on what the two indices have not passed. -/
def twoPointers : List Needle → List Haystack → List (OutPoint × Name)
  | [], _ => []
  | _, [] => []
  | (needle, value) :: needles, (start, stop, outpoint) :: haystacks =>
      (if start ≤ needle ∧ needle < stop then [(outpoint, value)] else []) ++
        if stop ≤ needle then twoPointers ((needle, value) :: needles) haystacks
        else twoPointers needles ((start, stop, outpoint) :: haystacks)
termination_by needles haystacks => needles.length + haystacks.length

def satsFromTsv (tables : SatTables) (utxos : List (OutPoint × List (ℕ × ℕ))) (tsv : Name) :
    Outcome SatError (List (OutPoint × Name)) :=
  match needlesFrom tables (linesFrom [] tsv) with
  | none => none
  | some (.error failure) => some (.error failure)
  | some (.ok needles) =>
      some (.ok (twoPointers (needles.insertionSort fun a b => needleKey a ≤ needleKey b)
        ((haystacks utxos).insertionSort fun a b => haystackKey a ≤ haystackKey b)))

/-! ### The plain search -/

/-- The output with a range that holds the sat. -/
def holder (utxos : List (OutPoint × List (ℕ × ℕ))) (sat : ℕ) : Option OutPoint :=
  (utxos.find? fun utxo => utxo.2.any fun range => range.1 ≤ sat ∧ sat < range.2).map Prod.fst

/-- One pair for each wanted entry whose sat lies in a range, with the outpoint that holds the range. -/
def plainSearch (utxos : List (OutPoint × List (ℕ × ℕ))) (needles : List Needle) : List (OutPoint × Name) :=
  needles.filterMap fun (sat, value) => (holder utxos sat).map fun outpoint => (outpoint, value)

theorem find?_haystacks (utxos : List (OutPoint × List (ℕ × ℕ))) (sat : ℕ) :
    ((haystacks utxos).find? fun haystack => Holds sat haystack).map (fun haystack => haystack.2.2) =
      holder utxos sat := by
  induction utxos with
  | nil => rfl
  | cons utxo utxos ih =>
      obtain ⟨outpoint, ranges⟩ := utxo
      have hranges : (ranges.map fun range => (range.1, range.2, outpoint)).find?
          (fun haystack => Holds sat haystack) =
            (ranges.find? fun range => range.1 ≤ sat ∧ sat < range.2).map
              fun range => (range.1, range.2, outpoint) := by
        rw [List.find?_map]
        rfl
      have hany : (ranges.any fun range => decide (range.1 ≤ sat ∧ sat < range.2)) =
          (ranges.find? fun range => range.1 ≤ sat ∧ sat < range.2).isSome := List.isSome_find?.symm
      have hsplit : haystacks ((outpoint, ranges) :: utxos) =
          (ranges.map fun range => (range.1, range.2, outpoint)) ++ haystacks utxos := List.flatMap_cons
      rw [hsplit, List.find?_append, hranges, holder, List.find?_cons]
      cases hfind : ranges.find? fun range => range.1 ≤ sat ∧ sat < range.2 with
      | none =>
          rw [hfind, Option.isSome_none] at hany
          dsimp only
          rw [hany, Option.map_none, Option.none_or, ih, holder]
      | some range =>
          rw [hfind, Option.isSome_some] at hany
          dsimp only
          rw [hany]
          rfl

/-! ### The pass -/

/-- Over wanted sats in order and ranges that follow one another, the pass finds for each sat the range that
holds it: whatever the pass leaves behind cannot match any more. -/
theorem twoPointers_eq {needles : List Needle} {haystacks : List Haystack}
    (hneedles : needles.Pairwise fun a b => a.1 ≤ b.1)
    (hhaystacks : haystacks.Pairwise fun a b => a.2.1 ≤ b.1)
    (hnonempty : ∀ haystack ∈ haystacks, haystack.1 < haystack.2.1) :
    twoPointers needles haystacks = needles.filterMap fun needle =>
      (haystacks.find? fun haystack => Holds needle.1 haystack).map fun haystack =>
        (haystack.2.2, needle.2) := by
  induction needles, haystacks using twoPointers.induct with
  | case1 haystacks => rw [twoPointers, List.filterMap_nil]
  | case2 needles hsome =>
      have hempty : twoPointers needles [] = [] := by
        cases needles with
        | nil => exact absurd rfl hsome
        | cons needle needles =>
            rw [twoPointers]
            exact hsome
      rw [hempty]
      exact (List.filterMap_eq_nil_iff.2 fun _ _ => rfl).symm
  | case3 needle value needles start stop outpoint haystacks advance drop =>
      obtain ⟨hnext, hrest⟩ := List.pairwise_cons.1 hneedles
      obtain ⟨hlater, hbefore⟩ := List.pairwise_cons.1 hhaystacks
      obtain ⟨hfirst, hothers⟩ := List.forall_mem_cons.1 hnonempty
      rw [twoPointers]
      split
      next hheld =>
        -- The first range holds the first sat.
        have hnot : ¬ stop ≤ needle := Nat.not_le.2 hheld.2
        have hfind : ((start, stop, outpoint) :: haystacks).find? (fun haystack => Holds needle haystack) =
            some (start, stop, outpoint) := by
          rw [List.find?_cons_of_pos (by
            simpa using (show Holds needle (start, stop, outpoint) from hheld))]
        rw [if_neg hnot, drop hrest hhaystacks hnonempty, List.filterMap_cons, hfind]
        rfl
      next hmissed =>
        rw [List.nil_append]
        split
        next hpassed =>
          -- The range ends at or below the first sat, and so below all that follow.
          have hskip : ∀ other ∈ (needle, value) :: needles,
              ((start, stop, outpoint) :: haystacks).find? (fun haystack => Holds other.1 haystack) =
                haystacks.find? fun haystack => Holds other.1 haystack := by
            intro other hother
            have hle : needle ≤ other.1 := by
              rcases List.mem_cons.1 hother with rfl | hmem
              · exact le_rfl
              · exact hnext other hmem
            have hnot : ¬ Holds other.1 (start, stop, outpoint) := fun hheld =>
              absurd (hheld.2.trans_le (hpassed.trans hle)) (lt_irrefl _)
            rw [List.find?_cons_of_neg (by simpa using hnot)]
          rw [advance hneedles hbefore hothers]
          refine List.filterMap_congr fun other hother => ?_
          rw [hskip other hother]
        next hahead =>
          -- The first sat is below this range and below all that follow.
          have hnone : ((start, stop, outpoint) :: haystacks).find?
              (fun haystack => Holds needle haystack) = none := by
            rw [List.find?_eq_none]
            intro haystack hmem hheld
            have hheld := of_decide_eq_true hheld
            have hbelow : needle < start := by
              by_contra hge
              exact hmissed ⟨Nat.le_of_not_lt hge, Nat.lt_of_not_le hahead⟩
            rcases List.mem_cons.1 hmem with rfl | hlaterMem
            · exact absurd (hbelow.trans_le hheld.1) (lt_irrefl _)
            · have hafter := hlater haystack hlaterMem
              exact absurd (((hbelow.trans hfirst).trans_le hafter).trans_le hheld.1) (lt_irrefl _)
          rw [drop hrest hhaystacks hnonempty, List.filterMap_cons, hnone]
          rfl

/-- Rows sorted by keys that begin with their first number are in order of that number. -/
theorem insertionSort_fst {β γ : Type} [LinearOrder γ] (keyOf : ℕ × β → ℕ ×ₗ γ)
    (hkey : ∀ row, (ofLex (keyOf row)).1 = row.1) (rows : List (ℕ × β)) :
    (rows.insertionSort fun a b => keyOf a ≤ keyOf b).Pairwise fun a b => a.1 ≤ b.1 := by
  have : Std.Total fun a b => keyOf a ≤ keyOf b := ⟨fun a b => le_total _ _⟩
  have : IsTrans (ℕ × β) fun a b => keyOf a ≤ keyOf b := ⟨fun a b c => le_trans⟩
  refine (List.pairwise_insertionSort (fun a b => keyOf a ≤ keyOf b) rows).imp fun {a b} hle => ?_
  rw [← hkey a, ← hkey b]
  rcases Prod.Lex.le_iff.1 hle with hless | ⟨hsame, -⟩
  · exact hless.le
  · exact hsame.le

/-- Over ranges that are not empty and lie apart, in any order, the search of the wanted sats of a file ends
and finds, up to order, what the plain search finds. -/
theorem satsFromTsv_perm {tables : SatTables} {utxos : List (OutPoint × List (ℕ × ℕ))}
    (hnonempty : ∀ haystack ∈ haystacks utxos, haystack.1 < haystack.2.1)
    (apart : (haystacks utxos).Pairwise Apart) {tsv : Name} {needles : List Needle}
    (hneedles : needlesFrom tables (linesFrom [] tsv) = some (.ok needles)) :
    ∃ results, satsFromTsv tables utxos tsv = some (.ok results) ∧
      results.Perm (plainSearch utxos needles) := by
  have hneedlesPerm := List.perm_insertionSort (fun a b => needleKey a ≤ needleKey b) needles
  have hperm := List.perm_insertionSort (fun a b => haystackKey a ≤ haystackKey b) (haystacks utxos)
  have hsortedNonempty : ∀ haystack ∈ (haystacks utxos).insertionSort
      fun a b => haystackKey a ≤ haystackKey b, haystack.1 < haystack.2.1 :=
    fun haystack hmem => hnonempty haystack (hperm.mem_iff.1 hmem)
  have hsortedApart := (hperm.pairwise_iff fun h => Apart.symm h).2 apart
  have hbefore := Intervals.before_of_sorted hsortedNonempty hsortedApart (insertionSort_fst haystackKey (fun _ => rfl) _)
  refine ⟨_, by rw [satsFromTsv, hneedles], ?_⟩
  rw [twoPointers_eq (insertionSort_fst needleKey (fun _ => rfl) needles) hbefore hsortedNonempty]
  refine (hneedlesPerm.filterMap _).trans (List.Perm.of_eq ?_)
  refine List.filterMap_congr fun needle _ => ?_
  obtain ⟨sat, value⟩ := needle
  dsimp only
  rw [Intervals.find?_perm hperm hsortedApart, ← find?_haystacks, Option.map_map]
  rfl

/-- Two outputs with adjacent ranges and a file that names a sat twice, out of order. -/
theorem satsFromTsv_two : ∃ results,
    satsFromTsv { startingSats := [], epochs := fun _ => none }
      [(⟨1, 0⟩, [(5, 9)]), (⟨2, 0⟩, [(0, 5)])] "5\n#\n4\tx\n5\n".toList = some (.ok results) ∧
        results.Perm (plainSearch [(⟨1, 0⟩, [(5, 9)]), (⟨2, 0⟩, [(0, 5)])]
          [(5, "5".toList), (4, "4".toList), (5, "5".toList)]) := by
  have hhaystacks : haystacks [(⟨1, 0⟩, [(5, 9)]), (⟨2, 0⟩, [(0, 5)])] =
      [(5, 9, ⟨1, 0⟩), (0, 5, ⟨2, 0⟩)] := rfl
  refine satsFromTsv_perm ?_ ?_ (by decide)
  · rw [hhaystacks]
    simp
  · rw [hhaystacks]
    simp [Apart]

end OrdDogecoin.Wallet
