/-
Module: OrdDogecoin.Dunes.Names
Purpose: The names of dunes: a dune is a number, and its name are the letters of the number in bijective
  base 26.  Printing and parsing with the checks, and the steps without checks, of the source.
Trusted boundary: an unchecked operation that leaves its type is the outcome `none`
Main exports: Dune.display, Dune.nameNumber, Dune.names_exact
-/
import OrdDogecoin.Dunes.Dunestone
import OrdDogecoin.Lib.BijectiveBase

namespace OrdDogecoin.Dunes

abbrev Name := List Char

/-- The outcome of a fallible function: an error, a value, or `none` when an operation without a check
overflows. -/
abbrev Outcome (ε α : Type) := Option (Except ε α)

/-- The letters of names. -/
def alphabet : List Char := "ABCDEFGHIJKLMNOPQRSTUVWXYZ".toList

def letter (n : ℕ) : Char := alphabet.get ⟨n % 26, Nat.mod_lt n (by decide)⟩

namespace Dune

/-- The symbols that the loop of `Display` pushes, the last letter first. -/
def symbols (n : ℕ) : Name :=
  if 0 < n then letter (n - 1) :: symbols ((n - 1) / 26) else []
termination_by n
decreasing_by exact lt_of_le_of_lt (Nat.div_le_self _ _) (by omega)

/-- The name of `u128::MAX`. -/
def maxName : Name := "BCGDENLQRQWDSLRUGSNLBTMFIJAV".toList

def display (n : ℕ) : Name := if n = maxU128 then maxName else (symbols (n + 1)).reverse

inductive ParseError where
  | outOfRange
  | invalidCharacter (c : Char)
deriving DecidableEq, Repr

/-- The characters `'A'..='Z'`. -/
def isLetter (c : Char) : Bool := 'A' ≤ c && c ≤ 'Z'

def letterValue (c : Char) : ℕ := c.toNat - 'A'.toNat

/-- The loop of `FromStr` from the character at `i`: `x += 1` has no check. -/
def parseFrom (i x : ℕ) : Name → Outcome ParseError ℕ
  | [] => some (.ok x)
  | c :: rest =>
      let next := if 0 < i then x + 1 else x
      if maxU128 < next then none
      else if maxU128 < next * 26 then some (.error .outOfRange)
      else if isLetter c then
        if maxU128 < next * 26 + letterValue c then some (.error .outOfRange)
        else parseFrom (i + 1) (next * 26 + letterValue c) rest
      else some (.error (.invalidCharacter c))

/-- `FromStr`. -/
def parse (s : Name) : Outcome ParseError ℕ := parseFrom 0 0 s

/-! ### Names -/

def IsName (s : Name) : Prop := s ≠ [] ∧ ∀ c ∈ s, isLetter c = true

def nameNumber (s : Name) : ℕ := BijectiveBase.value 26 (s.map letterValue) - 1

theorem letterValue_lt {c : Char} (hc : isLetter c = true) : letterValue c < 26 := by
  simp only [isLetter, Bool.and_eq_true, decide_eq_true_eq] at hc
  have hle : c.toNat ≤ 'Z'.toNat := hc.2
  have hmax : 'Z'.toNat = 'A'.toNat + 25 := by decide
  unfold letterValue
  omega

theorem letter_spec : ∀ n < 26, isLetter (letter n) = true ∧ letterValue (letter n) = n := by decide

theorem letter_letterValue {c : Char} (hc : isLetter c = true) : letter (letterValue c) = c := by
  have hlt := letterValue_lt hc
  have hvalue := (letter_spec _ hlt).2
  have hletter := (letter_spec _ hlt).1
  have hge : ∀ {d : Char}, isLetter d = true → 'A'.toNat ≤ d.toNat := fun hd => by
    simp only [isLetter, Bool.and_eq_true, decide_eq_true_eq] at hd
    exact hd.1
  have hfirst := hge hc
  have hsecond := hge hletter
  have hsame : (letter (letterValue c)).toNat = c.toNat := by
    unfold letterValue at hvalue
    unfold letterValue at hsecond ⊢
    omega
  exact Char.toNat_inj.1 hsame

/-- The loop pushes the digits of its number. -/
theorem reverse_symbols (n : ℕ) : (symbols n).reverse = (BijectiveBase.digits 26 n).map letter := by
  induction n using Nat.strong_induction_on with
  | _ n ih =>
      cases n with
      | zero => rw [symbols, if_neg (by omega), BijectiveBase.digits_zero]; rfl
      | succ n =>
          have hless : n / 26 < n + 1 := Nat.lt_succ_of_le (Nat.div_le_self n 26)
          have hletter : letter n = letter (n % 26) := by simp [letter]
          rw [symbols, if_pos (Nat.succ_pos n), Nat.add_sub_cancel, List.reverse_cons, ih _ hless,
            BijectiveBase.digits_succ, List.map_append, List.map_singleton, ← hletter]

def name (n : ℕ) : Name := (BijectiveBase.digits 26 (n + 1)).map letter

theorem letterValue_lt_of_mem {s : Name} (hs : ∀ c ∈ s, isLetter c = true) :
    ∀ digit ∈ s.map letterValue, digit < 26 := by
  intro digit hdigit
  obtain ⟨c, hc, rfl⟩ := List.mem_map.1 hdigit
  exact letterValue_lt (hs c hc)

theorem name_nameNumber {s : Name} (hs : IsName s) : name (nameNumber s) = s := by
  have hne : s.map letterValue ≠ [] := fun h => hs.1 (List.map_eq_nil_iff.1 h)
  have hpos : 0 < BijectiveBase.value 26 (s.map letterValue) := BijectiveBase.value_pos hne
  have hletters : s.map (letter ∘ letterValue) = s.map id :=
    List.map_congr_left fun c hc => letter_letterValue (hs.2 c hc)
  rw [name, nameNumber, Nat.sub_add_cancel hpos, BijectiveBase.digits_value (letterValue_lt_of_mem hs.2),
    List.map_map, hletters, List.map_id]

theorem isName_name (n : ℕ) : IsName (name n) := by
  constructor
  · intro hnil
    exact BijectiveBase.digits_ne_nil (Nat.succ_pos n) (List.map_eq_nil_iff.1 hnil)
  · intro c hc
    obtain ⟨digit, hdigit, rfl⟩ := List.mem_map.1 hc
    exact (letter_spec digit (BijectiveBase.lt_of_mem_digits (by decide) hdigit)).1

theorem nameNumber_name (n : ℕ) : nameNumber (name n) = n := by
  have hvalues : (name n).map letterValue = BijectiveBase.digits 26 (n + 1) := by
    rw [name, List.map_map]
    refine (List.map_congr_left fun digit hdigit => ?_).trans (List.map_id _)
    exact (letter_spec digit (BijectiveBase.lt_of_mem_digits (by decide) hdigit)).2
  rw [nameNumber, hvalues, BijectiveBase.value_digits, Nat.add_sub_cancel]

/-- A name in range has at most 28 letters. -/
theorem length_name_le {n : ℕ} (hn : n ≤ maxU128) : (name n).length ≤ 28 := by
  rw [name, List.length_map]
  by_contra hlong
  have hne : BijectiveBase.digits 26 (n + 1) ≠ [] := BijectiveBase.digits_ne_nil (Nat.succ_pos n)
  have hvalue := @BijectiveBase.pow_le_value 26 _ hne
  rw [BijectiveBase.value_digits] at hvalue
  have hpow : 26 ^ 28 ≤ 26 ^ ((BijectiveBase.digits 26 (n + 1)).length - 1) :=
    Nat.pow_le_pow_right (by decide) (by omega)
  have hmax : maxU128 + 1 < 26 ^ 28 := by decide
  omega

theorem isName_maxName : IsName maxName := ⟨by decide, List.all_eq_true.1 (by decide)⟩

theorem nameNumber_maxName : nameNumber maxName = maxU128 := by decide

/-- `Display` prints the name, that of the largest number included. -/
theorem display_eq_name (n : ℕ) : display n = name n := by
  unfold display
  split
  next hmax => rw [hmax, ← nameNumber_maxName, name_nameNumber isName_maxName]
  next => rw [reverse_symbols, name]

theorem nameNumber_injOn {s t : Name} (hs : IsName s) (ht : IsName t)
    (hsame : nameNumber s = nameNumber t) : s = t := by
  rw [← name_nameNumber hs, hsame, name_nameNumber ht]

/-! ### Parsing -/

theorem nameNumber_append {front : Name} (hfront : front ≠ []) (c : Char) :
    nameNumber (front ++ [c]) = (nameNumber front + 1) * 26 + letterValue c := by
  have hne : front.map letterValue ≠ [] := fun h => hfront (List.map_eq_nil_iff.1 h)
  have hpos : 0 < BijectiveBase.value 26 (front.map letterValue) := BijectiveBase.value_pos hne
  rw [nameNumber, nameNumber, List.map_append, List.map_singleton,
    BijectiveBase.value_append_singleton, Nat.sub_add_cancel hpos, Nat.add_sub_cancel]

theorem nameNumber_le_append (front rest : Name) : nameNumber front ≤ nameNumber (front ++ rest) := by
  rw [nameNumber, nameNumber, List.map_append]
  exact Nat.sub_le_sub_right (BijectiveBase.value_le_append (by decide) _ _) 1

/-- What the parser does is what it should: a value for a name in range, which is printed again as that
name, and an error for every other string. -/
def ParsesExactly (s : Name) : Prop :=
  match parse s with
  | some (.ok n) => IsName s ∧ nameNumber s = n ∧ n ≤ maxU128 ∧ display n = s
  | some (.error _) => ¬ (IsName s ∧ nameNumber s ≤ maxU128)
  | none => False

/-- The loop after the characters of a name that is not the largest. -/
theorem parseFrom_spec {front rest : Name} (hfront : IsName front) (hrange : nameNumber front ≤ maxU128) :
    parseFrom front.length (nameNumber front) rest = none ∧
        (∃ c tail, front ++ rest = maxName ++ c :: tail) ∨
      (∃ n, parseFrom front.length (nameNumber front) rest = some (.ok n) ∧ IsName (front ++ rest) ∧
        nameNumber (front ++ rest) = n ∧ n ≤ maxU128) ∨
      (∃ failure, parseFrom front.length (nameNumber front) rest = some (.error failure) ∧
        ¬ (IsName (front ++ rest) ∧ nameNumber (front ++ rest) ≤ maxU128)) := by
  induction rest generalizing front with
  | nil =>
      refine .inr (.inl ⟨nameNumber front, rfl, ?_, ?_, hrange⟩)
      · rwa [List.append_nil]
      · rw [List.append_nil]
  | cons c rest ih =>
      have hpos : 0 < front.length := List.length_pos_of_ne_nil hfront.1
      have hnext := nameNumber_append hfront.1 c
      have hassoc : front ++ c :: rest = (front ++ [c]) ++ rest := by simp
      unfold parseFrom
      dsimp only
      rw [if_pos hpos]
      split
      next hmax =>
        have hlast : front = maxName := nameNumber_injOn hfront isName_maxName <| by
          rw [nameNumber_maxName]
          omega
        exact .inl ⟨rfl, c, rest, by rw [hlast]⟩
      next hmax =>
        have hletters : IsName (front ++ c :: rest) → isLetter c = true := fun hname =>
          hname.2 c (by simp)
        have hgrows := nameNumber_le_append (front ++ [c]) rest
        rw [← hassoc, hnext] at hgrows
        split
        next hbig => exact .inr (.inr ⟨_, rfl, fun hname => by omega⟩)
        split
        next hletter =>
          split
          next hbig => exact .inr (.inr ⟨_, rfl, fun hname => by omega⟩)
          next hsmall =>
            have hname : IsName (front ++ [c]) := by
              refine ⟨by simp, fun d hd => ?_⟩
              rcases List.mem_append.1 hd with hold | hnew
              · exact hfront.2 d hold
              · rw [List.mem_singleton.1 hnew]
                exact hletter
            have hlength : front.length + 1 = (front ++ [c]).length := by simp
            rw [hassoc, hlength, ← hnext]
            exact ih hname (by omega)
        next hletter => exact .inr (.inr ⟨_, rfl, fun hname => hletter (hletters hname.1)⟩)

theorem parse_cons (c : Char) (rest : Name) : parse (c :: rest) =
    if isLetter c then parseFrom 1 (letterValue c) rest else some (.error (.invalidCharacter c)) := by
  have hzero : ¬ maxU128 < 0 := by omega
  rw [parse, parseFrom]
  rw [if_neg (by omega : ¬ 0 < 0), if_neg hzero, Nat.zero_mul, if_neg hzero, Nat.zero_add]
  split
  next hletter =>
    have hlt := letterValue_lt hletter
    rw [if_neg (by unfold maxU128; omega), Nat.zero_add]
  next => rfl

theorem isName_singleton {c : Char} (hc : isLetter c = true) : IsName [c] :=
  ⟨by simp, fun d hd => by rw [List.mem_singleton.1 hd]; exact hc⟩

theorem nameNumber_singleton (c : Char) : nameNumber [c] = letterValue c := by
  simp [nameNumber, BijectiveBase.value]

/-- Where the parser gives a value or an error, it is the one that it should give. -/
theorem parse_spec {s : Name} (hs : s ≠ []) :
    parse s = none ∧ (∃ c tail, s = maxName ++ c :: tail) ∨
      (∃ n, parse s = some (.ok n) ∧ IsName s ∧ nameNumber s = n ∧ n ≤ maxU128) ∨
      (∃ failure, parse s = some (.error failure) ∧ ¬ (IsName s ∧ nameNumber s ≤ maxU128)) := by
  cases s with
  | nil => exact absurd rfl hs
  | cons c rest =>
      rw [parse_cons]
      split
      next hletter =>
        have hlt := letterValue_lt hletter
        have hspec := @parseFrom_spec [c] rest (isName_singleton hletter)
          (by rw [nameNumber_singleton]; unfold maxU128; omega)
        rw [nameNumber_singleton] at hspec
        exact hspec
      next hletter =>
        exact .inr (.inr ⟨_, rfl, fun hname => hletter (hname.1.2 c (by simp))⟩)

/-- The loop goes through a name in range. -/
theorem parse_append {front : Name} (hfront : IsName front) (hrange : nameNumber front ≤ maxU128)
    (rest : Name) : parse (front ++ rest) = parseFrom front.length (nameNumber front) rest := by
  induction front using List.reverseRecOn generalizing rest with
  | nil => exact absurd rfl hfront.1
  | append_singleton front c ih =>
      have hletter : isLetter c = true := hfront.2 c (by simp)
      by_cases hempty : front = []
      · rw [hempty, List.nil_append, List.singleton_append, parse_cons, if_pos hletter,
          nameNumber_singleton]
        rfl
      · have hname : IsName front := ⟨hempty, fun d hd => hfront.2 d (List.mem_append_left _ hd)⟩
        have hgrows := nameNumber_append hempty c
        rw [List.append_assoc, List.singleton_append,
          ih hname ((nameNumber_le_append front [c]).trans hrange), parseFrom]
        rw [if_pos (List.length_pos_of_ne_nil hempty), if_neg (by omega), if_neg (by omega), if_pos hletter,
          if_neg (by omega), hgrows, List.length_append, List.length_singleton]

/-- The largest name followed by anything overflows: its number is incremented without a check. -/
theorem parse_eq_none_of_extends {s : Name} (hs : ∃ c rest, s = maxName ++ c :: rest) : parse s = none := by
  obtain ⟨c, rest, rfl⟩ := hs
  have hpos : 0 < maxName.length := by decide
  rw [parse_append isName_maxName nameNumber_maxName.le, parseFrom, nameNumber_maxName]
  rw [if_pos hpos, if_pos (Nat.lt_succ_self maxU128)]

/-- A name in range does not extend the largest name. -/
theorem not_extends_of_range {s : Name} (hrange : nameNumber s ≤ maxU128) :
    ¬ ∃ c rest, s = maxName ++ c :: rest := by
  rintro ⟨c, rest, rfl⟩
  have hassoc : maxName ++ c :: rest = (maxName ++ [c]) ++ rest := by simp
  have hgrows := nameNumber_le_append (maxName ++ [c]) rest
  rw [nameNumber_append isName_maxName.1, nameNumber_maxName, ← hassoc] at hgrows
  omega

/-- The parser reads a name in range. -/
theorem parse_of_isName {s : Name} (hs : IsName s) (hrange : nameNumber s ≤ maxU128) :
    parse s = some (.ok (nameNumber s)) := by
  rcases parse_spec hs.1 with ⟨-, hextends⟩ | ⟨n, hparse, -, hnumber, -⟩ | ⟨failure, -, hnot⟩
  · exact absurd hextends (not_extends_of_range hrange)
  · rw [hparse, hnumber]
  · exact absurd ⟨hs, hrange⟩ hnot

theorem parsesExactly_iff (s : Name) :
    ParsesExactly s ↔ s ≠ [] ∧ ¬ ∃ c rest, s = maxName ++ c :: rest := by
  constructor
  · intro hexact
    unfold ParsesExactly at hexact
    constructor
    · rintro rfl
      exact hexact.1.1 rfl
    · intro hextends
      rw [parse_eq_none_of_extends hextends] at hexact
      exact hexact
  · rintro ⟨hne, hextends⟩
    unfold ParsesExactly
    rcases parse_spec hne with ⟨-, hbad⟩ | ⟨n, hparse, hname, hnumber, hrange⟩ | ⟨failure, hparse, hnot⟩
    · exact absurd hbad hextends
    · rw [hparse]
      exact ⟨hname, hnumber, hrange, by rw [display_eq_name, ← hnumber, name_nameNumber hname]⟩
    · rw [hparse]
      exact hnot

/-- Names and numbers are in bijection: every number is the value of its printed name, and a string is
parsed exactly unless it is empty, which is read as zero, or extends the largest name. -/
theorem names_exact (s : Name) :
    (∀ n ≤ maxU128, IsName (display n) ∧ parse (display n) = some (.ok n)) ∧
      (ParsesExactly s ↔ s ≠ [] ∧ ¬ ∃ c rest, s = maxName ++ c :: rest) := by
  refine ⟨fun n hn => ?_, parsesExactly_iff s⟩
  have hnumber := nameNumber_name n
  rw [display_eq_name]
  exact ⟨isName_name n, by rw [parse_of_isName (isName_name n) (by rw [hnumber]; exact hn), hnumber]⟩

theorem names_exact_aa : parse (display 26) = some (.ok 26) ∧ ParsesExactly "AB".toList :=
  ⟨((names_exact []).1 26 (by decide)).2, (names_exact _).2.2 ⟨by decide, fun hextends => by
    obtain ⟨c, rest, hsame⟩ := hextends
    have hlength : "AB".toList.length = maxName.length + (c :: rest).length := by
      rw [hsame, List.length_append]
    have hshort : "AB".toList.length < maxName.length := by decide
    omega⟩⟩

/-- The empty string is read as zero, whose name is `A`; the largest name with one more letter overflows. -/
theorem not_parsesExactly : parse [] = some (.ok 0) ∧ ¬ ParsesExactly [] ∧
    parse (maxName ++ ['A']) = none ∧ ¬ ParsesExactly (maxName ++ ['A']) := by
  have hextends : parse (maxName ++ ['A']) = none := parse_eq_none_of_extends ⟨'A', [], rfl⟩
  refine ⟨rfl, fun hexact => hexact.1.1 rfl, hextends, fun hexact => ?_⟩
  unfold ParsesExactly at hexact
  rw [hextends] at hexact
  exact hexact

end Dune

end OrdDogecoin.Dunes
