/-
Module: OrdDogecoin.Dunes.Decimals
Purpose: Decimal amounts as text.  Parsing adds the digits behind the point, with their trailing zeros, to
  the digits in front, scaled without these zeros; printing an amount drops the trailing zeros.  When a
  parsed decimal is the number that is written, and that a printed amount is read back.
Trusted boundary: `u128::from_str` of the standard library is modelled by its documented behaviour; an
  unchecked operation that leaves its type is the outcome `none`
Main exports: Decimal.parse, Decimal.ReadsExactly, decimals_exact
-/
import OrdDogecoin.Dunes.Names
import OrdDogecoin.Dunes.Wallet
import Mathlib.Data.List.TakeWhile

namespace OrdDogecoin.Dunes

/-! ### Numbers -/

/-- `std::num::ParseIntError`. -/
inductive ParseIntError where
  | empty
  | invalidDigit
  | posOverflow
deriving DecidableEq, Repr

/-- The loop of `u128::from_str`. -/
def digitLoop (result : ℕ) : Name → Except ParseIntError ℕ
  | [] => .ok result
  | c :: rest =>
      if c.isDigit then
        let next := 10 * result + (c.toNat - '0'.toNat)
        if maxU128 < next then .error .posOverflow else digitLoop next rest
      else .error .invalidDigit

/-- `u128::from_str`: one sign in front of the digits is read over. -/
def parseU128 (s : Name) : Except ParseIntError ℕ :=
  match s with
  | [] => .error .empty
  | ['+'] => .error .invalidDigit
  | '+' :: rest => digitLoop 0 rest
  | s => digitLoop 0 s

def splitOnce (separator : Char) : Name → Option (Name × Name)
  | [] => none
  | c :: rest =>
      if c = separator then some ([], rest)
      else (splitOnce separator rest).map fun (front, tail) => (c :: front, tail)

/-- `trim_end_matches`. -/
def trimEnd (symbol : Char) (s : Name) : Name := (s.reverse.dropWhile fun c => c = symbol).reverse

namespace Decimal

inductive Error where
  | empty
  | number (failure : ParseIntError)
  | scale
deriving DecidableEq, Repr

/-- A part that may be left out. -/
def parsePart (part : Name) : Except ParseIntError ℕ := if part = [] then .ok 0 else parseU128 part

/-- The characters behind the point, less the zeros at the end. -/
def scaleOf (s : Name) : ℕ := (((trimEnd '0' s).dropWhile fun c => c ≠ '.').drop 1).length

/-- `FromStr`. -/
def parse (s : Name) : Outcome Error Decimal :=
  match splitOnce '.' s with
  | none =>
      match parseU128 s with
      | .error failure => some (.error (.number failure))
      | .ok value => some (.ok { value := value, scale := 0 })
  | some (integer, decimal) =>
      if integer = [] ∧ decimal = [] then some (.error .empty)
      else
        match parsePart integer with
        | .error failure => some (.error (.number failure))
        | .ok integer =>
            match parsePart decimal with
            | .error failure => some (.error (.number failure))
            | .ok decimal =>
                let scale := scaleOf s
                if 2 ^ 8 ≤ scale then some (.error .scale)
                else if maxU128 < 10 ^ scale then none
                else if maxU128 < integer * 10 ^ scale + decimal then none
                else some (.ok { value := integer * 10 ^ scale + decimal, scale := scale })

end Decimal

structure Pile where
  amount : ℕ
  divisibility : ℕ
  symbol : Option Char
deriving DecidableEq, Repr

namespace Pile

/-- The loop of `Display`, which takes zeros off the fraction and its width. -/
def trim (fractional : ℕ) : ℕ → Option (ℕ × ℕ)
  | 0 => if fractional % 10 = 0 then none else some (fractional, 0)
  | width + 1 => if fractional % 10 = 0 then trim (fractional / 10) width else some (fractional, width + 1)

/-- The numeric part of `Display`. -/
def numeric (pile : Pile) : Option Name := do
  let cutoff := 10 ^ pile.divisibility
  if maxU128 < cutoff then none
  else
    let whole := pile.amount / cutoff
    let fractional := pile.amount % cutoff
    if fractional = 0 then some (Nat.toDigits 10 whole)
    else
      let (fractional, width) ← trim fractional pile.divisibility
      some (Nat.toDigits 10 whole ++ '.' :: (Nat.toDigits 10 fractional).leftpad width '0')

def display (pile : Pile) : Option Name := do
  let numeric ← pile.numeric
  some (numeric ++ [Char.ofNat 0xa0, pile.symbol.getD '¤'])

end Pile

/-! ### What is written -/

namespace Decimal

def number (digits : Name) : ℕ := Nat.ofDigitChars 10 digits 0

/-- The number that a text writes in decimal notation, as a numerator and the number of places behind the
point; a plus sign may stand in front. -/
def written (s : Name) : Option (ℕ × ℕ) :=
  let unsigned := match s with
    | '+' :: rest => rest
    | s => s
  let (whole, fraction) := (splitOnce '.' unsigned).getD (unsigned, [])
  if (whole ++ fraction).all Char.isDigit then some (number (whole ++ fraction), fraction.length) else none

/-- An accepted text is read as the number that it writes. -/
def ReadsExactly (s : Name) : Prop :=
  match parse s with
  | some (.ok decimal) => ∃ numerator places, written s = some (numerator, places) ∧
      decimal.value * 10 ^ places = numerator * 10 ^ decimal.scale
  | some (.error _) => True
  | none => False

/-- Around a point, numbers that are read: the fraction has no sign and, unless it is zero, no zero at its
end, and its power of ten and the sum fit. -/
def Readable (s : Name) : Prop :=
  ∀ integer decimal m n, splitOnce '.' s = some (integer, decimal) → (integer ≠ [] ∨ decimal ≠ []) →
    parsePart integer = .ok m → parsePart decimal = .ok n → (trimEnd '0' decimal).length < 2 ^ 8 →
      decimal.head? ≠ some '+' ∧ (decimal.getLast? ≠ some '0' ∨ n = 0) ∧
        10 ^ (trimEnd '0' decimal).length ≤ maxU128 ∧
          m * 10 ^ (trimEnd '0' decimal).length + n ≤ maxU128

end Decimal

/-! ### Splitting and trimming -/

theorem splitOnce_eq_some {separator : Char} {s front tail : Name}
    (hsplit : splitOnce separator s = some
    (front, tail)) : s = front ++ separator :: tail ∧ separator ∉ front := by
  induction s generalizing front with
  | nil => cases hsplit
  | cons c rest ih =>
      rw [splitOnce] at hsplit
      split at hsplit
      next hc =>
        cases hsplit
        exact ⟨by rw [hc]; rfl, List.not_mem_nil⟩
      next hc =>
        obtain ⟨⟨inner, rear⟩, hinner, hpair⟩ := Option.map_eq_some_iff.1 hsplit
        cases hpair
        obtain ⟨hrest, hnot⟩ := ih hinner
        refine ⟨by rw [hrest]; rfl, fun hmem => ?_⟩
        rcases List.mem_cons.1 hmem with hsame | hlater
        · exact hc hsame.symm
        · exact hnot hlater

theorem splitOnce_append {separator : Char} {front : Name} (hfront : separator ∉ front) (tail : Name) :
    splitOnce separator (front ++ separator :: tail) = some (front, tail) := by
  induction front with
  | nil => exact if_pos rfl
  | cons c front ih =>
      have hc : ¬ c = separator := fun hsame => hfront (List.mem_cons.2 (.inl hsame.symm))
      rw [List.cons_append, splitOnce, if_neg hc, ih fun hmem => hfront (List.mem_cons_of_mem c hmem)]
      rfl

theorem splitOnce_eq_none {separator : Char} {s : Name}
    (hs : separator ∉ s) : splitOnce separator s = none := by
  induction s with
  | nil => rfl
  | cons c rest ih =>
      have hc : ¬ c = separator := fun hsame => hs (List.mem_cons.2 (.inl hsame.symm))
      rw [splitOnce, if_neg hc, ih fun hmem => hs (List.mem_cons_of_mem c hmem)]
      rfl

/-- A text is its trimmed part and the symbols that were taken off. -/
theorem trimEnd_append (symbol : Char) (s : Name) :
    ∃ count, s = trimEnd symbol s ++ List.replicate count symbol ∧
      (count = 0 ↔ s.getLast? ≠ some symbol) := by
  refine ⟨(s.reverse.takeWhile fun c => c = symbol).length, ?_, ?_⟩
  · have hzeros : s.reverse.takeWhile (fun c => c = symbol) =
        List.replicate (s.reverse.takeWhile fun c => c = symbol).length symbol :=
      List.eq_replicate_of_mem fun c hc => by simpa using List.mem_takeWhile_imp hc
    have hsplit := congrArg List.reverse
      (@List.takeWhile_append_dropWhile _ (fun c => decide (c = symbol)) s.reverse)
    rw [List.reverse_append, List.reverse_reverse, hzeros, List.reverse_replicate] at hsplit
    rw [trimEnd]
    exact hsplit.symm
  · rw [← List.head?_reverse]
    cases s.reverse with
    | nil => simp
    | cons c rest =>
        rw [List.takeWhile_cons]
        by_cases hc : c = symbol
        · simp [hc]
        · simp [hc]

/-- Trimming stops at a symbol in front. -/
theorem trimEnd_append_cons {symbol separator : Char} (hne : separator ≠ symbol) (front tail : Name) :
    trimEnd symbol (front ++ separator :: tail) = front ++ separator :: trimEnd symbol tail := by
  have hdrop : ∀ rest : Name, (rest ++ separator :: front.reverse).dropWhile (fun c => c = symbol) =
      rest.dropWhile (fun c => c = symbol) ++ separator :: front.reverse := by
    intro rest
    induction rest with
    | nil => simp [hne]
    | cons c rest ih =>
        rw [List.cons_append, List.dropWhile_cons, List.dropWhile_cons, ih]
        split <;> rfl
  rw [trimEnd, List.reverse_append, List.reverse_cons, List.append_assoc, List.singleton_append, hdrop, trimEnd]
  simp

namespace Decimal

variable {s integer decimal : Name}

theorem scaleOf_eq (hsplit : splitOnce '.' s = some (integer, decimal)) :
    scaleOf s = (trimEnd '0' decimal).length := by
  obtain ⟨rfl, hinteger⟩ := splitOnce_eq_some hsplit
  have hdrop : (integer ++ '.' :: trimEnd '0' decimal).dropWhile (fun c => c ≠ '.') =
      '.' :: trimEnd '0' decimal := by
    have hall : ∀ c ∈ integer, decide (c ≠ '.') = true := by
      intro c hc
      refine decide_eq_true fun hsame => hinteger ?_
      rw [← hsame]
      exact hc
    rw [List.dropWhile_append_of_pos hall]
    rfl
  rw [scaleOf, trimEnd_append_cons (by decide), hdrop]
  rfl

/-! ### Numbers that are read -/

theorem number_append (front tail : Name) :
    number (front ++ tail) = 10 ^ tail.length * number front + number tail := by
  rw [number, Nat.ofDigitChars_append, Nat.ofDigitChars_eq_ofDigitChars_zero]
  rfl

theorem number_append_zeros (front : Name) (count : ℕ) :
    number (front ++ List.replicate count '0') = 10 ^ count * number front := by
  rw [number, Nat.ofDigitChars_append, Nat.ofDigitChars_replicate_zero]
  rfl

/-- The loop reads digits as long as the number fits. -/
theorem digitLoop_eq_ok {result n : ℕ} {s : Name} (hresult : result ≤ maxU128) : digitLoop result s = .ok n ↔
    (∀ c ∈ s, c.isDigit = true) ∧ Nat.ofDigitChars 10 s result = n ∧ n ≤ maxU128 := by
  induction s generalizing result with
  | nil =>
      rw [digitLoop, Nat.ofDigitChars_nil, Except.ok.injEq]
      constructor
      · rintro rfl
        exact ⟨nofun, rfl, hresult⟩
      · exact fun h => h.2.1
  | cons c rest ih =>
      rw [digitLoop, Nat.ofDigitChars_cons, List.forall_mem_cons]
      split
      next hdigit =>
        dsimp only
        split
        next hover =>
          have hgrows := @Nat.ofDigitChars_eq_ofDigitChars_zero rest (10 * result + (c.toNat - '0'.toNat))
          have hpow : 10 * result + (c.toNat - '0'.toNat) ≤
              10 ^ rest.length * (10 * result + (c.toNat - '0'.toNat)) :=
            Nat.le_mul_of_pos_left _ (Nat.pow_pos (by decide))
          constructor
          · exact nofun
          · rintro ⟨-, hvalue, hfits⟩
            omega
        next hfits =>
          rw [ih (by omega)]
          exact ⟨fun h => ⟨⟨hdigit, h.1⟩, h.2⟩, fun h => ⟨h.1.2, h.2⟩⟩
      next hdigit => exact ⟨nofun, fun h => absurd h.1.1 hdigit⟩

/-- A number that is read is written in digits, perhaps behind a sign. -/
theorem parseU128_eq_ok {s : Name} {n : ℕ} : parseU128 s = .ok n ↔
    ∃ digits, (s = digits ∨ s = '+' :: digits) ∧ digits ≠ [] ∧ (∀ c ∈ digits, c.isDigit = true) ∧
      number digits = n ∧ n ≤ maxU128 := by
  have hzero : 0 ≤ maxU128 := Nat.zero_le _
  unfold parseU128
  split
  next =>
    refine ⟨nofun, ?_⟩
    rintro ⟨digits, hs | hs, hne, -⟩
    · exact absurd hs.symm hne
    · cases hs
  next =>
    refine ⟨nofun, ?_⟩
    rintro ⟨digits, hs | hs, hne, hdigits, -⟩
    · rw [← hs] at hdigits
      exact absurd (hdigits '+' (by simp)) (by decide)
    · exact absurd (List.cons.inj hs).2.symm hne
  next rest hrest =>
    rw [digitLoop_eq_ok hzero]
    constructor
    · rintro ⟨hdigits, hvalue, hfits⟩
      exact ⟨rest, .inr rfl, fun hnil => hrest (by rw [hnil]), hdigits, hvalue, hfits⟩
    · rintro ⟨digits, hs | hs, -, hdigits, hvalue, hfits⟩
      · rw [← hs] at hdigits
        exact absurd (hdigits '+' (by simp)) (by decide)
      · obtain rfl := (List.cons.inj hs).2
        exact ⟨hdigits, hvalue, hfits⟩
  next hempty _ hplus =>
    rw [digitLoop_eq_ok hzero]
    constructor
    · rintro ⟨hdigits, hvalue, hfits⟩
      exact ⟨s, .inl rfl, hempty, hdigits, hvalue, hfits⟩
    · rintro ⟨digits, hs | hs, -, hdigits, hvalue, hfits⟩
      · rw [hs]
        exact ⟨hdigits, hvalue, hfits⟩
      · exact absurd hs (hplus digits)

theorem parsePart_eq_ok {part : Name} {n : ℕ} (hpart : parsePart part = .ok n) :
    ∃ digits, (part = digits ∨ part = '+' :: digits) ∧ (∀ c ∈ digits, c.isDigit = true) ∧
      number digits = n := by
  unfold parsePart at hpart
  split at hpart
  next hempty =>
    cases hpart
    exact ⟨[], .inl hempty, nofun, rfl⟩
  next =>
    obtain ⟨digits, hs, -, hdigits, hvalue, -⟩ := parseU128_eq_ok.1 hpart
    exact ⟨digits, hs, hdigits, hvalue⟩

/-! ### Reading exactly -/

theorem not_mem_of_digits {c : Char} (hc : c.isDigit = false) {digits : Name}
    (hdigits : ∀ d ∈ digits, d.isDigit = true) : c ∉ digits := by
  intro hmem
  rw [hdigits c hmem] at hc
  cases hc

/-- What is written behind a sign, or without one. -/
theorem written_of_sign {s unsigned : Name} (hs : s = unsigned ∨ s = '+' :: unsigned)
    (hunsigned : unsigned.head? ≠ some '+') :
    written s =
      let parts := (splitOnce '.' unsigned).getD (unsigned, [])
      if (parts.1 ++ parts.2).all Char.isDigit then some (number (parts.1 ++ parts.2), parts.2.length)
      else none := by
  rcases hs with rfl | rfl
  · unfold written
    split
    next rest => exact absurd rfl hunsigned
    next => rfl
  · rfl

theorem head?_ne_plus {digits rest : Name} (hdigits : ∀ c ∈ digits, c.isDigit = true)
    (hrest : rest.head? ≠ some '+') : (digits ++ rest).head? ≠ some '+' := by
  cases digits with
  | nil => exact hrest
  | cons c digits =>
      intro hsame
      have hplus := hdigits c List.mem_cons_self
      rw [Option.some.inj hsame] at hplus
      cases hplus

/-- The number in digits around a point. -/
theorem written_point {s integer decimal digits : Name} (hsplit : splitOnce '.' s = some (integer, decimal))
    (hinteger : integer = digits ∨ integer = '+' :: digits) (hdigits : ∀ c ∈ digits, c.isDigit = true) :
    written s = if decimal.all Char.isDigit then some (number (digits ++ decimal), decimal.length) else none := by
  obtain ⟨rfl, -⟩ := splitOnce_eq_some hsplit
  have hsign : integer ++ '.' :: decimal = digits ++ '.' :: decimal ∨
      integer ++ '.' :: decimal = '+' :: (digits ++ '.' :: decimal) :=
    hinteger.imp (fun h => by rw [h]) fun h => by rw [h]; rfl
  have hpoint := splitOnce_append (not_mem_of_digits (c := '.') rfl hdigits) decimal
  have hall : (digits ++ decimal).all Char.isDigit = decimal.all Char.isDigit := by
    rw [List.all_append, List.all_eq_true.2 hdigits, Bool.true_and]
  rw [written_of_sign hsign (head?_ne_plus hdigits (by simp)), hpoint]
  simp only [Option.getD_some, hall]

theorem written_whole {s digits : Name} (hs : s = digits ∨ s = '+' :: digits)
    (hdigits : ∀ c ∈ digits, c.isDigit = true) : written s = some (number digits, 0) := by
  have hpoint := splitOnce_eq_none (not_mem_of_digits (c := '.') rfl hdigits)
  have hhead := @head?_ne_plus digits [] hdigits (by simp)
  rw [List.append_nil] at hhead
  rw [written_of_sign hs hhead, hpoint]
  simp only [Option.getD_none, List.append_nil, List.all_eq_true.2 hdigits, if_true, List.length_nil]

/-- The parts around a point are put together, when everything fits. -/
theorem parse_point {m n : ℕ} (hsplit : splitOnce '.' s = some (integer, decimal))
    (hparts : integer ≠ [] ∨ decimal ≠ []) (hinteger : parsePart integer = .ok m)
    (hdecimal : parsePart decimal = .ok n) :
    parse s =
      let scale := (trimEnd '0' decimal).length
      if 2 ^ 8 ≤ scale then some (.error .scale)
      else if maxU128 < 10 ^ scale then none
      else if maxU128 < m * 10 ^ scale + n then none
      else some (.ok { value := m * 10 ^ scale + n, scale := scale }) := by
  unfold parse
  rw [hsplit]
  dsimp only
  rw [if_neg (not_and_or.2 hparts), hinteger, hdecimal, scaleOf_eq hsplit]

/-- A text with other parts is refused. -/
theorem parse_refused (hsplit : splitOnce '.' s = some (integer, decimal))
    (hparts : ¬ ((integer ≠ [] ∨ decimal ≠ []) ∧
      ∃ m n, parsePart integer = .ok m ∧ parsePart decimal = .ok n)) :
    ∃ failure, parse s = some (.error failure) := by
  unfold parse
  rw [hsplit]
  dsimp only
  split
  next => exact ⟨_, rfl⟩
  next hempty =>
    cases hinteger : parsePart integer with
    | error failure => exact ⟨_, rfl⟩
    | ok m =>
        cases hdecimal : parsePart decimal with
        | error failure => exact ⟨_, rfl⟩
        | ok n => exact absurd ⟨not_and_or.1 hempty, m, n, hinteger, hdecimal⟩ hparts

/-- Zeros at the end are in the parsed fraction and not in the scale. -/
theorem exact_iff_zeros {m n places scale count : ℕ} (hplaces : places = scale + count) :
    (m * 10 ^ scale + n) * 10 ^ places = (10 ^ places * m + n) * 10 ^ scale ↔ n = 0 ∨ count = 0 := by
  have hpos : 0 < 10 ^ scale := Nat.pow_pos (by decide)
  have hsum : (m * 10 ^ scale + n) * 10 ^ places = (10 ^ places * m + n) * 10 ^ scale ↔
      n * 10 ^ places = n * 10 ^ scale := by
    have hleft : (m * 10 ^ scale + n) * 10 ^ places = m * 10 ^ scale * 10 ^ places + n * 10 ^ places := by ring
    have hright : (10 ^ places * m + n) * 10 ^ scale = m * 10 ^ scale * 10 ^ places + n * 10 ^ scale := by ring
    rw [hleft, hright, Nat.add_right_inj]
  rw [hsum]
  constructor
  · intro hsame
    rcases Nat.eq_zero_or_pos n with hzero | hn
    · exact .inl hzero
    · have hpow := Nat.eq_of_mul_eq_mul_left hn hsame
      have := Nat.pow_right_injective (show 2 ≤ 10 by decide) hpow
      exact .inr (by omega)
  · rintro (rfl | rfl)
    · rw [Nat.zero_mul, Nat.zero_mul]
    · rw [hplaces, Nat.add_zero]

/-- Around a point, the parts of an accepted text decide. -/
theorem readsExactly_point {m n : ℕ} (hsplit : splitOnce '.' s = some (integer, decimal))
    (hparts : integer ≠ [] ∨ decimal ≠ []) (hinteger : parsePart integer = .ok m)
    (hdecimal : parsePart decimal = .ok n) (hscale : (trimEnd '0' decimal).length < 2 ^ 8) :
    ReadsExactly s ↔ decimal.head? ≠ some '+' ∧ (decimal.getLast? ≠ some '0' ∨ n = 0) ∧
      10 ^ (trimEnd '0' decimal).length ≤ maxU128 ∧
        m * 10 ^ (trimEnd '0' decimal).length + n ≤ maxU128 := by
  obtain ⟨digits, hsign, hdigits, hm⟩ := parsePart_eq_ok hinteger
  obtain ⟨fraction, hfraction, hfractionDigits, hn⟩ := parsePart_eq_ok hdecimal
  obtain ⟨count, htrimmed, hcount⟩ := trimEnd_append '0' decimal
  have hlength : decimal.length = (trimEnd '0' decimal).length + count := by
    conv_lhs => rw [htrimmed]
    rw [List.length_append, List.length_replicate]
  unfold ReadsExactly
  rw [parse_point hsplit hparts hinteger hdecimal]
  dsimp only
  rw [if_neg (Nat.not_le.2 hscale), written_point hsplit hsign hdigits]
  by_cases hpow : maxU128 < 10 ^ (trimEnd '0' decimal).length
  · rw [if_pos hpow]
    exact ⟨False.elim, fun h => absurd h.2.2.1 (Nat.not_le.2 hpow)⟩
  by_cases hsum : maxU128 < m * 10 ^ (trimEnd '0' decimal).length + n
  · rw [if_neg hpow, if_pos hsum]
    exact ⟨False.elim, fun h => absurd h.2.2.2 (Nat.not_le.2 hsum)⟩
  rw [if_neg hpow, if_neg hsum]
  rcases hfraction with rfl | hplus
  · have hall : decimal.all Char.isDigit = true := List.all_eq_true.2 hfractionDigits
    have hnumber : number (digits ++ decimal) = 10 ^ decimal.length * m + n := by
      rw [number_append, hm, hn]
    have hhead := @head?_ne_plus decimal [] hfractionDigits (by simp)
    rw [List.append_nil] at hhead
    rw [if_pos hall, hnumber, ← hcount, or_comm, ← exact_iff_zeros hlength]
    constructor
    · rintro ⟨numerator, places, hwritten, hexact⟩
      cases hwritten
      exact ⟨hhead, hexact, Nat.le_of_not_lt hpow, Nat.le_of_not_lt hsum⟩
    · exact fun h => ⟨_, _, rfl, h.2.1⟩
  · have hall : ¬ decimal.all Char.isDigit = true := by
      rw [hplus]
      exact fun h => absurd (List.all_eq_true.1 h '+' List.mem_cons_self) (by decide)
    rw [if_neg hall]
    constructor
    · rintro ⟨numerator, places, hwritten, -⟩
      cases hwritten
    · rintro ⟨hhead, -⟩
      exact absurd (by rw [hplus]; rfl) hhead

theorem readsExactly_iff (s : Name) : ReadsExactly s ↔ Readable s := by
  cases hsplit : splitOnce '.' s with
  | none =>
      refine ⟨fun _ integer decimal m n hsome => ?_, fun _ => ?_⟩
      · rw [hsplit] at hsome
        cases hsome
      · unfold ReadsExactly
        rw [parse, hsplit]
        dsimp only
        cases hnumber : parseU128 s with
        | error failure => trivial
        | ok value =>
            obtain ⟨digits, hs, -, hdigits, hvalue, -⟩ := parseU128_eq_ok.1 hnumber
            refine ⟨number digits, 0, written_whole hs hdigits, ?_⟩
            rw [hvalue]
  | some parts =>
      obtain ⟨integer, decimal⟩ := parts
      by_cases hparts : (integer ≠ [] ∨ decimal ≠ []) ∧
          ∃ m n, parsePart integer = .ok m ∧ parsePart decimal = .ok n
      · obtain ⟨hnonempty, m, n, hinteger, hdecimal⟩ := hparts
        by_cases hscale : (trimEnd '0' decimal).length < 2 ^ 8
        · rw [readsExactly_point hsplit hnonempty hinteger hdecimal hscale]
          constructor
          · intro h integer' decimal' m' n' hsplit' _ hinteger' hdecimal' _
            rw [hsplit] at hsplit'
            cases hsplit'
            rw [hinteger] at hinteger'
            rw [hdecimal] at hdecimal'
            cases hinteger'
            cases hdecimal'
            exact h
          · exact fun h => h integer decimal m n hsplit hnonempty hinteger hdecimal hscale
        · refine ⟨fun _ integer' decimal' m' n' hsplit' _ _ _ hscale' => ?_, fun _ => ?_⟩
          · rw [hsplit] at hsplit'
            cases hsplit'
            exact absurd hscale' hscale
          · unfold ReadsExactly
            rw [parse_point hsplit hnonempty hinteger hdecimal]
            dsimp only
            rw [if_pos (Nat.le_of_not_lt hscale)]
            trivial
      · obtain ⟨failure, hparse⟩ := parse_refused hsplit hparts
        refine ⟨fun _ integer' decimal' m' n' hsplit' hnonempty hinteger hdecimal _ => ?_, fun _ => ?_⟩
        · rw [hsplit] at hsplit'
          cases hsplit'
          exact absurd ⟨hnonempty, m', n', hinteger, hdecimal⟩ hparts
        · unfold ReadsExactly
          rw [hparse]
          trivial

/-- An amount is the decimal times the power of ten that is left, or an error. -/
theorem toAmount_exact {decimal : Decimal} {divisibility amount : ℕ}
    (hamount : decimal.toAmount divisibility = some amount) :
    decimal.scale ≤ divisibility ∧ amount = decimal.value * 10 ^ (divisibility - decimal.scale) ∧
      amount ≤ maxU128 := by
  unfold toAmount at hamount
  split at hamount
  next => cases hamount
  next hscale =>
    dsimp only at hamount
    split at hamount
    next => cases hamount
    next hfits =>
      cases hamount
      exact ⟨Nat.le_of_not_lt hscale, rfl, by omega⟩

end Decimal

/-! ### Printed amounts -/

namespace Pile

/-- The fraction without its zeros, and its width. -/
theorem trim_spec {fractional width : ℕ} (hpos : 0 < fractional) (hlt : fractional < 10 ^ width) :
    ∃ digits left, trim fractional width = some (digits, left) ∧ left ≤ width ∧ digits % 10 ≠ 0 ∧
      digits < 10 ^ left ∧ fractional = digits * 10 ^ (width - left) := by
  induction width generalizing fractional with
  | zero =>
      rw [pow_zero] at hlt
      omega
  | succ width ih =>
      unfold trim
      split
      next hzero =>
        obtain ⟨digits, left, htrim, hle, hlast, hdigits, hvalue⟩ := @ih (fractional / 10) (by omega) (by
          rw [Nat.pow_succ] at hlt
          omega)
        refine ⟨digits, left, htrim, by omega, hlast, hdigits, ?_⟩
        have hwidth : width + 1 - left = width - left + 1 := by omega
        rw [hwidth, Nat.pow_succ, ← Nat.mul_assoc, ← hvalue]
        omega
      next hlast =>
        refine ⟨fractional, width + 1, rfl, le_rfl, hlast, hlt, ?_⟩
        rw [Nat.sub_self, pow_zero, Nat.mul_one]

/-- The numeric part is printed, parsed and converted with the same divisibility. -/
def RoundTrips (pile : Pile) : Prop :=
  ∃ text decimal, pile.numeric = some text ∧ Decimal.parse text = some (.ok decimal) ∧
    decimal.toAmount pile.divisibility = some pile.amount

theorem isDigit_toDigits (n : ℕ) : ∀ c ∈ Nat.toDigits 10 n, c.isDigit = true := fun _ hc =>
  Nat.isDigit_of_mem_toDigits (by decide) (by decide) hc

theorem parseU128_digits {digits : Name} {n : ℕ} (hne : digits ≠ [])
    (hdigits : ∀ c ∈ digits, c.isDigit = true) (hnumber : Decimal.number digits = n) (hn : n ≤ maxU128) :
    parseU128 digits = .ok n :=
  Decimal.parseU128_eq_ok.2 ⟨digits, .inl rfl, hne, hdigits, hnumber, hn⟩

/-- The printed fraction: its digits denote the fraction, and no zero is at its end. -/
theorem fraction_spec {digits left : ℕ} (hlast : digits % 10 ≠ 0) (hdigits : digits < 10 ^ left) :
    ∃ text : Name, (Nat.toDigits 10 digits).leftpad left '0' = text ∧ text.length = left ∧
      (∀ c ∈ text, c.isDigit = true) ∧ Decimal.number text = digits ∧ trimEnd '0' text = text := by
  refine ⟨_, rfl, ?_⟩
  have hpos : 0 < left := by
    rcases Nat.eq_zero_or_pos left with rfl | hpos
    · rw [pow_zero] at hdigits
      omega
    · exact hpos
  have hlength : (Nat.toDigits 10 digits).length ≤ left :=
    (Nat.length_toDigits_le_iff (by decide) hpos).2 hdigits
  have hnumber : Decimal.number ((Nat.toDigits 10 digits).leftpad left '0') = digits := by
    have hzeros := Decimal.number_append_zeros [] (left - (Nat.toDigits 10 digits).length)
    have hempty : Decimal.number [] = 0 := rfl
    rw [List.nil_append, hempty, Nat.mul_zero] at hzeros
    rw [List.leftpad, Decimal.number_append, hzeros, Nat.mul_zero, Nat.zero_add]
    exact Nat.ofDigitChars_ten_toDigits
  refine ⟨?_, ?_, hnumber, ?_⟩
  · rw [List.leftpad, List.length_append, List.length_replicate]
    omega
  · intro c hc
    rcases List.mem_append.1 hc with hzero | hdigit
    · rw [List.eq_of_mem_replicate hzero]
      decide
    · exact isDigit_toDigits digits c hdigit
  · obtain ⟨count, htrimmed, -⟩ := trimEnd_append '0' ((Nat.toDigits 10 digits).leftpad left '0')
    cases count with
    | zero => simpa using htrimmed.symm
    | succ count =>
        rw [htrimmed, Decimal.number_append_zeros, Nat.pow_succ] at hnumber
        have hmultiple : digits = 10 ^ count * Decimal.number
            (trimEnd '0' ((Nat.toDigits 10 digits).leftpad left '0')) * 10 := hnumber.symm.trans (by ring)
        omega

/-- A decimal whose value is the amount less its trailing zeros is converted to the amount. -/
theorem toAmount_eq {amount divisibility value scale : ℕ} (hdivisibility : divisibility ≤ 38)
    (hscale : scale ≤ divisibility) (hamount : amount ≤ maxU128)
    (hvalue : value * 10 ^ (divisibility - scale) = amount) :
    ({ value := value, scale := scale } : Decimal).toAmount divisibility = some amount := by
  have hpow : 10 ^ (divisibility - scale) ≤ 10 ^ 38 := Nat.pow_le_pow_right (by decide) (by omega)
  have hmax : 10 ^ 38 ≤ maxU128 := by decide
  unfold Decimal.toAmount
  dsimp only
  rw [if_neg (Nat.not_lt.2 hscale), hvalue, if_neg (by omega)]

/-- Printed amounts are read back as long as the power of ten of the divisibility fits. -/
theorem roundTrips_iff {pile : Pile} (hamount : pile.amount ≤ maxU128) :
    pile.RoundTrips ↔ pile.divisibility ≤ 38 := by
  have hmax : 10 ^ 38 ≤ maxU128 := by decide
  constructor
  · rintro ⟨text, decimal, hnumeric, -⟩
    by_contra hlarge
    have hpow : 10 ^ 39 ≤ 10 ^ pile.divisibility := Nat.pow_le_pow_right (by decide) (by omega)
    have hover : maxU128 < 10 ^ 39 := by decide
    rw [numeric, if_pos (by omega)] at hnumeric
    cases hnumeric
  · intro hdivisibility
    have hcutoff : 10 ^ pile.divisibility ≤ maxU128 :=
      (Nat.pow_le_pow_right (by decide) hdivisibility).trans hmax
    have hpos : 0 < 10 ^ pile.divisibility := Nat.pow_pos (by decide)
    have hdivmod := Nat.div_add_mod pile.amount (10 ^ pile.divisibility)
    have hwholeLe := Nat.div_le_self pile.amount (10 ^ pile.divisibility)
    have hfractionLt := Nat.mod_lt pile.amount hpos
    unfold RoundTrips numeric
    dsimp only
    rw [if_neg (Nat.not_lt.2 hcutoff)]
    generalize pile.amount / 10 ^ pile.divisibility = whole at hdivmod hwholeLe ⊢
    generalize pile.amount % 10 ^ pile.divisibility = fractional at hdivmod hfractionLt ⊢
    have hwhole : parseU128 (Nat.toDigits 10 whole) = .ok whole :=
      parseU128_digits (by simp) (isDigit_toDigits whole) Nat.ofDigitChars_ten_toDigits (by omega)
    have hpoint : '.' ∉ Nat.toDigits 10 whole :=
      Decimal.not_mem_of_digits (c := '.') rfl (isDigit_toDigits whole)
    split
    next hzero =>
      refine ⟨_, _, rfl, ?_, @toAmount_eq pile.amount pile.divisibility whole 0 hdivisibility (Nat.zero_le _)
        hamount ?_⟩
      · rw [Decimal.parse, splitOnce_eq_none hpoint]
        dsimp only
        rw [hwhole]
      · rw [Nat.sub_zero, Nat.mul_comm]
        omega
    next hfraction =>
      obtain ⟨digits, left, htrim, hle, hlast, hdigits, hvalue⟩ :=
        trim_spec (Nat.pos_of_ne_zero hfraction) hfractionLt
      obtain ⟨text, htext, hlength, hall, hnumber, htrimmed⟩ := fraction_spec hlast hdigits
      have hpower : 10 ^ left * 10 ^ (pile.divisibility - left) = 10 ^ pile.divisibility := by
        rw [← pow_add, Nat.add_sub_cancel' hle]
      have hsum : (whole * 10 ^ left + digits) * 10 ^ (pile.divisibility - left) = pile.amount := by
        rw [Nat.add_mul, Nat.mul_assoc, hpower, ← hvalue, Nat.mul_comm]
        exact hdivmod
      have hvalueLe : whole * 10 ^ left + digits ≤ maxU128 :=
        (Nat.le_mul_of_pos_right _ (Nat.pow_pos (by decide))).trans (hsum.trans_le hamount)
      have hne : text ≠ [] := by
        rintro rfl
        rw [← hnumber] at hlast
        exact hlast rfl
      have hdecimal : Decimal.parsePart text = .ok digits := by
        rw [Decimal.parsePart, if_neg hne]
        exact parseU128_digits hne hall hnumber (by omega)
      have hinteger : Decimal.parsePart (Nat.toDigits 10 whole) = .ok whole := by
        rw [Decimal.parsePart, if_neg (by simp), hwhole]
      have hpow : 10 ^ left ≤ maxU128 := (Nat.pow_le_pow_right (by decide) hle).trans hcutoff
      rw [htrim, Option.bind_eq_bind, Option.bind_some]
      dsimp only
      rw [htext]
      refine ⟨_, _, rfl, ?_, toAmount_eq hdivisibility hle hamount hsum⟩
      rw [Decimal.parse_point (splitOnce_append hpoint text) (.inr hne) hinteger hdecimal, htrimmed, hlength]
      dsimp only
      rw [if_neg (by omega), if_neg (Nat.not_lt.2 hpow), if_neg (Nat.not_lt.2 hvalueLe)]

end Pile

/-- Decimals are read exactly when around the point nothing is lost, amounts are exact, and printed amounts
are read back as long as the power of ten of the divisibility fits. -/
theorem decimals_exact (s : Name) :
    (Decimal.ReadsExactly s ↔ Decimal.Readable s) ∧
      (∀ (decimal : Decimal) (divisibility amount : ℕ), decimal.toAmount divisibility = some amount →
        decimal.scale ≤ divisibility ∧ amount = decimal.value * 10 ^ (divisibility - decimal.scale) ∧
          amount ≤ maxU128) ∧
        ∀ pile : Pile, pile.amount ≤ maxU128 → (pile.RoundTrips ↔ pile.divisibility ≤ 38) :=
  ⟨Decimal.readsExactly_iff s, fun _ _ _ hamount => Decimal.toAmount_exact hamount,
    fun _ hamount => Pile.roundTrips_iff hamount⟩

theorem decimals_exact_sample : Decimal.ReadsExactly "1.5".toList ∧
    ({ value := 12, scale := 1 } : Decimal).toAmount 2 = some 120 ∧
      ({ amount := 1100, divisibility := 3, symbol := none } : Pile).RoundTrips := by
  refine ⟨(decimals_exact _).1.2 ?_, by decide, ((decimals_exact []).2.2 _ (by decide)).2 (by decide)⟩
  intro integer decimal m n hsplit _ hinteger hdecimal _
  have hparts : splitOnce '.' "1.5".toList = some ("1".toList, "5".toList) := by decide
  have hone : Decimal.parsePart "1".toList = .ok 1 := by decide
  have hfive : Decimal.parsePart "5".toList = .ok 5 := by decide
  rw [hparts] at hsplit
  cases hsplit
  rw [hone] at hinteger
  rw [hfive] at hdecimal
  cases hinteger
  cases hdecimal
  exact ⟨by decide, .inl (by decide), by decide, by decide⟩

/-- A zero at the end of the fraction is in the value and not in the scale: `1.10` is read as 2.0. -/
theorem not_readsExactly : Decimal.parse "1.10".toList = some (.ok { value := 20, scale := 1 }) ∧
    ¬ Decimal.ReadsExactly "1.10".toList := by
  have hparse : Decimal.parse "1.10".toList = some (.ok { value := 20, scale := 1 }) := by decide
  have hwritten : Decimal.written "1.10".toList = some (110, 2) := by decide
  refine ⟨hparse, fun hexact => ?_⟩
  unfold Decimal.ReadsExactly at hexact
  rw [hparse] at hexact
  obtain ⟨numerator, places, hsome, hsame⟩ := hexact
  rw [hwritten] at hsome
  cases hsome
  exact absurd hsame (by decide)

end OrdDogecoin.Dunes
