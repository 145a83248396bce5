/-
Module: OrdDogecoin.Dunes.SpacedNames
Purpose: Names of dunes with spacers between their letters: a spacer is a bit at the number of letters in
  front of it.  Parsing accepts exactly the well spaced strings, printing puts a bullet for every spacer,
  and one is the inverse of the other, but for shifts and counts that leave their types.
Trusted boundary: an unchecked operation that leaves its type is the outcome `none`
Main exports: SpacedDune.parse, Fits, SpacedDune.spacedNames_exact
-/
import OrdDogecoin.Dunes.Names
import Mathlib.Data.Nat.Size
import Mathlib.Data.Nat.Bitwise

namespace OrdDogecoin.Dunes

open Dune

/-- `SpacedDune`. -/
structure SpacedDune where
  dune : ℕ
  spacers : ℕ
deriving DecidableEq, Repr

namespace SpacedDune

inductive Error where
  | leadingSpacer
  | doubleSpacer
  | trailingSpacer
  | invalidCharacter
  | dune (failure : ParseError)
deriving DecidableEq, Repr

def isSpacer (c : Char) : Bool := c = '.' || c = '•'

/-- The loop of `FromStr` with the letters and the spacers so far; `1 << n` is a shift of a `u32`. -/
def scan (dune : Name) (spacers : ℕ) : Name → Outcome Error (Name × ℕ)
  | [] => some (.ok (dune, spacers))
  | c :: rest =>
      if isLetter c then scan (dune ++ [c]) spacers rest
      else if isSpacer c then
        if dune.length = 0 then some (.error .leadingSpacer)
        else if 32 ≤ dune.length - 1 then none
        else if spacers &&& 1 <<< (dune.length - 1) ≠ 0 then some (.error .doubleSpacer)
        else scan dune (spacers ||| 1 <<< (dune.length - 1)) rest
      else some (.error .invalidCharacter)

/-- `FromStr`: the width of the spacers is `32 - leading_zeros`, and the number of letters is taken as
`u32`. -/
def parse (s : Name) : Outcome Error SpacedDune :=
  match scan [] 0 s with
  | none => none
  | some (.error failure) => some (.error failure)
  | some (.ok (dune, spacers)) =>
      if 2 ^ 32 ≤ dune.length then none
      else if dune.length ≤ spacers.size then some (.error .trailingSpacer)
      else
        match Dune.parse dune with
        | none => none
        | some (.error failure) => some (.error (.dune failure))
        | some (.ok n) => some (.ok { dune := n, spacers := spacers })

def display (spaced : SpacedDune) : Name :=
  let dune := Dune.display spaced.dune
  dune.zipIdx.flatMap fun (c, i) =>
    c :: if i < dune.length - 1 ∧ spaced.spacers &&& 1 <<< i ≠ 0 then ['•'] else []

/-! ### Well spaced strings -/

def EndsInLetter (s : Name) : Prop := ∃ c, s.getLast? = some c ∧ isLetter c = true

/-- Letters, and spacers that follow a letter. -/
inductive Scanned : Name → Prop
  | nil : Scanned []
  | letter {s : Name} {c : Char} (scanned : Scanned s) (hc : isLetter c = true) : Scanned (s ++ [c])
  | spacer {s : Name} {c : Char} (scanned : Scanned s) (hs : EndsInLetter s) (hc : isSpacer c = true) :
      Scanned (s ++ [c])

/-- Letters with single spacers strictly between them. -/
def WellSpaced (s : Name) : Prop := Scanned s ∧ EndsInLetter s

def letters (s : Name) : Name := s.filter isLetter

def bulleted (s : Name) : Name := s.map fun c => if isSpacer c then '•' else c

variable {c : Char}

theorem isLetter_of_isSpacer (hc : isSpacer c = true) : isLetter c = false := by
  simp only [isSpacer, Bool.or_eq_true, decide_eq_true_eq] at hc
  rcases hc with rfl | rfl <;> decide

theorem endsInLetter_append {s : Name} : EndsInLetter (s ++ [c]) ↔ isLetter c = true := by
  simp [EndsInLetter]

theorem scanned_append_singleton {s : Name} : Scanned (s ++ [c]) ↔
    Scanned s ∧ (isLetter c = true ∨ isSpacer c = true ∧ EndsInLetter s) := by
  constructor
  · intro h
    generalize hwhole : s ++ [c] = whole at h
    cases h with
    | nil => simp at hwhole
    | letter scanned hc =>
        obtain ⟨rfl, hsame⟩ := List.append_inj' hwhole rfl
        cases hsame
        exact ⟨scanned, .inl hc⟩
    | spacer scanned hs hc =>
        obtain ⟨rfl, hsame⟩ := List.append_inj' hwhole rfl
        cases hsame
        exact ⟨scanned, .inr ⟨hc, hs⟩⟩
  · rintro ⟨scanned, hc | ⟨hc, hs⟩⟩
    · exact .letter scanned hc
    · exact .spacer scanned hs hc

theorem Scanned.of_append {front rest : Name} (h : Scanned (front ++ rest)) : Scanned front := by
  induction rest using List.reverseRecOn with
  | nil => rwa [List.append_nil] at h
  | append_singleton rest c ih =>
      rw [← List.append_assoc] at h
      exact ih (scanned_append_singleton.1 h).1

theorem length_letters_pos {s : Name} (h : EndsInLetter s) : 0 < (letters s).length := by
  obtain ⟨c, hlast, hc⟩ := h
  exact List.length_pos_of_mem (List.mem_filter.2 ⟨List.mem_of_getLast? hlast, hc⟩)

theorem Scanned.endsInLetter_of_isSpacer {s : Name} (h : Scanned (s ++ [c]))
    (hc : isSpacer c = true) : EndsInLetter s := by
  rcases (scanned_append_singleton.1 h).2 with hletter | ⟨-, hs⟩
  · rw [isLetter_of_isSpacer hc] at hletter
    cases hletter
  · exact hs

theorem WellSpaced.isName {s : Name} (h : WellSpaced s) : IsName (letters s) :=
  ⟨List.ne_nil_of_length_pos (length_letters_pos h.2), fun _ hd => (List.mem_filter.1 hd).2⟩

/-! ### Bits -/

theorem and_shift_ne_zero (n k : ℕ) : n &&& 1 <<< k ≠ 0 ↔ n.testBit k = true := by
  rw [Nat.one_shiftLeft, Nat.and_two_pow]
  cases n.testBit k <;> simp

/-- The letters with a bullet behind each one whose bit is set. -/
def interleave (dune : Name) (spacers : ℕ) : Name :=
  dune.zipIdx.flatMap fun (c, i) => c :: if spacers.testBit i then ['•'] else []

theorem interleave_append_singleton (dune : Name) (c : Char) (spacers : ℕ) :
    interleave (dune ++ [c]) spacers =
      interleave dune spacers ++ c :: if spacers.testBit dune.length then ['•'] else [] := by
  rw [interleave, interleave, List.zipIdx_append, List.flatMap_append]
  simp

/-- Only the bits of letters are shown. -/
theorem interleave_congr {dune : Name} {spacers spacers' : ℕ}
    (hbits : ∀ i < dune.length, spacers.testBit i = spacers'.testBit i) :
    interleave dune spacers = interleave dune spacers' := by
  induction dune using List.reverseRecOn with
  | nil => rfl
  | append_singleton dune c ih =>
      rw [interleave_append_singleton, interleave_append_singleton,
        ih fun i hi => hbits i (by rw [List.length_append]; omega), hbits dune.length (by simp)]

/-! ### The loop -/

/-- The letters and the spacers after well spaced characters. -/
structure State (front dune : Name) (spacers : ℕ) : Prop where
  scanned : Scanned front
  dune_eq : dune = letters front
  small : spacers < 2 ^ dune.length
  shown : interleave dune spacers = bulleted front
  last : 0 < dune.length → (spacers.testBit (dune.length - 1) = false ↔ EndsInLetter front)

theorem State.nil : State [] [] 0 := ⟨.nil, rfl, by decide, rfl, fun hpos => absurd hpos (by decide)⟩

theorem State.letter {front dune : Name} {spacers : ℕ} (state : State front dune spacers)
    (hc : isLetter c = true) : State (front ++ [c]) (dune ++ [c]) spacers where
  scanned := .letter state.scanned hc
  dune_eq := by rw [state.dune_eq, letters, letters, List.filter_append, List.filter_singleton, hc]; rfl
  small := by
    rw [List.length_append, List.length_singleton, Nat.pow_succ]
    have := state.small
    omega
  shown := by
    have hspacer : isSpacer c = false := by
      by_contra hspacer
      rw [Bool.not_eq_false] at hspacer
      rw [isLetter_of_isSpacer hspacer] at hc
      cases hc
    rw [interleave_append_singleton, Nat.testBit_lt_two_pow state.small, state.shown, bulleted, bulleted,
      List.map_append, List.map_singleton, hspacer]
    rfl
  last _ := by
    rw [List.length_append, List.length_singleton, Nat.add_sub_cancel,
      Nat.testBit_lt_two_pow state.small, endsInLetter_append, hc]
    simp

theorem State.spacer {front dune : Name} {spacers : ℕ} (state : State front dune spacers)
    (hc : isSpacer c = true) (hpos : 0 < dune.length)
    (hbit : spacers.testBit (dune.length - 1) = false) :
    State (front ++ [c]) dune (spacers ||| 1 <<< (dune.length - 1)) where
  scanned := .spacer state.scanned ((state.last hpos).1 hbit) hc
  dune_eq := by
    rw [state.dune_eq, letters, letters, List.filter_append, List.filter_singleton,
      isLetter_of_isSpacer hc]
    exact (List.append_nil _).symm
  small := by
    rw [Nat.one_shiftLeft]
    exact Nat.or_lt_two_pow state.small (Nat.pow_lt_pow_right (by decide) (by omega))
  shown := by
    obtain ⟨init, d, rfl⟩ : ∃ init d, dune = init ++ [d] :=
      ⟨_, _, (List.dropLast_concat_getLast (List.ne_nil_of_length_pos hpos)).symm⟩
    have hshown := state.shown
    rw [List.length_append, List.length_singleton, Nat.add_sub_cancel] at hbit ⊢
    have hinit : interleave init (spacers ||| 1 <<< init.length) = interleave init spacers := by
      apply interleave_congr
      intro i hi
      rw [Nat.testBit_or, Nat.one_shiftLeft, Nat.testBit_two_pow_of_ne (by omega), Bool.or_false]
    have hset : (spacers ||| 1 <<< init.length).testBit init.length = true := by
      rw [Nat.testBit_or, Nat.one_shiftLeft, Nat.testBit_two_pow_self, Bool.or_true]
    rw [interleave_append_singleton, hbit] at hshown
    rw [interleave_append_singleton, hinit, hset, bulleted, List.map_append, ← bulleted, ← hshown,
      List.map_singleton, hc]
    simp
  last _ := by
    rw [Nat.testBit_or, Nat.one_shiftLeft, Nat.testBit_two_pow_self, Bool.or_true, endsInLetter_append,
      isLetter_of_isSpacer hc]
    simp

/-- No spacer is behind more than 32 letters, as far as the characters are well spaced. -/
def ShiftsFit (front rest : Name) : Prop :=
  ∀ middle c tail, rest = middle ++ c :: tail → isSpacer c = true → Scanned (front ++ middle) →
    (letters (front ++ middle)).length ≤ 32

theorem ShiftsFit.cons {front rest : Name}
    (hfirst : isSpacer c = true → (letters front).length ≤ 32)
    (hrest : Scanned (front ++ [c]) → ShiftsFit (front ++ [c]) rest) : ShiftsFit front (c :: rest) := by
  intro middle d tail hsplit hd scanned
  cases middle with
  | nil =>
      obtain ⟨rfl, rfl⟩ := List.cons.inj hsplit
      rw [List.append_nil]
      exact hfirst hd
  | cons e middle =>
      obtain ⟨rfl, hrestSplit⟩ := List.cons.inj hsplit
      rw [List.append_cons] at scanned ⊢
      exact hrest scanned.of_append middle d tail hrestSplit hd scanned

theorem not_shiftsFit_cons {front rest : Name} (hnot : ¬ ShiftsFit (front ++ [c]) rest) :
    ¬ ShiftsFit front (c :: rest) := by
  intro fit
  apply hnot
  intro middle d tail hsplit hd scanned
  have hassoc : front ++ [c] ++ middle = front ++ c :: middle := by simp
  rw [hassoc] at scanned ⊢
  exact fit (c :: middle) d tail (by rw [hsplit]; rfl) hd scanned

/-- The loop overflows when a shift does, and else ends with the letters and spacers of well spaced
characters, or with an error at characters that are not. -/
theorem scan_spec {front dune rest : Name} {spacers : ℕ} (state : State front dune spacers) :
    scan dune spacers rest = none ∧ ¬ ShiftsFit front rest ∨
      (∃ dune' spacers', scan dune spacers rest = some (.ok (dune', spacers')) ∧ ShiftsFit front rest ∧
        State (front ++ rest) dune' spacers') ∨
      (∃ failure, scan dune spacers rest = some (.error failure) ∧ ShiftsFit front rest ∧
        ¬ Scanned (front ++ rest)) := by
  induction rest generalizing front dune spacers with
  | nil =>
      refine .inr (.inl ⟨dune, spacers, rfl, ?_, ?_⟩)
      · intro middle c tail hsplit
        simp at hsplit
      · rwa [List.append_nil]
  | cons c rest ih =>
      have hassoc : front ++ c :: rest = front ++ [c] ++ rest := by simp
      have hstep : ∀ {dune' spacers'}, State (front ++ [c]) dune' spacers' →
          (isSpacer c = true → (letters front).length ≤ 32) →
          scan dune' spacers' rest = none ∧ ¬ ShiftsFit front (c :: rest) ∨
            (∃ dune'' spacers'', scan dune' spacers' rest = some (.ok (dune'', spacers'')) ∧
              ShiftsFit front (c :: rest) ∧ State (front ++ c :: rest) dune'' spacers'') ∨
            (∃ failure, scan dune' spacers' rest = some (.error failure) ∧ ShiftsFit front (c :: rest) ∧
              ¬ Scanned (front ++ c :: rest)) := by
        intro dune' spacers' state' hfirst
        rw [hassoc]
        rcases ih state' with ⟨hnone, hnot⟩ | ⟨dune'', spacers'', hok, fit, last⟩ |
          ⟨failure, herror, fit, hnot⟩
        · exact .inl ⟨hnone, not_shiftsFit_cons hnot⟩
        · exact .inr (.inl ⟨dune'', spacers'', hok, .cons hfirst fun _ => fit, last⟩)
        · exact .inr (.inr ⟨failure, herror, .cons hfirst fun _ => fit, hnot⟩)
      have hfails : ¬ Scanned (front ++ [c]) → (isSpacer c = true → (letters front).length ≤ 32) →
          ShiftsFit front (c :: rest) ∧ ¬ Scanned (front ++ c :: rest) := by
        intro hnot hfirst
        refine ⟨.cons hfirst fun scanned => absurd scanned hnot, fun scanned => hnot ?_⟩
        rw [hassoc] at scanned
        exact scanned.of_append
      unfold scan
      split
      next hletter =>
        refine hstep (state.letter hletter) fun hspacer => ?_
        rw [isLetter_of_isSpacer hspacer] at hletter
        cases hletter
      next hletter =>
        split
        next hspacer =>
          have hdune := state.dune_eq
          split
          next hzero =>
            refine .inr (.inr ⟨_, rfl, hfails (fun scanned => ?_) fun _ => by rw [← hdune]; omega⟩)
            have hpos := length_letters_pos (scanned.endsInLetter_of_isSpacer hspacer)
            rw [← hdune] at hpos
            omega
          next hpos =>
            split
            next hbig =>
              refine .inl ⟨rfl, fun fit => ?_⟩
              have hle := fit [] c rest rfl hspacer (by rw [List.append_nil]; exact state.scanned)
              rw [List.append_nil, ← hdune] at hle
              omega
            next hsmall =>
              have hlast := state.last (by omega)
              have hle : (letters front).length ≤ 32 := by
                rw [← hdune]
                omega
              split
              next hdouble =>
                rw [and_shift_ne_zero] at hdouble
                refine .inr (.inr ⟨_, rfl, hfails (fun scanned => ?_) fun _ => hle⟩)
                have hclear := hlast.2 (scanned.endsInLetter_of_isSpacer hspacer)
                rw [hclear] at hdouble
                cases hdouble
              next hsingle =>
                rw [and_shift_ne_zero, Bool.not_eq_true] at hsingle
                exact hstep (state.spacer hspacer (by omega) hsingle) fun _ => hle
        next hspacer =>
          refine .inr (.inr ⟨_, rfl, hfails (fun scanned => ?_) fun hs => absurd hs hspacer⟩)
          rcases (scanned_append_singleton.1 scanned).2 with hc | ⟨hc, -⟩
          · exact hletter hc
          · exact hspacer hc

/-! ### Parsing -/

/-- The operations without a check stay in their types: the shifts, the number of letters and the
increment of the dune's number. -/
def Fits (s : Name) : Prop :=
  ShiftsFit [] s ∧ (Scanned s → (letters s).length < 2 ^ 32) ∧
    (WellSpaced s → ¬ ∃ c rest, letters s = maxName ++ c :: rest)

/-- What the parser does is what it should: a value for well spaced letters of a name in range, which is
printed again with bullets for the spacers, and an error for every other string. -/
def ParsesExactly (s : Name) : Prop :=
  match parse s with
  | some (.ok spaced) =>
      WellSpaced s ∧ nameNumber (letters s) = spaced.dune ∧ spaced.dune ≤ maxU128 ∧
        display spaced = bulleted s
  | some (.error _) => ¬ (WellSpaced s ∧ nameNumber (letters s) ≤ maxU128)
  | none => False

/-- The width of the spacers reaches the number of letters exactly when the last character is none. -/
theorem State.trailing_iff {s dune : Name} {spacers : ℕ} (state : State s dune spacers) :
    dune.length ≤ spacers.size ↔ ¬ EndsInLetter s := by
  have hsize := Nat.size_le.2 state.small
  by_cases hpos : 0 < dune.length
  · rw [← state.last hpos, Bool.not_eq_false]
    constructor
    · intro hwide
      have hwidth : spacers.size = dune.length - 1 + 1 := by omega
      by_contra hclear
      rw [Bool.not_eq_true] at hclear
      have hbound : spacers < 2 ^ (dune.length - 1) := by
        refine Nat.lt_pow_two_of_testBit _ fun i hi => ?_
        by_cases hsame : i = dune.length - 1
        · rw [hsame, hclear]
        · exact Nat.testBit_lt_two_pow (lt_of_lt_of_le state.small
            (Nat.pow_le_pow_right (by decide) (by omega)))
      have := Nat.size_le.2 hbound
      omega
    · intro hset
      have := Nat.lt_size.2 (Nat.ge_two_pow_of_testBit hset)
      omega
  · constructor
    · intro _ hends
      have := length_letters_pos hends
      rw [← state.dune_eq] at this
      omega
    · intro _
      omega

theorem display_eq_interleave {spaced : SpacedDune} {dune : Name} (hdune : Dune.display spaced.dune = dune)
    (hlast : spaced.spacers.testBit (dune.length - 1) = false) :
    display spaced = interleave dune spaced.spacers := by
  unfold display interleave
  dsimp only
  rw [hdune]
  refine List.flatMap_congr fun ⟨c, i⟩ hmem => ?_
  have hi : i < dune.length := by
    have := List.snd_lt_of_mem_zipIdx hmem
    omega
  have hshown : (i < dune.length - 1 ∧ spaced.spacers &&& 1 <<< i ≠ 0) ↔
      spaced.spacers.testBit i = true := by
    rw [and_shift_ne_zero]
    refine ⟨fun h => h.2, fun h => ⟨?_, h⟩⟩
    by_contra hge
    have hsame : i = dune.length - 1 := by omega
    rw [hsame, hlast] at h
    cases h
  dsimp only
  rw [if_congr hshown rfl rfl]

/-- The parser overflows, or gives what the string denotes, or fails at a string that denotes nothing. -/
theorem parse_spec (s : Name) :
    parse s = none ∧ ¬ Fits s ∨
      (∃ spaced, parse s = some (.ok spaced) ∧ Fits s ∧ WellSpaced s ∧
        nameNumber (letters s) = spaced.dune ∧ spaced.dune ≤ maxU128 ∧ display spaced = bulleted s) ∨
      (∃ failure, parse s = some (.error failure) ∧ Fits s ∧
        ¬ (WellSpaced s ∧ nameNumber (letters s) ≤ maxU128)) := by
  have hspec := @scan_spec [] [] s 0 .nil
  unfold parse
  rcases hspec with ⟨hscan, hnot⟩ | ⟨dune, spacers, hscan, fit, state⟩ |
    ⟨failure, hscan, fit, hnot⟩
  · exact .inl ⟨by rw [hscan], fun fits => hnot fits.1⟩
  · rw [List.nil_append] at state
    rw [hscan]
    dsimp only
    have hdune := state.dune_eq
    split
    next hlong =>
      refine .inl ⟨rfl, fun fits => ?_⟩
      have := fits.2.1 state.scanned
      rw [← hdune] at this
      omega
    next hshort =>
      have hlength : Scanned s → (letters s).length < 2 ^ 32 := fun _ => by
        rw [← hdune]
        omega
      split
      next htrailing =>
        have hnot : ¬ WellSpaced s := fun spaced => state.trailing_iff.1 htrailing spaced.2
        exact .inr (.inr ⟨_, rfl, ⟨fit, hlength, fun spaced => absurd spaced hnot⟩,
          fun spaced => hnot spaced.1⟩)
      next htrailing =>
        have hends : EndsInLetter s := by
          by_contra hends
          exact htrailing (state.trailing_iff.2 hends)
        have hspaced : WellSpaced s := ⟨state.scanned, hends⟩
        have hpos := length_letters_pos hends
        have hbit := (state.last (by rw [hdune]; exact hpos)).2 hends
        rw [hdune]
        rcases Dune.parse_spec hspaced.isName.1 with ⟨hparse, hextends⟩ |
          ⟨n, hparse, hname, hnumber, hrange⟩ | ⟨failure, hparse, hnot⟩
        · rw [hparse]
          exact .inl ⟨rfl, fun fits => fits.2.2 hspaced hextends⟩
        · rw [hparse]
          have hextends := not_extends_of_range (hnumber.trans_le hrange)
          refine .inr (.inl ⟨_, rfl, ⟨fit, hlength, fun _ => hextends⟩, hspaced, hnumber, hrange, ?_⟩)
          have hdisplay : Dune.display n = dune := by
            rw [display_eq_name, ← hnumber, name_nameNumber hname, hdune]
          rw [display_eq_interleave hdisplay hbit, state.shown]
        · rw [hparse]
          refine .inr (.inr ⟨_, rfl, ⟨fit, hlength, fun _ hextends => ?_⟩, fun h => hnot ⟨hspaced.isName, h.2⟩⟩)
          rw [parse_eq_none_of_extends hextends] at hparse
          cases hparse
  · rw [List.nil_append] at hnot
    rw [hscan]
    exact .inr (.inr ⟨_, rfl, ⟨fit, fun scanned => absurd scanned hnot, fun spaced => absurd spaced.1 hnot⟩,
      fun spaced => hnot spaced.1.1⟩)

theorem parsesExactly_iff (s : Name) : ParsesExactly s ↔ Fits s := by
  unfold ParsesExactly
  rcases parse_spec s with ⟨hparse, hnot⟩ | ⟨spaced, hparse, fits, hspec⟩ | ⟨failure, hparse, fits, hspec⟩
  · rw [hparse]
    exact ⟨False.elim, hnot⟩
  · rw [hparse]
    exact ⟨fun _ => fits, fun _ => hspec⟩
  · rw [hparse]
    exact ⟨fun _ => fits, fun _ => hspec⟩

/-! ### Printing -/

/-- The spacers of the letters so far. -/
theorem or_mod_two_pow {spacers k : ℕ} (hbit : spacers.testBit k = true) :
    spacers % 2 ^ k ||| 1 <<< k = spacers % 2 ^ (k + 1) := by
  refine Nat.eq_of_testBit_eq fun i => ?_
  rw [Nat.testBit_or, Nat.testBit_mod_two_pow, Nat.one_shiftLeft, Nat.testBit_two_pow,
    Nat.testBit_mod_two_pow]
  by_cases hsame : k = i
  · rw [← hsame, hbit]
    simp
  · have hlt : i < k + 1 ↔ i < k := by omega
    simp [hsame, hlt]

theorem mod_two_pow_succ {spacers k : ℕ} (hbit : spacers.testBit k = false) :
    spacers % 2 ^ k = spacers % 2 ^ (k + 1) := by
  refine Nat.eq_of_testBit_eq fun i => ?_
  rw [Nat.testBit_mod_two_pow, Nat.testBit_mod_two_pow]
  by_cases hsame : i = k
  · rw [hsame, hbit]
    simp
  · have hlt : i < k + 1 ↔ i < k := by omega
    rw [decide_eq_decide.2 hlt]

/-- The loop reads printed letters and bullets back. -/
theorem scan_interleave {dune : Name} (hletters : ∀ c ∈ dune, isLetter c = true) (hshort : dune.length ≤ 32)
    (spacers : ℕ) (rest : Name) :
    scan [] 0 (interleave dune spacers ++ rest) = scan dune (spacers % 2 ^ dune.length) rest := by
  induction dune using List.reverseRecOn generalizing rest with
  | nil => rw [List.length_nil, pow_zero, Nat.mod_one]; rfl
  | append_singleton dune c ih =>
      rw [List.length_append, List.length_singleton] at hshort
      have hletter : isLetter c = true := hletters c (by simp)
      rw [interleave_append_singleton, List.append_assoc,
        ih (fun d hd => hletters d (List.mem_append_left _ hd)) (by omega), List.cons_append, scan,
        if_pos hletter, List.length_append, List.length_singleton]
      cases hbit : spacers.testBit dune.length with
      | false => rw [mod_two_pow_succ hbit]; rfl
      | true =>
          have hbullet : isLetter '•' = false := by decide
          have hspacer : isSpacer '•' = true := by decide
          have hclear : ¬ spacers % 2 ^ dune.length &&& 1 <<< dune.length ≠ 0 := by
            rw [and_shift_ne_zero, Nat.testBit_lt_two_pow (Nat.mod_lt _ (Nat.two_pow_pos _))]
            decide
          rw [if_pos rfl, List.singleton_append, scan, hbullet, hspacer, List.length_append,
            List.length_singleton, Nat.add_sub_cancel, if_neg (by decide), if_pos rfl, if_neg (by omega),
            if_neg (by omega), if_neg hclear, or_mod_two_pow hbit]

/-- A printed spaced dune is parsed as itself. -/
theorem parse_display {n spacers : ℕ} (hn : n ≤ maxU128)
    (hspacers : ∀ i, (Dune.display n).length - 1 ≤ i → spacers.testBit i = false) :
    parse (display { dune := n, spacers := spacers }) = some (.ok { dune := n, spacers := spacers }) := by
  have hname := isName_name n
  have hdisplay := display_eq_name n
  have hlength := length_name_le hn
  have hpos := List.length_pos_iff.2 hname.1
  rw [hdisplay] at hspacers
  have hsmall : spacers < 2 ^ ((name n).length - 1) := Nat.lt_pow_two_of_testBit _ hspacers
  have hmod : spacers % 2 ^ (name n).length = spacers :=
    Nat.mod_eq_of_lt (hsmall.trans_le (Nat.pow_le_pow_right (by decide) (Nat.sub_le _ _)))
  have hscan := scan_interleave hname.2 (by omega) spacers []
  rw [List.append_nil, hmod] at hscan
  have hsize := Nat.size_le.2 hsmall
  have hnumber := parse_of_isName hname (by rw [nameNumber_name]; exact hn)
  rw [nameNumber_name] at hnumber
  rw [display_eq_interleave hdisplay (hspacers _ le_rfl), parse, hscan, scan]
  dsimp only
  rw [if_neg (by omega), if_neg (by omega), hnumber]

/-- Spaced names are parsed and printed exactly, whenever the shifts and counts fit; and what is printed
is read back. -/
theorem spacedNames_exact (s : Name) :
    (ParsesExactly s ↔ Fits s) ∧
      ∀ n ≤ maxU128, ∀ spacers, (∀ i, (Dune.display n).length - 1 ≤ i → spacers.testBit i = false) →
        parse (display { dune := n, spacers := spacers }) = some (.ok { dune := n, spacers := spacers }) :=
  ⟨parsesExactly_iff s, fun _ hn _ hspacers => parse_display hn hspacers⟩

theorem spacedNames_exact_aa : display { dune := 26, spacers := 1 } = "A•A".toList ∧
    parse (display { dune := 26, spacers := 1 }) = some (.ok { dune := 26, spacers := 1 }) := by
  have hname : Dune.display 26 = "AA".toList := by decide +kernel
  refine ⟨by decide +kernel, (spacedNames_exact []).2 26 (by decide) 1 fun i hi => ?_⟩
  rw [hname] at hi
  exact Nat.testBit_lt_two_pow (Nat.one_lt_two_pow (by rintro rfl; exact absurd hi (by decide)))

/-- A spacer behind more than 32 letters is shifted out of the spacers. -/
theorem not_parsesExactly_long :
    parse (List.replicate 33 'A' ++ ['.']) = none ∧ ¬ ParsesExactly (List.replicate 33 'A' ++ ['.']) := by
  have hparse : parse (List.replicate 33 'A' ++ ['.']) = none := by decide
  refine ⟨hparse, fun hexact => ?_⟩
  unfold ParsesExactly at hexact
  rw [hparse] at hexact
  exact hexact

end SpacedDune

end OrdDogecoin.Dunes
