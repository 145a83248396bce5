/-
Module: OrdDogecoin.Lib.PrefixCode
Purpose: Codes whose words can be cancelled from the front of a text.  A list of words, separated and
  closed by symbols that end a word, is such a code again.
Trusted boundary: none
Main exports: PrefixCode.Cancels, PrefixCode.splitOnce, PrefixCode.rsplitOnce
-/
import Mathlib.Data.List.Basic
import Mathlib.Data.List.Forall2

namespace PrefixCode

variable {α γ χ : Type}

/-- A word for `item` at the front of a text determines the item, up to `norm`, and the rest of the text,
as long as what follows the word ends it. -/
def Cancels (Codes : α → List χ → Prop) (norm : α → γ) (Ends : List χ → Prop) (item : α) : Prop :=
  ∀ ⦃other : α⦄ ⦃word word' rest rest' : List χ⦄, Codes item word → Codes other word' → Ends rest →
    Ends rest' → word ++ rest = word' ++ rest' → norm item = norm other ∧ rest = rest'

theorem exists_word {Codes : α → List χ → Prop} {items : List α} {words : List (List χ)}
    (hwords : List.Forall₂ Codes items words) : ∀ item ∈ items, ∃ word, Codes item word := by
  induction hwords with
  | nil => simp
  | cons hword _ ih => exact List.forall_mem_cons.2 ⟨⟨_, hword⟩, ih⟩

/-- Two codes that agree on the items of a list agree on its words. -/
theorem forall₂_congr {Codes Codes' : α → List χ → Prop} {items : List α}
    (hcodes : ∀ item ∈ items, ∀ word, Codes item word ↔ Codes' item word) {words : List (List χ)} :
    List.Forall₂ Codes items words ↔ List.Forall₂ Codes' items words := by
  induction items generalizing words with
  | nil => simp
  | cons item items ih =>
      obtain ⟨hitem, hitems⟩ := List.forall_mem_cons.1 hcodes
      simp only [List.forall₂_cons_left_iff, hitem, ih hitems]

/-- What follows the first word of a list of words. -/
def afterWord (sep close : χ) (words : List (List χ)) (rest : List χ) : List χ :=
  match words with
  | [] => close :: rest
  | word :: words => sep :: (List.intercalate [sep] (word :: words) ++ close :: rest)

theorem intercalate_cons_append (sep close : χ) (word : List χ) (words : List (List χ))
    (rest : List χ) :
    List.intercalate [sep] (word :: words) ++ close :: rest =
      word ++ afterWord sep close words rest := by
  cases words with
  | nil => simp [afterWord]
  | cons next words => simp [afterWord]

section Lists

variable {Codes : α → List χ → Prop} {norm : α → γ} {Ends : List χ → Prop} {sep close : χ}

theorem ends_afterWord (hsep : ∀ rest, Ends (sep :: rest)) (hclose : ∀ rest, Ends (close :: rest))
    (words : List (List χ)) (rest : List χ) : Ends (afterWord sep close words rest) := by
  cases words with
  | nil => exact hclose rest
  | cons word words => exact hsep _

/-- A list that is closed at once is not taken for one with a word. -/
theorem not_closed (hhead : ∀ item word, Codes item word → ∃ first tail, word = first :: tail ∧
      first ≠ close) {item : α} {word : List χ} (hword : Codes item word) (words : List (List χ))
    (rest rest' : List χ) : List.intercalate [sep] (word :: words) ++ close :: rest ≠ close :: rest' := by
  obtain ⟨first, tail, rfl, hfirst⟩ := hhead item word hword
  rw [intercalate_cons_append, List.cons_append]
  intro hsame
  exact hfirst (List.cons.inj hsame).1

/-- A closed list of words determines its items and the rest of the text. -/
theorem cancel_intercalate (hsep : ∀ rest, Ends (sep :: rest)) (hclose : ∀ rest, Ends (close :: rest))
    (hne : sep ≠ close)
    (hhead : ∀ item word, Codes item word → ∃ first tail, word = first :: tail ∧ first ≠ close)
    {items items' : List α} {words words' : List (List χ)} {rest rest' : List χ}
    (hitems : ∀ item ∈ items, Cancels Codes norm Ends item)
    (hwords : List.Forall₂ Codes items words) (hwords' : List.Forall₂ Codes items' words')
    (hsame : List.intercalate [sep] words ++ close :: rest =
      List.intercalate [sep] words' ++ close :: rest') :
    items.map norm = items'.map norm ∧ rest = rest' := by
  induction hwords generalizing items' words' with
  | nil =>
      cases hwords' with
      | nil => simpa using hsame
      | cons hword' _ => exact absurd hsame.symm (not_closed hhead hword' _ _ _)
  | cons hword hwords ih =>
      cases hwords' with
      | nil => exact absurd hsame (not_closed hhead hword _ _ _)
      | cons hword' hwords' =>
          rw [intercalate_cons_append, intercalate_cons_append] at hsame
          obtain ⟨hitem, hafter⟩ := hitems _ (List.mem_cons_self ..) hword hword'
            (ends_afterWord hsep hclose _ _) (ends_afterWord hsep hclose _ _) hsame
          have hitems := fun item hmem => hitems item (List.mem_cons_of_mem _ hmem)
          cases hwords with
          | nil =>
              cases hwords' with
              | nil =>
                  obtain rfl : rest = rest' := (List.cons.inj hafter).2
                  exact ⟨by simp [hitem], rfl⟩
              | cons _ _ => exact absurd (List.cons.inj hafter).1.symm hne
          | cons hnext hwords =>
              cases hwords' with
              | nil => exact absurd (List.cons.inj hafter).1 hne
              | cons hnext' hwords' =>
                  obtain ⟨htail, rfl⟩ := ih hitems (.cons hnext' hwords') (List.cons.inj hafter).2
                  exact ⟨by rw [List.map_cons, hitem, htail, ← List.map_cons], rfl⟩

end Lists

/-! ### Words that may hold the separator -/

section Separators

variable {sep : χ} {word word' rest rest' : List χ}

/-- Two ways to cut a text at a separator: they are the same, or one word starts with the other and a
separator. -/
theorem separated_cases (heq : word ++ sep :: rest = word' ++ sep :: rest') :
    (word = word' ∧ rest = rest') ∨
      (∃ more, word' = word ++ sep :: more ∧ rest = more ++ sep :: rest') ∨
      ∃ more, word = word' ++ sep :: more ∧ rest' = more ++ sep :: rest := by
  obtain ⟨tail, hword, hrest⟩ | ⟨tail, hword, hrest⟩ := List.append_eq_append_iff.1 heq
  · cases tail with
    | nil =>
        rw [List.append_nil] at hword
        exact .inl ⟨hword.symm, (List.cons.inj hrest).2⟩
    | cons symbol more =>
        obtain ⟨rfl, hmore⟩ := List.cons.inj hrest
        exact .inr (.inl ⟨more, hword, hmore⟩)
  · cases tail with
    | nil =>
        rw [List.append_nil] at hword
        exact .inl ⟨hword, (List.cons.inj hrest).2.symm⟩
    | cons symbol more =>
        obtain ⟨rfl, hmore⟩ := List.cons.inj hrest
        exact .inr (.inr ⟨more, hword, hmore⟩)

/-- Words with equally many separators are cut in one way. -/
theorem separated_inj [DecidableEq χ] (hcount : word.count sep = word'.count sep)
    (heq : word ++ sep :: rest = word' ++ sep :: rest') : word = word' ∧ rest = rest' := by
  obtain hsame | ⟨more, rfl, -⟩ | ⟨more, rfl, -⟩ := separated_cases heq
  · exact hsame
  · simp at hcount
  · simp at hcount

/-- Words without separators are cut in one way. -/
theorem separated_inj_of_not_mem (hword : sep ∉ word) (hword' : sep ∉ word')
    (heq : word ++ sep :: rest = word' ++ sep :: rest') : word = word' ∧ rest = rest' := by
  obtain hsame | ⟨more, rfl, -⟩ | ⟨more, rfl, -⟩ := separated_cases heq
  · exact hsame
  · simp at hword'
  · simp at hword

/-- Last words without separators are cut off in one way. -/
theorem separated_inj_of_rest_not_mem (hrest : sep ∉ rest) (hrest' : sep ∉ rest')
    (heq : word ++ sep :: rest = word' ++ sep :: rest') : word = word' ∧ rest = rest' := by
  obtain hsame | ⟨more, -, rfl⟩ | ⟨more, -, rfl⟩ := separated_cases heq
  · exact hsame
  · simp at hrest
  · simp at hrest'

end Separators

/-! ### Cutting at a separator -/

section Splits

variable [DecidableEq χ] {sep : χ}

/-- The parts before and after the first separator. -/
def splitOnce (sep : χ) : List χ → Option (List χ × List χ)
  | [] => none
  | c :: text =>
      if c = sep then some ([], text)
      else (splitOnce sep text).map fun parts => (c :: parts.1, parts.2)

/-- The parts before and after the last separator. -/
def rsplitOnce (sep : χ) (text : List χ) : Option (List χ × List χ) :=
  (splitOnce sep text.reverse).map fun parts => (parts.2.reverse, parts.1.reverse)

theorem splitOnce_append {word : List χ} (hword : sep ∉ word) (rest : List χ) :
    splitOnce sep (word ++ sep :: rest) = some (word, rest) := by
  induction word with
  | nil => simp [splitOnce]
  | cons c word ih =>
      obtain ⟨hc, hword⟩ := not_or.1 (mt List.mem_cons.2 hword)
      rw [List.cons_append, splitOnce, if_neg (Ne.symm hc), ih hword, Option.map_some]

theorem rsplitOnce_append (word : List χ) {rest : List χ} (hrest : sep ∉ rest) :
    rsplitOnce sep (word ++ sep :: rest) = some (word, rest) := by
  have hreverse : (word ++ sep :: rest).reverse = rest.reverse ++ sep :: word.reverse := by simp
  rw [rsplitOnce, hreverse, splitOnce_append (by simpa using hrest)]
  simp

end Splits

end PrefixCode
