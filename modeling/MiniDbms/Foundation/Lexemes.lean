import Mathlib.Data.List.DropRight
import Mathlib.Data.List.TakeWhile
import Mathlib.Tactic.Common

/-! # Texts as sequences of tokens

A token may have several spellings, blanks may stand before each token and at the end of
the text, and what directly follows a token must not make it longer. A reader that skips
blanks reads a token exactly when the rest of the text begins with a spelling of it
(`MiniDbms.Foundation.Lexis.lexeme_iff`).
-/

namespace MiniDbms.Foundation

/-- How tokens are written. -/
structure Lexis (Symbol Token : Type) where
  blank : Symbol → Bool
  spelled : Token → List Symbol → Prop
  /-- The token ends where this text follows it. -/
  ends : Token → List Symbol → Prop

namespace Lexis

variable {Symbol Token : Type} (lexis : Lexis Symbol Token)

/-- The text is this token, after blanks, and the rest. -/
def Lexeme (token : Token) (text rest : List Symbol) : Prop :=
  ∃ blanks spelling, (∀ symbol ∈ blanks, lexis.blank symbol = true) ∧
    lexis.spelled token spelling ∧ lexis.ends token rest ∧ text = blanks ++ (spelling ++ rest)

/-- The text is these tokens and the rest. -/
def Lexemes : List Token → List Symbol → List Symbol → Prop
  | [], text, rest => text = rest
  | token :: tokens, text, rest =>
      ∃ middle, lexis.Lexeme token text middle ∧ Lexemes tokens middle rest

/-- The text is these tokens, with blanks before, between and after them. -/
def Spells (tokens : List Token) (text : List Symbol) : Prop :=
  ∃ rest, lexis.Lexemes tokens text rest ∧ ∀ symbol ∈ rest, lexis.blank symbol = true

variable {lexis} {token : Token} {tokens more : List Token} {text middle rest : List Symbol}

@[simp] theorem lexemes_nil : lexis.Lexemes [] text rest ↔ text = rest := Iff.rfl

@[simp] theorem lexemes_cons :
    lexis.Lexemes (token :: tokens) text rest ↔
      ∃ middle, lexis.Lexeme token text middle ∧ lexis.Lexemes tokens middle rest := Iff.rfl

/-- The lexemes of two lists of tokens, one behind the other. -/
theorem lexemes_append :
    lexis.Lexemes (tokens ++ more) text rest ↔
      ∃ middle, lexis.Lexemes tokens text middle ∧ lexis.Lexemes more middle rest := by
  induction tokens generalizing text with
  | nil => simp only [List.nil_append, lexemes_nil, exists_eq_left']
  | cons token tokens ih =>
      simp only [List.cons_append, lexemes_cons, ih]
      constructor
      · rintro ⟨first, lexeme, second, before, after⟩
        exact ⟨second, ⟨first, lexeme, before⟩, after⟩
      · rintro ⟨second, ⟨first, lexeme, before⟩, after⟩
        exact ⟨first, lexeme, second, before, after⟩

theorem Lexemes.append (before : lexis.Lexemes tokens text middle)
    (after : lexis.Lexemes more middle rest) : lexis.Lexemes (tokens ++ more) text rest :=
  lexemes_append.mpr ⟨middle, before, after⟩

/-- What is spelled by two lists of tokens. -/
theorem spells_append :
    lexis.Spells (tokens ++ more) text ↔
      ∃ middle, lexis.Lexemes tokens text middle ∧ lexis.Spells more middle := by
  simp only [Spells, lexemes_append]
  constructor
  · rintro ⟨rest, ⟨middle, before, after⟩, blank⟩
    exact ⟨middle, before, rest, after, blank⟩
  · rintro ⟨middle, before, rest, after, blank⟩
    exact ⟨rest, ⟨middle, before, after⟩, blank⟩

theorem Lexeme.suffix (lexeme : lexis.Lexeme token text rest) : rest <:+ text := by
  obtain ⟨blanks, spelling, _, _, _, rfl⟩ := lexeme
  exact ⟨blanks ++ spelling, List.append_assoc _ _ _⟩

theorem Lexemes.suffix (lexemes : lexis.Lexemes tokens text rest) : rest <:+ text := by
  induction tokens generalizing text with
  | nil => exact lexemes ▸ List.suffix_refl text
  | cons token tokens ih =>
      obtain ⟨middle, lexeme, others⟩ := lexemes
      exact (ih others).trans lexeme.suffix

/-- Every token of the text has been written. -/
theorem Spells.spelled (spells : lexis.Spells tokens text) (member : token ∈ tokens) :
    ∃ spelling, lexis.spelled token spelling := by
  obtain ⟨rest, lexemes, _⟩ := spells
  induction tokens generalizing text with
  | nil => exact absurd member List.not_mem_nil
  | cons first tokens ih =>
      obtain ⟨middle, ⟨_, spelling, _, spelled, _⟩, others⟩ := lexemes
      rcases List.mem_cons.mp member with rfl | later
      · exact ⟨spelling, spelled⟩
      · exact ih later others

/-- A token is read where blanks have been skipped. -/
theorem lexeme_iff (starts : ∀ spelling, lexis.spelled token spelling →
      ∃ symbol ∈ spelling.head?, lexis.blank symbol = false) :
    lexis.Lexeme token text rest ↔
      ∃ spelling, lexis.spelled token spelling ∧ lexis.ends token rest ∧
        text.dropWhile lexis.blank = spelling ++ rest := by
  constructor
  · rintro ⟨blanks, spelling, blank, spelled, ends, rfl⟩
    refine ⟨spelling, spelled, ends, ?_⟩
    obtain ⟨symbol, first, notBlank⟩ := starts spelling spelled
    obtain ⟨others, rfl⟩ := List.head?_eq_some_iff.mp first
    rw [List.dropWhile_append_of_pos blank, List.cons_append, List.dropWhile_cons_of_neg]
    rw [notBlank]
    exact Bool.false_ne_true
  · rintro ⟨spelling, spelled, ends, same⟩
    refine ⟨text.takeWhile lexis.blank, spelling, fun _ => List.mem_takeWhile_imp, spelled,
      ends, ?_⟩
    rw [← same, List.takeWhile_append_dropWhile]

/-- Skipping blanks first makes no difference. -/
theorem lexeme_dropWhile (starts : ∀ spelling, lexis.spelled token spelling →
      ∃ symbol ∈ spelling.head?, lexis.blank symbol = false) :
    lexis.Lexeme token (text.dropWhile lexis.blank) rest ↔ lexis.Lexeme token text rest := by
  rw [lexeme_iff starts, lexeme_iff starts, List.dropWhile_idempotent]

section Trailing

variable (endsBlank : ∀ token (rest blanks : List Symbol),
    (∀ symbol ∈ blanks, lexis.blank symbol = true) →
      (lexis.ends token (rest ++ blanks) ↔ lexis.ends token rest))
  {tail : List Symbol} (blankTail : ∀ symbol ∈ tail, lexis.blank symbol = true)

include endsBlank blankTail in
/-- A blank tail does not matter for a lexeme. -/
theorem lexeme_append_blank :
    lexis.Lexeme token (text ++ tail) (rest ++ tail) ↔ lexis.Lexeme token text rest := by
  constructor
  · rintro ⟨blanks, spelling, skipped, spelled, ends, split⟩
    refine ⟨blanks, spelling, skipped, spelled, (endsBlank _ _ _ blankTail).mp ends, ?_⟩
    apply (List.append_left_inj tail).mp
    rw [split, List.append_assoc, List.append_assoc]
  · rintro ⟨blanks, spelling, skipped, spelled, ends, rfl⟩
    refine ⟨blanks, spelling, skipped, spelled, (endsBlank _ _ _ blankTail).mpr ends, ?_⟩
    rw [List.append_assoc, List.append_assoc]

include endsBlank blankTail in
/-- Nor does it for several. -/
theorem lexemes_append_blank :
    lexis.Lexemes tokens (text ++ tail) (rest ++ tail) ↔ lexis.Lexemes tokens text rest := by
  induction tokens generalizing text with
  | nil => exact List.append_left_inj tail
  | cons token tokens ih =>
      constructor
      · rintro ⟨middle, lexeme, others⟩
        obtain ⟨front, rfl⟩ := others.suffix
        rw [← List.append_assoc] at lexeme others
        exact ⟨front ++ rest, (lexeme_append_blank endsBlank blankTail).mp lexeme, ih.mp others⟩
      · rintro ⟨middle, lexeme, others⟩
        exact ⟨middle ++ tail, (lexeme_append_blank endsBlank blankTail).mpr lexeme, ih.mpr others⟩

/-- Tokens do not end in blanks. -/
theorem lexemes_last (present : tokens ≠ [])
    (solid : ∀ token ∈ tokens, ∀ spelling, lexis.spelled token spelling →
      ∃ front last, spelling = front ++ [last] ∧ lexis.blank last = false)
    (lexemes : lexis.Lexemes tokens text rest) :
    ∃ front last, text = front ++ last :: rest ∧ lexis.blank last = false := by
  induction tokens generalizing text with
  | nil => exact absurd rfl present
  | cons token tokens ih =>
      obtain ⟨middle, ⟨blanks, spelling, skipped, spelled, ends, rfl⟩, others⟩ := lexemes
      by_cases more : tokens = []
      · subst more
        obtain rfl : middle = rest := others
        obtain ⟨front, last, rfl, solid⟩ := solid token List.mem_cons_self spelling spelled
        refine ⟨blanks ++ front, last, ?_, solid⟩
        simp only [List.append_assoc, List.singleton_append]
      · obtain ⟨front, last, rfl, solid⟩ := ih more
          (fun other member => solid other (List.mem_cons_of_mem _ member)) others
        refine ⟨blanks ++ (spelling ++ front), last, ?_, solid⟩
        simp only [List.append_assoc]

include endsBlank blankTail in
/-- Blanks behind a text make no difference. -/
theorem spells_append_blank
    (solid : ∀ token ∈ tokens, ∀ spelling, lexis.spelled token spelling →
      ∃ front last, spelling = front ++ [last] ∧ lexis.blank last = false) :
    lexis.Spells tokens (text ++ tail) ↔ lexis.Spells tokens text := by
  constructor
  · rintro ⟨rest, lexemes, blank⟩
    by_cases nothing : tokens = []
    · subst nothing
      obtain rfl : text ++ tail = rest := lexemes
      exact ⟨text, rfl, fun symbol member => blank symbol (List.mem_append_left _ member)⟩
    · -- The last token ends before the tail begins.
      obtain ⟨front, last, split, notBlank⟩ := lexemes_last nothing solid lexemes
      rw [List.append_cons] at split
      have reaches : ∃ between, rest = between ++ tail := by
        rcases List.append_eq_append_iff.mp split with
          ⟨between, before, after⟩ | ⟨between, before, after⟩
        · rcases List.eq_nil_or_concat' between with rfl | ⟨inner, final, rfl⟩
          · exact ⟨[], after.symm⟩
          · rw [← List.append_assoc] at before
            obtain ⟨_, same⟩ := List.append_inj' before rfl
            have inside : last ∈ tail := by
              rw [after, List.singleton_inj.mp same]
              exact List.mem_append_left _ (List.mem_append_right _ List.mem_cons_self)
            rw [blankTail last inside] at notBlank
            cases notBlank
        · exact ⟨between, after⟩
      obtain ⟨between, rfl⟩ := reaches
      refine ⟨between, (lexemes_append_blank endsBlank blankTail).mp lexemes, ?_⟩
      exact fun symbol member => blank symbol (List.mem_append_left _ member)
  · rintro ⟨rest, lexemes, blank⟩
    refine ⟨rest ++ tail, (lexemes_append_blank endsBlank blankTail).mpr lexemes, ?_⟩
    intro symbol member
    rcases List.mem_append.mp member with before | after
    · exact blank symbol before
    · exact blankTail symbol after

end Trailing

end Lexis

end MiniDbms.Foundation
