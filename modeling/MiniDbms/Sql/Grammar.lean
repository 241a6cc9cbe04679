import Mathlib.Data.List.Nodup
import Mathlib.Data.List.Perm.Subperm
import MiniDbms.Sql.Tokens

/-! # The grammar of `sql_parse`

The statements that the parser accepts, as sequences of tokens, and what they denote.
`sql_parse` returns a statement exactly when the text spells one of these sequences, and
then it is the statement that the sequence denotes (`MiniDbms.Sql.sqlParse_eq_ok_iff`).
-/

namespace MiniDbms.Sql

open Foundation Db

/-- How a column is called. -/
def SqlColumn.word : SqlColumn → Keyword
  | .id => .id
  | .name => .name
  | .age => .age

/-- What a select shows: everything, or one to three different columns. -/
inductive ColumnList where
  | all
  | columns (first : SqlColumn) (others : List SqlColumn) (distinct : (first :: others).Nodup)

/-- The columns after the first. -/
def furtherColumns (columns : List SqlColumn) : List Token :=
  columns.flatMap fun column => [.symbol comma, .word column.word]

def ColumnList.tokens : ColumnList → List Token
  | .all => [.symbol 42]
  | .columns first others _ => .word first.word :: furtherColumns others

inductive Condition where
  | none
  | id (value : Int32)
  | name (value : Name)

def Condition.tokens : Condition → List Token
  | .none => []
  | .id value => [.word .where, .word .id, .symbol 61, .number value]
  | .name value => [.word .where, .word .name, .symbol 61, .literal value]

/-- The statements. -/
inductive Form where
  | insertValues (id : Int32) (name : Name) (age : Int32) (positive : 0 < id)
  | insertColumns (name : Name) (age : Int32)
  | select (shown : ColumnList) (condition : Condition)

/-- `(id, name, age)`. -/
def valuesTokens (id : Int32) (name : Name) (age : Int32) : List Token :=
  [.symbol 40, .number id, .symbol comma, .literal name, .symbol comma, .number age, .symbol 41]

/-- `INSERT INTO users`. -/
def insertWords : List Token :=
  [.word .insert, .word .into, .word .users]

/-- `name age VALUES name age`. -/
def columnsTokens (name : Name) (age : Int32) : List Token :=
  [.word .name, .word .age, .word .values, .literal name, .number age]

def Form.tokens : Form → List Token
  | .insertValues id name age _ =>
      insertWords ++ .word .values :: valuesTokens id name age
  | .insertColumns name age => insertWords ++ columnsTokens name age
  | .select shown condition =>
      .word .select :: (shown.tokens ++
        (.word .from :: .word .users :: condition.tokens))

def ColumnList.apply (stmt : SqlStatement) : ColumnList → SqlStatement
  | .all => { stmt with selectAll := true, selectColumns := [] }
  | .columns first others _ => { stmt with selectAll := false, selectColumns := first :: others }

def Condition.apply (stmt : SqlStatement) : Condition → SqlStatement
  | .none => stmt
  | .id value => { stmt with whereType := .id, whereId := value }
  | .name value => { stmt with whereType := .name, whereName := value }

def Form.statement : Form → SqlStatement
  | .insertValues id name age _ =>
      { zeroStatement with
        type := .insert, table := usersTable, insertHasId := true, insertId := id,
        insertName := name, insertAge := age }
  | .insertColumns name age =>
      { zeroStatement with
        type := .insert, table := usersTable, insertHasId := false, insertName := name,
        insertAge := age }
  | .select shown condition =>
      condition.apply { shown.apply zeroStatement with
        type := .select, table := usersTable, whereType := .none }

section Steps

variable {α β : Type} {found : Option α} {message : List UInt8} {text rest : List UInt8}

/-- A parser that goes on has read both parts. -/
theorem bind_eq_ok_iff {attempt : Except (List UInt8) α} {next : α → Except (List UInt8) β}
    {b : β} : (attempt >>= next) = .ok b ↔ ∃ a, attempt = .ok a ∧ next a = .ok b := by
  cases attempt with
  | error message =>
      constructor
      · intro impossible
        cases impossible
      · rintro ⟨_, impossible, _⟩
        cases impossible
  | ok a =>
      constructor
      · exact fun result => ⟨a, rfl, result⟩
      · rintro ⟨_, ⟨⟩, result⟩
        exact result

/-- What was expected is what was found. -/
theorem expected_eq_ok_iff {a : α} : expected found message = .ok a ↔ found = some a := by
  cases found with
  | none => exact iff_of_false nofun nofun
  | some b => exact Except.ok.injEq b a ▸ Option.some.injEq b a ▸ Iff.rfl

/-- A step that must succeed. -/
theorem expected_bind_iff {next : α → Except (List UInt8) β} {b : β} :
    (expected found message >>= next) = .ok b ↔ ∃ a, found = some a ∧ next a = .ok b := by
  simp only [bind_eq_ok_iff, expected_eq_ok_iff]

/-- The last check of a statement. -/
theorem finish_eq_ok_iff {stmt result : SqlStatement} :
    (if atStatementEnd text then (return stmt : Except (List UInt8) SqlStatement)
      else throw message) = .ok result ↔
      (∃ terminated, sqlLexis.Spells (terminator terminated) text) ∧ result = stmt := by
  rw [← atStatementEnd_iff]
  by_cases atEnd : atStatementEnd text = true
  · rw [if_pos atEnd]
    constructor
    · rintro ⟨⟩
      exact ⟨atEnd, rfl⟩
    · rintro ⟨_, rfl⟩
      rfl
  · rw [if_neg atEnd]
    exact iff_of_false nofun fun both => atEnd both.1

/-- The table is the word `users`. -/
theorem parseTable_eq_ok_iff :
    parseTable text = .ok rest ↔ sqlLexis.Lexeme (.word .users) text rest := by
  rw [parseTable, expected_bind_iff, ← readWord_keyword_iff (Nat.le_refl 31)]
  constructor
  · rintro ⟨⟨word, after⟩, read, same⟩
    cases same
    obtain ⟨read, isName⟩ := Option.filter_eq_some_iff.mp read
    exact ⟨word, read, isName⟩
  · rintro ⟨word, read, isName⟩
    exact ⟨(word, rest), Option.filter_eq_some_iff.mpr ⟨read, isName⟩, rfl⟩

end Steps

section Inserts

variable {stmt result : SqlStatement} {text rest : List UInt8}

/-- The statement that `parse_insert_values_with_id` leaves. -/
def withValues (stmt : SqlStatement) (id : Int32) (name : Name) (age : Int32) : SqlStatement :=
  { stmt with insertHasId := true, insertId := id, insertName := name, insertAge := age }

/-- Three values at the end of the statement are parsed. -/
theorem parseInsertValuesWithId_of_lexemes {id : Int32} {name : Name} {age : Int32}
    (positive : 0 < id) (values : sqlLexis.Lexemes (valuesTokens id name age) text rest)
    (atEnd : ∃ terminated, sqlLexis.Spells (terminator terminated) rest) :
    parseInsertValuesWithId stmt text = .ok (withValues stmt id name age) := by
  obtain ⟨_, opening, _, idToken, _, comma₁, _, nameToken, _, comma₂, _, ageToken, _, closing,
    rfl⟩ := values
  refine expected_bind_iff.mpr ⟨_, (expectSymbol_eq_some_iff rfl).mpr opening, ?_⟩
  refine expected_bind_iff.mpr ⟨_, Option.filter_eq_some_iff.mpr
    ⟨parseIntValue_eq_some_iff.mpr idToken, decide_eq_true positive⟩, ?_⟩
  refine expected_bind_iff.mpr ⟨_, (expectSymbol_eq_some_iff rfl).mpr comma₁, ?_⟩
  refine expected_bind_iff.mpr ⟨_, parseStringLiteral_of_lexeme nameToken, ?_⟩
  refine expected_bind_iff.mpr ⟨_, (expectSymbol_eq_some_iff rfl).mpr comma₂, ?_⟩
  refine expected_bind_iff.mpr ⟨_, parseIntValue_eq_some_iff.mpr ageToken, ?_⟩
  refine expected_bind_iff.mpr ⟨_, (expectSymbol_eq_some_iff rfl).mpr closing, ?_⟩
  exact finish_eq_ok_iff.mpr ⟨atEnd, rfl⟩

/-- What is parsed as three values is spelled by them. -/
theorem lexemes_of_parseInsertValuesWithId (noNul : 0 ∉ text)
    (parsed : parseInsertValuesWithId stmt text = .ok result) :
    ∃ id name age terminated, 0 < id ∧ result = withValues stmt id name age ∧
      sqlLexis.Spells (valuesTokens id name age ++ terminator terminated) text := by
  obtain ⟨text₁, opening, parsed⟩ := expected_bind_iff.mp parsed
  obtain ⟨⟨id, text₂⟩, idRead, parsed⟩ := expected_bind_iff.mp parsed
  obtain ⟨text₃, comma₁, parsed⟩ := expected_bind_iff.mp parsed
  obtain ⟨⟨name, text₄⟩, nameRead, parsed⟩ := expected_bind_iff.mp parsed
  obtain ⟨text₅, comma₂, parsed⟩ := expected_bind_iff.mp parsed
  obtain ⟨⟨age, text₆⟩, ageRead, parsed⟩ := expected_bind_iff.mp parsed
  obtain ⟨text₇, closing, parsed⟩ := expected_bind_iff.mp parsed
  obtain ⟨⟨terminated, atEnd⟩, rfl⟩ := finish_eq_ok_iff.mp parsed
  obtain ⟨idRead, positive⟩ := Option.filter_eq_some_iff.mp idRead
  have openingToken := (expectSymbol_eq_some_iff rfl).mp opening
  have idToken := parseIntValue_eq_some_iff.mp idRead
  have commaToken := (expectSymbol_eq_some_iff rfl).mp comma₁
  have inside : text₃ <:+ text :=
    commaToken.suffix.trans (idToken.suffix.trans openingToken.suffix)
  have nameToken := lexeme_of_parseStringLiteral (fun member => noNul (inside.subset member))
    nameRead
  refine ⟨id, name, age, terminated, of_decide_eq_true positive, rfl, Lexis.spells_append.mpr
    ⟨text₇, ?_, atEnd⟩⟩
  exact ⟨_, openingToken, _, idToken, _, commaToken, _, nameToken, _,
    (expectSymbol_eq_some_iff rfl).mp comma₂, _, parseIntValue_eq_some_iff.mp ageRead, _,
    (expectSymbol_eq_some_iff rfl).mp closing, rfl⟩

/-- The columns that may be named are `name` and `age`. -/
theorem readInsertColumns_eq_some_iff :
    readInsertColumns text = some rest ↔
      sqlLexis.Lexemes [.word .name, .word .age] text rest := by
  simp only [Lexis.lexemes_cons, Lexis.lexemes_nil, exists_eq_right,
    ← readWord_keyword_iff (Nat.le_refl 31)]
  constructor
  · intro read
    obtain ⟨⟨first, middle⟩, readFirst, read⟩ := Option.bind_eq_some_iff.mp read
    obtain ⟨⟨second, after⟩, readSecond, read⟩ := Option.bind_eq_some_iff.mp read
    dsimp only at read
    split at read
    · next both =>
        cases read
        obtain ⟨isName, isAge⟩ := Bool.and_eq_true_iff.mp both
        exact ⟨middle, ⟨first, readFirst, isName⟩, second, readSecond, isAge⟩
    · cases read
  · rintro ⟨middle, ⟨first, readFirst, isName⟩, second, readSecond, isAge⟩
    refine Option.bind_eq_some_iff.mpr ⟨(first, middle), readFirst, ?_⟩
    refine Option.bind_eq_some_iff.mpr ⟨(second, rest), readSecond, ?_⟩
    exact if_pos (Bool.and_eq_true_iff.mpr ⟨isName, isAge⟩)

/-- The statement that the insert without an id leaves. -/
def withColumns (stmt : SqlStatement) (name : Name) (age : Int32) : SqlStatement :=
  { stmt with insertName := name, insertAge := age, insertHasId := false }

/-- Two values behind these columns are parsed. -/
theorem parseInsertColumns_of_lexemes {name : Name} {age : Int32}
    (columns : sqlLexis.Lexemes (columnsTokens name age) text rest)
    (atEnd : ∃ terminated, sqlLexis.Spells (terminator terminated) rest) :
    parseInsertColumns stmt text = .ok (withColumns stmt name age) := by
  obtain ⟨_, first, _, second, _, values, _, nameToken, _, ageToken, rfl⟩ := columns
  refine expected_bind_iff.mpr ⟨_, readInsertColumns_eq_some_iff.mpr ⟨_, first, _, second, rfl⟩, ?_⟩
  refine expected_bind_iff.mpr ⟨_, (expectKeyword_eq_some_iff .values).mpr values, ?_⟩
  refine expected_bind_iff.mpr ⟨_, parseStringLiteral_of_lexeme nameToken, ?_⟩
  refine expected_bind_iff.mpr ⟨_, parseIntValue_eq_some_iff.mpr ageToken, ?_⟩
  exact finish_eq_ok_iff.mpr ⟨atEnd, rfl⟩

/-- What is parsed so is spelled by the columns and two values. -/
theorem lexemes_of_parseInsertColumns (noNul : 0 ∉ text)
    (parsed : parseInsertColumns stmt text = .ok result) :
    ∃ name age terminated, result = withColumns stmt name age ∧
      sqlLexis.Spells (columnsTokens name age ++ terminator terminated) text := by
  obtain ⟨text₁, columns, parsed⟩ := expected_bind_iff.mp parsed
  obtain ⟨text₂, values, parsed⟩ := expected_bind_iff.mp parsed
  obtain ⟨⟨name, text₃⟩, nameRead, parsed⟩ := expected_bind_iff.mp parsed
  obtain ⟨⟨age, text₄⟩, ageRead, parsed⟩ := expected_bind_iff.mp parsed
  obtain ⟨⟨terminated, atEnd⟩, rfl⟩ := finish_eq_ok_iff.mp parsed
  have words := readInsertColumns_eq_some_iff.mp columns
  have valuesToken := (expectKeyword_eq_some_iff .values).mp values
  have inside : text₂ <:+ text := valuesToken.suffix.trans words.suffix
  have nameToken := lexeme_of_parseStringLiteral (fun member => noNul (inside.subset member))
    nameRead
  obtain ⟨_, first, _, second, rfl⟩ := words
  refine ⟨name, age, terminated, rfl, Lexis.spells_append.mpr ⟨text₄, ?_, atEnd⟩⟩
  exact ⟨_, first, _, second, _, valuesToken, _, nameToken, _,
    parseIntValue_eq_some_iff.mp ageRead, rfl⟩

/-- The first word tells the two forms apart. -/
theorem parseInsertForms_of_columns {middle : List UInt8}
    (first : sqlLexis.Lexeme (.word .name) text middle) :
    parseInsertForms stmt text = parseInsertColumns stmt text := by
  have absent : expectKeyword (ascii "VALUES") text = none := by
    rw [Option.eq_none_iff_forall_ne_some]
    intro after values
    cases word_unique first ((expectKeyword_eq_some_iff .values).mp values)
  rw [parseInsertForms, absent]

/-- An insertion begins with its words. -/
theorem parseInsert_of_lexemes {form : SqlStatement} {after : List UInt8}
    (words : sqlLexis.Lexemes insertWords text after)
    (parsed : parseInsertForms stmt after = .ok form) :
    parseInsert text stmt = .ok { form with type := .insert, table := usersTable } := by
  obtain ⟨middle, insert, rest, into, _, table, rfl⟩ := words
  refine expected_bind_iff.mpr ⟨rest, Option.bind_eq_some_iff.mpr ⟨middle, ?_, ?_⟩, ?_⟩
  · exact (expectKeyword_eq_some_iff .insert).mpr insert
  · exact (expectKeyword_eq_some_iff .into).mpr into
  · refine bind_eq_ok_iff.mpr ⟨_, parseTable_eq_ok_iff.mpr table, ?_⟩
    exact bind_eq_ok_iff.mpr ⟨form, parsed, rfl⟩

/-- What is parsed as an insertion begins with its words. -/
theorem lexemes_of_parseInsert (parsed : parseInsert text stmt = .ok result) :
    ∃ after form, sqlLexis.Lexemes insertWords text after ∧
      parseInsertForms stmt after = .ok form ∧
      result = { form with type := .insert, table := usersTable } := by
  obtain ⟨rest, words, parsed⟩ := expected_bind_iff.mp parsed
  obtain ⟨middle, insert, into⟩ := Option.bind_eq_some_iff.mp words
  obtain ⟨after, table, parsed⟩ := bind_eq_ok_iff.mp parsed
  obtain ⟨form, parsed, same⟩ := bind_eq_ok_iff.mp parsed
  refine ⟨after, form, ⟨middle, ?_, rest, ?_, after, parseTable_eq_ok_iff.mp table, rfl⟩, parsed,
    (Except.ok.inj same).symm⟩
  · exact (expectKeyword_eq_some_iff .insert).mp insert
  · exact (expectKeyword_eq_some_iff .into).mp into

/-- An insertion of three values is parsed as what it states. -/
theorem parseInsert_of_values {id : Int32} {name : Name} {age : Int32} (positive : 0 < id)
    {terminated : Bool}
    (spells : sqlLexis.Spells
      ((Form.insertValues id name age positive).tokens ++ terminator terminated) text) :
    parseInsert text zeroStatement = .ok (Form.insertValues id name age positive).statement := by
  obtain ⟨rest, lexemes, atEnd⟩ := Lexis.spells_append.mp spells
  obtain ⟨after, words, middle, values, tokens⟩ := Lexis.lexemes_append.mp lexemes
  have parsed : parseInsertForms zeroStatement after =
      .ok (withValues zeroStatement id name age) := by
    have found : expectKeyword (ascii "VALUES") after = some middle :=
      (expectKeyword_eq_some_iff .values).mpr values
    rw [parseInsertForms, found]
    exact parseInsertValuesWithId_of_lexemes positive tokens ⟨terminated, atEnd⟩
  exact parseInsert_of_lexemes words parsed

/-- So is one of two values. -/
theorem parseInsert_of_columns {name : Name} {age : Int32} {terminated : Bool}
    (spells : sqlLexis.Spells
      ((Form.insertColumns name age).tokens ++ terminator terminated) text) :
    parseInsert text zeroStatement = .ok (Form.insertColumns name age).statement := by
  obtain ⟨rest, lexemes, atEnd⟩ := Lexis.spells_append.mp spells
  obtain ⟨after, words, tokens⟩ := Lexis.lexemes_append.mp lexemes
  obtain ⟨_, first, _⟩ := Lexis.lexemes_cons.mp tokens
  have parsed : parseInsertForms zeroStatement after =
      .ok (withColumns zeroStatement name age) := by
    rw [parseInsertForms_of_columns first]
    exact parseInsertColumns_of_lexemes tokens ⟨terminated, atEnd⟩
  exact parseInsert_of_lexemes words parsed

/-- **Parsed inserts** are spelled by the text. -/
theorem spells_of_parseInsert (noNul : 0 ∉ text)
    (parsed : parseInsert text zeroStatement = .ok result) :
    ∃ form terminated, sqlLexis.Spells (Form.tokens form ++ terminator terminated) text ∧
      form.statement = result := by
  obtain ⟨after, form, words, formed, rfl⟩ := lexemes_of_parseInsert parsed
  have clean : 0 ∉ after := fun member => noNul (words.suffix.subset member)
  unfold parseInsertForms at formed
  split at formed
  · next rest values =>
      have valuesToken := (expectKeyword_eq_some_iff .values).mp values
      obtain ⟨id, name, age, terminated, positive, rfl, spells⟩ :=
        lexemes_of_parseInsertValuesWithId
          (fun member => clean (valuesToken.suffix.subset member)) formed
      obtain ⟨last, tokens, atEnd⟩ := Lexis.spells_append.mp spells
      refine ⟨.insertValues id name age positive, terminated, Lexis.spells_append.mpr
        ⟨last, words.append ⟨rest, valuesToken, tokens⟩, atEnd⟩, rfl⟩
  · obtain ⟨name, age, terminated, rfl, spells⟩ := lexemes_of_parseInsertColumns clean formed
    obtain ⟨last, tokens, atEnd⟩ := Lexis.spells_append.mp spells
    exact ⟨.insertColumns name age, terminated,
      Lexis.spells_append.mpr ⟨last, words.append tokens, atEnd⟩, rfl⟩

end Inserts

section Selects

variable {stmt result : SqlStatement} {text rest : List UInt8}

/-- A column is its word. -/
theorem parseColumnName_eq_some_iff {column : SqlColumn} :
    parseColumnName text = some (column, rest) ↔
      sqlLexis.Lexeme (.word column.word) text rest := by
  rw [← readWord_keyword_iff (Nat.le_refl 31)]
  constructor
  · intro read
    obtain ⟨⟨word, middle⟩, readWord, named⟩ := Option.bind_eq_some_iff.mp read
    dsimp only at named
    split at named
    · next isId =>
        cases named
        exact ⟨word, readWord, isId⟩
    · split at named
      · next isName =>
          cases named
          exact ⟨word, readWord, isName⟩
      · split at named
        · next isAge =>
            cases named
            exact ⟨word, readWord, isAge⟩
        · cases named
  · rintro ⟨word, readWord, isColumn⟩
    refine Option.bind_eq_some_iff.mpr ⟨(word, rest), readWord, ?_⟩
    have lower := eq_of_beq isColumn
    simp only [strcasecmpEq, lower]
    cases column <;> rfl

/-- The loop reads columns up to one that no comma follows. -/
theorem parseColumns_of_lexemes {room : Nat} {columns : List SqlColumn} {first : SqlColumn}
    {others : List SqlColumn} (distinct : (columns ++ first :: others).Nodup)
    (fits : (first :: others).length ≤ room)
    (lexemes : sqlLexis.Lexemes (.word first.word :: furtherColumns others) text rest)
    (ended : expectSymbol comma rest = none) :
    parseColumns room columns text = .ok (columns ++ first :: others, rest) := by
  induction others generalizing room columns first text with
  | nil =>
      obtain ⟨_, name, rfl⟩ := lexemes
      obtain ⟨room, rfl⟩ := Nat.exists_eq_succ_of_ne_zero (Nat.ne_of_gt fits)
      have fresh : first ∉ columns := fun member =>
        List.disjoint_of_nodup_append distinct member List.mem_cons_self
      rw [parseColumns, parseColumnName_eq_some_iff.mpr name]
      dsimp only
      rw [if_neg fresh, ended]
  | cons second others ih =>
      obtain ⟨_, name, next, symbol, further⟩ := lexemes
      obtain ⟨room, rfl⟩ := Nat.exists_eq_succ_of_ne_zero
        (Nat.ne_of_gt (Nat.lt_of_lt_of_le (Nat.succ_pos _) fits))
      have fresh : first ∉ columns := fun member =>
        List.disjoint_of_nodup_append distinct member List.mem_cons_self
      rw [parseColumns, parseColumnName_eq_some_iff.mpr name]
      dsimp only
      rw [if_neg fresh, (expectSymbol_eq_some_iff rfl).mpr symbol]
      rw [List.append_cons columns first (second :: others)] at distinct ⊢
      exact ih distinct (Nat.le_of_succ_le_succ fits) further

/-- What is parsed as columns is spelled by columns that do not repeat. -/
theorem lexemes_of_parseColumns {room : Nat} {columns parsed : List SqlColumn}
    (distinct : columns.Nodup) (result : parseColumns room columns text = .ok (parsed, rest)) :
    ∃ first others, parsed = columns ++ first :: others ∧ parsed.Nodup ∧
      sqlLexis.Lexemes (.word first.word :: furtherColumns others) text rest := by
  induction room generalizing columns text with
  | zero => cases result
  | succ room ih =>
      rw [parseColumns] at result
      split at result
      · cases result
      · next column after read =>
          have name := parseColumnName_eq_some_iff.mp read
          split at result
          · cases result
          · next fresh =>
              have still : (columns ++ [column]).Nodup :=
                List.nodup_append.mpr ⟨distinct, List.nodup_singleton column, by
                  intro other member _ last
                  rw [List.mem_singleton.mp last]
                  exact fun same => fresh (same ▸ member)⟩
              split at result
              · cases result
                exact ⟨column, [], rfl, still, rest, name, rfl⟩
              · next next read =>
                  have symbol := (expectSymbol_eq_some_iff rfl).mp read
                  obtain ⟨second, others, rfl, nodup, lexemes⟩ := ih still result
                  refine ⟨column, second :: others, List.append_assoc _ _ _, nodup, ?_⟩
                  exact ⟨after, name, next, symbol, lexemes⟩

/-- A list of columns before `from` is parsed as what it states. -/
theorem parseSelectColumns_of_lexemes {shown : ColumnList} {after : List UInt8}
    (lexemes : sqlLexis.Lexemes shown.tokens text rest)
    (next : sqlLexis.Lexeme (.word .from) rest after) :
    parseSelectColumns stmt text = .ok (shown.apply stmt, rest) := by
  cases shown with
  | all =>
      obtain ⟨_, star, rfl⟩ := lexemes
      rw [parseSelectColumns, (expectSymbol_eq_some_iff rfl).mpr star]
      rfl
  | columns first others distinct =>
      have ended := expectSymbol_eq_none comma rfl next
      obtain ⟨_, name, _⟩ := Lexis.lexemes_cons.mp lexemes
      have noStar : expectSymbol 42 text = none := expectSymbol_eq_none 42 rfl name
      have fits : (first :: others).length ≤ sqlMaxSelectColumns := by
        have among : first :: others ⊆ [.id, .name, .age] := fun column _ => by
          cases column <;> decide
        exact (List.subperm_of_subset distinct among).length_le
      rw [parseSelectColumns, noStar]
      exact bind_eq_ok_iff.mpr ⟨_, parseColumns_of_lexemes distinct fits lexemes ended, rfl⟩

/-- What is parsed as a list of columns is spelled by it. -/
theorem lexemes_of_parseSelectColumns {next : SqlStatement}
    (parsed : parseSelectColumns stmt text = .ok (next, rest)) :
    ∃ shown : ColumnList, next = shown.apply stmt ∧
      sqlLexis.Lexemes shown.tokens text rest := by
  unfold parseSelectColumns at parsed
  split at parsed
  · next after read =>
      cases parsed
      exact ⟨.all, rfl, rest, (expectSymbol_eq_some_iff rfl).mp read, rfl⟩
  · obtain ⟨⟨columns, after⟩, read, same⟩ := bind_eq_ok_iff.mp parsed
    cases same
    obtain ⟨first, others, rfl, distinct, lexemes⟩ :=
      lexemes_of_parseColumns List.nodup_nil read
    exact ⟨.columns first others distinct, rfl, lexemes⟩

/-- The column of a condition is read with its equals sign. -/
theorem readWhereColumn_of_lexemes (column : SqlColumn)
    (lexemes : sqlLexis.Lexemes [.word column.word, .symbol 61] text rest) :
    ∃ word : BoundedString 31, readWhereColumn text = some (word, rest) ∧
      word.bytes.map toLower = column.word.text.map toLower := by
  obtain ⟨middle, name, _, equals, rfl⟩ := lexemes
  obtain ⟨word, read, isColumn⟩ :=
    (readWord_keyword_iff (Nat.le_refl 31) column.word).mpr name
  refine ⟨word, Option.bind_eq_some_iff.mpr ⟨_, read, ?_⟩, eq_of_beq isColumn⟩
  exact Option.bind_eq_some_iff.mpr ⟨_, (expectSymbol_eq_some_iff rfl).mpr equals, rfl⟩

/-- A word that is read as a column is spelled by it. -/
theorem lexemes_of_readWhereColumn {word : BoundedString 31}
    (read : readWhereColumn text = some (word, rest)) (column : SqlColumn)
    (isColumn : strcasecmpEq word.bytes column.word.text = true) :
    sqlLexis.Lexemes [.word column.word, .symbol 61] text rest := by
  obtain ⟨⟨word', middle⟩, readWord, read⟩ := Option.bind_eq_some_iff.mp read
  obtain ⟨after, equals, same⟩ := Option.bind_eq_some_iff.mp read
  cases same
  have name := (readWord_keyword_iff (Nat.le_refl 31) column.word).mp ⟨word, readWord, isColumn⟩
  exact ⟨middle, name, rest, (expectSymbol_eq_some_iff rfl).mp equals, rfl⟩

/-- A condition is parsed when its value is. -/
theorem parseWhere_of_value (column : SqlColumn) {middle : List UInt8}
    (front : sqlLexis.Lexemes [.word .where, .word column.word, .symbol 61] text middle)
    (value : ∀ word : List UInt8, word.map toLower = column.word.text.map toLower →
      parseWhereValue stmt word middle = .ok (result, rest))
    (atEnd : ∃ terminated, sqlLexis.Spells (terminator terminated) rest) :
    parseWhere stmt text = .ok result := by
  obtain ⟨_, whereToken, front⟩ := front
  obtain ⟨word, read, isColumn⟩ := readWhereColumn_of_lexemes column front
  refine expected_bind_iff.mpr ⟨_, (expectKeyword_eq_some_iff .where).mpr whereToken, ?_⟩
  refine expected_bind_iff.mpr ⟨_, read, ?_⟩
  exact bind_eq_ok_iff.mpr ⟨_, value word.bytes isColumn, finish_eq_ok_iff.mpr ⟨atEnd, rfl⟩⟩

/-- A select with a condition. -/
theorem parseWhere_of_lexemes (condition : Condition) (present : condition ≠ .none)
    (lexemes : sqlLexis.Lexemes condition.tokens text rest)
    (atEnd : ∃ terminated, sqlLexis.Spells (terminator terminated) rest) :
    parseWhere stmt text = .ok (condition.apply stmt) := by
  cases condition with
  | none => exact absurd rfl present
  | id value =>
      obtain ⟨_, whereToken, _, column, _, equals, _, number, rfl⟩ := lexemes
      refine parseWhere_of_value .id ⟨_, whereToken, _, column, _, equals, rfl⟩ ?_ atEnd
      intro word isId
      rw [parseWhereValue, strcasecmpEq, isId]
      exact expected_bind_iff.mpr ⟨_, parseIntValue_eq_some_iff.mpr number, rfl⟩
  | name value =>
      obtain ⟨_, whereToken, _, column, _, equals, _, literal, rfl⟩ := lexemes
      refine parseWhere_of_value .name ⟨_, whereToken, _, column, _, equals, rfl⟩ ?_ atEnd
      intro word isName
      rw [parseWhereValue, strcasecmpEq, strcasecmpEq, isName]
      exact expected_bind_iff.mpr ⟨_, parseStringLiteral_of_lexeme literal, rfl⟩

/-- What is parsed behind the table is spelled by a condition. -/
theorem lexemes_of_parseWhere (noNul : 0 ∉ text) (parsed : parseWhere stmt text = .ok result) :
    ∃ (condition : Condition) (terminated : Bool), result = condition.apply stmt ∧
      sqlLexis.Spells (condition.tokens ++ terminator terminated) text := by
  obtain ⟨text₁, where_, parsed⟩ := expected_bind_iff.mp parsed
  obtain ⟨⟨word, text₂⟩, columnRead, parsed⟩ := expected_bind_iff.mp parsed
  obtain ⟨⟨next, text₃⟩, valueRead, parsed⟩ := bind_eq_ok_iff.mp parsed
  obtain ⟨⟨terminated, atEnd⟩, rfl⟩ := finish_eq_ok_iff.mp parsed
  have whereToken := (expectKeyword_eq_some_iff .where).mp where_
  dsimp only [parseWhereValue] at valueRead
  split at valueRead
  · next isId =>
      obtain ⟨⟨id, after⟩, idRead, same⟩ := expected_bind_iff.mp valueRead
      cases same
      have column := lexemes_of_readWhereColumn columnRead .id isId
      refine ⟨.id id, terminated, rfl, Lexis.spells_append.mpr ⟨after, ?_, atEnd⟩⟩
      have value : sqlLexis.Lexemes [.number id] text₂ after :=
        ⟨after, parseIntValue_eq_some_iff.mp idRead, rfl⟩
      exact ⟨text₁, whereToken, column.append value⟩
  · split at valueRead
    · next isName =>
        obtain ⟨⟨name, after⟩, nameRead, same⟩ := expected_bind_iff.mp valueRead
        cases same
        have column := lexemes_of_readWhereColumn columnRead .name isName
        have inside : text₂ <:+ text := column.suffix.trans whereToken.suffix
        refine ⟨.name name, terminated, rfl, Lexis.spells_append.mpr ⟨after, ?_, atEnd⟩⟩
        have value : sqlLexis.Lexemes [.literal name] text₂ after :=
          ⟨after, lexeme_of_parseStringLiteral (fun member => noNul (inside.subset member))
            nameRead, rfl⟩
        exact ⟨text₁, whereToken, column.append value⟩
    · cases valueRead

/-- A `select` is parsed as what it states. -/
theorem parseSelect_of_spells {shown : ColumnList} {condition : Condition} {terminated : Bool}
    (spells : sqlLexis.Spells
      ((Form.select shown condition).tokens ++ terminator terminated) text) :
    parseSelect text zeroStatement = .ok (Form.select shown condition).statement := by
  obtain ⟨last, lexemes, atEnd⟩ := Lexis.spells_append.mp spells
  obtain ⟨_, selectToken, tokens⟩ := Lexis.lexemes_cons.mp lexemes
  obtain ⟨_, columns, from_⟩ := Lexis.lexemes_append.mp tokens
  obtain ⟨_, fromToken, table, tableToken, conditions⟩ := from_
  refine expected_bind_iff.mpr ⟨_, (expectKeyword_eq_some_iff .select).mpr selectToken, ?_⟩
  refine bind_eq_ok_iff.mpr ⟨_, parseSelectColumns_of_lexemes columns fromToken, ?_⟩
  refine expected_bind_iff.mpr ⟨_, (expectKeyword_eq_some_iff .from).mpr fromToken, ?_⟩
  refine bind_eq_ok_iff.mpr ⟨table, parseTable_eq_ok_iff.mpr tableToken, ?_⟩
  dsimp only
  cases condition with
  | none =>
      obtain rfl : table = last := conditions
      rw [if_pos (atStatementEnd_iff.mpr ⟨terminated, atEnd⟩)]
      rfl
  | id value =>
      obtain ⟨_, whereToken, _⟩ := Lexis.lexemes_cons.mp conditions
      rw [if_neg (by rw [atStatementEnd_of_word whereToken]; exact Bool.false_ne_true)]
      exact parseWhere_of_lexemes _ (fun impossible => by cases impossible) conditions
        ⟨terminated, atEnd⟩
  | name value =>
      obtain ⟨_, whereToken, _⟩ := Lexis.lexemes_cons.mp conditions
      rw [if_neg (by rw [atStatementEnd_of_word whereToken]; exact Bool.false_ne_true)]
      exact parseWhere_of_lexemes _ (fun impossible => by cases impossible) conditions
        ⟨terminated, atEnd⟩

/-- What is parsed as a `select` is spelled by it. -/
theorem spells_of_parseSelect (noNul : 0 ∉ text)
    (parsed : parseSelect text zeroStatement = .ok result) :
    ∃ form terminated, sqlLexis.Spells (Form.tokens form ++ terminator terminated) text ∧
      form.statement = result := by
  obtain ⟨text₁, select, parsed⟩ := expected_bind_iff.mp parsed
  obtain ⟨⟨next, text₂⟩, columnsRead, parsed⟩ := bind_eq_ok_iff.mp parsed
  obtain ⟨text₃, from_, parsed⟩ := expected_bind_iff.mp parsed
  obtain ⟨text₄, table, parsed⟩ := bind_eq_ok_iff.mp parsed
  have selectToken := (expectKeyword_eq_some_iff .select).mp select
  obtain ⟨shown, rfl, columns⟩ := lexemes_of_parseSelectColumns columnsRead
  have fromToken := (expectKeyword_eq_some_iff .from).mp from_
  have tableToken := parseTable_eq_ok_iff.mp table
  have front : sqlLexis.Lexemes (.word .select :: (shown.tokens ++
      [.word .from, .word .users])) text text₄ :=
    ⟨text₁, selectToken, columns.append ⟨text₃, fromToken, text₄, tableToken, rfl⟩⟩
  have whole : ∀ condition : Condition, (Form.select shown condition).tokens =
      (.word .select :: (shown.tokens ++
        [.word .from, .word .users])) ++ condition.tokens := by
    intro condition
    simp only [Form.tokens, List.cons_append, List.append_assoc, List.nil_append]
  dsimp only at parsed
  split at parsed
  · next finished =>
      cases parsed
      obtain ⟨terminated, atEnd⟩ := atStatementEnd_iff.mp finished
      refine ⟨.select shown .none, terminated, ?_, rfl⟩
      rw [whole]
      exact Lexis.spells_append.mpr ⟨text₄, front.append rfl, atEnd⟩
  · obtain ⟨condition, terminated, rfl, spells⟩ :=
      lexemes_of_parseWhere (fun member => noNul (front.suffix.subset member)) parsed
    obtain ⟨last, tokens, atEnd⟩ := Lexis.spells_append.mp spells
    refine ⟨.select shown condition, terminated, ?_, rfl⟩
    rw [whole]
    exact Lexis.spells_append.mpr ⟨last, front.append tokens, atEnd⟩

end Selects

/-- The keyword a form begins with. -/
def Form.keyword : Form → Keyword
  | .insertValues _ _ _ _ => .insert
  | .insertColumns _ _ => .insert
  | .select _ _ => .select

theorem Form.tokens_eq_cons (form : Form) :
    ∃ tokens, form.tokens = .word form.keyword :: tokens := by
  cases form with
  | insertValues | insertColumns | select => exact ⟨_, rfl⟩

/-- White space before the statement makes no difference. -/
theorem spells_skipWs (form : Form) (more : List Token) (text : List UInt8) :
    sqlLexis.Spells (form.tokens ++ more) (skipWs text) ↔
      sqlLexis.Spells (form.tokens ++ more) text := by
  obtain ⟨tokens, same⟩ := form.tokens_eq_cons
  simp only [same, List.cons_append, Lexis.Spells, Lexis.lexemes_cons]
  exact exists_congr fun rest => and_congr_left fun _ => exists_congr fun middle =>
    and_congr_left fun _ => Lexis.lexeme_dropWhile (word_starts form.keyword)

theorem keyword_of_spells {form : Form} {more : List Token} {text : List UInt8}
    (spells : sqlLexis.Spells (form.tokens ++ more) text) :
    ∃ rest, sqlLexis.Lexeme (.word form.keyword) text rest := by
  obtain ⟨tokens, same⟩ := form.tokens_eq_cons
  rw [same] at spells
  obtain ⟨_, ⟨middle, lexeme, _⟩, _⟩ := spells
  exact ⟨middle, lexeme⟩

/-- A parsed text spells the statement. -/
theorem spells_of_sqlParse {sql : CString} {stmt : SqlStatement}
    (parsed : sqlParse sql = .ok stmt) :
    ∃ form terminated, sqlLexis.Spells (Form.tokens form ++ terminator terminated) sql.bytes ∧
      form.statement = stmt := by
  simp only [sqlParse] at parsed
  have noNul : 0 ∉ skipWs sql.bytes := fun member =>
    sql.noNul ((List.dropWhile_suffix isSpace).subset member)
  have spelled : ∃ form terminated, sqlLexis.Spells
      (Form.tokens form ++ terminator terminated) (skipWs sql.bytes) ∧
        form.statement = stmt := by
    split at parsed
    · cases parsed
    · split at parsed
      · exact spells_of_parseInsert noNul parsed
      · split at parsed
        · exact spells_of_parseSelect noNul parsed
        · cases parsed
  obtain ⟨form, terminated, spells, same⟩ := spelled
  exact ⟨form, terminated, (spells_skipWs _ _ _).mp spells, same⟩

/-- A text that spells a statement is parsed as this statement. -/
theorem sqlParse_of_spells {sql : CString} {form : Form} {terminated : Bool}
    (spells : sqlLexis.Spells (form.tokens ++ terminator terminated) sql.bytes) :
    sqlParse sql = .ok form.statement := by
  obtain ⟨rest, keyword⟩ := keyword_of_spells spells
  obtain ⟨lead, more, split, _⟩ := skipWs_of_word keyword
  have present : skipWs sql.bytes ≠ [] := by
    rw [split]
    exact List.cons_ne_nil lead more
  have length : form.keyword.text.length = 6 := by cases form <;> rfl
  have insert : strncasecmpEq (skipWs sql.bytes) (ascii "INSERT") =
      decide (form.keyword = .insert) := strncasecmpEq_of_word .insert length.symm keyword
  have select : strncasecmpEq (skipWs sql.bytes) (ascii "SELECT") =
      decide (form.keyword = .select) := strncasecmpEq_of_word .select length.symm keyword
  rw [← spells_skipWs] at spells
  simp only [sqlParse]
  rw [if_neg present, insert, select]
  cases form with
  | insertValues id name age positive => exact parseInsert_of_values positive spells
  | insertColumns name age => exact parseInsert_of_columns spells
  | select shown condition => exact parseSelect_of_spells spells

/-- **The parser accepts its grammar.** A statement is returned exactly when the text
spells one of the forms, with white space anywhere between tokens and at most one `;`, and
then it is the statement that the form denotes. -/
theorem sqlParse_eq_ok_iff (sql : CString) (stmt : SqlStatement) :
    sqlParse sql = .ok stmt ↔
      ∃ form terminated, sqlLexis.Spells (Form.tokens form ++ terminator terminated) sql.bytes ∧
        form.statement = stmt := by
  constructor
  · exact spells_of_sqlParse
  · rintro ⟨form, terminated, spells, rfl⟩
    exact sqlParse_of_spells spells

/-- A token that does not end in white space. -/
def Solid (token : Token) : Prop :=
  ∀ spelling, sqlLexis.spelled token spelling →
    ∃ front last, spelling = front ++ [last] ∧ isSpace last = false

/-- A keyword begins with a byte that is not blank. -/
theorem solid_word (keyword : Keyword) : Solid (.word keyword) := by
  rintro spelling ⟨isWord, _⟩
  rcases List.eq_nil_or_concat' spelling with rfl | ⟨front, last, rfl⟩
  · obtain ⟨_, impossible, _⟩ := isWord.starts
    cases impossible
  · have continues := isWord.continues last
      (List.mem_append_right _ (List.mem_singleton_self last))
    refine ⟨front, last, rfl, ?_⟩
    grind [isWordByte, isAlnum, isAlpha, isDigit, isSpace]

theorem solid_symbol {symbol : UInt8} (noBlank : isSpace symbol = false) :
    Solid (.symbol symbol) := by
  rintro _ rfl
  exact ⟨[], symbol, rfl, noBlank⟩

theorem solid_literal (name : Name) : Solid (.literal name) := by
  rintro _ ⟨_, rfl⟩
  exact ⟨quote :: name.bytes, quote, rfl, rfl⟩

theorem solid_number (value : Int32) : Solid (.number value) := by
  rintro _ ⟨sign, _, digits, nonempty, all, rfl, _⟩
  rcases List.eq_nil_or_concat' digits with rfl | ⟨front, last, rfl⟩
  · exact absurd rfl nonempty
  · refine ⟨sign.1 ++ front, last, (List.append_assoc _ _ _).symm, ?_⟩
    exact (isDigit_plain (all last (List.mem_append_right _ (List.mem_singleton_self last)))).1

theorem solid_further (columns : List SqlColumn) :
    ∀ token ∈ furtherColumns columns, Solid token := by
  intro token member
  obtain ⟨column, _, member⟩ := List.mem_flatMap.mp member
  simp only [List.mem_cons, List.not_mem_nil, or_false] at member
  rcases member with rfl | rfl
  · exact solid_symbol rfl
  · exact solid_word _

theorem solid_columns (shown : ColumnList) : ∀ token ∈ shown.tokens, Solid token := by
  cases shown with
  | all => exact List.forall_mem_singleton.mpr (solid_symbol rfl)
  | columns first others distinct =>
      exact List.forall_mem_cons.mpr ⟨solid_word _, solid_further others⟩

theorem solid_condition (condition : Condition) : ∀ token ∈ condition.tokens, Solid token := by
  have equals : Solid (.symbol 61) := solid_symbol rfl
  cases condition with
  | none => exact nofun
  | id value =>
      simp only [Condition.tokens, List.forall_mem_cons, solid_word, equals, solid_number,
        List.not_mem_nil, IsEmpty.forall_iff, implies_true, and_self]
  | name value =>
      simp only [Condition.tokens, List.forall_mem_cons, solid_word, equals, solid_literal,
        List.not_mem_nil, IsEmpty.forall_iff, implies_true, and_self]

/-- No token of a statement ends in white space. -/
theorem solid_form (form : Form) (terminated : Bool) :
    ∀ token ∈ form.tokens ++ terminator terminated, Solid token := by
  have ended : ∀ token ∈ terminator terminated, Solid token := by
    cases terminated with
    | false => exact nofun
    | true => exact List.forall_mem_singleton.mpr (solid_symbol rfl)
  have opening : Solid (.symbol 40) := solid_symbol rfl
  have closing : Solid (.symbol 41) := solid_symbol rfl
  have separator : Solid (.symbol comma) := solid_symbol rfl
  rw [List.forall_mem_append]
  refine ⟨?_, ended⟩
  cases form with
  | insertValues id name age positive =>
      simp only [Form.tokens, insertWords, valuesTokens, List.cons_append, List.nil_append,
        List.forall_mem_cons, solid_word, solid_number, solid_literal, opening, closing, separator,
        List.not_mem_nil, IsEmpty.forall_iff, implies_true, and_self]
  | insertColumns name age =>
      simp only [Form.tokens, insertWords, columnsTokens, List.cons_append, List.nil_append,
        List.forall_mem_cons, solid_word, solid_number, solid_literal, List.not_mem_nil,
        IsEmpty.forall_iff, implies_true, and_self]
  | select shown condition =>
      refine List.forall_mem_cons.mpr ⟨solid_word _, List.forall_mem_append.mpr
        ⟨solid_columns shown, ?_⟩⟩
      exact List.forall_mem_cons.mpr ⟨solid_word _, List.forall_mem_cons.mpr
        ⟨solid_word _, solid_condition condition⟩⟩

/-- White space does not change where a token ends. -/
theorem ends_append_blank (token : Token) (rest blanks : List UInt8)
    (blank : ∀ byte ∈ blanks, isSpace byte = true) :
    sqlLexis.ends token (rest ++ blanks) ↔ sqlLexis.ends token rest := by
  have stops : ∀ (test : UInt8 → Bool), (∀ byte, isSpace byte = true → test byte = false) →
      ((∀ byte ∈ (rest ++ blanks).head?, test byte = false) ↔
        ∀ byte ∈ rest.head?, test byte = false) := by
    intro test notBlank
    cases rest with
    | nil =>
        refine iff_of_true (fun byte first => ?_) nofun
        exact notBlank byte (blank byte (List.mem_of_mem_head? first))
    | cons lead more => exact Iff.rfl
  cases token with
  | word keyword =>
      apply stops isWordByte
      intro byte space
      grind [isWordByte, isAlnum, isAlpha, isDigit, isSpace]
  | symbol byte => exact Iff.rfl
  | literal text => exact Iff.rfl
  | number value =>
      apply stops isDigit
      intro byte space
      grind [isDigit, isSpace]

/-- White space around a text does not matter to the parser. -/
theorem sqlParse_trim {sql trimmed : CString} {stmt : SqlStatement}
    (isTrimmed : trimmed.bytes = (sql.bytes.dropWhile isSpace).rdropWhile isSpace) :
    sqlParse trimmed = .ok stmt ↔ sqlParse sql = .ok stmt := by
  have blank : ∀ byte ∈ (sql.bytes.dropWhile isSpace).rtakeWhile isSpace, isSpace byte = true :=
    fun _ => List.mem_rtakeWhile_imp
  have whole : trimmed.bytes ++ (sql.bytes.dropWhile isSpace).rtakeWhile isSpace =
      skipWs sql.bytes := by
    rw [isTrimmed]
    exact List.rdropWhile_append_rtakeWhile
  have same : ∀ form terminated,
      sqlLexis.Spells (Form.tokens form ++ terminator terminated) trimmed.bytes ↔
        sqlLexis.Spells (Form.tokens form ++ terminator terminated) sql.bytes := by
    intro form terminated
    rw [← spells_skipWs form _ sql.bytes, ← whole]
    exact (Lexis.spells_append_blank ends_append_blank blank (solid_form form terminated)).symm
  constructor
  · intro parsed
    obtain ⟨form, terminated, spells, rfl⟩ := spells_of_sqlParse parsed
    exact sqlParse_of_spells ((same form terminated).mp spells)
  · intro parsed
    obtain ⟨form, terminated, spells, rfl⟩ := spells_of_sqlParse parsed
    exact sqlParse_of_spells ((same form terminated).mpr spells)

end MiniDbms.Sql
