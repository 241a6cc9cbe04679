import MiniDbms.Http.ExtractMemory
import MiniDbms.Server.HandleClient
import MiniDbms.Sql.Grammar
import MiniDbms.Sql.ParseMemory

/-! # The statement of a request in memory

`handle_query` extracts the SQL text of the body into `sql` and parses it into `stmt`. No
access on the way is out of bounds, and a statement that has been parsed keeps within the
limits that the rest of the server relies on
(`MiniDbms.Server.parsedBody_inRange`).
-/

namespace MiniDbms.Server

open Foundation Db Http Sql

/-- `handle_query` up to `execute_statement`: the statement, or the error. -/
def parsedBody (body : Block UInt8) : Checked (List UInt8) Sql.Memory.Statement := do
  let sql ← Http.Memory.httpExtractSql body (.fresh sqlMaxLen) sqlMaxLen
  Sql.Memory.sqlParse sql

/-- A name that came out of a literal. -/
def IsPlainName (name : List UInt8) : Prop := name.length ≤ dbNameLimit ∧ quote ∉ name

/-- The columns that a select shows. -/
def IsColumnChoice (columns : List SqlColumn) : Prop :=
  1 ≤ columns.length ∧ columns.length ≤ sqlMaxSelectColumns ∧ columns.Nodup

/-- What the server relies on when it executes the statement. -/
structure StatementInRange (stmt : SqlStatement) : Prop where
  insertId : stmt.insertHasId = true → 1 ≤ stmt.insertId
  insertAge : 0 ≤ stmt.insertAge
  whereId : 0 ≤ stmt.whereId
  insertName : IsPlainName stmt.insertName.bytes
  whereName : IsPlainName stmt.whereName.bytes
  columns : stmt.type = .select → stmt.selectAll = true ∨ IsColumnChoice stmt.selectColumns

theorem isColumnChoice_of_nodup {first : SqlColumn} {others : List SqlColumn}
    (distinct : (first :: others).Nodup) : IsColumnChoice (first :: others) := by
  have all : first :: others ⊆ [.id, .name, .age] := fun column _ => by cases column <;> decide
  exact ⟨Nat.succ_pos _, (distinct.subperm all).length_le, distinct⟩

/-- A number of the grammar is not negative. -/
theorem nonneg_of_isNumber {spelling : List UInt8} {value : Int32}
    (number : IsNumber spelling value) : 0 ≤ value := by
  obtain ⟨sign, _, digits, _, _, _, lower, upper, rfl⟩ := number
  rw [Int32.le_iff_toInt_le, Int32.toInt_ofInt_of_le (by omega) (by omega)]
  exact lower

section Spelled

variable {form : Form} {terminated : Bool} {text : List UInt8}

/-- A number of the statement has been written as one. -/
theorem nonneg_of_spells
    (spells : sqlLexis.Spells (form.tokens ++ terminator terminated) text) {value : Int32}
    (member : .number value ∈ form.tokens) : 0 ≤ value := by
  obtain ⟨spelling, number⟩ := spells.spelled (List.mem_append_left _ member)
  exact nonneg_of_isNumber number

theorem isPlainName_of_spells
    (spells : sqlLexis.Spells (form.tokens ++ terminator terminated) text) {name : Name}
    (member : .literal name ∈ form.tokens) : IsPlainName name.bytes := by
  obtain ⟨spelling, noQuote, _⟩ := spells.spelled (List.mem_append_left _ member)
  exact ⟨name.fits, noQuote⟩

theorem isPlainName_nil : IsPlainName [] := ⟨Nat.zero_le _, List.not_mem_nil⟩

/-- A select without a condition. -/
theorem inRange_shown (shown : ColumnList) :
    StatementInRange { shown.apply zeroStatement with
      type := .select, table := usersTable, whereType := .none } := by
  have untouched : (shown.apply zeroStatement).insertHasId = false ∧
      (shown.apply zeroStatement).insertAge = 0 ∧ (shown.apply zeroStatement).whereId = 0 ∧
      (shown.apply zeroStatement).insertName.bytes = [] ∧
      (shown.apply zeroStatement).whereName.bytes = [] := by
    cases shown <;> exact ⟨rfl, rfl, rfl, rfl, rfl⟩
  obtain ⟨hasId, age, whereId, insertName, whereName⟩ := untouched
  exact {
    insertId := fun has => by
      rw [show _ = _ from hasId] at has
      cases has
    insertAge := age.ge
    whereId := whereId.ge
    insertName := insertName ▸ isPlainName_nil
    whereName := whereName ▸ isPlainName_nil
    columns := fun _ => by
      cases shown with
      | all => exact .inl rfl
      | columns first others distinct => exact .inr (isColumnChoice_of_nodup distinct) }

/-- What an accepted text states is in range. -/
theorem inRange_of_spells
    (spells : sqlLexis.Spells (form.tokens ++ terminator terminated) text) :
    StatementInRange form.statement := by
  cases form with
  | insertValues id name age positive =>
      have aged : .number age ∈ (Form.insertValues id name age positive).tokens := by
        simp [Form.tokens, insertWords, valuesTokens]
      have named : .literal name ∈ (Form.insertValues id name age positive).tokens := by
        simp [Form.tokens, insertWords, valuesTokens]
      exact {
        insertId := fun _ => by
          rw [Int32.le_iff_toInt_le]
          exact Int32.lt_iff_toInt_lt.mp positive
        insertAge := nonneg_of_spells spells aged
        whereId := Int32.le_refl 0
        insertName := isPlainName_of_spells spells named
        whereName := isPlainName_nil
        columns := fun impossible => by cases impossible }
  | insertColumns name age =>
      have aged : .number age ∈ (Form.insertColumns name age).tokens := by
        simp [Form.tokens, insertWords, columnsTokens]
      have named : .literal name ∈ (Form.insertColumns name age).tokens := by
        simp [Form.tokens, insertWords, columnsTokens]
      exact {
        insertId := fun impossible => by cases impossible
        insertAge := nonneg_of_spells spells aged
        whereId := Int32.le_refl 0
        insertName := isPlainName_of_spells spells named
        whereName := isPlainName_nil
        columns := fun impossible => by cases impossible }
  | select shown condition =>
      have plain := inRange_shown shown
      cases condition with
      | none => exact plain
      | id value =>
          have compared : .number value ∈ (Form.select shown (.id value)).tokens := by
            simp [Form.tokens, Condition.tokens]
          exact { plain with whereId := nonneg_of_spells spells compared }
      | name value =>
          have compared : .literal value ∈ (Form.select shown (.name value)).tokens := by
            simp [Form.tokens, Condition.tokens]
          exact { plain with whereName := isPlainName_of_spells spells compared }

end Spelled

theorem inRange_of_sqlParse {sql : CString} {stmt : SqlStatement}
    (parsed : sqlParse sql = .ok stmt) : StatementInRange stmt := by
  obtain ⟨form, terminated, spells, rfl⟩ := spells_of_sqlParse parsed
  exact inRange_of_spells spells

/-- The statement of the body. -/
theorem agrees_parsedBody (body : CString) :
    Agrees Sql.Memory.Statement.Represents (parsedBody (.ofString body))
      (httpExtractSql body sqlMaxLen >>= sqlParse) := by
  have fresh : (Block.fresh sqlMaxLen : Block UInt8).size = sqlMaxLen := List.length_replicate
  have extracted := Http.Memory.agrees_httpExtractSql (Block.points_ofString body) fresh (by decide)
  apply extracted.bind
  rintro sql text ⟨points, _⟩
  exact Sql.Memory.agrees_sqlParse points

/-- **A statement from any body.** No access is out of bounds, and a statement that was parsed is
in range. -/
theorem parsedBody_inRange (body : CString) :
    ∃ result, (parsedBody (.ofString body)).run = some result ∧
      ∀ mem, result = .ok mem → ∃ stmt, mem.Represents stmt ∧ StatementInRange stmt := by
  have agrees := agrees_parsedBody body
  cases parsed : httpExtractSql body sqlMaxLen >>= sqlParse with
  | error message =>
      rw [parsed] at agrees
      exact ⟨_, agrees, nofun⟩
  | ok stmt =>
      rw [parsed] at agrees
      obtain ⟨sql, _, parsed⟩ := bind_eq_ok_iff.mp parsed
      obtain ⟨mem, ran, represents⟩ := agrees
      refine ⟨_, ran, ?_⟩
      rintro _ ⟨⟩
      exact ⟨stmt, represents, inRange_of_sqlParse parsed⟩

end MiniDbms.Server
