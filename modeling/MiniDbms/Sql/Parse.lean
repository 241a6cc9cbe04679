import MiniDbms.Db.Record

/-! # The SQL parser of `sql.c`

A position in the text is what is left of it, so the end of the string is the empty
list. Functions that return 0 without an error text give nothing; the others give
the text. A statement that was parsed never asks for what the engine would refuse on
account of its id or age, and a `SELECT` shows at least one column
(`MiniDbms.Sql.sqlParse_wellFormed`).
-/

namespace MiniDbms.Sql

open Foundation Db

inductive SqlType where
  | insert
  | select
  deriving DecidableEq

inductive SqlWhereType where
  | none
  | id
  | name
  deriving DecidableEq

inductive SqlColumn where
  | id
  | name
  | age
  deriving DecidableEq

/-- `SQL_MAX_SELECT_COLUMNS`. -/
def sqlMaxSelectColumns : Nat := 3

/-- `select_column_count` is the length of `selectColumns`. -/
structure SqlStatement where
  type : SqlType
  table : BoundedString 31
  insertHasId : Bool
  insertId : Int32
  insertName : Name
  insertAge : Int32
  selectAll : Bool
  selectColumns : List SqlColumn
  whereType : SqlWhereType
  whereId : Int32
  whereName : Name
  deriving DecidableEq

/-- A string literal of the source, in a buffer it fits. -/
def bounded {limit : Nat} (text : List UInt8) (noNul : 0 ∉ text) (fits : text.length ≤ limit) :
    BoundedString limit :=
  { bytes := text, noNul := noNul, fits := fits }

/-- A buffer of zeros. -/
def emptyText (limit : Nat) : BoundedString limit :=
  bounded [] List.not_mem_nil (Nat.zero_le limit)

/-- `memset(stmt, 0, sizeof(*stmt))`. -/
def zeroStatement : SqlStatement where
  type := .insert
  table := emptyText 31
  insertHasId := false
  insertId := 0
  insertName := emptyText dbNameLimit
  insertAge := 0
  selectAll := false
  selectColumns := []
  whereType := .none
  whereId := 0
  whereName := emptyText dbNameLimit

/-- `"users"`, as the parser leaves it in `stmt->table`. -/
def usersTable : BoundedString 31 := bounded (ascii "users") (by decide) (by decide)

/-- `skip_ws`. -/
def skipWs (text : List UInt8) : List UInt8 := text.dropWhile isSpace

/-- A byte that `read_word` starts a word with. -/
def isWordStart (byte : UInt8) : Bool := isAlpha byte || byte == 95

/-- A byte that `read_word` continues a word with. -/
def isWordByte (byte : UInt8) : Bool := isAlnum byte || byte == 95

/-- `read_word` into a buffer of `limit + 1` bytes. -/
def readWord (limit : Nat) (text : List UInt8) : Option (BoundedString limit × List UInt8) :=
  let cur := skipWs text
  if !isWordStart (cur.headD 0) then none
  else if fits : (cur.takeWhile isWordByte).length ≤ limit then
    some ({ bytes := cur.takeWhile isWordByte
            noNul := fun member => absurd (List.mem_takeWhile_imp member) (by decide)
            fits := fits }, cur.dropWhile isWordByte)
  else none

/-- `expect_keyword`. Where it returns 0, no caller goes on from the position it has
left behind. -/
def expectKeyword (keyword text : List UInt8) : Option (List UInt8) := do
  let (word, text) ← readWord 63 text
  if strcasecmpEq word.bytes keyword then some text else none

/-- `expect_symbol`. -/
def expectSymbol (symbol : UInt8) (text : List UInt8) : Option (List UInt8) :=
  match skipWs text with
  | [] => none
  | first :: text => if first = symbol then some text else none

/-- `parse_int_value`. -/
def parseIntValue (text : List UInt8) : Option (Int32 × List UInt8) :=
  let cur := skipWs text
  if cur = [] then none
  else
    match strtol cur with
    | none => none
    | some (value, text) =>
        if value < 0 ∨ value > 2147483647 then none else some (intOfLong value, text)

/-- `'`. -/
def quote : UInt8 := 39

/-- `parse_string_literal` into a name buffer. -/
def parseStringLiteral (text : List UInt8) : Option (Name × List UInt8) :=
  match expectSymbol quote text with
  | none => none
  | some cur =>
      let literal := cur.takeWhile (· != quote)
      if literal.length > dbNameLimit then none
      else
        match cur.dropWhile (· != quote) with
        | [] => none
        | _ :: text => some ((CString.ofBuffer literal).truncate dbNameLimit, text)

/-- `parse_column_name`. -/
def parseColumnName (text : List UInt8) : Option (SqlColumn × List UInt8) := do
  let (word, text) ← readWord 31 text
  if strcasecmpEq word.bytes (ascii "id") then some (.id, text)
  else if strcasecmpEq word.bytes (ascii "name") then some (.name, text)
  else if strcasecmpEq word.bytes (ascii "age") then some (.age, text)
  else none

/-- `at_statement_end`. -/
def atStatementEnd (text : List UInt8) : Bool :=
  match skipWs text with
  | [] => true
  | first :: text => first = 59 && skipWs text = []

/-- `set_err` where a step returned 0. -/
def expected {α : Type} (found : Option α) (message : List UInt8) : Except (List UInt8) α :=
  match found with
  | none => .error message
  | some a => .ok a

/-- The loop of `parse_select_columns`, where `room` more columns fit. -/
def parseColumns : Nat → List SqlColumn → List UInt8 →
    Except (List UInt8) (List SqlColumn × List UInt8)
  | 0, _, _ => .error (ascii "too many SELECT columns")
  | room + 1, columns, text =>
      match parseColumnName text with
      | none => .error (ascii "expected SELECT column: id, name, or age")
      | some (column, text) =>
          if column ∈ columns then .error (ascii "duplicate SELECT column")
          else
            match expectSymbol comma text with
            | none => .ok (columns ++ [column], text)
            | some next => parseColumns room (columns ++ [column]) next

/-- `parse_select_columns`. -/
def parseSelectColumns (stmt : SqlStatement) (text : List UInt8) :
    Except (List UInt8) (SqlStatement × List UInt8) :=
  match expectSymbol 42 text with
  | some text => .ok ({ stmt with selectAll := true, selectColumns := [] }, text)
  | none => do
      let (columns, text) ← parseColumns sqlMaxSelectColumns [] text
      return ({ stmt with selectAll := false, selectColumns := columns }, text)

/-- `parse_insert_values_with_id`. -/
def parseInsertValuesWithId (stmt : SqlStatement) (text : List UInt8) :
    Except (List UInt8) SqlStatement := do
  let text ← expected (expectSymbol 40 text) (ascii "expected '(' after VALUES")
  let (id, text) ← expected ((parseIntValue text).filter fun value => 0 < value.1)
    (ascii "expected positive id")
  let text ← expected (expectSymbol comma text) (ascii "expected comma after id")
  let (name, text) ← expected (parseStringLiteral text) (ascii "expected single-quoted name")
  let text ← expected (expectSymbol comma text) (ascii "expected comma after name")
  let (age, text) ← expected (parseIntValue text) (ascii "expected non-negative age")
  let text ← expected (expectSymbol 41 text) (ascii "expected ')' after VALUES")
  if atStatementEnd text then
    return { stmt with insertHasId := true, insertId := id, insertName := name, insertAge := age }
  else throw (ascii "unexpected trailing tokens")

/-- The table name, which must be `users`. -/
def parseTable (text : List UInt8) : Except (List UInt8) (List UInt8) := do
  let (_, text) ← expected
    ((readWord 31 text).filter fun word => strcasecmpEq word.1.bytes (ascii "users"))
    (ascii "only table users is supported")
  return text

/-- The column names before `VALUES` in an insert without an id. -/
def readInsertColumns (text : List UInt8) : Option (List UInt8) := do
  let (col1, text) ← readWord 31 text
  let (col2, text) ← readWord 31 text
  if strcasecmpEq col1.bytes (ascii "name") && strcasecmpEq col2.bytes (ascii "age") then some text
  else none

/-- The part of `parse_insert` for an insert without an id. -/
def parseInsertColumns (stmt : SqlStatement) (text : List UInt8) :
    Except (List UInt8) SqlStatement := do
  let text ← expected (readInsertColumns text)
    (ascii "expected VALUES (id, 'name', age) or columns: name age")
  let text ← expected (expectKeyword (ascii "VALUES") text) (ascii "expected VALUES")
  let (name, text) ← expected (parseStringLiteral text) (ascii "expected single-quoted name")
  let (age, text) ← expected (parseIntValue text) (ascii "expected non-negative age")
  if atStatementEnd text then
    return { stmt with insertName := name, insertAge := age, insertHasId := false }
  else throw (ascii "unexpected trailing tokens")

/-- The two forms of an insert after the table name. -/
def parseInsertForms (stmt : SqlStatement) (afterTable : List UInt8) :
    Except (List UInt8) SqlStatement :=
  match expectKeyword (ascii "VALUES") afterTable with
  | some text => parseInsertValuesWithId stmt text
  | none => parseInsertColumns stmt afterTable

/-- `parse_insert`. -/
def parseInsert (sql : List UInt8) (stmt : SqlStatement) : Except (List UInt8) SqlStatement := do
  let text ← expected
    ((expectKeyword (ascii "INSERT") sql).bind (expectKeyword (ascii "INTO")))
    (ascii "expected INSERT INTO")
  let afterTable ← parseTable text
  let stmt ← parseInsertForms stmt afterTable
  return { stmt with type := .insert, table := usersTable }

/-- `WHERE column =`: the column's name. -/
def readWhereColumn (text : List UInt8) : Option (BoundedString 31 × List UInt8) := do
  let (column, text) ← readWord 31 text
  let text ← expectSymbol 61 text
  return (column, text)

/-- The value of a `WHERE` clause. -/
def parseWhereValue (stmt : SqlStatement) (column text : List UInt8) :
    Except (List UInt8) (SqlStatement × List UInt8) :=
  if strcasecmpEq column (ascii "id") then do
    let (id, text) ← expected (parseIntValue text) (ascii "expected numeric id")
    return ({ stmt with whereType := .id, whereId := id }, text)
  else if strcasecmpEq column (ascii "name") then do
    let (name, text) ← expected (parseStringLiteral text) (ascii "expected single-quoted name")
    return ({ stmt with whereType := .name, whereName := name }, text)
  else throw (ascii "only WHERE id or WHERE name is supported")

/-- The `WHERE` clause of a select. -/
def parseWhere (stmt : SqlStatement) (text : List UInt8) : Except (List UInt8) SqlStatement := do
  let text ← expected (expectKeyword (ascii "WHERE") text)
    (ascii "expected WHERE or statement end")
  let (column, text) ← expected (readWhereColumn text) (ascii "expected WHERE column = value")
  let (stmt, text) ← parseWhereValue stmt column.bytes text
  if atStatementEnd text then return stmt else throw (ascii "unexpected trailing tokens")

/-- `parse_select`. -/
def parseSelect (sql : List UInt8) (stmt : SqlStatement) : Except (List UInt8) SqlStatement := do
  let text ← expected (expectKeyword (ascii "SELECT") sql) (ascii "expected SELECT")
  let (stmt, text) ← parseSelectColumns stmt text
  let text ← expected (expectKeyword (ascii "FROM") text) (ascii "expected FROM")
  let text ← parseTable text
  let stmt := { stmt with type := .select, whereType := .none, table := usersTable }
  if atStatementEnd text then return stmt else parseWhere stmt text

/-- `sql_parse`: the statement, or the text of the error. -/
def sqlParse (sql : CString) : Except (List UInt8) SqlStatement :=
  let text := skipWs sql.bytes
  if text = [] then .error (ascii "empty SQL")
  else if strncasecmpEq text (ascii "INSERT") then parseInsert text zeroStatement
  else if strncasecmpEq text (ascii "SELECT") then parseSelect text zeroStatement
  else .error (ascii "only INSERT and SELECT are supported")

/-- A statement that can be executed. -/
structure SqlStatement.WellFormed (stmt : SqlStatement) : Prop where
  idPos : stmt.type = .insert → stmt.insertHasId = true → 0 < stmt.insertId
  ageNonneg : stmt.type = .insert → 0 ≤ stmt.insertAge
  columns : stmt.type = .select → stmt.selectAll = false → stmt.selectColumns ≠ []

/-- Every result of the computation satisfies `post`. -/
def Ensures {α : Type} (attempt : Except (List UInt8) α) (post : α → Prop) : Prop :=
  ∀ a, attempt = .ok a → post a

section Ensures

variable {α β : Type} {post : β → Prop}

/-- What the first parser ensures goes into the second one. -/
theorem Ensures.bind {attempt : Except (List UInt8) α} {next : α → Except (List UInt8) β}
    {middle : α → Prop} (first : Ensures attempt middle)
    (rest : ∀ a, middle a → Ensures (next a) post) : Ensures (attempt >>= next) post := by
  intro b result
  cases attempt with
  | error message => cases result
  | ok a => exact rest a (first a rfl) b result

theorem Ensures.pure {b : β} (holds : post b) : Ensures (Pure.pure b) post := by
  rintro _ ⟨⟩
  exact holds

theorem Ensures.throw (message : List UInt8) : Ensures (throw message) post := nofun

/-- A result about which nothing is needed. -/
theorem Ensures.any (attempt : Except (List UInt8) α) : Ensures attempt fun _ => True :=
  fun _ _ => trivial

/-- What was expected is ensured when it is found. -/
theorem Ensures.expected {found : Option β} {message : List UInt8}
    (holds : ∀ b, found = some b → post b) : Ensures (expected found message) post := by
  cases found with
  | none => exact nofun
  | some b =>
      rintro _ ⟨⟩
      exact holds b rfl

end Ensures

/-- A parsed integer is not negative. -/
theorem parseIntValue_nonneg {text rest : List UInt8} {value : Int32}
    (parsed : parseIntValue text = some (value, rest)) : 0 ≤ value := by
  simp only [parseIntValue] at parsed
  split at parsed
  · cases parsed
  · split at parsed
    · cases parsed
    · split at parsed
      · cases parsed
      · next bounds =>
          cases parsed
          rw [Int32.le_iff_toInt_le, intOfLong, Int32.toInt_ofInt_of_le (by omega) (by omega)]
          change (0 : Int) ≤ _
          omega

theorem ensures_age (text message : List UInt8) :
    Ensures (expected (parseIntValue text) message) fun found => 0 ≤ found.1 :=
  Ensures.expected fun _ parsed => parseIntValue_nonneg parsed

/-- An id is positive. -/
theorem ensures_id (text message : List UInt8) :
    Ensures (expected ((parseIntValue text).filter fun value => 0 < value.1) message)
      fun found => 0 < found.1 := by
  apply Ensures.expected
  intro found parsed
  simpa using (Option.filter_eq_some_iff.mp parsed).2

/-- A result is ensured where there is no error. -/
theorem Ensures.ite {β : Type} {post : β → Prop} {condition : Bool} {b : β} (message : List UInt8)
    (holds : post b) :
    Ensures (if condition then Pure.pure b else MonadExcept.throw message) post := by
  split
  · exact Ensures.pure holds
  · exact Ensures.throw message

/-- Three values have a positive id and an age that is not negative. -/
theorem ensures_insertValuesWithId (stmt : SqlStatement) (text : List UInt8) :
    Ensures (parseInsertValuesWithId stmt text) fun parsed =>
      (parsed.insertHasId = true → 0 < parsed.insertId) ∧ 0 ≤ parsed.insertAge := by
  unfold parseInsertValuesWithId
  refine (Ensures.any _).bind fun text _ => ?_
  refine (ensures_id text _).bind fun id idPos => ?_
  refine (Ensures.any _).bind fun text _ => ?_
  refine (Ensures.any _).bind fun name _ => ?_
  refine (Ensures.any _).bind fun text _ => ?_
  refine (ensures_age text _).bind fun age ageNonneg => ?_
  refine (Ensures.any _).bind fun text _ => ?_
  exact Ensures.ite _ ⟨fun _ => idPos, ageNonneg⟩

/-- Two values have an age that is not negative. -/
theorem ensures_insertColumns (stmt : SqlStatement) (text : List UInt8) :
    Ensures (parseInsertColumns stmt text) fun parsed =>
      (parsed.insertHasId = true → 0 < parsed.insertId) ∧ 0 ≤ parsed.insertAge := by
  unfold parseInsertColumns
  refine (Ensures.any _).bind fun text _ => ?_
  refine (Ensures.any _).bind fun text _ => ?_
  refine (Ensures.any _).bind fun name _ => ?_
  refine (ensures_age name.2 _).bind fun age ageNonneg => ?_
  exact Ensures.ite _ ⟨nofun, ageNonneg⟩

/-- A parsed insertion is well-formed. -/
theorem ensures_insert (sql : List UInt8) (stmt : SqlStatement) :
    Ensures (parseInsert sql stmt) SqlStatement.WellFormed := by
  unfold parseInsert
  refine (Ensures.any _).bind fun text _ => ?_
  refine (Ensures.any _).bind fun text _ => ?_
  have forms : Ensures (parseInsertForms stmt text) fun parsed =>
      (parsed.insertHasId = true → 0 < parsed.insertId) ∧ 0 ≤ parsed.insertAge := by
    unfold parseInsertForms
    split
    · exact ensures_insertValuesWithId stmt _
    · exact ensures_insertColumns stmt _
  refine forms.bind fun parsed holds => ?_
  exact Ensures.pure ⟨fun _ => holds.1, fun _ => holds.2, nofun⟩

/-- The loop over the columns returns at least one. -/
theorem ensures_columns (room : Nat) (columns : List SqlColumn) (text : List UInt8) :
    Ensures (parseColumns room columns text) fun parsed => parsed.1 ≠ [] := by
  induction room generalizing columns text with
  | zero => exact nofun
  | succ room ih =>
      rw [parseColumns]
      split
      · exact nofun
      · next column rest _ =>
          split
          · exact nofun
          · split
            · rintro _ ⟨⟩
              exact List.append_ne_nil_of_right_ne_nil _ (List.cons_ne_nil column [])
            · exact ih _ _

/-- A list of columns is not empty. -/
theorem ensures_selectColumns (stmt : SqlStatement) (text : List UInt8) :
    Ensures (parseSelectColumns stmt text) fun parsed =>
      parsed.1.selectAll = false → parsed.1.selectColumns ≠ [] := by
  unfold parseSelectColumns
  split
  · rintro _ ⟨⟩
    exact nofun
  · exact (ensures_columns _ _ _).bind fun parsed some => Ensures.pure fun _ => some

/-- A condition leaves a `select` well-formed. -/
theorem ensures_where (stmt : SqlStatement) (text : List UInt8) (isSelect : stmt.type = .select)
    (columns : stmt.selectAll = false → stmt.selectColumns ≠ []) :
    Ensures (parseWhere stmt text) SqlStatement.WellFormed := by
  unfold parseWhere
  refine (Ensures.any _).bind fun text _ => ?_
  refine (Ensures.any _).bind fun column _ => ?_
  have same : Ensures (parseWhereValue stmt column.1.bytes column.2) fun parsed =>
      parsed.1.type = .select ∧ (parsed.1.selectAll = false → parsed.1.selectColumns ≠ []) := by
    unfold parseWhereValue
    split
    · exact (Ensures.any _).bind fun _ _ => Ensures.pure ⟨isSelect, columns⟩
    · split
      · exact (Ensures.any _).bind fun _ _ => Ensures.pure ⟨isSelect, columns⟩
      · exact Ensures.throw _
  refine same.bind fun parsed holds => ?_
  refine Ensures.ite _ ⟨fun insert => ?_, fun insert => ?_, fun _ => holds.2⟩
  · rw [holds.1] at insert
    cases insert
  · rw [holds.1] at insert
    cases insert

/-- A parsed `select` is well-formed. -/
theorem ensures_select (sql : List UInt8) (stmt : SqlStatement) :
    Ensures (parseSelect sql stmt) SqlStatement.WellFormed := by
  unfold parseSelect
  refine (Ensures.any _).bind fun text _ => ?_
  refine (ensures_selectColumns stmt text).bind fun parsed columns => ?_
  refine (Ensures.any _).bind fun text _ => ?_
  refine (Ensures.any _).bind fun text _ => ?_
  dsimp only
  split
  · exact Ensures.pure ⟨nofun, nofun, fun _ => columns⟩
  · exact ensures_where _ _ rfl columns

/-- **Parsed statements are well formed.** -/
theorem sqlParse_wellFormed {sql : CString} {stmt : SqlStatement}
    (parsed : sqlParse sql = .ok stmt) : stmt.WellFormed := by
  simp only [sqlParse] at parsed
  split at parsed
  · cases parsed
  · split at parsed
    · exact ensures_insert _ _ stmt parsed
    · split at parsed
      · exact ensures_select _ _ stmt parsed
      · cases parsed

example : (sqlParse (CString.ofBuffer (ascii "select name, ID from Users where id=3 ;"))).toOption =
    some { zeroStatement with
      type := .select, table := usersTable, selectColumns := [.name, .id], whereType := .id,
      whereId := 3 } := by
  decide +kernel

end MiniDbms.Sql
