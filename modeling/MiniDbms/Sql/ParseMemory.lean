import MiniDbms.Foundation.Memory
import MiniDbms.Sql.Parse

/-! # The SQL parser in memory

The functions of `sql.c` on the text and on `*stmt`, with every access checked: a position is
an offset, and the words that are read into local buffers are strings in them. They do what
the functions on texts do (`MiniDbms.Sql.Memory.agrees_sqlParse`), so nothing is read behind
the terminator of the text or of a word, and nothing is written outside of a buffer.
-/

namespace MiniDbms.Sql.Memory

open Foundation Db

/-- `skip_ws`. -/
def skipWs (sql : Block UInt8) (p : Nat) : Option Nat := sql.skipSpace p

/-- `read_word`: the buffer, and the position behind the word. -/
def readWord (sql : Block UInt8) (p : Nat) (out : Block UInt8) (outSize : Nat) :
    Checked Unit (Block UInt8 × Nat) := do
  let cur ← skipWs sql p
  let byte ← sql.read cur
  if !isWordStart byte then throw ()
  else do
    let (out, len, cur) ← sql.copyWhile isWordByte outSize cur out 0
    let out ← out.write len 0
    return (out, cur)

/-- `expect_keyword`. -/
def expectKeyword (sql : Block UInt8) (keyword : List UInt8) (p : Nat) : Checked Unit Nat := do
  let (word, p) ← readWord sql p (.fresh 64) 64
  let text ← word.string 0
  if strcasecmpEq text keyword then return p else throw ()

/-- `expect_symbol`. -/
def expectSymbol (sql : Block UInt8) (symbol : UInt8) (p : Nat) : Checked Unit Nat := do
  let cur ← skipWs sql p
  let byte ← sql.read cur
  if byte ≠ symbol then throw () else return cur + 1

/-- `parse_int_value`. -/
def parseIntValue (sql : Block UInt8) (p : Nat) : Checked Unit (Int32 × Nat) := do
  let cur ← skipWs sql p
  let byte ← sql.read cur
  if byte = 0 then throw ()
  else do
    let text ← sql.string cur
    match strtol text with
    | none => throw ()
    | some (value, rest) =>
        if value < 0 ∨ value > 2147483647 then throw ()
        else return (intOfLong value, cur + (text.length - rest.length))

/-- `parse_string_literal`. -/
def parseStringLiteral (sql : Block UInt8) (p : Nat) (out : Block UInt8) (outSize : Nat) :
    Checked Unit (Block UInt8 × Nat) := do
  let cur ← skipWs sql p
  let byte ← sql.read cur
  if byte ≠ quote then throw ()
  else do
    let (out, len, cur) ← sql.copyWhile (fun byte => byte != 0 && byte != quote) outSize (cur + 1)
      out 0
    let byte ← sql.read cur
    if byte ≠ quote then throw ()
    else do
      let out ← out.write len 0
      return (out, cur + 1)

/-- `parse_column_name`. -/
def parseColumnName (sql : Block UInt8) (p : Nat) : Checked Unit (SqlColumn × Nat) := do
  let (word, p) ← readWord sql p (.fresh 32) 32
  let text ← word.string 0
  if strcasecmpEq text (ascii "id") then return (.id, p)
  else if strcasecmpEq text (ascii "name") then return (.name, p)
  else if strcasecmpEq text (ascii "age") then return (.age, p)
  else throw ()

/-- `at_statement_end`. -/
def atStatementEnd (sql : Block UInt8) (p : Nat) : Option Bool := do
  let p ← skipWs sql p
  let byte ← sql.read p
  if byte = 59 then do
    let p ← skipWs sql (p + 1)
    let byte ← sql.read p
    return byte == 0
  else return byte == 0

/-- `SqlStatement`. -/
structure Statement where
  type : SqlType
  table : Block UInt8
  insertHasId : Bool
  insertId : Int32
  insertName : Block UInt8
  insertAge : Int32
  selectAll : Bool
  selectColumns : Block SqlColumn
  selectColumnCount : Nat
  whereType : SqlWhereType
  whereId : Int32
  whereName : Block UInt8

/-- `memset(stmt, 0, sizeof(*stmt))`. -/
def Statement.zero : Statement where
  type := .insert
  table := .filled 32 0
  insertHasId := false
  insertId := 0
  insertName := .filled 128 0
  insertAge := 0
  selectAll := false
  selectColumns := .filled sqlMaxSelectColumns .id
  selectColumnCount := 0
  whereType := .none
  whereId := 0
  whereName := .filled 128 0

/-- `column_already_selected`. -/
def columnAlreadySelected (columns : Block SqlColumn) (count : Nat) (column : SqlColumn) :
    Option Bool := do
  let selected ← columns.readAll 0 count
  return decide (column ∈ selected)

/-- The loop of `parse_select_columns`. -/
def parseColumns (sql : Block UInt8) (columns : Block SqlColumn) (count p : Nat) :
    Checked (List UInt8) (Block SqlColumn × Nat × Nat) :=
  if sqlMaxSelectColumns ≤ count then throw (ascii "too many SELECT columns")
  else do
    let (column, p) ← orFail (parseColumnName sql p)
      (ascii "expected SELECT column: id, name, or age")
    let selected ← columnAlreadySelected columns count column
    if selected then throw (ascii "duplicate SELECT column")
    else do
      let columns ← columns.write count column
      let cur ← skipWs sql p
      let byte ← sql.read cur
      if byte ≠ comma then return (columns, count + 1, p)
      else parseColumns sql columns (count + 1) (cur + 1)
termination_by sqlMaxSelectColumns - count

/-- `parse_select_columns`, whose last return sets no error. -/
def parseSelectColumns (sql : Block UInt8) (stmt : Statement) (p : Nat) :
    Checked (List UInt8) (Statement × Nat) := do
  let cur ← skipWs sql p
  let byte ← sql.read cur
  if byte = 42 then return ({ stmt with selectAll := true, selectColumnCount := 0 }, cur + 1)
  else do
    let (columns, count, p) ← parseColumns sql stmt.selectColumns 0 p
    if 0 < count then
      return ({ stmt with
        selectAll := false, selectColumns := columns, selectColumnCount := count }, p)
    else throw []

/-- `parse_insert_values_with_id`. -/
def parseInsertValuesWithId (sql : Block UInt8) (stmt : Statement) (p : Nat) :
    Checked (List UInt8) Statement := do
  let p ← orFail (expectSymbol sql 40 p) (ascii "expected '(' after VALUES")
  let (id, p) ← orFail (do
      let (id, p) ← parseIntValue sql p
      if id ≤ 0 then throw () else return (id, p))
    (ascii "expected positive id")
  let p ← orFail (expectSymbol sql comma p) (ascii "expected comma after id")
  let (name, p) ← orFail (parseStringLiteral sql p stmt.insertName 128)
    (ascii "expected single-quoted name")
  let p ← orFail (expectSymbol sql comma p) (ascii "expected comma after name")
  let (age, p) ← orFail (parseIntValue sql p) (ascii "expected non-negative age")
  let p ← orFail (expectSymbol sql 41 p) (ascii "expected ')' after VALUES")
  let atEnd ← atStatementEnd sql p
  if atEnd then
    return { stmt with insertName := name, insertAge := age, insertHasId := true, insertId := id }
  else throw (ascii "unexpected trailing tokens")

/-- The table name, which must be `users`. -/
def parseTable (sql : Block UInt8) (stmt : Statement) (p : Nat) :
    Checked (List UInt8) (Statement × Nat) := do
  let (table, p) ← orFail (do
      let (table, p) ← readWord sql p stmt.table 32
      let text ← table.string 0
      if strcasecmpEq text (ascii "users") then return (table, p) else throw ())
    (ascii "only table users is supported")
  return ({ stmt with table := table }, p)

/-- `snprintf(stmt->table, sizeof(stmt->table), "users")`. -/
def writeTable (stmt : Statement) : Option Statement := do
  let table ← stmt.table.writeAll 0 (ascii "users" ++ [0])
  return { stmt with table := table }

/-- The column names before `VALUES` in an insert without an id. -/
def readInsertColumns (sql : Block UInt8) (p : Nat) : Checked Unit Nat := do
  let (col1, p) ← readWord sql p (.fresh 32) 32
  let (col2, p) ← readWord sql p (.fresh 32) 32
  let first ← col1.string 0
  let second ← col2.string 0
  if strcasecmpEq first (ascii "name") && strcasecmpEq second (ascii "age") then return p
  else throw ()

/-- The part of `parse_insert` for an insert without an id. -/
def parseInsertColumns (sql : Block UInt8) (stmt : Statement) (p : Nat) :
    Checked (List UInt8) Statement := do
  let p ← orFail (readInsertColumns sql p)
    (ascii "expected VALUES (id, 'name', age) or columns: name age")
  let p ← orFail (expectKeyword sql (ascii "VALUES") p) (ascii "expected VALUES")
  let (name, p) ← orFail (parseStringLiteral sql p stmt.insertName 128)
    (ascii "expected single-quoted name")
  let (age, p) ← orFail (parseIntValue sql p) (ascii "expected non-negative age")
  let atEnd ← atStatementEnd sql p
  if atEnd then return { stmt with insertName := name, insertAge := age, insertHasId := false }
  else throw (ascii "unexpected trailing tokens")

/-- The two forms of an insert after the table name. -/
def parseInsertForms (sql : Block UInt8) (stmt : Statement) (afterTable : Nat) :
    Checked (List UInt8) Statement := do
  let found ← (expectKeyword sql (ascii "VALUES") afterTable).run
  match found with
  | .ok p => parseInsertValuesWithId sql stmt p
  | .error () => parseInsertColumns sql stmt afterTable

/-- `parse_insert`. -/
def parseInsert (sql : Block UInt8) (stmt : Statement) (p : Nat) :
    Checked (List UInt8) Statement := do
  let p ← orFail (do
      let p ← expectKeyword sql (ascii "INSERT") p
      expectKeyword sql (ascii "INTO") p)
    (ascii "expected INSERT INTO")
  let (stmt, afterTable) ← parseTable sql stmt p
  let stmt ← parseInsertForms sql stmt afterTable
  let stmt ← writeTable stmt
  return { stmt with type := .insert }

/-- `WHERE column =`: the column's name. -/
def readWhereColumn (sql : Block UInt8) (p : Nat) : Checked Unit (Block UInt8 × Nat) := do
  let (column, p) ← readWord sql p (.fresh 32) 32
  let p ← expectSymbol sql 61 p
  return (column, p)

/-- The value of a `WHERE` clause. -/
def parseWhereValue (sql : Block UInt8) (stmt : Statement) (column : Block UInt8) (p : Nat) :
    Checked (List UInt8) (Statement × Nat) := do
  let text ← column.string 0
  if strcasecmpEq text (ascii "id") then do
    let (id, p) ← orFail (parseIntValue sql p) (ascii "expected numeric id")
    return ({ stmt with whereType := .id, whereId := id }, p)
  else if strcasecmpEq text (ascii "name") then do
    let (name, p) ← orFail (parseStringLiteral sql p stmt.whereName 128)
      (ascii "expected single-quoted name")
    return ({ stmt with whereType := .name, whereName := name }, p)
  else throw (ascii "only WHERE id or WHERE name is supported")

/-- The `WHERE` clause of a select. -/
def parseWhere (sql : Block UInt8) (stmt : Statement) (p : Nat) :
    Checked (List UInt8) Statement := do
  let p ← orFail (expectKeyword sql (ascii "WHERE") p) (ascii "expected WHERE or statement end")
  let (column, p) ← orFail (readWhereColumn sql p) (ascii "expected WHERE column = value")
  let (stmt, p) ← parseWhereValue sql stmt column p
  let atEnd ← atStatementEnd sql p
  if atEnd then return stmt else throw (ascii "unexpected trailing tokens")

/-- `parse_select`. -/
def parseSelect (sql : Block UInt8) (stmt : Statement) (p : Nat) :
    Checked (List UInt8) Statement := do
  let p ← orFail (expectKeyword sql (ascii "SELECT") p) (ascii "expected SELECT")
  let (stmt, p) ← parseSelectColumns sql stmt p
  let p ← orFail (expectKeyword sql (ascii "FROM") p) (ascii "expected FROM")
  let (stmt, p) ← parseTable sql stmt p
  let stmt ← writeTable { stmt with type := .select, whereType := .none }
  let atEnd ← atStatementEnd sql p
  if atEnd then return stmt else parseWhere sql stmt p

/-- `sql_parse`. -/
def sqlParse (sql : Block UInt8) : Checked (List UInt8) Statement := do
  let p ← skipWs sql 0
  let byte ← sql.read p
  if byte = 0 then throw (ascii "empty SQL")
  else do
    let text ← sql.string p
    if strncasecmpEq text (ascii "INSERT") then parseInsert sql .zero p
    else if strncasecmpEq text (ascii "SELECT") then parseSelect sql .zero p
    else throw (ascii "only INSERT and SELECT are supported")

section Scanning

variable {sql out : Block UInt8} {p limit : Nat} {text : List UInt8}

/-- The word in a buffer of `limit + 1` bytes, and the position behind it. -/
def IsRead (sql : Block UInt8) (found : Block UInt8 × Nat)
    (read : BoundedString limit × List UInt8) : Prop :=
  found.1.Points 0 read.1.bytes ∧ found.1.size = limit + 1 ∧ sql.Points found.2 read.2

theorem points_skipWs (points : sql.Points p text) :
    ∃ next, skipWs sql p = some next ∧ sql.Points next (Sql.skipWs text) :=
  points.skipSpace

/-- A word is read alike. -/
theorem finds_readWord (points : sql.Points p text) (size : out.size = limit + 1) :
    Finds (IsRead sql) (readWord sql p out (limit + 1)) (Sql.readWord limit text) := by
  obtain ⟨cur, skipped, there⟩ := points_skipWs points
  apply Finds.lift skipped
  apply Finds.lift there.read
  rw [Sql.readWord]
  dsimp only
  by_cases starts : (!isWordStart ((Sql.skipWs text).headD 0)) = true
  · rw [if_pos starts, if_pos starts]
    exact rfl
  · have copies := @Block.Points.copyWhile sql out _ [] (limit + 1) cur there isWordByte rfl
      (Block.holds_nil out) size (Nat.succ_pos limit)
    rw [List.length_nil, Nat.zero_add] at copies
    rw [if_neg starts, if_neg starts]
    by_cases fits : ((Sql.skipWs text).takeWhile isWordByte).length ≤ limit
    · rw [if_pos (Nat.lt_succ_of_le fits)] at copies
      rw [dif_pos fits]
      obtain ⟨⟨next, len, last⟩, ran, holds, same, length, room, behind⟩ := copies
      apply Finds.ran ran
      rw [List.nil_append] at holds length
      dsimp only at holds same length room behind
      have noNul : 0 ∉ (Sql.skipWs text).takeWhile isWordByte :=
        fun member => there.1 ((List.takeWhile_prefix _).subset member)
      obtain ⟨ended, written, held, size⟩ := holds.terminate noNul same (length ▸ room)
      rw [← length] at written
      apply Finds.lift written
      exact ⟨_, rfl, held, size, behind⟩
    · rw [if_neg fun less => fits (Nat.le_of_lt_succ less)] at copies
      rw [dif_neg fits]
      exact Finds.failed copies

/-- A keyword is expected alike. -/
theorem finds_expectKeyword (points : sql.Points p text) (keyword : List UInt8) :
    Finds sql.Points (expectKeyword sql keyword p) (Sql.expectKeyword keyword text) := by
  have fresh : (Block.fresh 64 : Block UInt8).size = 63 + 1 := rfl
  apply (finds_readWord points fresh).bind
  rintro ⟨found, last⟩ ⟨word, rest⟩ ⟨held, _, behind⟩
  apply Finds.lift held.string
  dsimp only
  split
  · exact ⟨_, rfl, behind⟩
  · exact rfl

/-- A symbol is compared with the first byte. -/
theorem expectSymbol_eq {symbol : UInt8} (notNul : symbol ≠ 0) (text : List UInt8) :
    Sql.expectSymbol symbol text =
      if (Sql.skipWs text).headD 0 = symbol then some (Sql.skipWs text).tail else none := by
  rw [Sql.expectSymbol]
  cases Sql.skipWs text with
  | nil =>
      rw [List.headD_nil, if_neg (Ne.symm notNul)]
  | cons first rest => rfl

/-- A symbol is expected alike. -/
theorem finds_expectSymbol (points : sql.Points p text) {symbol : UInt8} (notNul : symbol ≠ 0) :
    Finds sql.Points (expectSymbol sql symbol p) (Sql.expectSymbol symbol text) := by
  obtain ⟨cur, skipped, there⟩ := points_skipWs points
  apply Finds.lift skipped
  apply Finds.lift there.read
  rw [expectSymbol_eq notNul]
  by_cases same : (Sql.skipWs text).headD 0 = symbol
  · rw [if_neg (not_not.mpr same), if_pos same]
    exact ⟨_, rfl, there.tail (same ▸ notNul)⟩
  · rw [if_pos same, if_neg same]
    exact rfl

/-- A number is read alike. -/
theorem finds_parseIntValue (points : sql.Points p text) :
    Finds (fun found read => found.1 = read.1 ∧ sql.Points found.2 read.2)
      (parseIntValue sql p) (Sql.parseIntValue text) := by
  obtain ⟨cur, skipped, there⟩ := points_skipWs points
  apply Finds.lift skipped
  apply Finds.lift there.read
  rw [Sql.parseIntValue]
  cases begun : Sql.skipWs text with
  | nil => exact rfl
  | cons first rest =>
      rw [begun] at there
      rw [List.headD_cons, if_neg there.notNul, if_neg (List.cons_ne_nil _ _)]
      apply Finds.lift there.string
      cases read : strtol (first :: rest) with
      | none => exact rfl
      | some number =>
          obtain ⟨value, last⟩ := number
          dsimp only
          split
          · exact rfl
          · exact ⟨_, rfl, rfl, there.suffix (strtol_suffix read)⟩

/-- In a text without NUL, the two tests of the loop are one. -/
theorem while_quote (noNul : 0 ∉ text) :
    text.takeWhile (fun byte => byte != 0 && byte != quote) = text.takeWhile (· != quote) ∧
      text.dropWhile (fun byte => byte != 0 && byte != quote) = text.dropWhile (· != quote) := by
  induction text with
  | nil => exact ⟨rfl, rfl⟩
  | cons byte text ih =>
      obtain ⟨notNul, later⟩ := not_or.mp (List.mem_cons.not.mp noNul)
      have same : (byte != 0 && byte != quote) = (byte != quote) := by
        rw [bne_iff_ne.mpr (Ne.symm notNul), Bool.true_and]
      obtain ⟨taken, dropped⟩ := ih later
      rw [List.takeWhile_cons, List.takeWhile_cons, List.dropWhile_cons, List.dropWhile_cons, same,
        taken, dropped]
      exact ⟨rfl, rfl⟩

theorem finds_parseStringLiteral (points : sql.Points p text) (size : out.size = 128) :
    Finds (IsRead sql) (parseStringLiteral sql p out 128) (Sql.parseStringLiteral text) := by
  obtain ⟨cur, skipped, there⟩ := points_skipWs points
  apply Finds.lift skipped
  apply Finds.lift there.read
  rw [Sql.parseStringLiteral, expectSymbol_eq (by decide)]
  by_cases opened : (Sql.skipWs text).headD 0 = quote
  · have inner : sql.Points (cur + 1) (Sql.skipWs text).tail := there.tail (by rw [opened]; decide)
    rw [if_neg (not_not.mpr opened), if_pos opened]
    generalize (Sql.skipWs text).tail = rest at inner ⊢
    obtain ⟨taken, dropped⟩ := while_quote inner.1
    have copies := @Block.Points.copyWhile sql out _ [] 128 (cur + 1) inner
      (fun byte => byte != 0 && byte != quote) rfl (Block.holds_nil out) size (by decide)
    rw [List.length_nil, Nat.zero_add, taken, dropped] at copies
    dsimp only
    by_cases fits : (rest.takeWhile (· != quote)).length < 128
    · have short : (rest.takeWhile (· != quote)).length ≤ dbNameLimit := Nat.le_of_lt_succ fits
      rw [if_pos fits] at copies
      rw [if_neg (Nat.not_lt.mpr short)]
      obtain ⟨⟨next, len, last⟩, ran, holds, same, length, room, behind⟩ := copies
      apply Finds.ran ran
      apply Finds.lift behind.read
      have stops := dropWhile_stops (· != quote) rest
      dsimp only at holds same length room ⊢
      rw [List.nil_append] at holds length
      cases closing : rest.dropWhile (· != quote) with
      | nil => exact rfl
      | cons stop more =>
          rw [closing] at stops behind
          have closed : stop = quote := bne_eq_false_iff_eq.mp (stops stop rfl)
          rw [List.headD_cons, if_neg (not_not.mpr closed)]
          have noNul : 0 ∉ rest.takeWhile (· != quote) :=
            fun member => inner.1 ((List.takeWhile_prefix _).subset member)
          obtain ⟨ended, written, held, size⟩ := holds.terminate noNul same fits
          rw [← length] at written
          apply Finds.lift written
          refine ⟨_, rfl, ?_, size, behind.next⟩
          rwa [BoundedString.truncate_ofBuffer noNul short]
    · have long : dbNameLimit < (rest.takeWhile (· != quote)).length := Nat.not_lt.mp fits
      rw [if_neg fits] at copies
      rw [if_pos long]
      exact Finds.failed copies
  · rw [if_pos opened, if_neg opened]
    exact rfl

theorem finds_parseColumnName (points : sql.Points p text) :
    Finds (fun found read => found.1 = read.1 ∧ sql.Points found.2 read.2)
      (parseColumnName sql p) (Sql.parseColumnName text) := by
  have fresh : (Block.fresh 32 : Block UInt8).size = 31 + 1 := rfl
  apply (finds_readWord points fresh).bind
  rintro ⟨found, last⟩ ⟨word, rest⟩ ⟨held, _, behind⟩
  apply Finds.lift held.string
  dsimp only
  split_ifs
  · exact ⟨_, rfl, rfl, behind⟩
  · exact ⟨_, rfl, rfl, behind⟩
  · exact ⟨_, rfl, rfl, behind⟩
  · exact rfl

/-- The end of the statement is told alike. -/
theorem atStatementEnd_eq (points : sql.Points p text) :
    atStatementEnd sql p = some (Sql.atStatementEnd text) := by
  have ended : ∀ {rest : List UInt8}, 0 ∉ rest → (rest.headD 0 == 0) = decide (rest = []) := by
    intro rest noNul
    cases rest with
    | nil => rfl
    | cons byte rest =>
        have notNul := (not_or.mp (List.mem_cons.not.mp noNul)).1
        rw [List.headD_cons, beq_eq_false_iff_ne.mpr (Ne.symm notNul)]
        rfl
  obtain ⟨cur, skipped, there⟩ := points_skipWs points
  rw [atStatementEnd, skipped]
  change (sql.read cur).bind _ = _
  rw [there.read, Option.bind_some, Sql.atStatementEnd]
  cases begun : Sql.skipWs text with
  | nil => rfl
  | cons first rest =>
      rw [begun] at there
      dsimp only
      rw [List.headD_cons]
      by_cases semicolon : first = 59
      · obtain ⟨last, skipped, behind⟩ := points_skipWs there.next
        rw [if_pos semicolon, skipped]
        change (sql.read last).bind _ = _
        rw [behind.read, Option.bind_some, ended behind.1, decide_eq_true semicolon, Bool.true_and]
        rfl
      · rw [if_neg semicolon, beq_eq_false_iff_ne.mpr there.notNul,
          decide_eq_false semicolon, Bool.false_and]
        rfl

end Scanning

section Parsing

variable {sql : Block UInt8} {mem : Statement} {stmt : SqlStatement} {p : Nat} {text : List UInt8}

/-- The statement but for its table. -/
structure Statement.Stores (mem : Statement) (stmt : SqlStatement) : Prop where
  type : mem.type = stmt.type
  table_size : mem.table.size = 32
  insertHasId : mem.insertHasId = stmt.insertHasId
  insertId : mem.insertId = stmt.insertId
  insertName : mem.insertName.Points 0 stmt.insertName.bytes
  insertName_size : mem.insertName.size = 128
  insertAge : mem.insertAge = stmt.insertAge
  selectAll : mem.selectAll = stmt.selectAll
  selectColumns : mem.selectColumns.Holds stmt.selectColumns
  selectColumns_size : mem.selectColumns.size = sqlMaxSelectColumns
  selectColumnCount : mem.selectColumnCount = stmt.selectColumns.length
  whereType : mem.whereType = stmt.whereType
  whereId : mem.whereId = stmt.whereId
  whereName : mem.whereName.Points 0 stmt.whereName.bytes
  whereName_size : mem.whereName.size = 128

/-- The statement. -/
structure Statement.Represents (mem : Statement) (stmt : SqlStatement) : Prop
    extends mem.Stores stmt where
  table : mem.table.Points 0 stmt.table.bytes

/-- The zeroed statement is stored. -/
theorem stores_zero : Statement.zero.Stores zeroStatement where
  type := rfl
  table_size := rfl
  insertHasId := rfl
  insertId := rfl
  insertName := ⟨List.not_mem_nil, _, rfl⟩
  insertName_size := rfl
  insertAge := rfl
  selectAll := rfl
  selectColumns := Block.holds_nil _
  selectColumns_size := rfl
  selectColumnCount := rfl
  whereType := rfl
  whereId := rfl
  whereName := ⟨List.not_mem_nil, _, rfl⟩
  whereName_size := rfl

/-- A step that sets the error where it returns 0. -/
theorem agrees_expected {α β : Type} {relation : α → β → Prop} {run : Checked Unit α}
    {spec : Option β} (finds : Finds relation run spec) (message : List UInt8) :
    Agrees relation (orFail run message) (expected spec message) := by
  have agrees := finds.orFail message
  cases spec <;> exact agrees

/-- The last check of a statement. -/
theorem agrees_finish {relation : Statement → SqlStatement → Prop} (points : sql.Points p text)
    (related : relation mem stmt) (message : List UInt8) :
    Agrees relation
      (do
        let atEnd ← atStatementEnd sql p
        if atEnd then return mem else throw message : Checked (List UInt8) Statement)
      (if Sql.atStatementEnd text then return stmt else throw message) := by
  apply Agrees.lift (atStatementEnd_eq points)
  split
  · exact Agrees.pure related
  · exact Agrees.throw message

/-- The loop over the columns, one round unfolded. -/
theorem parseColumns_succ (room : Nat) (selected : List SqlColumn) (text : List UInt8) :
    Sql.parseColumns (room + 1) selected text =
      (Sql.parseColumnName text).elim
        (.error (ascii "expected SELECT column: id, name, or age")) fun found =>
          if found.1 ∈ selected then .error (ascii "duplicate SELECT column")
          else if (Sql.skipWs found.2).headD 0 = comma then
            Sql.parseColumns room (selected ++ [found.1]) (Sql.skipWs found.2).tail
          else .ok (selected ++ [found.1], found.2) := by
  rw [Sql.parseColumns]
  cases Sql.parseColumnName text with
  | none => rfl
  | some found =>
      obtain ⟨column, rest⟩ := found
      dsimp only [Option.elim_some]
      rw [@expectSymbol_eq comma (by decide)]
      split
      · rfl
      · split_ifs <;> rfl

/-- The columns are stored in the array, which has room for them. -/
theorem agrees_parseColumns {columns : Block SqlColumn} {selected : List SqlColumn} {room : Nat}
    (points : sql.Points p text) (holds : columns.Holds selected)
    (size : columns.size = sqlMaxSelectColumns)
    (left : selected.length + room = sqlMaxSelectColumns) :
    Agrees (fun result parsed => result.1.Holds parsed.1 ∧ result.1.size = sqlMaxSelectColumns ∧
        result.2.1 = parsed.1.length ∧ 0 < result.2.1 ∧ sql.Points result.2.2 parsed.2)
      (parseColumns sql columns selected.length p) (Sql.parseColumns room selected text) := by
  induction room generalizing columns selected p text with
  | zero =>
      rw [Nat.add_zero] at left
      rw [parseColumns, if_pos left.ge]
      exact rfl
  | succ room ih =>
      rw [parseColumns, if_neg (by omega), parseColumns_succ]
      apply (finds_parseColumnName points).bind_orFail
      rintro ⟨column, last⟩ ⟨named, rest⟩ ⟨rfl, behind⟩
      have present : columnAlreadySelected columns selected.length column =
          some (decide (column ∈ selected)) := by
        have all := @Block.Holds.readAll _ _ _ holds 0 _ (Nat.zero_add selected.length).le
        rw [List.drop_zero, List.take_length] at all
        rw [columnAlreadySelected, all]
        rfl
      apply Agrees.lift present
      by_cases again : column ∈ selected
      · rw [decide_eq_true again, if_pos rfl, if_pos again]
        exact rfl
      · rw [decide_eq_false again, if_neg Bool.false_ne_true, if_neg again]
        obtain ⟨more, written, held, same⟩ := holds.write (by omega) column
        apply Agrees.lift written
        obtain ⟨cur, skipped, there⟩ := points_skipWs behind
        apply Agrees.lift skipped
        apply Agrees.lift there.read
        have grown : (selected ++ [column]).length = selected.length + 1 := by
          rw [List.length_append, List.length_singleton]
        by_cases goesOn : (Sql.skipWs rest).headD 0 = comma
        · rw [if_neg (not_not.mpr goesOn), if_pos goesOn, ← grown]
          refine ih (there.tail ?_) held (same.trans size) ?_
          · rw [goesOn]
            decide
          · rw [grown]
            omega
        · rw [if_pos goesOn, if_neg goesOn]
          exact Agrees.pure ⟨held, same.trans size, grown.symm, Nat.succ_pos _, behind⟩

/-- What is stored, and where the parser stands. -/
def IsParsed (relation : Statement → SqlStatement → Prop) (sql : Block UInt8)
    (found : Statement × Nat) (parsed : SqlStatement × List UInt8) : Prop :=
  relation found.1 parsed.1 ∧ sql.Points found.2 parsed.2

/-- A list of columns is parsed alike. -/
theorem agrees_parseSelectColumns (stores : mem.Stores stmt) (points : sql.Points p text) :
    Agrees (IsParsed Statement.Stores sql) (parseSelectColumns sql mem p)
      (Sql.parseSelectColumns stmt text) := by
  obtain ⟨cur, skipped, there⟩ := points_skipWs points
  apply Agrees.lift skipped
  apply Agrees.lift there.read
  rw [Sql.parseSelectColumns, @expectSymbol_eq 42 (by decide)]
  by_cases all : (Sql.skipWs text).headD 0 = 42
  · rw [if_pos all, if_pos all]
    refine Agrees.pure ⟨{ stores with
      selectAll := rfl, selectColumns := Block.holds_nil _, selectColumnCount := rfl },
      there.tail ?_⟩
    rw [all]
    decide
  · rw [if_neg all, if_neg all]
    apply (agrees_parseColumns points (Block.holds_nil _) stores.selectColumns_size rfl).bind
    rintro ⟨columns, count, last⟩ ⟨parsed, rest⟩ ⟨holds, size, count_eq, some_, behind⟩
    dsimp only at some_ ⊢
    rw [if_pos some_]
    exact Agrees.pure ⟨{ stores with
      selectAll := rfl, selectColumns := holds, selectColumns_size := size,
      selectColumnCount := count_eq }, behind⟩

/-- So are three values. -/
theorem agrees_parseInsertValuesWithId (stores : mem.Stores stmt) (points : sql.Points p text) :
    Agrees Statement.Stores (parseInsertValuesWithId sql mem p)
      (Sql.parseInsertValuesWithId stmt text) := by
  apply (agrees_expected (finds_expectSymbol points (by decide)) _).bind
  intro p text points
  have positive : Finds (fun found read => found.1 = read.1 ∧ sql.Points found.2 read.2)
      (do
        let (id, p) ← parseIntValue sql p
        if id ≤ 0 then throw () else return (id, p))
      ((Sql.parseIntValue text).filter fun value => 0 < value.1) := by
    apply (finds_parseIntValue points).filter
    rintro ⟨id, last⟩ ⟨value, rest⟩ ⟨rfl, behind⟩
    dsimp only
    by_cases small : id ≤ 0
    · rw [if_pos small, decide_eq_false (Int32.not_lt.mpr small)]
      exact rfl
    · rw [if_neg small, decide_eq_true (Int32.not_le.mp small)]
      exact ⟨_, rfl, rfl, behind⟩
  apply (agrees_expected positive _).bind
  rintro ⟨id, p⟩ ⟨value, text⟩ ⟨rfl, points⟩
  apply (agrees_expected (finds_expectSymbol points (by decide)) _).bind
  intro p text points
  apply (agrees_expected (finds_parseStringLiteral points stores.insertName_size) _).bind
  rintro ⟨insertName, p⟩ ⟨name, text⟩ ⟨held, size, points⟩
  apply (agrees_expected (finds_expectSymbol points (by decide)) _).bind
  intro p text points
  apply (agrees_expected (finds_parseIntValue points) _).bind
  rintro ⟨insertAge, p⟩ ⟨age, text⟩ ⟨rfl, points⟩
  apply (agrees_expected (finds_expectSymbol points (by decide)) _).bind
  intro p text points
  exact agrees_finish points ({ stores with
    insertHasId := rfl, insertId := rfl, insertName := held, insertName_size := size,
    insertAge := rfl }) _

/-- The named columns are read alike. -/
theorem finds_readInsertColumns (points : sql.Points p text) :
    Finds sql.Points (readInsertColumns sql p) (Sql.readInsertColumns text) := by
  have fresh : (Block.fresh 32 : Block UInt8).size = 31 + 1 := rfl
  apply (finds_readWord points fresh).bind
  rintro ⟨col1, p⟩ ⟨first, text⟩ ⟨held, _, points⟩
  apply (finds_readWord points fresh).bind
  rintro ⟨col2, p⟩ ⟨second, text⟩ ⟨held', _, points⟩
  apply Finds.lift held.string
  apply Finds.lift held'.string
  dsimp only
  split
  · exact ⟨_, rfl, points⟩
  · exact rfl

/-- So are the values behind them. -/
theorem agrees_parseInsertColumns (stores : mem.Stores stmt) (points : sql.Points p text) :
    Agrees Statement.Stores (parseInsertColumns sql mem p)
      (Sql.parseInsertColumns stmt text) := by
  apply (agrees_expected (finds_readInsertColumns points) _).bind
  intro p text points
  apply (agrees_expected (finds_expectKeyword points _) _).bind
  intro p text points
  apply (agrees_expected (finds_parseStringLiteral points stores.insertName_size) _).bind
  rintro ⟨insertName, p⟩ ⟨name, text⟩ ⟨held, size, points⟩
  apply (agrees_expected (finds_parseIntValue points) _).bind
  rintro ⟨insertAge, p⟩ ⟨age, text⟩ ⟨rfl, points⟩
  exact agrees_finish points ({ stores with
    insertHasId := rfl, insertName := held, insertName_size := size, insertAge := rfl }) _

/-- So are both forms of an insertion. -/
theorem agrees_parseInsertForms (stores : mem.Stores stmt) (points : sql.Points p text) :
    Agrees Statement.Stores (parseInsertForms sql mem p) (Sql.parseInsertForms stmt text) := by
  have values := finds_expectKeyword points (ascii "VALUES")
  rw [Sql.parseInsertForms]
  cases found : Sql.expectKeyword (ascii "VALUES") text with
  | none =>
      rw [found] at values
      apply Agrees.lift values
      exact agrees_parseInsertColumns stores points
  | some rest =>
      rw [found] at values
      obtain ⟨last, ran, behind⟩ := values
      apply Agrees.lift ran
      exact agrees_parseInsertValuesWithId stores behind

/-- The table is parsed alike. -/
theorem agrees_parseTable (stores : mem.Stores stmt) (points : sql.Points p text) :
    Agrees (fun found rest => found.1.Stores stmt ∧ sql.Points found.2 rest)
      (parseTable sql mem p) (Sql.parseTable text) := by
  have users : Finds (@IsRead 31 sql)
      (do
        let (table, p) ← readWord sql p mem.table 32
        let text ← table.string 0
        if strcasecmpEq text (ascii "users") then return (table, p) else throw ())
      ((Sql.readWord 31 text).filter fun word =>
        strcasecmpEq word.1.bytes (ascii "users")) := by
    apply (finds_readWord points stores.table_size).filter
    rintro ⟨table, last⟩ ⟨word, rest⟩ ⟨held, size, behind⟩
    apply Finds.lift held.string
    dsimp only
    split
    · exact ⟨_, rfl, held, size, behind⟩
    · exact rfl
  apply (agrees_expected users _).bind
  rintro ⟨table, last⟩ ⟨word, rest⟩ ⟨_, size, behind⟩
  exact Agrees.pure ⟨{ stores with table_size := size }, behind⟩

/-- There is room for the table's name. -/
theorem writeTable_some (stores : mem.Stores stmt) :
    ∃ table, writeTable mem = some { mem with table := table } ∧
      table.Points 0 usersTable.bytes ∧ table.size = 32 := by
  have room : (ascii "users" ++ [0]).length ≤ mem.table.size := by
    rw [stores.table_size]
    decide
  obtain ⟨table, written, holds, same⟩ := Block.writeAll_start room
  refine ⟨table, ?_, holds.points usersTable.noNul, same.trans stores.table_size⟩
  rw [writeTable, written]
  rfl

/-- An insertion is parsed alike. -/
theorem agrees_parseInsert (stores : mem.Stores stmt) (points : sql.Points p text) :
    Agrees Statement.Represents (parseInsert sql mem p) (Sql.parseInsert text stmt) := by
  have words : Finds sql.Points
      (do
        let p ← expectKeyword sql (ascii "INSERT") p
        expectKeyword sql (ascii "INTO") p)
      ((Sql.expectKeyword (ascii "INSERT") text).bind (Sql.expectKeyword (ascii "INTO"))) := by
    apply (finds_expectKeyword points _).bind
    exact fun _ _ points => finds_expectKeyword points _
  apply (agrees_expected words _).bind
  intro p text points
  apply (agrees_parseTable stores points).bind
  rintro ⟨mem, p⟩ text ⟨stores, points⟩
  apply (agrees_parseInsertForms stores points).bind
  intro mem stmt stores
  obtain ⟨table, written, users, size⟩ := writeTable_some stores
  apply Agrees.lift written
  exact Agrees.pure { stores with type := rfl, table_size := size, table := users }

/-- The column of a condition is read alike. -/
theorem finds_readWhereColumn (points : sql.Points p text) :
    Finds (@IsRead 31 sql) (readWhereColumn sql p) (Sql.readWhereColumn text) := by
  have fresh : (Block.fresh 32 : Block UInt8).size = 31 + 1 := rfl
  apply (finds_readWord points fresh).bind
  rintro ⟨column, p⟩ ⟨word, text⟩ ⟨held, size, points⟩
  apply (finds_expectSymbol points (by decide)).bind
  exact fun _ _ points => ⟨_, rfl, held, size, points⟩

/-- So is the value of a condition. -/
theorem agrees_parseWhereValue {column : Block UInt8} {word : List UInt8}
    (represents : mem.Represents stmt) (held : column.Points 0 word)
    (points : sql.Points p text) :
    Agrees (IsParsed Statement.Represents sql) (parseWhereValue sql mem column p)
      (Sql.parseWhereValue stmt word text) := by
  apply Agrees.lift held.string
  rw [Sql.parseWhereValue]
  split
  · apply (agrees_expected (finds_parseIntValue points) _).bind
    rintro ⟨id, p⟩ ⟨value, text⟩ ⟨rfl, points⟩
    exact Agrees.pure ⟨{ represents with whereType := rfl, whereId := rfl }, points⟩
  · split
    · apply (agrees_expected (finds_parseStringLiteral points represents.whereName_size) _).bind
      rintro ⟨whereName, p⟩ ⟨name, text⟩ ⟨held, size, points⟩
      exact Agrees.pure ⟨{ represents with
        whereType := rfl, whereName := held, whereName_size := size }, points⟩
    · exact Agrees.throw _

/-- So is a condition. -/
theorem agrees_parseWhere (represents : mem.Represents stmt) (points : sql.Points p text) :
    Agrees Statement.Represents (parseWhere sql mem p) (Sql.parseWhere stmt text) := by
  apply (agrees_expected (finds_expectKeyword points _) _).bind
  intro p text points
  apply (agrees_expected (finds_readWhereColumn points) _).bind
  rintro ⟨column, p⟩ ⟨word, text⟩ ⟨held, _, points⟩
  apply (agrees_parseWhereValue represents held points).bind
  rintro ⟨mem, p⟩ ⟨stmt, text⟩ ⟨represents, points⟩
  exact agrees_finish points represents _

/-- A `select` is parsed alike. -/
theorem agrees_parseSelect (stores : mem.Stores stmt) (points : sql.Points p text) :
    Agrees Statement.Represents (parseSelect sql mem p) (Sql.parseSelect text stmt) := by
  apply (agrees_expected (finds_expectKeyword points _) _).bind
  intro p text points
  apply (agrees_parseSelectColumns stores points).bind
  rintro ⟨mem, p⟩ ⟨stmt, text⟩ ⟨stores, points⟩
  apply (agrees_expected (finds_expectKeyword points _) _).bind
  intro p text points
  apply (agrees_parseTable stores points).bind
  rintro ⟨mem, p⟩ text ⟨stores, points⟩
  have typed : ({ mem with type := .select, whereType := .none } : Statement).Stores
      { stmt with type := .select, whereType := .none } :=
    { stores with type := rfl, whereType := rfl }
  obtain ⟨table, written, users, size⟩ := writeTable_some typed
  apply Agrees.lift written
  have represents : ({ mem with type := .select, whereType := .none, table := table } :
      Statement).Represents
        { stmt with type := .select, whereType := .none, table := usersTable } :=
    { typed with table_size := size, table := users }
  apply Agrees.lift (atStatementEnd_eq points)
  dsimp only
  split
  · exact Agrees.pure represents
  · exact agrees_parseWhere represents points

/-- The parser in memory stores the statement that is parsed. -/
theorem agrees_sqlParse {text : CString} (points : sql.Points 0 text.bytes) :
    Agrees Statement.Represents (sqlParse sql) (Sql.sqlParse text) := by
  obtain ⟨p, skipped, there⟩ := points_skipWs points
  apply Agrees.lift skipped
  apply Agrees.lift there.read
  rw [Sql.sqlParse]
  cases begun : Sql.skipWs text.bytes with
  | nil => exact rfl
  | cons first rest =>
      rw [begun] at there
      rw [List.headD_cons, if_neg there.notNul, if_neg (List.cons_ne_nil _ _)]
      apply Agrees.lift there.string
      split
      · exact agrees_parseInsert stores_zero there
      · split
        · exact agrees_parseSelect stores_zero there
        · exact Agrees.throw _

end Parsing

end MiniDbms.Sql.Memory
