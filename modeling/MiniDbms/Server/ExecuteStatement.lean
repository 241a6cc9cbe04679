import MiniDbms.Db.RowsJson
import MiniDbms.Sql.Meaning

/-! # Executing statements

`execute_statement` of `server.c` turns a parsed statement into a call on the
engine. Over all sequences of parsed statements the engine answers as the table of
rows that gives the statements their meaning
(`MiniDbms.Server.statements_refine_rowTable`).
-/

namespace MiniDbms.Server

open Foundation Db Sql

/-- `filter` of `execute_statement`. -/
def statementFilter (stmt : SqlStatement) : DbFilter :=
  let filter : DbFilter := { type := .all, id := 0, name := emptyText dbNameLimit }
  match stmt.whereType with
  | .id => { filter with type := .id, id := stmt.whereId }
  | .name => { filter with type := .name, name := stmt.whereName.truncate dbNameLimit }
  | .none => { filter with type := .all }

/-- The body of the loop over the selected columns. -/
def addColumn (projection : DbProjection) : SqlColumn → DbProjection
  | .id => { projection with includeId := true, columns := projection.columns ++ [.id] }
  | .name => { projection with includeName := true, columns := projection.columns ++ [.name] }
  | .age => { projection with includeAge := true, columns := projection.columns ++ [.age] }

/-- `projection` of `execute_statement`. -/
def statementProjection (stmt : SqlStatement) : DbProjection :=
  let projection : DbProjection :=
    { includeId := false, includeName := false, includeAge := false, columns := [] }
  if stmt.selectAll then
    { projection with includeId := true, includeName := true, includeAge := true }
  else stmt.selectColumns.foldl addColumn projection

/-- The call that `execute_statement` makes. -/
def statementCall (stmt : SqlStatement) : Call :=
  if stmt.type = .insert then
    if stmt.insertHasId then
      .insertWithId stmt.insertId stmt.insertName.toCString stmt.insertAge
    else .insert stmt.insertName.toCString stmt.insertAge
  else .select (statementFilter stmt) (statementProjection stmt)

/-- `execute_statement`. -/
def executeStatement (env : Environment) (store : Store) (stmt : SqlStatement) : Outcome :=
  (statementCall stmt).run env store

/-- The engine behind `execute_statement`: every statement comes with what the
operating system does to it. -/
def statementMachine : Machine Store (SqlStatement × Environment) DbResult where
  step store statement :=
    let outcome := executeStatement statement.2 store statement.1
    (outcome.result, outcome.store)

/-- The operating system provides all that the statement asks for. -/
structure Served (store : Store) (statement : SqlStatement × Environment) : Prop where
  calm : statement.2.Calm
  granted : (executeStatement statement.2 store statement.1).heap.refused = false

instance (store : Store) (statement : SqlStatement × Environment) :
    Decidable (Served store statement) :=
  decidable_of_iff (statement.2.Calm ∧
      (executeStatement statement.2 store statement.1).heap.refused = false)
    ⟨fun all => ⟨all.1, all.2⟩, fun served => ⟨served.calm, served.granted⟩⟩

def row (record : Record) : Row where
  id := record.id.toInt
  name := record.name.bytes
  age := record.age.toInt

/-- A table of records as a table of rows. -/
def rowTable (table : Table) : RowTable where
  rows := table.rows.map row
  counter := table.nextId.toInt

/-- The result says what the response says. -/
def Answers (result : DbResult) : Response → Prop
  | .failed => result.ok = false
  | .rows objects => result.ok = true ∧ result.rowsJson.bind decodeRows = some objects

def dbColumn : SqlColumn → DbColumn
  | .id => .id
  | .name => .name
  | .age => .age

/-- The members that are shown are the projected columns. -/
theorem map_member (columns : List SqlColumn) (record : Record) :
    (columns.map dbColumn).map (member record) = (row record).project columns := by
  rw [Row.project, List.map_map]
  apply List.map_congr_left
  intro column _
  cases column <;> rfl

/-- The answered array, read again. -/
theorem decodeRows_shown (columns : List SqlColumn) (rows : List Record) :
    decodeRows (arrayJson (columns.map dbColumn) rows) =
      some ((rows.map row).map (Row.project columns)) := by
  rw [decodeRows_arrayJson, List.map_map]
  congr 2
  funext record
  exact map_member columns record

/-- The columns of the projection are those of the statement. -/
theorem foldl_addColumn (columns : List SqlColumn) (projection : DbProjection) :
    (columns.foldl addColumn projection).columns = projection.columns ++ columns.map dbColumn := by
  induction columns generalizing projection with
  | nil => exact (List.append_nil _).symm
  | cons column columns ih =>
      rw [List.foldl_cons, ih, List.map_cons]
      cases column <;> exact List.append_assoc _ _ _

/-- Both encodings of a projection show the columns of the statement. -/
theorem shown_statementProjection {stmt : SqlStatement}
    (some : stmt.selectAll = false → stmt.selectColumns ≠ []) :
    (statementProjection stmt).orAll.shown =
      (if stmt.selectAll then everyColumn else stmt.selectColumns).map dbColumn := by
  cases selectAll : stmt.selectAll with
  | true =>
      simp only [statementProjection, selectAll, ↓reduceIte]
      rfl
  | false =>
      have listed := foldl_addColumn stmt.selectColumns
        { includeId := false, includeName := false, includeAge := false, columns := [] }
      have nonempty : 0 < stmt.selectColumns.length := List.length_pos_of_ne_nil (some selectAll)
      simp only [statementProjection, selectAll, Bool.false_eq_true, ↓reduceIte]
      rw [List.nil_append] at listed
      rw [DbProjection.orAll, if_neg (by simp [listed, some selectAll]), DbProjection.shown,
        listed, if_pos (by rwa [List.length_map])]

theorem decide_row_id (record : Record) (id : Int32) :
    decide ((row record).id = id.toInt) = decide (record.id = id) :=
  decide_eq_decide.mpr Int32.toInt_inj

/-- The filter matches the rows that the statement selects. -/
theorem matching_statementFilter (stmt : SqlStatement) (rows : List Record) :
    ((statementFilter stmt).matching rows).map row = stmt.selection.of (rows.map row) := by
  unfold statementFilter SqlStatement.selection
  cases stmt.whereType with
  | none => rfl
  | id =>
      simp only [DbFilter.matching, Selection.of, ← List.map_reverse, List.find?_map,
        Option.toList_map]
      congr 3
      funext record
      exact (decide_row_id record stmt.whereId).symm
  | name =>
      simp only [DbFilter.matching, Selection.of, List.filter_map, BoundedString.truncate_toCString]
      congr 2
      funext record
      exact decide_eq_decide.mpr BoundedString.ext_bytes_iff

/-- The result of a `select` shows the rows that the statement selects. -/
theorem select_answers {stmt : SqlStatement} (isSelect : stmt.type = .select)
    (wellFormed : stmt.WellFormed) (rows : List Record) :
    Answers (selectedResult (statementFilter stmt) (statementProjection stmt) rows)
      (.rows ((stmt.selection.of (rows.map row)).map
        (Row.project (if stmt.selectAll then everyColumn else stmt.selectColumns)))) := by
  refine ⟨rfl, ?_⟩
  rw [selectedResult, Option.bind_some, shown_statementProjection (wellFormed.columns isSelect),
    decodeRows_shown, matching_statementFilter]

/-- The name check is the one of the table. -/
theorem acceptable_iff (name : List UInt8) : nameIsValid name = true ↔ Acceptable name := by
  rw [nameIsValid_iff]
  constructor
  · rintro ⟨nonempty, noComma, noLineFeed, noReturn⟩
    exact ⟨nonempty, noComma, noReturn, noLineFeed⟩
  · intro acceptable
    exact ⟨acceptable.nonempty, acceptable.noComma, acceptable.noLineFeed, acceptable.noReturn⟩

theorem insertedResult_answers (record : Record) :
    Answers (insertedResult record) (.rows [(row record).project everyColumn]) :=
  ⟨rfl, decodeRows_shown everyColumn [record]⟩

/-- The counter over machine integers. -/
theorem toInt_advancedNextId (nextId id : Int32) :
    (advancedNextId nextId id).toInt =
      if nextId.toInt ≤ id.toInt ∧ id.toInt < 2147483647 then id.toInt + 1 else nextId.toInt := by
  have same : nextId ≤ id ∧ id < intMax ↔
      nextId.toInt ≤ id.toInt ∧ id.toInt < 2147483647 := by
    rw [Int32.le_iff_toInt_le, Int32.lt_iff_toInt_lt, toInt_intMax]
    rfl
  unfold advancedNextId
  by_cases follows : nextId ≤ id ∧ id < intMax
  · rw [if_pos follows, if_pos (same.mp follows), toInt_add_one follows.2]
  · rw [if_neg follows, if_neg fun both => follows (same.mpr both)]

theorem rowTable_add (table : Table) (record : Record) :
    rowTable (table.add record) = ((rowTable table).add (row record)).2 := by
  simp only [rowTable, Table.add, RowTable.add, List.map_append, toInt_advancedNextId]
  rfl

/-- No row has the id, on either table. -/
theorem fresh_iff (table : Table) (id : Int32) :
    id ∉ table.rows.map (·.id) ↔ ∀ other ∈ (rowTable table).rows, other.id ≠ id.toInt := by
  rw [rowTable, List.forall_mem_map, List.mem_map, not_exists]
  apply forall_congr'
  intro record
  rw [not_and]
  exact imp_congr_right fun _ => not_congr Int32.toInt_inj.symm

section Insert

variable (table : Table) {hasId : Bool} {id : Int32} {name : Name} {age : Int32}

/-- The row of the record that an insert adds. -/
theorem row_newRecord : row (table.newRecord hasId id name.toCString age) =
    { id := if hasId then id.toInt else (rowTable table).counter
      name := name.bytes
      age := age.toInt } := by
  rw [Table.newRecord, BoundedString.truncate_toCString]
  cases hasId <;> rfl

/-- The table of rows accepts by name, and by id when one is given. -/
theorem respond_insert :
    (rowTable table).respond
        (.insert (if hasId then some id.toInt else none) name.bytes age.toInt) =
      if Acceptable name.bytes ∧ (hasId = true → id ∉ table.rows.map (·.id)) then
        (rowTable table).add (row (table.newRecord hasId id name.toCString age))
      else (.failed, rowTable table) := by
  rw [row_newRecord]
  cases hasId with
  | true =>
      have fresh := fresh_iff table id
      simp only [↓reduceIte, RowTable.respond, forall_const, fresh]
  | false => simp only [Bool.false_eq_true, ↓reduceIte, RowTable.respond, false_imp_iff, and_true]

/-- An insertion that passes the checks adds its record. -/
theorem insert_accepted (idPos : hasId = true → 0 < id) (ageNonneg : 0 ≤ age)
    (acceptable : Acceptable name.bytes) (fresh : hasId = true → id ∉ table.rows.map (·.id)) :
    table.insert hasId id name.toCString age =
      (insertedResult (table.newRecord hasId id name.toCString age),
        table.add (table.newRecord hasId id name.toCString age)) := by
  have valid : ¬((hasId = true ∧ id ≤ 0) ∨ age < 0 ∨ nameIsValid name.bytes = false) := by
    rw [(acceptable_iff _).mpr acceptable]
    rintro (⟨given, notPos⟩ | negative | invalid)
    · exact absurd (idPos given) (not_lt.mpr notPos)
    · exact absurd ageNonneg (not_le.mpr negative)
    · cases invalid
  rw [Table.insert, if_neg valid, if_neg fun duplicate => fresh duplicate.1 duplicate.2]

/-- An insertion that does not is an error. -/
theorem insert_refused
    (refused : ¬(Acceptable name.bytes ∧ (hasId = true → id ∉ table.rows.map (·.id)))) :
    ∃ message, table.insert hasId id name.toCString age = (makeErrorResult message, table) := by
  by_cases invalid : (hasId = true ∧ id ≤ 0) ∨ age < 0 ∨ nameIsValid name.bytes = false
  · exact ⟨_, if_pos invalid⟩
  · have acceptable := (acceptable_iff _).mp
      (Bool.eq_true_of_not_eq_false fun bad => invalid (.inr (.inr bad)))
    have duplicate : hasId = true ∧ id ∈ table.rows.map (·.id) := by
      by_contra absent
      exact refused ⟨acceptable, fun given present => absent ⟨given, present⟩⟩
    exact ⟨_, (if_neg invalid).trans (if_pos duplicate)⟩

/-- The table of rows follows an insert. -/
theorem insert_follows (idPos : hasId = true → 0 < id) (ageNonneg : 0 ≤ age) :
    let made := table.insert hasId id name.toCString age
    let meant := (rowTable table).respond
      (.insert (if hasId then some id.toInt else none) name.bytes age.toInt)
    Answers made.1 meant.1 ∧ rowTable made.2 = meant.2 := by
  dsimp only
  rw [respond_insert]
  by_cases accepted : Acceptable name.bytes ∧ (hasId = true → id ∉ table.rows.map (·.id))
  · rw [if_pos accepted, insert_accepted table idPos ageNonneg accepted.1 accepted.2]
    exact ⟨insertedResult_answers _, rowTable_add table _⟩
  · obtain ⟨message, result⟩ := insert_refused table accepted
    rw [if_neg accepted, result]
    exact ⟨rfl, rfl⟩

end Insert

/-- **One parsed statement on the table of records is one request to the table of
rows.** -/
theorem statement_follows (table : Table) {stmt : SqlStatement} (wellFormed : stmt.WellFormed) :
    Answers (table.answer (statementCall stmt)).1 ((rowTable table).respond stmt.request).1 ∧
      rowTable (table.answer (statementCall stmt)).2 =
        ((rowTable table).respond stmt.request).2 := by
  cases kind : stmt.type with
  | insert =>
      have ageNonneg := wellFormed.ageNonneg kind
      cases given : stmt.insertHasId with
      | true =>
          simp only [statementCall, SqlStatement.request, kind, given, ↓reduceIte]
          exact insert_follows table (fun _ => wellFormed.idPos kind given) ageNonneg
      | false =>
          simp only [statementCall, SqlStatement.request, kind, given, Bool.false_eq_true,
            ↓reduceIte]
          exact @insert_follows table false 0 stmt.insertName stmt.insertAge nofun ageNonneg
  | select =>
      simp only [statementCall, SqlStatement.request, kind, reduceCtorEq, ↓reduceIte]
      exact ⟨select_answers kind wellFormed table.rows, rfl⟩

/-- **The engine refines the table of rows.** From an empty file, every sequence of
parsed statements is answered, in an undisturbed run, as the table answers it, and
leaves the rows and the counter that it leaves. -/
theorem statements_refine_rowTable {dataPath : CString} {env : Environment} {db : DbEngine}
    (calm : env.Calm) (granted : (dbInit dataPath [] env).2.refused = false)
    (opened : (dbInit dataPath [] env).1 = .ok db)
    {statements : List (SqlStatement × Environment)}
    (parsed : ∀ statement ∈ statements, ∃ sql, sqlParse sql = .ok statement.1)
    (served : statementMachine.Meets Served { db := db, file := [] } statements) :
    let engine := statementMachine.run { db := db, file := [] } statements
    let table := RowTable.machine.run .empty (statements.map fun statement => statement.1.request)
    List.Forall₂ Answers engine.1 table.1 ∧
      engine.2.db.rows.map row = table.2.rows ∧
      engine.2.db.nextId.toInt = table.2.counter := by
  obtain ⟨coherent, started⟩ := dbInit_empty calm granted opened
  have empty : rowTable db.table = .empty := by
    rw [started]
    rfl
  have meets := served.and (statementMachine.meets_of_forall parsed { db := db, file := [] })
  have refined := statementMachine.run_refines RowTable.machine
    (fun store table => Coherent store.db ∧ rowTable store.db.table = table)
    (fun statement => statement.1.request) Answers
    (by
      rintro store _ statement ⟨coherent, same⟩ ⟨served, sql, parsed⟩
      subst same
      obtain ⟨answered, next, kept⟩ := @engine_step store coherent
        (statementCall statement.1, statement.2) ⟨served.calm, served.granted⟩
      obtain ⟨answers, follows⟩ := statement_follows store.db.table (sqlParse_wellFormed parsed)
      refine ⟨?_, kept, ?_⟩
      · rw [← answered] at answers
        exact answers
      · rw [← next] at follows
        exact follows)
    ⟨coherent, empty⟩ meets
  obtain ⟨answers, _, final⟩ := refined
  exact ⟨answers, congrArg RowTable.rows final, congrArg RowTable.counter final⟩

/-- Five statements, one of them a duplicate, with a name that needs escapes. -/
theorem statements_refine_rowTable_five :
    let texts :=
      [ascii "insert into users name age values 'a\"b\\' 7",
        ascii "INSERT INTO users VALUES (1, 'x', 3)",
        ascii "INSERT INTO users VALUES (5, 'x', 3);",
        ascii "select age, id from users where name = 'x'",
        ascii "SELECT * FROM users WHERE id = 1"]
    let parsed := texts.filterMap fun text => (sqlParse (CString.ofBuffer text)).toOption
    let statements := parsed.map fun stmt => (stmt, Environment.calm)
    let path := CString.ofBuffer (ascii "users.csv")
    let start : Store := { db := emptyEngine (path.truncate dbPathLimit), file := [] }
    statements.length = 5 ∧
      List.Forall₂ Answers (statementMachine.run start statements).1
        (RowTable.machine.run .empty (statements.map fun statement => statement.1.request)).1 := by
  refine ⟨by decide +kernel, ?_⟩
  refine (@statements_refine_rowTable (CString.ofBuffer (ascii "users.csv")) .calm _ (by decide)
    (by decide +kernel) rfl _ ?_ (by decide +kernel)).1
  intro statement member
  obtain ⟨stmt, found, same⟩ := List.mem_map.mp member
  obtain ⟨text, _, parsed⟩ := List.mem_filterMap.mp found
  refine ⟨CString.ofBuffer text, ?_⟩
  rw [← same]
  cases result : sqlParse (CString.ofBuffer text) with
  | error message =>
      rw [result] at parsed
      cases parsed
  | ok other =>
      rw [result] at parsed
      exact congrArg Except.ok (Option.some.inj parsed)

end MiniDbms.Server
