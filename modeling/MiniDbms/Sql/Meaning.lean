import MiniDbms.Foundation.FlatJson
import MiniDbms.Foundation.Machine
import MiniDbms.Sql.Parse

/-! # What the statements mean

A table of rows and a counter, over unbounded integers. A statement is a request
to it, and it answers with JSON objects or not at all. Nothing here is translated
from the source but the reading of a parsed statement as a request.
-/

namespace MiniDbms.Sql

open Foundation

structure Row where
  id : Int
  name : List UInt8
  age : Int
  deriving DecidableEq

/-- A row as an object with these columns. -/
def Row.project (columns : List SqlColumn) (row : Row) : JsonObject :=
  columns.map fun
    | .id => (ascii "id", .number row.id)
    | .name => (ascii "name", .text row.name)
    | .age => (ascii "age", .number row.age)

inductive Selection where
  | all
  | named (name : List UInt8)
  | keyed (id : Int)

/-- The selected rows, in order. Of the rows with one id, the most recent. -/
def Selection.of : Selection → List Row → List Row
  | .all, rows => rows
  | .named name, rows => rows.filter fun row => row.name = name
  | .keyed id, rows => (rows.reverse.find? fun row => row.id = id).toList

inductive Request where
  | insert (id : Option Int) (name : List UInt8) (age : Int)
  | select (selection : Selection) (columns : List SqlColumn)

/-- All columns, in the order of `*`. -/
def everyColumn : List SqlColumn := [.id, .name, .age]

def SqlStatement.selection (stmt : SqlStatement) : Selection :=
  match stmt.whereType with
  | .none => .all
  | .id => .keyed stmt.whereId.toInt
  | .name => .named stmt.whereName.bytes

/-- The request a statement stands for. -/
def SqlStatement.request (stmt : SqlStatement) : Request :=
  match stmt.type with
  | .insert =>
      .insert (if stmt.insertHasId then some stmt.insertId.toInt else none) stmt.insertName.bytes
        stmt.insertAge.toInt
  | .select =>
      .select stmt.selection (if stmt.selectAll then everyColumn else stmt.selectColumns)

structure RowTable where
  rows : List Row
  counter : Int
  deriving DecidableEq

inductive Response where
  | failed
  | rows (objects : List JsonObject)
  deriving DecidableEq

/-- A name that a row may have. -/
structure Acceptable (name : List UInt8) : Prop where
  nonempty : name ≠ []
  noComma : comma ∉ name
  noReturn : carriageReturn ∉ name
  noLineFeed : lineFeed ∉ name

instance (name : List UInt8) : Decidable (Acceptable name) :=
  decidable_of_iff (name ≠ [] ∧ comma ∉ name ∧ carriageReturn ∉ name ∧ lineFeed ∉ name)
    ⟨fun all => ⟨all.1, all.2.1, all.2.2.1, all.2.2.2⟩,
      fun acceptable => ⟨acceptable.nonempty, acceptable.noComma, acceptable.noReturn,
        acceptable.noLineFeed⟩⟩

namespace RowTable

def empty : RowTable := { rows := [], counter := 1 }

/-- Add the row and answer it. The counter follows an id that is not behind it,
except the last one. -/
def add (table : RowTable) (row : Row) : Response × RowTable :=
  (.rows [row.project everyColumn],
    { rows := table.rows ++ [row]
      counter :=
        if table.counter ≤ row.id ∧ row.id < 2147483647 then row.id + 1 else table.counter })

def respond (table : RowTable) : Request → Response × RowTable
  | .insert (some id) name age =>
      if Acceptable name ∧ ∀ row ∈ table.rows, row.id ≠ id then
        table.add { id := id, name := name, age := age }
      else (.failed, table)
  | .insert none name age =>
      if Acceptable name then table.add { id := table.counter, name := name, age := age }
      else (.failed, table)
  | .select selection columns =>
      (.rows ((selection.of table.rows).map (Row.project columns)), table)

/-- The table as a machine. -/
def machine : Machine RowTable Request Response where
  step := respond

end RowTable

end MiniDbms.Sql
