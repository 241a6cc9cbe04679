import MiniDbms.Foundation.Decimal
import MiniDbms.Util.JsonBuilder

/-! # Records and their JSON

The data types of `db.h` and the functions of `db.c` that write one record as a
JSON object. A projection names its columns in one of two ways: by an ordered
list, or, when that list is empty, by three flags.
-/

namespace MiniDbms.Db

open Foundation Util

/-- `DB_NAME_MAX - 1`, the longest name that fits its buffer. -/
def dbNameLimit : Nat := 127

/-- `DB_PATH_MAX - 1`. -/
def dbPathLimit : Nat := 511

abbrev Name := BoundedString dbNameLimit

structure Record where
  id : Int32
  name : Name
  age : Int32
  deriving DecidableEq

inductive DbFilterType where
  | all
  | id
  | name
  deriving DecidableEq

structure DbFilter where
  type : DbFilterType
  id : Int32
  name : Name
  deriving DecidableEq

inductive DbColumn where
  | id
  | name
  | age
  deriving DecidableEq

/-- `column_count` is the length of `columns`. -/
structure DbProjection where
  includeId : Bool
  includeName : Bool
  includeAge : Bool
  columns : List DbColumn
  deriving DecidableEq

/-- The result of a call, without the time it took. -/
structure DbResult where
  ok : Bool
  rowsJson : Option (List UInt8)
  message : List UInt8
  indexUsed : Bool
  deriving DecidableEq

/-- `make_error_result`. -/
def makeErrorResult (message : List UInt8) : DbResult where
  ok := false
  rowsJson := none
  message := message
  indexUsed := false

/-- `name_is_valid`. -/
def nameIsValid (name : List UInt8) : Bool :=
  name ≠ [] && name.all fun byte => byte ≠ comma && byte ≠ lineFeed && byte ≠ carriageReturn

/-- `all_columns_projection`. -/
def allColumnsProjection : DbProjection where
  includeId := true
  includeName := true
  includeAge := true
  columns := []

/-- `append_json_separator`: the builder and `*need_comma`. -/
def appendJsonSeparator (builder : JsonBuilder) (needComma : Bool) :
    Alloc (JsonBuilder × Bool) := do
  let builder ← if needComma then jsonBuilderAppend builder (ascii ",") else pure builder
  return (builder, true)

/-- `append_record_field_json`. -/
def appendRecordFieldJson (record : Record) (column : DbColumn) (builder : JsonBuilder)
    (needComma : Bool) : Alloc (JsonBuilder × Bool) := do
  let (builder, needComma) ← appendJsonSeparator builder needComma
  match column with
  | .id => do
      let builder ← jsonBuilderAppend builder (ascii "\"id\":")
      let builder ← jsonBuilderAppendf builder (formatInt record.id.toInt)
      return (builder, needComma)
  | .name => do
      let builder ← jsonBuilderAppend builder (ascii "\"name\":")
      let builder ← jsonBuilderAppendString builder record.name.bytes
      return (builder, needComma)
  | .age => do
      let builder ← jsonBuilderAppend builder (ascii "\"age\":")
      let builder ← jsonBuilderAppendf builder (formatInt record.age.toInt)
      return (builder, needComma)

/-- The loop of `append_record_json` over the ordered columns. -/
def appendColumnsJson (record : Record) :
    List DbColumn → JsonBuilder → Bool → Alloc (JsonBuilder × Bool)
  | [], builder, needComma => return (builder, needComma)
  | column :: columns, builder, needComma => do
      let (builder, needComma) ← appendRecordFieldJson record column builder needComma
      appendColumnsJson record columns builder needComma

/-- `append_record_field_json` under an include flag. -/
def appendIncludedJson (included : Bool) (record : Record) (column : DbColumn)
    (builder : JsonBuilder) (needComma : Bool) : Alloc (JsonBuilder × Bool) :=
  if included then appendRecordFieldJson record column builder needComma
  else return (builder, needComma)

/-- `append_record_json`. -/
def appendRecordJson (record : Record) (projection : DbProjection) (builder : JsonBuilder) :
    Alloc JsonBuilder := do
  let builder ← jsonBuilderAppend builder (ascii "\x7b")
  if projection.columns.length > 0 then do
    let (builder, _) ← appendColumnsJson record projection.columns builder false
    jsonBuilderAppend builder (ascii "\x7d")
  else do
    let (builder, needComma) ←
      appendIncludedJson projection.includeId record .id builder false
    let (builder, needComma) ←
      appendIncludedJson projection.includeName record .name builder needComma
    let (builder, _) ←
      appendIncludedJson projection.includeAge record .age builder needComma
    jsonBuilderAppend builder (ascii "\x7d")

/-- The columns a projection shows, in order. -/
def DbProjection.shown (projection : DbProjection) : List DbColumn :=
  if projection.columns.length > 0 then projection.columns
  else
    (if projection.includeId then [.id] else []) ++
      ((if projection.includeName then [.name] else []) ++
        if projection.includeAge then [.age] else [])

/-- One member of a row's object. -/
def fieldJson (record : Record) : DbColumn → List UInt8
  | .id => ascii "\"id\":" ++ formatInt record.id.toInt
  | .name => ascii "\"name\":" ++ (ascii "\"" ++ escape record.name.bytes ++ ascii "\"")
  | .age => ascii "\"age\":" ++ formatInt record.age.toInt

/-- The members of a row's object, each after the first preceded by a comma, and
all of them if `needComma`. -/
def fieldsJson (record : Record) (needComma : Bool) : List DbColumn → List UInt8
  | [] => []
  | column :: columns =>
      (if needComma then ascii "," else []) ++ fieldJson record column ++
        fieldsJson record true columns

/-- A row as a JSON object. -/
def rowJson (columns : List DbColumn) (record : Record) : List UInt8 :=
  ascii "\x7b" ++ fieldsJson record false columns ++ ascii "\x7d"

section Specifications

variable {builder : JsonBuilder} {text : List UInt8} {record : Record} {needComma : Bool}

/-- A number fits into the short text. -/
theorem length_formatInt_lt (value : Int32) : (formatInt value.toInt).length < shortText := by
  have lower := value.le_toInt
  have upper := value.toInt_lt
  have digits := @length_decimal_le value.toInt.natAbs 10 (by omega) (by omega)
  unfold formatInt shortText
  split
  · rw [List.length_cons]
    omega
  · omega

/-- The separator is appended where it is needed. -/
theorem yields_separator (reads : Reads text builder) :
    Attempt.Yields (appendJsonSeparator builder needComma) fun out =>
      Reads (text ++ if needComma then ascii "," else []) out.1 ∧ out.2 = true := by
  unfold appendJsonSeparator
  cases needComma with
  | false =>
      refine Attempt.Yields.pure ⟨?_, rfl⟩
      simpa using reads
  | true =>
      refine (yields_append reads (by decide)).bind fun next nextReads => ?_
      exact Attempt.Yields.pure ⟨nextReads, rfl⟩

/-- A field is appended with its name. -/
theorem yields_field (reads : Reads text builder) (column : DbColumn) :
    Attempt.Yields (appendRecordFieldJson record column builder needComma) fun out =>
      Reads (text ++ ((if needComma then ascii "," else []) ++ fieldJson record column)) out.1 ∧
        out.2 = true := by
  unfold appendRecordFieldJson
  refine (yields_separator reads).bind fun opened openedReads => ?_
  obtain ⟨opened, needed⟩ := opened
  obtain ⟨openedReads, rfl⟩ := openedReads
  have nameShort : 6 * record.name.bytes.length ≤ shortText := by
    have fits := record.name.fits
    simp only [dbNameLimit] at fits
    simp only [shortText]
    omega
  cases column with
  | id =>
      refine (yields_append openedReads (by decide)).bind fun named namedReads => ?_
      have short := length_formatInt_lt record.id
      refine (yields_appendf namedReads short).bind fun done doneReads => ?_
      refine Attempt.Yields.pure ⟨?_, rfl⟩
      simpa only [fieldJson, List.append_assoc] using doneReads
  | name =>
      refine (yields_append openedReads (by decide)).bind fun named namedReads => ?_
      refine (yields_appendString namedReads nameShort).bind fun done doneReads => ?_
      refine Attempt.Yields.pure ⟨?_, rfl⟩
      simpa only [fieldJson, List.append_assoc] using doneReads
  | age =>
      refine (yields_append openedReads (by decide)).bind fun named namedReads => ?_
      have short := length_formatInt_lt record.age
      refine (yields_appendf namedReads short).bind fun done doneReads => ?_
      refine Attempt.Yields.pure ⟨?_, rfl⟩
      simpa only [fieldJson, List.append_assoc] using doneReads

/-- The fields of the columns are appended one after another. -/
theorem yields_columns (reads : Reads text builder) (columns : List DbColumn) :
    Attempt.Yields (appendColumnsJson record columns builder needComma) fun out =>
      Reads (text ++ fieldsJson record needComma columns) out.1 := by
  induction columns generalizing text builder needComma with
  | nil =>
      refine Attempt.Yields.pure ?_
      simpa only [fieldsJson, List.append_nil] using reads
  | cons column columns ih =>
      refine (yields_field reads column).bind fun next nextReads => ?_
      obtain ⟨next, needed⟩ := next
      obtain ⟨nextReads, rfl⟩ := nextReads
      have others := @ih next _ true nextReads
      simpa only [fieldsJson, List.append_assoc] using others

/-- A column under an include flag is written as a list of at most one column. -/
theorem yields_included (reads : Reads text builder) (included : Bool) (column : DbColumn) :
    Attempt.Yields (appendIncludedJson included record column builder needComma) fun out =>
      Reads (text ++ fieldsJson record needComma (if included then [column] else [])) out.1 ∧
        out.2 = (needComma || included) := by
  unfold appendIncludedJson
  cases included with
  | false =>
      refine Attempt.Yields.pure ⟨?_, (Bool.or_false needComma).symm⟩
      simpa [fieldsJson] using reads
  | true =>
      refine (yields_field reads column).mono fun out outReads => ?_
      refine ⟨?_, by rw [outReads.2, Bool.or_true]⟩
      simpa [fieldsJson] using outReads.1

/-- The fields of two lists of columns, one behind the other. -/
theorem fieldsJson_append (record : Record) (needComma : Bool) (front back : List DbColumn) :
    fieldsJson record needComma (front ++ back) =
      fieldsJson record needComma front ++
        fieldsJson record (needComma || decide (front ≠ [])) back := by
  induction front generalizing needComma with
  | nil => simp [fieldsJson]
  | cons column front ih =>
      rw [List.cons_append, fieldsJson, fieldsJson, ih true]
      simp

/-- Either way of naming the columns writes the row they name. -/
theorem yields_record (reads : Reads text builder) (projection : DbProjection) :
    Attempt.Yields (appendRecordJson record projection builder)
      (Reads (text ++ rowJson projection.shown record)) := by
  unfold appendRecordJson
  refine (yields_append reads (by decide)).bind fun opened openedReads => ?_
  by_cases listed : projection.columns.length > 0
  · rw [if_pos listed]
    refine (yields_columns openedReads projection.columns).bind fun filled filledReads => ?_
    refine (yields_append filledReads (by decide)).mono fun closed closedReads => ?_
    simpa only [rowJson, DbProjection.shown, if_pos listed, List.append_assoc] using closedReads
  · rw [if_neg listed]
    refine (yields_included openedReads projection.includeId .id).bind fun one oneReads => ?_
    obtain ⟨one, comma⟩ := one
    obtain ⟨oneReads, rfl⟩ := oneReads
    refine (yields_included oneReads projection.includeName .name).bind fun two twoReads => ?_
    obtain ⟨two, comma⟩ := two
    obtain ⟨twoReads, rfl⟩ := twoReads
    refine (yields_included twoReads projection.includeAge .age).bind fun three threeReads => ?_
    refine (yields_append threeReads.1 (by decide)).mono fun closed closedReads => ?_
    have spelled : fieldsJson record false projection.shown =
        fieldsJson record false (if projection.includeId then [.id] else []) ++
          (fieldsJson record projection.includeId
              (if projection.includeName then [.name] else []) ++
            fieldsJson record (projection.includeId || projection.includeName)
              (if projection.includeAge then [.age] else [])) := by
      rw [DbProjection.shown, if_neg listed, fieldsJson_append, fieldsJson_append]
      cases projection.includeId <;> cases projection.includeName <;> rfl
    rw [rowJson, spelled]
    simpa only [Bool.false_or, List.append_assoc] using closedReads

end Specifications

end MiniDbms.Db
