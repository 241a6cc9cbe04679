import MiniDbms.Bptree.Node
import MiniDbms.Db.DataFile

/-! # The engine of `db.c`

One engine, the bytes of its data file, and the calls on them. What a call finds
in its surroundings is an `Environment`: whether the lock, the file and the
memory are to be had, and how far a failing append gets. The error texts and the
order of the checks are those of the source; the time a call took is left out.
-/

namespace MiniDbms.Db

open Foundation Util Bptree

/-- `records` holds the slots written so far; only the first `count` are rows. -/
structure DbEngine where
  dataPath : BoundedString dbPathLimit
  records : List Record
  count : Nat
  capacity : Nat
  nextId : Int32
  index : BPlusTree

/-- `db->records[0..count)`. -/
def DbEngine.rows (db : DbEngine) : List Record := db.records.take db.count

def setCapacity (db : DbEngine) (capacity : Nat) : DbEngine := { db with capacity := capacity }

def setIndex (db : DbEngine) (index : BPlusTree) : DbEngine := { db with index := index }

def setNextId (db : DbEngine) (nextId : Int32) : DbEngine := { db with nextId := nextId }

/-- What the operating system does to one call. -/
structure Environment where
  /-- The lock cannot be created or acquired. -/
  lockFails : Bool
  openFails : Bool
  /-- How many bytes reach the file before an append fails, if it does. -/
  appendFails : Option Nat
  heap : Heap

/-- Lock and file do what is asked of them. -/
structure Environment.Calm (env : Environment) : Prop where
  lock : env.lockFails = false
  opens : env.openFails = false
  appends : env.appendFails = none

instance (env : Environment) : Decidable env.Calm :=
  decidable_of_iff (env.lockFails = false ∧ env.openFails = false ∧ env.appendFails = none)
    ⟨fun all => ⟨all.1, all.2.1, all.2.2⟩, fun calm => ⟨calm.lock, calm.opens, calm.appends⟩⟩

/-- Nothing fails, up to the size of the address space. -/
def Environment.calm : Environment where
  lockFails := false
  openFails := false
  appendFails := none
  heap := Heap.generous

/-- `sizeof(Record)`. -/
def sizeofRecord : Nat := 136

/-- The loop of `db_reserve_records` that doubles `next_capacity` up to `needed`. -/
def growCapacity (needed capacity : Nat) (positive : 0 < capacity) : Nat :=
  if capacity < needed then growCapacity needed (capacity * 2) (double_pos positive) else capacity
termination_by needed - capacity

/-- `db_reserve_records`. -/
def dbReserveRecords (db : DbEngine) (needed : Nat) : Alloc DbEngine :=
  if needed ≤ db.capacity then return db
  else do
    let nextCapacity := growCapacity needed (if db.capacity = 0 then 64 else db.capacity)
      (by split <;> omega)
    Attempt.malloc (sizeofRecord * nextCapacity % (sizeMax + 1))
    return setCapacity db nextCapacity

/-- `db->records[position] = record`. -/
def storeRecord (db : DbEngine) (position : Nat) (record : Record) : DbEngine :=
  { db with records := db.records.take position ++ record :: db.records.drop (position + 1) }

/-- `db->count++`. -/
def incrementCount (db : DbEngine) : DbEngine := { db with count := db.count + 1 }

/-- `bptree_insert` into the index, for a caller that only asks whether it failed. -/
def indexInsert (index : BPlusTree) (key : Int32) (value : Nat) : Alloc BPlusTree := fun heap =>
  match bptreeInsert index key value heap with
  | (true, index, heap) => (.ok index, heap)
  | (false, _, heap) => (.error (), heap)

/-- `next_id` after `load_record`. Nothing keeps the successor of `INT_MAX` from
wrapping. -/
def loadedNextId (nextId id : Int32) : Int32 := if nextId ≤ id then id + 1 else nextId

/-- `load_record`. -/
def loadRecord (db : DbEngine) (record : Record) : Alloc DbEngine := do
  let db ← dbReserveRecords db (db.count + 1)
  let db := storeRecord db db.count record
  let index ← indexInsert db.index record.id db.count
  let db := incrementCount (setIndex db index)
  return setNextId db (loadedNextId db.nextId record.id)

/-- The body of the loop of `db_init`. -/
def loadLine (db : DbEngine) (line : List UInt8) : Attempt (List UInt8) DbEngine :=
  match readLine line with
  | .error message => Attempt.fail message
  | .ok none => return db
  | .ok (some record) =>
      (loadRecord db record).orError (ascii "failed to load data file into memory")

/-- The loop of `db_init`. -/
def loadLines : List (List UInt8) → DbEngine → Attempt (List UInt8) DbEngine
  | [], db => return db
  | line :: lines, db => do
      let db ← loadLine db line
      loadLines lines db

/-- The engine before the file is read. -/
def emptyEngine (dataPath : BoundedString dbPathLimit) : DbEngine where
  dataPath := dataPath
  records := []
  count := 0
  capacity := 0
  nextId := 1
  index := bptreeInit

/-- `db_init` on the file with these bytes, which stay as they are: an engine, or
the text of the error. -/
def dbInit (dataPath : CString) (file : List UInt8) (env : Environment) :
    Except (List UInt8) DbEngine × Heap :=
  if dataPath.bytes.length > dbPathLimit then (.error (ascii "data path is too long"), env.heap)
  else if env.lockFails then (.error (ascii "failed to initialize DB lock"), env.heap)
  else if env.openFails then (.error (ascii "failed to open data file"), env.heap)
  else loadLines (chunks lineLimit file) (emptyEngine (dataPath.truncate dbPathLimit)) env.heap

/-- `db_destroy`. -/
def dbDestroy (db : DbEngine) : DbEngine :=
  { db with records := [], count := 0, capacity := 0, index := bptreeInit }

/-- An engine and the bytes of its data file. -/
structure Store where
  db : DbEngine
  file : List UInt8

/-- What a call leaves behind. -/
structure Outcome where
  result : DbResult
  store : Store
  heap : Heap

/-- `next_id` after an insert, which leaves it at `INT_MAX`. -/
def advancedNextId (nextId id : Int32) : Int32 :=
  if nextId ≤ id ∧ id < intMax then id + 1 else nextId

/-- The update of `next_id` in `db_insert_internal`. -/
def advanceNextId (db : DbEngine) (id : Int32) : DbEngine :=
  setNextId db (advancedNextId db.nextId id)

/-- The JSON of `db_insert_internal`: an array of the inserted row. -/
def serializeInsert (record : Record) : Alloc (List UInt8) := do
  let builder ← jsonBuilderInit
  let builder ← jsonBuilderAppend builder (ascii "[")
  let builder ← appendRecordJson record allColumnsProjection builder
  let builder ← jsonBuilderAppend builder (ascii "]")
  return builder.data

/-- The record that `db_insert_internal` builds. -/
def insertedRecord (db : DbEngine) (hasId : Bool) (id : Int32) (name : CString) (age : Int32) :
    Record where
  id := if hasId then id else db.nextId
  name := name.truncate dbNameLimit
  age := age

/-- The end of `db_insert_internal`, once the index is up to date. -/
def answerInsert (record : Record) (store : Store) (heap : Heap) : Outcome :=
  match serializeInsert record heap with
  | (.error (), heap) =>
      { result := makeErrorResult (ascii "failed to serialize insert result")
        store := store
        heap := heap }
  | (.ok rowsJson, heap) =>
      { result :=
          { ok := true
            rowsJson := some rowsJson
            message := ascii "inserted 1 row"
            indexUsed := false }
        store := store
        heap := heap }

/-- The part of `db_insert_internal` after the append succeeded. -/
def commitRecord (db : DbEngine) (file : List UInt8) (record : Record) (heap : Heap) : Outcome :=
  let recordIndex := db.count
  let db := storeRecord db recordIndex record
  let db := incrementCount db
  let db := advanceNextId db record.id
  match bptreeInsert db.index record.id recordIndex heap with
  | (false, index, heap) =>
      { result := makeErrorResult (ascii "failed to update B+ tree index")
        store := { db := setIndex db index, file := file }
        heap := heap }
  | (true, index, heap) => answerInsert record { db := setIndex db index, file := file } heap

/-- `db_insert_internal`. -/
def dbInsertInternal (hasId : Bool) (id : Int32) (name : CString) (age : Int32)
    (env : Environment) (store : Store) : Outcome :=
  let rejected message := { result := makeErrorResult message, store := store, heap := env.heap }
  if env.lockFails then rejected (ascii "failed to acquire write lock")
  else if (hasId && decide (id ≤ 0)) || decide (age < 0) || !nameIsValid name.bytes then
    rejected (ascii "invalid id, name, or age")
  else if hasId && (bptreeSearch store.db.index id).isSome then rejected (ascii "duplicate id")
  else
    match dbReserveRecords store.db (store.db.count + 1) env.heap with
    | (.error (), heap) =>
        { result := makeErrorResult (ascii "out of memory"), store := store, heap := heap }
    | (.ok db, heap) =>
        let record := insertedRecord db hasId id name age
        if env.openFails then
          { result := makeErrorResult (ascii "failed to open data file for append")
            store := { db := db, file := store.file }
            heap := heap }
        else
          match env.appendFails with
          | some written =>
              { result := makeErrorResult (ascii "failed to append data file")
                store := { db := db, file := store.file ++ (recordLine record).take written }
                heap := heap }
          | none => commitRecord db (store.file ++ recordLine record) record heap

/-- `db_insert`. -/
def dbInsert (name : CString) (age : Int32) (env : Environment) (store : Store) : Outcome :=
  dbInsertInternal false 0 name age env store

/-- `db_insert_with_id`. -/
def dbInsertWithId (id : Int32) (name : CString) (age : Int32) (env : Environment)
    (store : Store) : Outcome :=
  dbInsertInternal true id name age env store

/-- Whether the scan of `db_select_projected` includes the record. -/
def DbFilter.includes (filter : DbFilter) (record : Record) : Bool :=
  filter.type = .all || (filter.type = .name && record.name.bytes = filter.name.bytes)

/-- The branch of `db_select_projected` that asks the index: the builder and the
number of rows appended. -/
def selectIndexed (db : DbEngine) (filter : DbFilter) (projection : DbProjection)
    (builder : JsonBuilder) : Attempt (List UInt8) (JsonBuilder × Nat) :=
  -- The rows are looked up only below `count`.
  match (bptreeSearch db.index filter.id).bind fun recordIndex => db.rows[recordIndex]? with
  | none => return (builder, 0)
  | some record => do
      let builder ← (appendRecordJson record projection builder).orError
        (ascii "failed to serialize indexed row")
      return (builder, 1)

/-- The comma before every row of the scan but the first. -/
def appendRowSeparator (builder : JsonBuilder) (needComma : Bool) :
    Attempt (List UInt8) JsonBuilder :=
  if needComma then
    (jsonBuilderAppend builder (ascii ",")).orError (ascii "failed to serialize select separator")
  else return builder

/-- The loop of `db_select_projected` over the records. -/
def selectScan (filter : DbFilter) (projection : DbProjection) :
    List Record → JsonBuilder → Bool → Nat → Attempt (List UInt8) (JsonBuilder × Nat)
  | [], builder, _, matched => return (builder, matched)
  | record :: records, builder, needComma, matched =>
      if filter.includes record then do
        let builder ← appendRowSeparator builder needComma
        let builder ← (appendRecordJson record projection builder).orError
          (ascii "failed to serialize select row")
        selectScan filter projection records builder true (matched + 1)
      else selectScan filter projection records builder needComma matched

/-- The two ways `db_select_projected` finds its rows. -/
def selectMatching (db : DbEngine) (filter : DbFilter) (projection : DbProjection)
    (builder : JsonBuilder) : Attempt (List UInt8) (JsonBuilder × Nat) :=
  if filter.type = .id then selectIndexed db filter projection builder
  else selectScan filter projection db.rows builder false 0

/-- `db_select_projected` between taking and releasing the lock: the JSON and the
number of rows, or the text of the error. -/
def selectLocked (db : DbEngine) (filter : DbFilter) (projection : DbProjection) :
    Attempt (List UInt8) (List UInt8 × Nat) := do
  let builder ← Attempt.orError (do
    let builder ← jsonBuilderInit
    jsonBuilderAppend builder (ascii "[")) (ascii "failed to serialize select result")
  let (builder, matched) ← selectMatching db filter projection builder
  let builder ← (jsonBuilderAppend builder (ascii "]")).orError
    (ascii "failed to finalize select result")
  return (builder.data, matched)

/-- A projection that names no column shows them all. -/
def DbProjection.orAll (projection : DbProjection) : DbProjection :=
  if projection.columns.length = 0 && !projection.includeId && !projection.includeName &&
      !projection.includeAge then allColumnsProjection
  else projection

/-- `snprintf(message, "selected %zu row(s)", matched)`. -/
def selectedMessage (matched : Nat) : List UInt8 :=
  ascii "selected " ++ decimal matched ++ ascii " row(s)"

/-- `db_select_projected`. -/
def dbSelectProjected (filter : DbFilter) (projection : DbProjection) (env : Environment)
    (db : DbEngine) : DbResult × Heap :=
  let projection := projection.orAll
  if env.lockFails then (makeErrorResult (ascii "failed to acquire read lock"), env.heap)
  else
    match selectLocked db filter projection env.heap with
    | (.error message, heap) => (makeErrorResult message, heap)
    | (.ok (rowsJson, matched), heap) =>
        ({ ok := true
           rowsJson := some rowsJson
           message := selectedMessage matched
           indexUsed := filter.type = .id }, heap)

/-- `db_select`. -/
def dbSelect (filter : DbFilter) (env : Environment) (db : DbEngine) : DbResult × Heap :=
  dbSelectProjected filter allColumnsProjection env db

/-- The calls on an open engine. -/
inductive Call where
  | insert (name : CString) (age : Int32)
  | insertWithId (id : Int32) (name : CString) (age : Int32)
  | select (filter : DbFilter) (projection : DbProjection)

/-- Make the call. -/
def Call.run (call : Call) (env : Environment) (store : Store) : Outcome :=
  match call with
  | .insert name age => dbInsert name age env store
  | .insertWithId id name age => dbInsertWithId id name age env store
  | .select filter projection =>
      let (result, heap) := dbSelectProjected filter projection env store.db
      { result := result, store := store, heap := heap }

end MiniDbms.Db
